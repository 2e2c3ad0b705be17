import NodeShader.Proofs.Source.Expansion

/-!
# The names in a text

A name is a word that does not start with a digit and does not stand after a point, where it would
select components. The names of a text that was put together are those of its parts. A body is well
scoped when every name a statement uses is known to the language, declared outside, or the variable
of an earlier statement; the name that a declaration introduces is not one it uses.
-/

namespace NodeShader

open Lexeme

/-- Does the word start with a digit? -/
def Lexeme.startsWithDigit : List Char → Bool
  | c :: _ => Number.isDigit c
  | [] => false

/-- The names among lexemes; `selecting` says whether a point stands before them. -/
def Lexeme.names : (selecting : Bool) → List Lexeme → List (List Char)
  | _, [] => []
  | selecting, .word w :: rest =>
    if selecting || startsWithDigit w then names false rest else w :: names false rest
  | _, .mark c :: rest => names (c = '.') rest

/-- The names in a text. -/
def namesIn (s : String) : List (List Char) := Lexeme.names false (lexemes s)

/-- The variable that a statement declares. -/
def declared? (s : String) : Option (List Char) := (declaration? s).map Prod.fst

/-- The names that a statement uses: all but the second word of a declaration. -/
def namesUsed (s : String) : List (List Char) :=
  if (declared? s).isSome then (namesIn s).eraseIdx 1 else namesIn s

/-- The type and the name of a uniform, both as words. -/
def uniform? (declaration : String) : Option (List Char × List Char) :=
  match lexemes declaration with
  | [.word qualifier, .mark ' ', .word ty, .mark ' ', .word name, .mark ';'] =>
    if qualifier = "uniform".toList then some (ty, name) else none
  | _ => none

/-- The name of a uniform. -/
def uniformName? (declaration : String) : Option (List Char) := (uniform? declaration).map Prod.snd

/-- Is this the name of a type, of a built-in function or of a variable of the pipeline? -/
def isLanguageName (w : List Char) : Bool :=
  Reserved.typeNames.contains (String.ofList w) || Reserved.functionNames.contains (String.ofList w) ||
    ['g', 'l', '_'].isPrefixOf w

/-- What a name can be: part of the language, a uniform, or one of the given variables. -/
def Visible (declarations : List String) (locals : List (List Char)) (w : List Char) : Prop :=
  isLanguageName w = true ∨ (∃ d ∈ declarations, ∃ ty, uniform? d = some (ty, w)) ∨ w ∈ locals

/-- Every name that a statement uses is visible where it stands. -/
def WellScoped (declarations body : List String) : Prop :=
  ∀ i s, body[i]? = some s →
    ∀ w ∈ namesUsed s, Visible declarations ((body.take i).filterMap declared?) w

/-- No name is declared with two types. -/
def Consistent (declarations : List String) : Prop :=
  ∀ d ∈ declarations, ∀ d' ∈ declarations, ∀ type type' name,
    uniform? d = some (type, name) → uniform? d' = some (type', name) → type = type'

/-! ## Names of constructions -/

theorem Lexeme.names_append_mark (selecting : Bool) (a b : List Lexeme) (m : Char) :
    names selecting (a ++ .mark m :: b) = names selecting a ++ names (m = '.') b := by
  induction a generalizing selecting with
  | nil => rfl
  | cons l rest ih =>
      cases l with
      | word w =>
          simp only [List.cons_append, names, ih]
          split <;> rfl
      | mark c => simp only [List.cons_append, names, ih]

theorem namesIn_binary {operator : String} (hop : operator ∈ ["+", "-", "*", "/"]) (x y : String) :
    namesIn (Code.binary operator x y) = namesIn x ++ namesIn y := by
  obtain ⟨c, rfl, hc⟩ := exists_mark_of_operator hop
  rw [namesIn, lexemes_binary hc, names_append_mark]
  simp [names, namesIn]

theorem names_separated (selecting : Bool) (ls : List (List Lexeme)) (h : selecting = false) :
    names selecting (separated ls) = ls.flatMap (names false) := by
  subst h
  induction ls with
  | nil => rfl
  | cons x rest ih =>
      cases rest with
      | nil => simp [separated]
      | cons y rest =>
          rw [separated_cons_cons, names_append_mark, List.flatMap_cons, ← ih]
          simp [names]

theorem namesIn_apply (f : String) (xs : List String) :
    namesIn (Code.apply f xs) = namesIn f ++ xs.flatMap namesIn := by
  rw [namesIn, lexemes_apply, List.append_assoc, List.cons_append, names_append_mark,
    names_append_mark, names_separated _ _ (by decide), List.flatMap_map]
  simp only [names, List.append_nil]
  rfl

theorem namesIn_select {component : String} {w : List Char} (hc : lexemes component = [.word w])
    (x : String) : namesIn (Code.select x component) = namesIn x := by
  rw [namesIn, lexemes_select, names_append_mark, hc]
  simp [names, namesIn]

theorem namesIn_assign (target x : String) :
    namesIn (Code.assign target x) = namesIn target ++ namesIn x := by
  rw [namesIn, lexemes_assign, names_append_mark]
  simp only [names]
  rw [names_append_mark]
  simp [names, namesIn]

/-- A word that is a name is the only name in its text. -/
theorem namesIn_word {s : String} (hs : lexemes s = [.word s.toList])
    (hdigit : startsWithDigit s.toList = false) : namesIn s = [s.toList] := by
  simp [namesIn, hs, names, hdigit]

theorem isLanguageName_of_mem {s : String}
    (h : s ∈ Reserved.typeNames ∨ s ∈ Reserved.functionNames) : isLanguageName s.toList = true := by
  rw [isLanguageName, String.ofList_toList, Bool.or_eq_true, Bool.or_eq_true,
    List.contains_iff_mem, List.contains_iff_mem]
  exact .inl h

theorem startsWithDigit_identifier (name : String) :
    startsWithDigit (identifier name).toList = false := by
  have hsafe := safe_identifier name
  unfold startsWithDigit
  split
  · rename_i c rest heq
    exact hsafe.head c rest heq
  · rfl

theorem startsWithDigit_varName (n : Nat) : startsWithDigit (Pass.varName n).toList = false := by
  rw [toList_varName]
  rfl

theorem namesIn_identifier (name : String) :
    namesIn (identifier name) = [(identifier name).toList] :=
  namesIn_word (lexemes_identifier name) (startsWithDigit_identifier name)

theorem namesIn_varName (n : Nat) : namesIn (Pass.varName n) = [(Pass.varName n).toList] :=
  namesIn_word (lexemes_varName n) (startsWithDigit_varName n)

theorem startsWithDigit_of_isNumeral {cs : List Char} (h : Number.IsNumeral cs) :
    startsWithDigit cs = true := by
  cases cs with
  | nil => exact absurd rfl h.ne_nil
  | cons c rest => exact h.digits c (by simp)

theorem namesIn_literalText (f : Number.Single) : namesIn (literalText f) = [] := by
  rcases literalText_cases f with hmem | ⟨negative, whole, fraction, hw, hf, heq⟩
  · have hall : ∀ s ∈ quotients, namesIn s = [] := by decide
    exact hall _ hmem
  · rw [heq, namesIn, lexemes_fixedText negative hw hf]
    cases negative <;>
      simp [names, startsWithDigit_of_isNumeral hw, startsWithDigit_of_isNumeral hf]

/-! ## Statements -/

theorem declared?_assign {target : String} (ht : target ∈ Kind.targets) (x : String) :
    declared? (Code.assign target x) = none := by
  rw [declared?, declaration?_assign ht]
  rfl

theorem declared?_define {t : Ty} (hvalid : t.isValid = true) (hclear : t.isOpaque = false)
    (n : Nat) (x : String) :
    declared? (Code.define t (Pass.varName n) x) = some (Pass.varName n).toList := by
  rw [declared?, declaration?_define hvalid hclear]
  rfl

/-- An assignment uses its names. -/
theorem namesUsed_assign {target : String} (ht : target ∈ Kind.targets) (x : String) :
    namesUsed (Code.assign target x) = namesIn target ++ namesIn x := by
  rw [namesUsed, declared?_assign ht, namesIn_assign]
  rfl

/-- A declaration uses the name of its type and the names of its initialiser. -/
theorem namesUsed_define {t : Ty} (hvalid : t.isValid = true) (hclear : t.isOpaque = false)
    (hname : startsWithDigit t.text.toList = false) (n : Nat) (x : String) :
    namesUsed (Code.define t (Pass.varName n) x) = t.text.toList :: namesIn x := by
  have hvar := startsWithDigit_varName n
  have hnames : namesIn (Code.define t (Pass.varName n) x) =
      t.text.toList :: (Pass.varName n).toList :: namesIn x := by
    rw [namesIn, lexemes_define, (Ty.lexemes_text hvalid hclear).1, lexemes_varName]
    simp only [List.singleton_append, names, hname, hvar]
    rw [names_append_mark]
    simp [names, namesIn]
  rw [namesUsed, declared?_define hvalid hclear, hnames]
  rfl

/-! ## Growing bodies -/

theorem Visible.mono {declarations declarations' : List String} {locals locals' : List (List Char)}
    (hd : ∀ d ∈ declarations, d ∈ declarations') (hl : ∀ w ∈ locals, w ∈ locals') {w : List Char}
    (h : Visible declarations locals w) : Visible declarations' locals' w := by
  rcases h with hname | ⟨d, hmem, ty, huniform⟩ | hlocal
  · exact .inl hname
  · exact .inr (.inl ⟨d, hd d hmem, ty, huniform⟩)
  · exact .inr (.inr (hl w hlocal))

theorem WellScoped.mono {declarations declarations' body : List String}
    (h : WellScoped declarations body) (hd : ∀ d ∈ declarations, d ∈ declarations') :
    WellScoped declarations' body :=
  fun i s hs w hw => (h i s hs w hw).mono hd fun _ hl => hl

/-- A statement whose names are visible after a body can be added to it. -/
theorem WellScoped.concat {declarations body : List String} (h : WellScoped declarations body)
    {s : String} (hs : ∀ w ∈ namesUsed s, Visible declarations (body.filterMap declared?) w) :
    WellScoped declarations (body ++ [s]) := by
  intro i s' hs' w hw
  by_cases hi : i < body.length
  · rw [List.getElem?_append_left hi] at hs'
    rw [List.take_append_of_le_length (Nat.le_of_lt hi)]
    exact h i s' hs' w hw
  · have hlen := (List.getElem?_eq_some_iff.mp hs').1
    rw [List.length_append, List.length_singleton] at hlen
    have hi' : i = body.length := by omega
    subst hi'
    simp only [List.getElem?_concat_length, Option.some.injEq] at hs'
    subst hs'
    rw [List.take_left]
    exact hs w hw

/-- Assignments whose names are visible after a body can be added to it. -/
theorem WellScoped.append {declarations body : List String} (h : WellScoped declarations body)
    {more : List String} (hnone : ∀ s ∈ more, declared? s = none)
    (hmore : ∀ s ∈ more, ∀ w ∈ namesUsed s, Visible declarations (body.filterMap declared?) w) :
    WellScoped declarations (body ++ more) := by
  induction more generalizing body with
  | nil => rwa [List.append_nil]
  | cons s rest ih =>
      have hfirst := h.concat (hmore s (by simp))
      have hsame : (body ++ [s]).filterMap declared? = body.filterMap declared? := by
        simp [hnone s (by simp)]
      rw [List.append_cons]
      refine ih hfirst (fun s' hs' => hnone s' (List.mem_cons_of_mem _ hs')) ?_
      rw [hsame]
      exact fun s' hs' => hmore s' (List.mem_cons_of_mem _ hs')

/-! ## Uniforms -/

/-- The declaration of a uniform names it. -/
theorem uniform?_of_words {ty name : String} (hty : lexemes ty = [.word ty.toList])
    (hname : lexemes name = [.word name.toList]) :
    uniform? ("uniform " ++ ty ++ " " ++ name ++ ";") = some (ty.toList, name.toList) := by
  have hlexemes : lexemes ("uniform " ++ ty ++ " " ++ name ++ ";") =
      [.word "uniform".toList, .mark ' ', .word ty.toList, .mark ' ', .word name.toList,
        .mark ';'] := by
    have htext : ("uniform " ++ ty ++ " " ++ name ++ ";").toList =
        "uniform".toList ++ ' ' :: (ty.toList ++ ' ' :: (name.toList ++ ';' :: [])) := by
      simp
    have hmark : isNameChar ';' = false ∧ isNameChar ' ' = false := by decide
    rw [lexemes, htext, ofChars_append_mark hmark.2, ofChars_append_mark hmark.2,
      ofChars_append_mark hmark.1]
    simp only [lexemes] at hty hname
    rw [hty, hname]
    rfl
  rw [uniform?, hlexemes]
  rfl

theorem Consistent.mono {ds ds' : List String} (h : Consistent ds') (hsub : ∀ d ∈ ds, d ∈ ds') :
    Consistent ds := fun d hd d' hd' => h d (hsub d hd) d' (hsub d' hd')

end NodeShader
