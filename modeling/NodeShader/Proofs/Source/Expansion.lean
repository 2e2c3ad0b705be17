import NodeShader.Proofs.Node.Related
import NodeShader.Proofs.Source.Spelling

/-!
# Putting variables back

A body declares variables and uses them. `inlined` reads it from the front: a declaration
`T varK = e;` is dropped, and from then on the word `varK` stands for `e`, in which the variables
declared before have been replaced already; every other statement is kept with its variables
replaced. Replacing works on the lexemes of a text, so it goes through every construction of source
text (`expand_binary` and the lemmas after it), and a text in which only the first `n` variables
occur is not touched by what is said about later ones (`Closed.expand_cons`).
-/

namespace NodeShader

open Lexeme

/-- What variables stand for, the newest first. -/
abbrev Inlining := List (List Char × String)

/-- A lexeme with variables replaced. -/
def Lexeme.expand (σ : Inlining) : Lexeme → List Char
  | .word w => (σ.lookup w).elim w String.toList
  | .mark c => [c]

/-- A text with variables replaced. -/
def expand (σ : Inlining) (s : String) : String :=
  String.ofList ((lexemes s).flatMap (Lexeme.expand σ))

/-- The variable and the initialiser of a declaration. -/
def declaration? (s : String) : Option (List Char × String) :=
  match lexemes s with
  | .word _ :: .mark ' ' :: .word name :: .mark ' ' :: .mark '=' :: .mark ' ' :: rest =>
    if Identifier.isGenerated name && rest.getLast? = some (.mark ';') then
      some (name, String.ofList (rest.dropLast.flatMap Lexeme.chars))
    else none
  | _ => none

/-- What has been read of a body: the variables and the statements that remain. -/
structure Inlined where
  meanings : Inlining := []
  statements : List String := []

/-- Reads one more statement. -/
def Inlined.add (done : Inlined) (s : String) : Inlined :=
  match declaration? s with
  | some (name, initialiser) =>
    { done with meanings := (name, expand done.meanings initialiser) :: done.meanings }
  | none => { done with statements := done.statements ++ [expand done.meanings s] }

/-- Reads a body. -/
def inline (body : List String) : Inlined := body.foldl Inlined.add {}

/-- The statements of a body with the variables put back. -/
def inlined (body : List String) : List String := (inline body).statements

/-! ## Replacing in constructions -/

theorem toList_expand (σ : Inlining) (s : String) :
    (expand σ s).toList = (lexemes s).flatMap (Lexeme.expand σ) := String.toList_ofList

/-- Operators are single marks. -/
theorem exists_mark_of_operator {operator : String} (hop : operator ∈ ["+", "-", "*", "/"]) :
    ∃ c, operator = String.singleton c ∧ isNameChar c = false := by
  simp only [List.mem_cons, List.not_mem_nil, or_false] at hop
  rcases hop with rfl | rfl | rfl | rfl
  · exact ⟨'+', by decide, by decide⟩
  · exact ⟨'-', by decide, by decide⟩
  · exact ⟨'*', by decide, by decide⟩
  · exact ⟨'/', by decide, by decide⟩

theorem expand_binary (σ : Inlining) {operator : String} (hop : operator ∈ ["+", "-", "*", "/"])
    (x y : String) :
    expand σ (Code.binary operator x y) = Code.binary operator (expand σ x) (expand σ y) := by
  obtain ⟨c, rfl, hc⟩ := exists_mark_of_operator hop
  apply String.toList_injective
  rw [toList_expand, lexemes_binary hc]
  simp [Code.binary, toList_expand, Lexeme.expand]

theorem flatMap_expand_separated (σ : Inlining) (xs : List String) :
    (separated (xs.map lexemes)).flatMap (Lexeme.expand σ) =
      (joinWith ", " (xs.map (expand σ))).toList := by
  induction xs with
  | nil => rfl
  | cons x rest ih =>
      cases rest with
      | nil => exact (toList_expand σ x).symm
      | cons y rest =>
          rw [List.map_cons, List.map_cons, separated_cons_cons, ← List.map_cons]
          simp only [List.flatMap_append, List.flatMap_cons, ih, ← toList_expand]
          simp [joinWith, Lexeme.expand]

theorem expand_apply (σ : Inlining) {f : String} (hf : expand σ f = f) (xs : List String) :
    expand σ (Code.apply f xs) = Code.apply f (xs.map (expand σ)) := by
  have hhead : (lexemes f).flatMap (Lexeme.expand σ) = f.toList := by rw [← toList_expand, hf]
  apply String.toList_injective
  rw [toList_expand, lexemes_apply]
  simp only [List.flatMap_append, List.flatMap_cons, flatMap_expand_separated, hhead]
  simp [Code.apply, Lexeme.expand]

theorem expand_select (σ : Inlining) {component : String} (hc : expand σ component = component)
    (x : String) : expand σ (Code.select x component) = Code.select (expand σ x) component := by
  have hlast : (lexemes component).flatMap (Lexeme.expand σ) = component.toList := by
    rw [← toList_expand, hc]
  apply String.toList_injective
  rw [toList_expand, lexemes_select]
  simp [Code.select, Lexeme.expand, toList_expand, hlast]

theorem expand_assign (σ : Inlining) {target : String} (ht : expand σ target = target)
    (x : String) : expand σ (Code.assign target x) = Code.assign target (expand σ x) := by
  have hfirst : (lexemes target).flatMap (Lexeme.expand σ) = target.toList := by
    rw [← toList_expand, ht]
  apply String.toList_injective
  rw [toList_expand, lexemes_assign]
  simp [Code.assign, Lexeme.expand, toList_expand, hfirst]

/-! ## Texts without variables, and with early ones only -/

/-- No word of the text is a variable. -/
def isPlain (s : String) : Bool :=
  (lexemes s).all fun
    | .word w => !Identifier.isGenerated w
    | .mark _ => true

/-- All variables of the text are among the first `n`. -/
def Closed (n : Nat) (s : String) : Prop :=
  ∀ w, .word w ∈ lexemes s → Identifier.isGenerated w = true →
    ∃ k < n, w = (Pass.varName k).toList

theorem isGenerated_of_isPlain {s : String} (h : isPlain s = true) {w : List Char}
    (hw : .word w ∈ lexemes s) : Identifier.isGenerated w = false := by
  have := List.all_eq_true.mp h _ hw
  simpa using this

theorem closed_of_isPlain {s : String} (h : isPlain s = true) (n : Nat) : Closed n s := by
  intro w hw hgen
  rw [isGenerated_of_isPlain h hw] at hgen
  exact absurd hgen (by decide)

theorem isPlain_identifier (name : String) : isPlain (identifier name) = true := by
  simp [isPlain, lexemes_identifier, (safe_identifier name).isGenerated]

theorem isPlain_literalText (f : Number.Single) : isPlain (literalText f) = true := by
  rcases literalText_cases f with hmem | ⟨negative, whole, fraction, hw, hf, heq⟩
  · have hall : ∀ s ∈ quotients, isPlain s = true := by decide
    exact hall _ hmem
  · rw [heq, isPlain, lexemes_fixedText negative hw hf]
    cases negative <;> simp [hw.isGenerated, hf.isGenerated]

theorem Closed.mono {m n : Nat} {s : String} (h : Closed m s) (hmn : m ≤ n) : Closed n s := by
  intro w hw hgen
  obtain ⟨k, hk, rfl⟩ := h w hw hgen
  exact ⟨k, by omega, rfl⟩

theorem closed_varName (n : Nat) : Closed (n + 1) (Pass.varName n) := by
  intro w hw hgen
  rw [lexemes_varName, List.mem_singleton] at hw
  cases hw
  exact ⟨n, by omega, rfl⟩

theorem Closed.binary {n : Nat} {operator : String} (hop : operator ∈ ["+", "-", "*", "/"])
    {x y : String} (hx : Closed n x) (hy : Closed n y) : Closed n (Code.binary operator x y) := by
  obtain ⟨c, rfl, hc⟩ := exists_mark_of_operator hop
  intro w hw
  rw [lexemes_binary hc] at hw
  simp only [List.mem_append, List.mem_cons, reduceCtorEq, false_or] at hw
  rcases hw with hw | hw
  · exact hx w hw
  · exact hy w hw

theorem Closed.apply {n : Nat} {f : String} (hf : Closed n f) {xs : List String}
    (hxs : ∀ x ∈ xs, Closed n x) : Closed n (Code.apply f xs) := by
  intro w hw
  rw [lexemes_apply] at hw
  simp only [List.mem_append, List.mem_cons, List.not_mem_nil, reduceCtorEq, false_or,
    or_false] at hw
  rcases hw with hw | hw
  · exact hf w hw
  · obtain ⟨ls, hls, hw⟩ := mem_of_word_mem_separated hw
    obtain ⟨x, hx, rfl⟩ := List.mem_map.mp hls
    exact hxs x hx w hw

theorem Closed.select {n : Nat} {x component : String} (hx : Closed n x)
    (hc : Closed n component) : Closed n (Code.select x component) := by
  intro w hw
  rw [lexemes_select] at hw
  simp only [List.mem_append, List.mem_cons, reduceCtorEq, false_or] at hw
  rcases hw with hw | hw
  · exact hx w hw
  · exact hc w hw

theorem Closed.assign {n : Nat} {target x : String} (ht : Closed n target) (hx : Closed n x) :
    Closed n (Code.assign target x) := by
  intro w hw
  rw [lexemes_assign] at hw
  simp only [List.mem_append, List.mem_cons, List.not_mem_nil, reduceCtorEq, false_or,
    or_false] at hw
  rcases hw with hw | hw
  · exact ht w hw
  · exact hx w hw

/-- Only variables stand for something. -/
def Inlining.IsProper (σ : Inlining) : Prop :=
  ∀ w e, σ.lookup w = some e → Identifier.isGenerated w = true

/-- The text of lexemes on which two replacements agree. -/
theorem flatMap_expand_congr {σ τ : Inlining} {ls : List Lexeme}
    (h : ∀ w, .word w ∈ ls → σ.lookup w = τ.lookup w) :
    ls.flatMap (Lexeme.expand σ) = ls.flatMap (Lexeme.expand τ) := by
  induction ls with
  | nil => rfl
  | cons l rest ih =>
      rw [List.flatMap_cons, List.flatMap_cons, ih fun w hw => h w (List.mem_cons_of_mem _ hw)]
      cases l with
      | word w => simp only [Lexeme.expand, h w (by simp)]
      | mark c => rfl

theorem expand_nil (s : String) : expand [] s = s := by
  apply String.toList_injective
  rw [toList_expand]
  have hchars : (Lexeme.expand []) = Lexeme.chars := by
    funext l
    cases l <;> rfl
  rw [hchars]
  exact flatMap_chars_ofChars s.toList

theorem expand_of_isPlain {σ : Inlining} (hσ : σ.IsProper) {s : String} (h : isPlain s = true) :
    expand σ s = s := by
  have hsame : (lexemes s).flatMap (Lexeme.expand σ) = (lexemes s).flatMap (Lexeme.expand []) := by
    apply flatMap_expand_congr
    intro w hw
    cases hlook : σ.lookup w with
    | none => rfl
    | some e =>
        have hgen := hσ w e hlook
        rw [isGenerated_of_isPlain h hw] at hgen
        exact absurd hgen (by decide)
  rw [expand, hsame]
  exact expand_nil s

/-- A new variable changes nothing in texts that came before it. -/
theorem Closed.expand_cons {n : Nat} {s : String} (h : Closed n s) (e : String) {σ : Inlining} :
    expand (((Pass.varName n).toList, e) :: σ) s = expand σ s := by
  rw [expand, expand]
  congr 1
  apply flatMap_expand_congr
  intro w hw
  have hne : (w == (Pass.varName n).toList) = false := by
    rw [beq_eq_false_iff_ne]
    rintro rfl
    obtain ⟨k, hk, heq⟩ := h _ hw (isGenerated_varName n)
    exact absurd (varName_injective heq) (by omega)
  rw [List.lookup_cons, hne]

theorem expand_varName (n : Nat) (e : String) (σ : Inlining) :
    expand (((Pass.varName n).toList, e) :: σ) (Pass.varName n) = e := by
  apply String.toList_injective
  rw [toList_expand, lexemes_varName]
  simp [Lexeme.expand]

theorem Inlining.IsProper.cons {σ : Inlining} (h : σ.IsProper) (n : Nat) (e : String) :
    Inlining.IsProper (((Pass.varName n).toList, e) :: σ) := by
  intro w e' hw
  rw [List.lookup_cons] at hw
  split at hw
  · rename_i heq
    rw [beq_iff_eq.mp heq]
    exact isGenerated_varName n
  · exact h w e' hw

/-! ## Reading a body -/

/-- Variables of these types can be declared. -/
theorem declaration?_define {t : Ty} (hvalid : t.isValid = true) (hclear : t.isOpaque = false)
    (n : Nat) (x : String) :
    declaration? (Code.define t (Pass.varName n) x) = some ((Pass.varName n).toList, x) := by
  have hrest : (lexemes x ++ [Lexeme.mark ';']).dropLast.flatMap chars = x.toList := by
    rw [List.dropLast_concat]
    exact flatMap_chars_ofChars x.toList
  simp only [declaration?, lexemes_define, (Ty.lexemes_text hvalid hclear).1, lexemes_varName,
    List.singleton_append, isGenerated_varName, List.getLast?_concat, hrest, decide_true,
    Bool.and_self, if_true, String.ofList_toList]

/-- Assignments to variables of the pipeline are no declarations. -/
theorem declaration?_assign {target : String} (ht : target ∈ Kind.targets) (x : String) :
    declaration? (Code.assign target x) = none := by
  simp only [Kind.targets, List.mem_cons, List.not_mem_nil, or_false] at ht
  have hlexemes : ∃ w, lexemes target = [.word w] ∨
      ∃ rest, lexemes target = .word w :: .mark '[' :: rest := by
    rcases ht with rfl | rfl | rfl | rfl
    · exact ⟨_, .inl rfl⟩
    · exact ⟨_, .inl rfl⟩
    · exact ⟨_, .inr ⟨_, rfl⟩⟩
    · exact ⟨_, .inl rfl⟩
  obtain ⟨w, hw | ⟨rest, hw⟩⟩ := hlexemes <;> simp [declaration?, lexemes_assign, hw]

theorem inline_append (body more : List String) :
    inline (body ++ more) = more.foldl Inlined.add (inline body) := List.foldl_append

theorem inline_define (body : List String) {t : Ty} (hvalid : t.isValid = true)
    (hclear : t.isOpaque = false) (n : Nat) (x : String) :
    inline (body ++ [Code.define t (Pass.varName n) x]) =
      { inline body with
        meanings := ((Pass.varName n).toList, expand (inline body).meanings x) ::
          (inline body).meanings } := by
  simp only [inline_append, List.foldl_cons, List.foldl_nil, Inlined.add,
    declaration?_define hvalid hclear]

theorem inline_assigns (body : List String) {more : List String}
    (h : ∀ s ∈ more, ∃ target ∈ Kind.targets, ∃ x, s = Code.assign target x) :
    inline (body ++ more) =
      { inline body with
        statements := (inline body).statements ++ more.map (expand (inline body).meanings) } := by
  rw [inline_append]
  generalize inline body = done
  induction more generalizing done with
  | nil => simp
  | cons s rest ih =>
      obtain ⟨target, ht, x, rfl⟩ := h s (by simp)
      rw [List.foldl_cons, ih (fun s hs => h s (List.mem_cons_of_mem _ hs))]
      simp [Inlined.add, declaration?_assign ht]

/-! ## Texts and what they stand for -/

/-- The text uses the first `n` variables only and stands for another text. -/
structure Expands (n : Nat) (σ : Inlining) (s t : String) : Prop where
  closed : Closed n s
  eq : expand σ s = t

namespace Expands

variable {n : Nat} {σ : Inlining}

theorem of_isPlain (hσ : σ.IsProper) {s : String} (h : isPlain s = true) : Expands n σ s s :=
  ⟨closed_of_isPlain h n, expand_of_isPlain hσ h⟩

/-- Later variables change nothing. -/
theorem cons {s t : String} (h : Expands n σ s t) (e : String) :
    Expands (n + 1) (((Pass.varName n).toList, e) :: σ) s t :=
  ⟨h.closed.mono (by omega), (h.closed.expand_cons e).trans h.eq⟩

theorem binary {operator : String} (hop : operator ∈ ["+", "-", "*", "/"]) {x x' y y' : String}
    (hx : Expands n σ x x') (hy : Expands n σ y y') :
    Expands n σ (Code.binary operator x y) (Code.binary operator x' y') :=
  ⟨hx.closed.binary hop hy.closed, by rw [expand_binary σ hop, hx.eq, hy.eq]⟩

theorem apply (hσ : σ.IsProper) {f : String} (hf : isPlain f = true) {xs xs' : List String}
    (hxs : List.Forall₂ (Expands n σ) xs xs') : Expands n σ (Code.apply f xs) (Code.apply f xs') := by
  have heach : (∀ x ∈ xs, Closed n x) ∧ xs.map (expand σ) = xs' := by
    induction hxs with
    | nil => simp
    | cons hx _ ih =>
        refine ⟨?_, by rw [List.map_cons, hx.eq, ih.2]⟩
        simpa using ⟨hx.closed, ih.1⟩
  refine ⟨(closed_of_isPlain hf n).apply heach.1, ?_⟩
  rw [expand_apply σ (expand_of_isPlain hσ hf), heach.2]

theorem select (hσ : σ.IsProper) {component : String} (hc : isPlain component = true)
    {x x' : String} (hx : Expands n σ x x') :
    Expands n σ (Code.select x component) (Code.select x' component) :=
  ⟨hx.closed.select (closed_of_isPlain hc n),
    by rw [expand_select σ (expand_of_isPlain hσ hc), hx.eq]⟩

theorem assign (hσ : σ.IsProper) {target : String} (ht : isPlain target = true) {x x' : String}
    (hx : Expands n σ x x') : Expands n σ (Code.assign target x) (Code.assign target x') :=
  ⟨(closed_of_isPlain ht n).assign hx.closed,
    by rw [expand_assign σ (expand_of_isPlain hσ ht), hx.eq]⟩

theorem varName (n : Nat) (σ : Inlining) (e : String) :
    Expands (n + 1) (((Pass.varName n).toList, e) :: σ) (Pass.varName n) e :=
  ⟨closed_varName n, expand_varName n e σ⟩

end Expands

end NodeShader
