import NodeShader.Proofs.Source.Reader
import NodeShader.Proofs.Source.Rules

/-!
# Code as trees

Trees are another representation of code: operators, calls and selections become nodes, and a text
that is taken as it is becomes the tree it is read as. The text of what is built is the text that
would have been written in the first place.

`Operand` and `Result` say where in the grammar the code of nodes stands. Operands are signed
expressions, and a sign stands before floats only, so that a component can be selected from what has
components. Results may be operations, but not where the value is opaque.
-/

namespace NodeShader

open Lexeme Reader

/-! ## Statements -/

/-- A statement from what stands before and after the equals sign. -/
def statementOf (left : List Lexeme) (x : Ast) : Option Ast :=
  match left with
  | [.word type, .word name] => some (.define (String.ofList type) (String.ofList name) x)
  | _ => (read (.operand []) left).map fun target => .assign target x

/-- The tree of a statement: an assignment, or a declaration with a value. -/
def statement? (s : String) : Option Ast :=
  let right := ((tokens s).dropWhile (· ≠ .mark '=')).tail
  if right.getLast? = some (.mark ';') then
    (read (.operand []) right.dropLast).bind
      (statementOf ((tokens s).takeWhile (· ≠ .mark '=')))
  else none

theorem statement?_of_tokens {s : String} {left right : List Lexeme}
    (h : tokens s = left ++ .mark '=' :: (right ++ [.mark ';'])) (hleft : .mark '=' ∉ left) :
    statement? s = (read (.operand []) right).bind (statementOf left) := by
  have hall : ∀ l ∈ left, decide (l ≠ .mark '=') = true := by
    intro l hl
    exact decide_eq_true fun heq => hleft (heq ▸ hl)
  unfold statement?
  rw [h, List.takeWhile_append_of_pos hall, List.dropWhile_append_of_pos hall]
  simp

/-! ## Trees as code -/

namespace Code

instance ast : Code Ast where
  blank := .hole
  verbatim s := (parse s).getD .hole
  literal f := (parse (literalText f)).getD .hole
  binary := .binary
  apply := .apply
  select := .select
  assign target x := .assign ((parse target).getD .hole) x
  define t name x := .define t.text name x
  remark := .remark
  size t := Text.byteLength t.print

end Code

theorem verbatim_eq {s : String} {t : Ast} (ht : Derives .sum t) (hs : t.print = s) :
    (Code.verbatim s : Ast) = t := by
  show (parse s).getD .hole = t
  rw [← hs, parse_print ht]
  rfl

/-! ### Names -/

instance (s : String) : Decidable (IsName s) :=
  decidable_of_iff (lexemes s = [.word s.toList] ∧ startsWithDigit s.toList = false)
    ⟨fun h => ⟨h.1, h.2⟩, fun h => ⟨h.word, h.start⟩⟩

theorem isName_identifier (name : String) : IsName (identifier name) :=
  ⟨lexemes_identifier name, startsWithDigit_identifier name⟩

theorem isName_varName (n : Nat) : IsName (Pass.varName n) :=
  ⟨lexemes_varName n, startsWithDigit_varName n⟩

theorem verbatim_name {s : String} (h : IsName s) : (Code.verbatim s : Ast) = .name s :=
  verbatim_eq (Derives.name h).sum_of rfl

/-- The types of variables have names. -/
theorem isName_text {t : Ty} (ht : t ∈ properTypes) (hclear : t.isOpaque = false) :
    IsName t.text := by
  have hall : ∀ t ∈ properTypes, t.isOpaque = false → IsName t.text := by decide +kernel
  exact hall t ht hclear

/-- What has a type when it is called has a name. -/
theorem isName_of_applyType? {f : String} {args : List Ty} {t : Ty}
    (h : applyType? f args = some t) : IsName f := by
  have hall : ∀ f ∈ ["vec2", "vec3", "vec4", "abs", "sin", "cos", "fract", "floor", "sqrt",
      "normalize", "length", "pow", "mod", "min", "max", "step", "dot", "distance", "mix", "clamp",
      "smoothstep", "texture2D"], IsName f := by decide +kernel
  refine hall f ?_
  unfold applyType? at h
  split at h
  · rename_i n hn
    unfold constructedSize? at hn
    (repeat' split at hn) <;> simp_all
  · unfold functionType? at h
    split at h <;> (repeat' split at h) <;> simp_all <;> grind

/-! ### Texts that are taken as they are -/

theorem isDigits_zero : IsDigits "0" := ⟨by decide, by decide⟩

/-- The first element of an array. -/
theorem derives_element {array : String} (h : IsName array) :
    Derives .primary (.index (.name array) (.integer "0")) :=
  .index (.name h) (Derives.integer isDigits_zero).sum_of

/-- The texture coordinate, which is more than a name. -/
theorem derives_texCoord :
    Derives .primary (.select (.index (.name "gl_TexCoord") (.integer "0")) "xy") :=
  .select (derives_element (by decide)) (by decide)

/-- The variables of the pipeline are primary expressions. -/
theorem derives_pipeline {s : String} {t : Ty} (h : pipelineType? s = some t) :
    ∃ x : Ast, Derives .primary x ∧ x.print = s := by
  have hname : ∀ s ∈ ["gl_Vertex", "gl_MultiTexCoord0", "gl_Color"], IsName s := by decide
  unfold pipelineType? at h
  split at h
  · rename_i hs
    exact ⟨_, derives_texCoord, hs.symm⟩
  · split at h
    · rename_i hs
      rcases hs with rfl | rfl
      · exact ⟨.name "gl_ModelViewProjectionMatrix", .name (by decide), rfl⟩
      · exact ⟨_, derives_element (show IsName "gl_TextureMatrix" by decide), rfl⟩
    · split at h
      · rename_i hs
        exact ⟨.name s, .name (hname s hs), rfl⟩
      · exact absurd h (by simp)

/-- The variables that stages assign to are primary expressions. -/
theorem derives_target {s : String} (h : s ∈ Kind.targets) :
    ∃ x : Ast, Derives .primary x ∧ x.print = s := by
  have hname : ∀ s ∈ ["gl_FrontColor", "gl_Position", "gl_TexCoord", "gl_FragColor"], IsName s := by
    decide
  simp only [Kind.targets, List.mem_cons, List.not_mem_nil, or_false] at h
  rcases h with rfl | rfl | rfl | rfl
  · exact ⟨_, .name (hname _ (by simp)), rfl⟩
  · exact ⟨_, .name (hname _ (by simp)), rfl⟩
  · exact ⟨_, derives_element (hname "gl_TexCoord" (by simp)), rfl⟩
  · exact ⟨_, .name (hname _ (by simp)), rfl⟩

theorem isDigits_of_isNumeral {cs : List Char} (h : Number.IsNumeral cs) :
    IsDigits (String.ofList cs) := by
  constructor
  · rw [lexemes, String.toList_ofList]
    exact h.ofChars
  · rw [String.toList_ofList]
    exact startsWithDigit_of_isNumeral h

/-- The trees of literals: numbers, perhaps signed, and quotients in parentheses. -/
inductive IsLiteral : Ast → Prop
  | fixed {whole fraction : String} : IsDigits whole → IsDigits fraction →
      IsLiteral (.number whole fraction)
  | negative {whole fraction : String} : IsDigits whole → IsDigits fraction →
      IsLiteral (.negate (.number whole fraction))
  | quotient {x : Ast} : IsLiteral x → IsLiteral (.group (.binary "/" x (.number "0" "0")))

theorem IsLiteral.derives {x : Ast} (h : IsLiteral x) : Derives .unary x := by
  induction h with
  | fixed hw hf => exact .ofPrimary (.number hw hf)
  | negative hw hf => exact .negate (.number hw hf)
  | quotient _ ih =>
      have hzero : Derives .unary (.number "0" "0") := .ofPrimary (.number isDigits_zero isDigits_zero)
      exact .ofPrimary (.group (.ofProduct (.product (by simp) (.ofUnary ih) hzero)))

theorem exists_literal (f : Number.Single) : ∃ x : Ast, IsLiteral x ∧ x.print = literalText f := by
  have hone : IsDigits "1" := ⟨by decide, by decide⟩
  rcases literalText_cases f with hmem | ⟨negative, whole, fraction, hw, hf, heq⟩
  · simp only [quotients, List.mem_cons, List.not_mem_nil, or_false] at hmem
    rcases hmem with heq | heq | heq
    · exact ⟨_, .quotient (.fixed hone isDigits_zero), heq.symm⟩
    · exact ⟨_, .quotient (.negative hone isDigits_zero), heq.symm⟩
    · exact ⟨_, .quotient (.fixed isDigits_zero isDigits_zero), heq.symm⟩
  · have hw' := isDigits_of_isNumeral hw
    have hf' := isDigits_of_isNumeral hf
    cases negative with
    | false =>
        refine ⟨_, .fixed hw' hf', ?_⟩
        rw [heq, ← String.toList_inj]
        simp [Ast.print, fixedText]
    | true =>
        refine ⟨_, .negative hw' hf', ?_⟩
        rw [heq, ← String.toList_inj]
        simp [Ast.print, fixedText]

/-- The tree of a literal is a literal and has its text. -/
theorem isLiteral_literal (f : Number.Single) :
    IsLiteral (Code.literal f : Ast) ∧ (Code.literal f : Ast).print = literalText f := by
  obtain ⟨x, hx, hprint⟩ := exists_literal f
  have heq : (Code.literal f : Ast) = x := verbatim_eq hx.derives.sum_of hprint
  rw [heq]
  exact ⟨hx, hprint⟩

/-- The text of a tree that was read from a text of a node is that text. -/
theorem print_verbatim {s : String} {l : Level} (h : ∃ x : Ast, Derives l x ∧ x.print = s) :
    (Code.verbatim s : Ast).print = s ∧ Derives l (Code.verbatim s : Ast) := by
  obtain ⟨x, hx, hs⟩ := h
  rw [verbatim_eq hx.sum_of hs]
  exact ⟨hs, hx⟩

/-! ## Where code stands in the grammar -/

/-- Code that nodes hand to each other: a signed expression, and a primary one unless it is a
float. -/
def Ast.Operand (x : Ast) (t : Ty) : Prop :=
  t ∈ properTypes ∧ Derives .unary x ∧ (t = .float ∨ Derives .primary x)

/-- Code that a node makes, perhaps with an operator. -/
def Ast.Result (x : Ast) (t : Ty) : Prop :=
  t ∈ properTypes ∧ Derives .sum x ∧ (t.isOpaque = true → Derives .primary x)

theorem Ast.operand_of_primary {x : Ast} {t : Ty} (ht : t ∈ properTypes) (hx : Derives .primary x) :
    x.Operand t := ⟨ht, .ofPrimary hx, .inr hx⟩

theorem Ast.operand_of_isOpaque {x : Ast} {t : Ty} (h : x.Result t) (hsealed : t.isOpaque = true) :
    x.Operand t := operand_of_primary h.1 (h.2.2 hsealed)

theorem judges_operand : Judges Ast.Operand where
  proper _ _ h := h.1
  literal f := ⟨by decide, (isLiteral_literal f).1.derives, .inl rfl⟩
  pipeline s t h :=
    Ast.operand_of_primary (pipelineType?_proper h) (print_verbatim (derives_pipeline h)).2
  apply f xs ts t h hargs := by
    have hproper := forall₂_right (hargs.imp fun _ _ hx => hx.1)
    have hderives : ∀ x ∈ xs, Derives .unary x :=
      ((List.forall₂_and_left _ _).mp (hargs.imp fun _ _ hx => ⟨hx.2.1, hx.1⟩)).1
    exact Ast.operand_of_primary (applyType?_proper h hproper)
      (.apply (isName_of_applyType? h) fun x hx => (hderives x hx).sum_of)
  select x letters t u hletters h hx := by
    have hall : ∀ s ∈ Kind.swizzles, IsName s := by decide
    have hvector : t ≠ .float := by
      rintro rfl
      simp [selectType?] at h
    exact Ast.operand_of_primary (selectType?_proper h)
      (.select (hx.2.2.resolve_left hvector) (hall letters hletters))

/-- An operation of signed expressions needs no parentheses. -/
theorem derives_binary {operator : String} (hop : operator ∈ ["+", "-", "*", "/"]) {x y : Ast}
    (hx : Derives .unary x) (hy : Derives .unary y) : Derives .sum (.binary operator x y) := by
  have hcases : operator ∈ ["+", "-"] ∨ operator ∈ ["*", "/"] := by
    simp only [List.mem_cons, List.not_mem_nil, or_false] at hop ⊢
    tauto
  rcases hcases with hop | hop
  · exact .sum hop hx.sum_of (.ofUnary hy)
  · exact .ofProduct (.product hop (.ofUnary hx) hy)

theorem binaryType?_spec {operator : String} {a b t : Ty} (h : binaryType? operator a b = some t) :
    operator ∈ ["+", "-", "*", "/"] ∧ t.isOpaque = false := by
  unfold binaryType? at h
  split at h
  · split at h
    · rename_i hop
      refine ⟨hop, ?_⟩
      split at h
      · cases h
        rfl
      · split at h
        · cases h
          rfl
        · exact absurd h (by simp)
    · exact absurd h (by simp)
  · split at h
    · rename_i hop
      cases h
      exact ⟨by simp [hop.1], rfl⟩
    · exact absurd h (by simp)
  · exact absurd h (by simp)

theorem combines_result (k : Kind) : Combines k Ast.Operand Ast.Result where
  weaken x t h := by
    refine ⟨h.1, h.2.1.sum_of, fun hsealed => h.2.2.resolve_left ?_⟩
    rintro rfl
    exact absurd hsealed (by decide)
  binary operator _ x y a b t h hx hy := by
    obtain ⟨hop, hclear⟩ := binaryType?_spec h
    refine ⟨binaryType?_proper h hx.1 hy.1, derives_binary hop hx.2.1 hy.2.1, ?_⟩
    simp [hclear]

/-! ## Statements that are built are read back -/

theorem statement?_assign {target : String} (ht : target ∈ Kind.targets) {x : Ast}
    (hx : Derives .sum x) :
    statement? (Code.assign target x : Ast).print = some (Code.assign target x) := by
  obtain ⟨t, hderives, hprint⟩ := derives_target ht
  have hassign : (Code.assign target x : Ast) = .assign t x :=
    congrArg (Ast.assign · x) (verbatim_eq hderives.sum_of hprint)
  have hleft : ∀ target ∈ Kind.targets, .mark '=' ∉ tokens target := by decide
  have hshape : ∀ target ∈ Kind.targets, ∀ a ∈ tokens target, ∀ b ∈ tokens target,
      tokens target ≠ [a, b] := by decide
  rw [hassign, Ast.print, hprint, statement?_of_tokens (tokens_assign _ _) (hleft target ht)]
  have hread : read (.operand []) (tokens x.print) = some x := parse_print hx
  have hread' : read (.operand []) (tokens target) = some t :=
    hprint ▸ parse_print hderives.sum_of
  rw [hread, Option.bind_some]
  unfold statementOf
  split
  · rename_i type name heq
    exact absurd heq (hshape target ht _ (by rw [heq]; simp) _ (by rw [heq]; simp))
  · rw [hread', Option.map_some]

theorem statement?_define {t : Ty} (ht : t ∈ properTypes) (hclear : t.isOpaque = false) (n : Nat)
    {x : Ast} (hx : Derives .sum x) :
    statement? (Code.define t (Pass.varName n) x : Ast).print =
      some (Code.define t (Pass.varName n) x) := by
  have htype := (isName_text ht hclear).tokens
  have hname := (isName_varName n).tokens
  have htokens : tokens (Code.define t (Pass.varName n) x : Ast).print =
      [.word t.text.toList, .word (Pass.varName n).toList] ++
        .mark '=' :: (tokens x.print ++ [.mark ';']) := by
    show tokens (Code.define t (Pass.varName n) x.print) = _
    rw [tokens_define, htype, hname]
    rfl
  have hread : read (.operand []) (tokens x.print) = some x := parse_print hx
  rw [statement?_of_tokens htokens (by simp), hread, Option.bind_some, statementOf]
  simp only [String.ofList_toList]
  rfl

end NodeShader
