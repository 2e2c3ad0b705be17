import NodeShader.Pass.Basic
import NodeShader.Proofs.Source.Lexeme

/-!
# How names and numbers are spelled

Identifiers, the names of generated variables and the names of types are single words. No identifier
is the name of a generated variable, and different variables have different names. A float literal is
spelled of digits around a point, perhaps with a sign before them; what is not finite is one of three
quotients.
-/

namespace NodeShader

open Lexeme

/-! ## Digits -/

namespace Number

theorem isDigit_of_mem_digitsOf {n : Nat} {c : Char} (h : c ∈ digitsOf n) : isDigit c = true := by
  have hdigit := Nat.isDigit_of_mem_toDigits (by decide) (by decide) h
  simpa [isDigit, Char.isDigit, Char.le_def] using hdigit

theorem digitsOf_ne_nil (n : Nat) : digitsOf n ≠ [] := Nat.toDigits_ne_nil

theorem digitsOf_injective {m n : Nat} (h : digitsOf m = digitsOf n) : m = n := by
  have hm := Nat.ofDigitChars_ten_toDigits (n := m)
  have hn := Nat.ofDigitChars_ten_toDigits (n := n)
  unfold digitsOf at h
  rw [h] at hm
  exact hm.symm.trans hn

theorem toList_natText (n : Nat) : (natText n).toList = digitsOf n := String.toList_ofList

/-- A run of digits, at least one. -/
structure IsNumeral (cs : List Char) : Prop where
  ne_nil : cs ≠ []
  digits : ∀ c ∈ cs, isDigit c = true

theorem isNumeral_digitsOf (n : Nat) : IsNumeral (digitsOf n) :=
  ⟨digitsOf_ne_nil n, fun _ => isDigit_of_mem_digitsOf⟩

/-- Positional notation has digits on both sides of the point, and at least one before it. -/
theorem Decimal.positionalParts_digits (d : Decimal) :
    IsNumeral d.positionalParts.1 ∧ ∀ c ∈ d.positionalParts.2, isDigit c = true := by
  have hdigits : ∀ c ∈ d.digits, isDigit c = true := by
    unfold digits
    split
    · simp
    · exact fun c => isDigit_of_mem_digitsOf
  have hzero : isDigit '0' = true := by decide
  unfold positionalParts
  dsimp only
  split
  · refine ⟨⟨by simp, by simp [hzero]⟩, ?_⟩
    intro c hc
    rcases List.mem_append.mp hc with hc | hc
    · exact (List.eq_of_mem_replicate hc).symm ▸ hzero
    · exact hdigits c hc
  · rename_i hpoint
    refine ⟨⟨?_, ?_⟩, fun c hc => hdigits c (List.mem_of_mem_drop hc)⟩
    · -- a point behind the front means that there are digits
      have hne : d.digits ≠ [] := by
        intro hnil
        have hcoeff : d.coefficient = 0 := by
          unfold digits at hnil
          split at hnil
          · assumption
          · exact absurd hnil (digitsOf_ne_nil _)
        exact hpoint (by simp [point, hcoeff])
      have hpos : d.point.toNat ≠ 0 := by omega
      simp [hne, hpos]
    · intro c hc
      rcases List.mem_append.mp hc with hc | hc
      · exact hdigits c (List.mem_of_mem_take hc)
      · exact (List.eq_of_mem_replicate hc).symm ▸ hzero

end Number

open Number (IsNumeral isDigit)

theorem isNameChar_of_isDigit {c : Char} (h : isDigit c = true) : isNameChar c = true := by
  simp only [isDigit, Bool.and_eq_true, decide_eq_true_eq] at h
  simp [isNameChar, Identifier.isWordChar, h.1, h.2]

theorem Number.IsNumeral.ofChars {cs : List Char} (h : IsNumeral cs) :
    Lexeme.ofChars cs = [.word cs] :=
  ofChars_word h.ne_nil fun c hc => isNameChar_of_isDigit (h.digits c hc)

/-- Numerals are no variables. -/
theorem Number.IsNumeral.isGenerated {cs : List Char} (h : IsNumeral cs) :
    Identifier.isGenerated cs = false := by
  cases cs with
  | nil => rfl
  | cons c rest =>
      have hc : c ≠ 'v' := by
        rintro rfl
        exact absurd (h.digits 'v' (by simp)) (by decide)
      unfold Identifier.isGenerated
      split
      · rename_i heq
        cases heq
        exact absurd rfl hc
      · rfl

/-! ## Generated variables and types -/

theorem toList_varName (n : Nat) :
    (Pass.varName n).toList = 'v' :: 'a' :: 'r' :: Number.digitsOf n := by
  simp [Pass.varName, Number.toList_natText]

theorem isGenerated_varName (n : Nat) : Identifier.isGenerated (Pass.varName n).toList = true := by
  have hdigits := Number.isNumeral_digitsOf n
  rw [toList_varName]
  simpa [Identifier.isGenerated, hdigits.ne_nil] using hdigits.digits

theorem varName_injective {m n : Nat} (h : (Pass.varName m).toList = (Pass.varName n).toList) :
    m = n := by
  rw [toList_varName, toList_varName] at h
  simp only [List.cons.injEq, true_and] at h
  exact Number.digitsOf_injective h

theorem lexemes_varName (n : Nat) : lexemes (Pass.varName n) = [.word (Pass.varName n).toList] := by
  refine ofChars_word (by simp [toList_varName]) ?_
  rw [toList_varName]
  intro c hc
  simp only [List.mem_cons] at hc
  rcases hc with rfl | rfl | rfl | hc
  · decide
  · decide
  · decide
  · exact isNameChar_of_isDigit (Number.isDigit_of_mem_digitsOf hc)

/-- A type of which there are variables is named by one word, and that is no variable. -/
theorem Ty.lexemes_text {t : Ty} (hvalid : t.isValid = true) (hclear : t.isOpaque = false) :
    lexemes t.text = [.word t.text.toList] ∧ Identifier.isGenerated t.text.toList = false := by
  have hname : ∀ a b c : Char, ∀ cs : List Char, isNameChar a = true → isNameChar b = true →
      isNameChar c = true → (∀ x ∈ cs, isNameChar x = true) →
      Lexeme.ofChars (a :: b :: c :: cs) = [.word (a :: b :: c :: cs)] := by
    intro a b c cs ha hb hc hcs
    refine ofChars_word (by simp) ?_
    simpa [ha, hb, hc] using hcs
  have hdigits : ∀ n : Nat, ∀ x ∈ (Number.natText n).toList, isNameChar x = true := by
    intro n x hx
    rw [Number.toList_natText] at hx
    exact isNameChar_of_isDigit (Number.isDigit_of_mem_digitsOf hx)
  cases t with
  | unset | none => exact absurd hvalid (by decide)
  | sampler | array => exact absurd hclear (by decide)
  | gen n =>
      simp only [Ty.text]
      split
      · decide
      · simp only [lexemes, String.toList_append]
        exact ⟨hname _ _ _ _ (by decide) (by decide) (by decide) (hdigits _), rfl⟩
  | matrix rows columns =>
      simp only [Ty.text]
      split
      · simp only [lexemes, String.toList_append]
        exact ⟨hname _ _ _ _ (by decide) (by decide) (by decide) (hdigits _), rfl⟩
      · simp only [lexemes, String.toList_append]
        refine ⟨hname _ _ _ _ (by decide) (by decide) (by decide) ?_, rfl⟩
        intro x hx
        rcases List.mem_append.mp hx with hx | hx
        · rcases List.mem_append.mp hx with hx | hx
          · exact hdigits _ x hx
          · have : x = 'x' := by simpa using hx
            subst this
            decide
        · exact hdigits _ x hx

/-! ## Identifiers -/

namespace Identifier

theorem isNameChar_of_isWordChar {c : Char} (h : isWordChar c = true) : isNameChar c = true := by
  simp [isNameChar, h]

theorem isNameChar_of_mem_squeeze {after : Bool} {cs : List Char} {c : Char}
    (h : c ∈ squeeze after cs) : isNameChar c = true := by
  have hunderscore : isNameChar '_' = true := by decide
  induction cs generalizing after with
  | nil => exact absurd h (by simp [squeeze])
  | cons d rest ih =>
      unfold squeeze at h
      split at h
      · rename_i hd
        rcases List.mem_cons.mp h with rfl | h
        · exact isNameChar_of_isWordChar hd
        · exact ih h
      · split at h
        · exact ih h
        · rcases List.mem_cons.mp h with rfl | h
          · exact hunderscore
          · exact ih h

/-- A word that is no number and belongs neither to the language nor to generated code. -/
structure Safe (cs : List Char) : Prop where
  ne_nil : cs ≠ []
  chars : ∀ c ∈ cs, isNameChar c = true
  head : ∀ c rest, cs = c :: rest → isDigit c = false
  free : isTaken cs = false

/-- With an underscore before it no word is taken: no reserved word starts with one. -/
theorem isTaken_underscore (cs : List Char) : isTaken ('_' :: cs) = false := by
  have hall : ∀ w ∈ Reserved.words, w.toList.head? ≠ some '_' := by decide +kernel
  have hfree : Reserved.words.contains (String.ofList ('_' :: cs)) = false := by
    rw [Bool.eq_false_iff]
    intro hmem
    refine hall _ (List.contains_iff_mem.mp hmem) ?_
    rw [String.toList_ofList]
    rfl
  rw [isTaken, hfree]
  rfl

theorem safe_ofChars (name : List Char) : Safe (ofChars name) := by
  have hunderscore : isNameChar '_' = true := by decide
  have hguarded : ∀ c ∈ guardDigit (squeeze false name), isNameChar c = true := by
    intro c hc
    cases hs : squeeze false name with
    | nil => simp [hs, guardDigit] at hc
    | cons d rest =>
        have hmem : ∀ x ∈ d :: rest, isNameChar x = true := fun x hx =>
          isNameChar_of_mem_squeeze (hs ▸ hx)
        rw [hs, guardDigit] at hc
        split at hc
        · rcases List.mem_cons.mp hc with rfl | hc
          · exact hunderscore
          · exact hmem c hc
        · exact hmem c hc
  have hhead : ∀ c rest, guardDigit (squeeze false name) = c :: rest → isDigit c = false := by
    intro c rest heq
    cases hs : squeeze false name with
    | nil => simp [hs, guardDigit] at heq
    | cons d more =>
        rw [hs, guardDigit] at heq
        split at heq
        · cases heq
          decide
        · rename_i hd
          cases heq
          simpa using hd
  unfold ofChars guardTaken
  split
  · exact ⟨by decide, List.all_eq_true.mp (by decide), by rintro c rest ⟨⟩; decide, by decide⟩
  · rename_i hne
    split
    · refine ⟨by simp, ?_, by rintro c rest ⟨⟩; decide, isTaken_underscore _⟩
      intro c hc
      rcases List.mem_cons.mp hc with rfl | hc
      · exact hunderscore
      · exact hguarded c hc
    · rename_i htaken
      exact ⟨fun hnil => hne (.inl hnil), hguarded, hhead, by simpa using htaken⟩

theorem Safe.isGenerated {cs : List Char} (h : Safe cs) : isGenerated cs = false := by
  have hfree := h.free
  simp only [isTaken, Bool.or_eq_false_iff] at hfree
  exact hfree.2

end Identifier

theorem safe_identifier (name : String) : Identifier.Safe (identifier name).toList := by
  rw [identifier, String.toList_ofList]
  exact Identifier.safe_ofChars name.toList

theorem lexemes_identifier (name : String) :
    lexemes (identifier name) = [.word (identifier name).toList] :=
  ofChars_word (safe_identifier name).ne_nil (safe_identifier name).chars

/-! ## Literals -/

/-- The texts of the numbers that are not finite. -/
def quotients : List String := ["(1.0 / 0.0)", "(-1.0 / 0.0)", "(0.0 / 0.0)"]

/-- The text of a finite number from its digits. -/
def fixedText (negative : Bool) (whole fraction : List Char) : String :=
  String.ofList ((if negative then ['-'] else []) ++ whole ++ '.' :: fraction)

theorem lexemes_fixedText (negative : Bool) {whole fraction : List Char} (hw : IsNumeral whole)
    (hf : IsNumeral fraction) :
    lexemes (fixedText negative whole fraction) =
      (if negative then [.mark '-'] else []) ++ [.word whole, .mark '.', .word fraction] := by
  have hbody : Lexeme.ofChars (whole ++ '.' :: fraction) =
      [.word whole, .mark '.', .word fraction] := by
    rw [ofChars_append_mark (by decide), hw.ofChars, hf.ofChars]
    rfl
  rw [lexemes, fixedText, String.toList_ofList]
  cases negative with
  | false => simpa using hbody
  | true =>
      simp only [if_true, List.cons_append, List.nil_append]
      rw [ofChars_cons_mark (by decide), hbody]

theorem literalText_cases (f : Number.Single) :
    literalText f ∈ quotients ∨ ∃ negative whole fraction, IsNumeral whole ∧ IsNumeral fraction ∧
      literalText f = fixedText negative whole fraction := by
  unfold literalText
  split
  · rename_i negative significand scale hread
    have hparts := (Number.Layout.single.shortest significand scale).positionalParts_digits
    cases hsplit : (Number.Layout.single.shortest significand scale).positionalParts with
    | mk whole fraction =>
        rw [hsplit] at hparts
        refine .inr ⟨negative, whole, if fraction.isEmpty then ['0'] else fraction, hparts.1, ?_, rfl⟩
        split
        · exact ⟨by simp, List.all_eq_true.mp (by decide)⟩
        · rename_i hne
          exact ⟨by simpa using hne, hparts.2⟩
  all_goals exact .inl (by simp [quotients])

end NodeShader
