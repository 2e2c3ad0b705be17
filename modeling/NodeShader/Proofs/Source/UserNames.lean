import NodeShader.Proofs.Document.Identity
import NodeShader.Proofs.Node.Frame
import NodeShader.Proofs.Source.Names

/-!
# Names that users choose

An identifier is made of a name in four steps: characters are replaced and runs of underscores
squeezed, an underscore is put before a leading digit, an empty name and a lone underscore get a name
of their own, and an underscore is put before what is taken. No step undoes what another one has
reached, so the identifier is always one of the names that a user may have as they are
(`Identifier.IsUserName`), and these are left alone.

* `Identifier.isUserName_ofChars`, `Identifier.ofChars_eq_self`: the two halves, on characters.
* `Text.textOf_bytesOf`: a name of ASCII characters is read from its bytes.
* `identifier_retracts`: both for every name, given as text or as any bytes, and what it means for the
  source of a parameter.
-/

namespace NodeShader

/-! ## The names -/

namespace Identifier

open Lexeme (isNameChar)
open Number (IsNumeral isDigit)

/-- Is `c` an ASCII letter? -/
def isLetter (c : Char) : Bool := ('a' ≤ c && c ≤ 'z') || ('A' ≤ c && c ≤ 'Z')

/-- A name that can stand in source as it is: spelled like an identifier, with no two underscores in a
row and not of one underscore, no reserved word, no variable of the pipeline and none that is
generated. -/
structure IsUserName (cs : List Char) : Prop where
  spelled : ∃ c rest, cs = c :: rest ∧ (isLetter c = true ∨ c = '_') ∧
    ∀ d ∈ rest, isLetter d = true ∨ isDigit d = true ∨ d = '_'
  notLone : cs ≠ ['_']
  single : ¬ ['_', '_'] <:+: cs
  notReserved : String.ofList cs ∉ Reserved.words
  notPipeline : ¬ ['g', 'l', '_'] <+: cs
  notGenerated : ¬ ∃ digits, IsNumeral digits ∧ cs = 'v' :: 'a' :: 'r' :: digits

theorem isNameChar_iff {c : Char} :
    isNameChar c = true ↔ isLetter c = true ∨ isDigit c = true ∨ c = '_' := by
  simp only [isNameChar, isWordChar, isLetter, isDigit, Bool.or_eq_true, decide_eq_true_eq, or_assoc]

theorem isDigit_of_isLetter {c : Char} (h : isLetter c = true) : isDigit c = false := by
  simp only [isLetter, Bool.or_eq_true, Bool.and_eq_true, decide_eq_true_eq, Char.le_def,
    UInt32.le_iff_toNat_le] at h
  simp only [isDigit, Bool.and_eq_false_iff, decide_eq_false_iff_not, Char.le_def,
    UInt32.le_iff_toNat_le]
  have ha : 'a'.val.toNat = 97 ∧ 'A'.val.toNat = 65 ∧ '9'.val.toNat = 57 := by decide
  omega

theorem isGenerated_iff {cs : List Char} :
    isGenerated cs = true ↔ ∃ digits, IsNumeral digits ∧ cs = 'v' :: 'a' :: 'r' :: digits := by
  constructor
  · intro h
    unfold isGenerated at h
    split at h
    · rename_i digits
      simp only [Bool.and_eq_true, Bool.not_eq_eq_eq_not, Bool.not_true, List.isEmpty_eq_false_iff,
        List.all_eq_true] at h
      exact ⟨digits, ⟨h.1, h.2⟩, rfl⟩
    · exact absurd h (by simp)
  · rintro ⟨digits, hdigits, rfl⟩
    simpa [isGenerated, hdigits.ne_nil] using hdigits.digits

/-- What is taken is a reserved word, a variable of the pipeline or a generated one. -/
theorem isTaken_eq_false_iff {cs : List Char} :
    isTaken cs = false ↔ String.ofList cs ∉ Reserved.words ∧ ¬ ['g', 'l', '_'] <+: cs ∧
      ¬ ∃ digits, IsNumeral digits ∧ cs = 'v' :: 'a' :: 'r' :: digits := by
  rw [isTaken, Bool.or_eq_false_iff, Bool.or_eq_false_iff, and_assoc, ← isGenerated_iff,
    ← List.isPrefixOf_iff_prefix, Bool.not_eq_true, Bool.not_eq_true, ← List.contains_iff_mem,
    Bool.not_eq_true]

/-- User names are the safe words without two underscores in a row, but for a lone underscore. -/
theorem isUserName_iff {cs : List Char} :
    IsUserName cs ↔ Safe cs ∧ cs ≠ ['_'] ∧ ¬ ['_', '_'] <:+: cs := by
  constructor
  · intro h
    obtain ⟨c, rest, hcs, hc, hrest⟩ := h.spelled
    refine ⟨⟨by simp [hcs], ?_, ?_, ?_⟩, h.notLone, h.single⟩
    · rw [hcs]
      refine List.forall_mem_cons.mpr
        ⟨isNameChar_iff.mpr ?_, fun d hd => isNameChar_iff.mpr (hrest d hd)⟩
      rcases hc with hc | hc
      · exact .inl hc
      · exact .inr (.inr hc)
    · rintro c' rest' heq
      obtain ⟨rfl, -⟩ := List.cons.inj (hcs.symm.trans heq)
      rcases hc with hc | rfl
      · exact isDigit_of_isLetter hc
      · decide
    · exact isTaken_eq_false_iff.mpr ⟨h.notReserved, h.notPipeline, h.notGenerated⟩
  · rintro ⟨hsafe, hlone, hsingle⟩
    obtain ⟨hreserved, hpipeline, hgenerated⟩ := isTaken_eq_false_iff.mp hsafe.free
    refine ⟨?_, hlone, hsingle, hreserved, hpipeline, hgenerated⟩
    cases hcs : cs with
    | nil => exact absurd hcs hsafe.ne_nil
    | cons c rest =>
        have hdigit := hsafe.head c rest hcs
        have hchars : ∀ d ∈ c :: rest, isLetter d = true ∨ isDigit d = true ∨ d = '_' :=
          fun d hd => isNameChar_iff.mp (hsafe.chars d (hcs ▸ hd))
        refine ⟨c, rest, rfl, ?_, fun d hd => hchars d (List.mem_cons_of_mem _ hd)⟩
        rcases hchars c (by simp) with hc | hc | hc
        · exact .inl hc
        · exact absurd hc (by simp [hdigit])
        · exact .inr hc

/-! ## Underscores in a row -/

theorem doubled_cons {c : Char} {rest : List Char} :
    ['_', '_'] <:+: c :: rest ↔ (c = '_' ∧ rest.head? = some '_') ∨ ['_', '_'] <:+: rest := by
  rw [List.infix_cons_iff, List.cons_prefix_cons, List.singleton_prefix_iff_head?_eq_some, eq_comm]

/-- After squeezing no two underscores are in a row, nor is one at the front behind another. -/
theorem not_doubled_squeeze (after : Bool) (cs : List Char) :
    ¬ ['_', '_'] <:+: squeeze after cs ∧ (after = true → (squeeze after cs).head? ≠ some '_') := by
  induction cs generalizing after with
  | nil => simp [squeeze]
  | cons c rest ih =>
      have hword : ∀ c, isWordChar c = true → c ≠ '_' := by
        rintro c hc rfl
        exact absurd hc (by decide)
      unfold squeeze
      split
      · rename_i hc
        have hne := hword c hc
        exact ⟨fun h => (doubled_cons.mp h).elim (fun h => hne h.1) (ih false).1, by simp [hne]⟩
      · split
        · rename_i hafter
          exact ⟨(ih true).1, fun _ => (ih true).2 rfl⟩
        · rename_i hafter
          refine ⟨fun h => ?_, fun h => absurd h hafter⟩
          rcases doubled_cons.mp h with ⟨-, hhead⟩ | h
          · exact (ih true).2 rfl hhead
          · exact (ih true).1 h

/-- Names without two underscores in a row are not squeezed. -/
theorem squeeze_eq_self {after : Bool} {cs : List Char} (hchars : ∀ c ∈ cs, isNameChar c = true)
    (hsingle : ¬ ['_', '_'] <:+: cs) (hhead : after = true → cs.head? ≠ some '_') :
    squeeze after cs = cs := by
  induction cs generalizing after with
  | nil => rfl
  | cons c rest ih =>
      obtain ⟨hc, hrest⟩ := List.forall_mem_cons.mp hchars
      rw [doubled_cons, not_or] at hsingle
      unfold squeeze
      split
      · rw [ih hrest hsingle.2 (by simp)]
      · rename_i hword
        -- what is no letter or digit is an underscore, and none stands before or behind it
        have hunderscore : c = '_' := by
          simpa [isNameChar, hword] using hc
        have hafter : ¬ after = true := fun hafter => hhead hafter (by simp [hunderscore])
        rw [if_neg hafter, ih hrest hsingle.2 fun _ hnext => hsingle.1 ⟨hunderscore, hnext⟩,
          hunderscore]

/-! ## The four steps -/

theorem not_doubled_guardDigit {cs : List Char} (h : ¬ ['_', '_'] <:+: cs) :
    ¬ ['_', '_'] <:+: guardDigit cs := by
  unfold guardDigit
  split
  · rename_i c rest
    split
    · rename_i hdigit
      rw [doubled_cons, not_or]
      refine ⟨?_, h⟩
      rintro ⟨-, hhead⟩
      rw [List.head?_cons, Option.some.injEq] at hhead
      rw [hhead] at hdigit
      exact absurd hdigit (by decide)
    · exact h
  · exact h

/-- An underscore is put before taken names only, and these start with none. -/
theorem not_doubled_guardTaken {cs : List Char} (h : ¬ ['_', '_'] <:+: cs) :
    ¬ ['_', '_'] <:+: guardTaken cs ∧ guardTaken cs ≠ ['_'] := by
  unfold guardTaken
  split
  · exact ⟨by decide +kernel, by decide +kernel⟩
  · rename_i hnamed
    rw [not_or] at hnamed
    split
    · rename_i htaken
      refine ⟨?_, by simp [hnamed.1]⟩
      rw [doubled_cons, not_or]
      refine ⟨?_, h⟩
      rintro ⟨-, hhead⟩
      obtain ⟨rest, rfl⟩ := List.head?_eq_some_iff.mp hhead
      rw [isTaken_underscore] at htaken
      exact absurd htaken (by simp)
    · exact ⟨h, hnamed.2⟩

theorem isUserName_ofChars (name : List Char) : IsUserName (ofChars name) := by
  have hsqueezed := (not_doubled_squeeze false name).1
  obtain ⟨hsingle, hlone⟩ := not_doubled_guardTaken (not_doubled_guardDigit hsqueezed)
  exact isUserName_iff.mpr ⟨safe_ofChars name, hlone, hsingle⟩

/-- User names stay as they are. -/
theorem ofChars_eq_self {cs : List Char} (h : IsUserName cs) : ofChars cs = cs := by
  obtain ⟨hsafe, hlone, hsingle⟩ := isUserName_iff.mp h
  have hsqueeze : squeeze false cs = cs := squeeze_eq_self hsafe.chars hsingle (by simp)
  have hdigit : guardDigit cs = cs := by
    unfold guardDigit
    split
    · rename_i c rest
      rw [if_neg (by simp [hsafe.head c rest rfl])]
    · rfl
  have htaken : guardTaken cs = cs := by
    rw [guardTaken, if_neg (not_or.mpr ⟨hsafe.ne_nil, hlone⟩), if_neg (by simp [hsafe.free])]
  rw [ofChars, hsqueeze, hdigit, htaken]

end Identifier

theorem isUserName_identifier (name : String) : Identifier.IsUserName (identifier name).toList := by
  rw [identifier, String.toList_ofList]
  exact Identifier.isUserName_ofChars name.toList

theorem identifier_eq_self {s : String} (h : Identifier.IsUserName s.toList) : identifier s = s := by
  rw [identifier, Identifier.ofChars_eq_self h, String.ofList_toList]

/-! ## Names given as bytes -/

namespace Text

theorem decodeChars_ascii (strict : Bool) {cs : List Char} (h : ∀ c ∈ cs, IsAscii c) :
    decodeChars strict cs.length (cs.map asciiByte) = some cs := by
  induction cs with
  | nil => rfl
  | cons c rest ih =>
      obtain ⟨hc, hrest⟩ := List.forall_mem_cons.mp h
      have hsmall : asciiByte c < 0x80 := by
        have hc' : c.toNat < 128 := hc
        rw [UInt8.lt_iff_toNat_lt, asciiByte, UInt8.toNat_ofNat']
        show c.toNat % 2 ^ 8 < 128
        omega
      have hfirst : decodeChar? (asciiByte c :: rest.map asciiByte) =
          some (c, rest.map asciiByte) := by
        unfold decodeChar?
        exact (if_pos hsmall).trans (by rw [ofNat_asciiByte hc])
      simp only [List.length_cons, List.map_cons, decodeChars, hfirst, ih hrest, Option.map_some]

/-- Text of ASCII characters is read from its bytes. -/
theorem textOf_bytesOf {s : String} (h : ∀ c ∈ s.toList, IsAscii c) : textOf (bytesOf s) = s := by
  have hbytes := bytesOf_ofList h
  rw [String.ofList_toList] at hbytes
  have hdecoded := decodeChars_ascii false h
  rw [textOf, hbytes, List.length_map, hdecoded, Option.getD_some, String.ofList_toList]

end Text

theorem Identifier.isAscii_of_isNameChar {c : Char} (h : Lexeme.isNameChar c = true) :
    Text.IsAscii c := by
  simp only [Lexeme.isNameChar, isWordChar, Bool.or_eq_true, Bool.and_eq_true, decide_eq_true_eq,
    Char.le_def, UInt32.le_iff_toNat_le] at h
  have hends : 'z'.val.toNat = 122 ∧ 'Z'.val.toNat = 90 ∧ '9'.val.toNat = 57 := by decide
  show c.val.toNat < 128
  rcases h with ((h | h) | h) | rfl
  · omega
  · omega
  · omega
  · decide

/-- The identifier of a name given by its bytes. Bytes that are no text are replaced before. -/
def identifierOfBytes (name : List UInt8) : String := identifier (Text.textOf name)

theorem isUserName_identifierOfBytes (name : List UInt8) :
    Identifier.IsUserName (identifierOfBytes name).toList := isUserName_identifier _

theorem identifierOfBytes_eq_self {s : String} (h : Identifier.IsUserName s.toList) :
    identifierOfBytes (Text.bytesOf s) = s := by
  have hchars := (Identifier.isUserName_iff.mp h).1.chars
  have hascii : ∀ c ∈ s.toList, Text.IsAscii c :=
    fun c hc => Identifier.isAscii_of_isNameChar (hchars c hc)
  rw [identifierOfBytes, Text.textOf_bytesOf hascii, identifier_eq_self h]

/-! ## Parameters -/

theorem Kind.uniform?_parameter {C : Type} [Code C] (name : String) (stage : Stage)
    (s : NodeState C) : ∃ d, ((parameter name).evaluate stage s).declarations = [d] ∧
      uniform? d = some ("float".toList, (identifier name).toList) := by
  refine ⟨uniformText "float" (identifier name), ?_, ?_⟩
  · rw [declarations_evaluate rfl, declarations_parameter]
  · exact uniform?_of_words (by decide) (lexemes_identifier name)

/-- Identifiers are user names, and user names are their own identifiers; so making identifiers twice
makes no difference. Both hold of names given as text and of names given by bytes, whether they are
text or not. A parameter of any name declares one float uniform, writes no statement and has one word
as its value, which is the identifier. -/
theorem identifier_retracts :
    (∀ name : String, Identifier.IsUserName (identifier name).toList) ∧
    (∀ s : String, Identifier.IsUserName s.toList → identifier s = s) ∧
    (∀ name : String, identifier (identifier name) = identifier name) ∧
    (∀ bytes, Identifier.IsUserName (identifierOfBytes bytes).toList) ∧
    (∀ s : String, Identifier.IsUserName s.toList → identifierOfBytes (Text.bytesOf s) = s) ∧
    (∀ bytes, identifierOfBytes (Text.bytesOf (identifierOfBytes bytes)) = identifierOfBytes bytes) ∧
    ∀ (name : String) (stage : Stage) (s : NodeState),
      (∃ d, ((Kind.parameter name).evaluate stage s).declarations = [d] ∧
        uniform? d = some ("float".toList, (identifier name).toList)) ∧
      ((Kind.parameter name).evaluate stage s).statements = [] ∧
      ((Kind.parameter name).evaluate stage s).state = s.set 0 ⟨.float, identifier name⟩ ∧
      lexemes (identifier name) = [.word (identifier name).toList] := by
  refine ⟨isUserName_identifier, fun s => identifier_eq_self,
    fun name => identifier_eq_self (isUserName_identifier name), isUserName_identifierOfBytes,
    fun s => identifierOfBytes_eq_self,
    fun bytes => identifierOfBytes_eq_self (isUserName_identifierOfBytes bytes), ?_⟩
  exact fun name stage s => ⟨Kind.uniform?_parameter name stage s, rfl, rfl, lexemes_identifier name⟩

/-- The name of a function is taken; with an underscore before it, it is a user name and stays. -/
theorem identifier_retracts_texture :
    identifier "texture" = "_texture" ∧ Identifier.IsUserName "_texture".toList ∧
      identifier "_texture" = "_texture" ∧
      identifierOfBytes (Text.bytesOf "_texture") = "_texture" := by
  have hmade : identifier "texture" = "_texture" := by decide +kernel
  have hname : Identifier.IsUserName "_texture".toList := hmade ▸ identifier_retracts.1 "texture"
  exact ⟨hmade, hname, identifier_retracts.2.1 _ hname, identifier_retracts.2.2.2.2.1 _ hname⟩

end NodeShader
