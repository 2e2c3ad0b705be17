import NodeShader.Shader.Code
import NodeShader.Shader.Identifier

/-!
# Lexemes of source text

A text is cut into words, the longest runs of letters, digits and underscores, and marks, the other
characters one by one. Cutting loses nothing. A mark ends the word before it, so the lexemes of a
text that was put together around marks are those of its parts: there is one lemma for each
construction of source text.
-/

namespace NodeShader

inductive Lexeme where
  | word (cs : List Char)
  | mark (c : Char)
  deriving DecidableEq, Repr

namespace Lexeme

/-- Can a name hold this character? -/
def isNameChar (c : Char) : Bool := Identifier.isWordChar c || c = '_'

/-- The lexemes of a list of characters. -/
def ofChars : List Char → List Lexeme
  | [] => []
  | c :: cs =>
    if isNameChar c then
      match ofChars cs with
      | .word w :: rest => .word (c :: w) :: rest
      | rest => .word [c] :: rest
    else .mark c :: ofChars cs

/-- The characters of a lexeme. -/
def chars : Lexeme → List Char
  | .word w => w
  | .mark c => [c]

end Lexeme

/-- The lexemes of a text. -/
def lexemes (s : String) : List Lexeme := Lexeme.ofChars s.toList

namespace Lexeme

/-- The lexemes of a text spell it. -/
theorem flatMap_chars_ofChars (cs : List Char) : (ofChars cs).flatMap chars = cs := by
  induction cs with
  | nil => rfl
  | cons c cs ih =>
      unfold ofChars
      split
      · split
        · rename_i w rest hrest
          rw [hrest] at ih
          simpa [chars] using ih
        · simpa [chars] using ih
      · simpa [chars] using ih

/-- A mark ends the word before it. -/
theorem ofChars_append_mark {m : Char} (hm : isNameChar m = false) (a b : List Char) :
    ofChars (a ++ m :: b) = ofChars a ++ .mark m :: ofChars b := by
  induction a with
  | nil => simp [ofChars, hm]
  | cons c a ih =>
      simp only [List.cons_append, ofChars, ih]
      split
      · cases ofChars a with
        | nil => rfl
        | cons x rest => cases x <;> rfl
      · rfl

theorem ofChars_cons_mark {m : Char} (hm : isNameChar m = false) (b : List Char) :
    ofChars (m :: b) = .mark m :: ofChars b := ofChars_append_mark hm [] b

/-- A run of name characters is one word. -/
theorem ofChars_word {w : List Char} (hne : w ≠ []) (hw : ∀ c ∈ w, isNameChar c = true) :
    ofChars w = [.word w] := by
  induction w with
  | nil => exact absurd rfl hne
  | cons c w ih =>
      have hc : isNameChar c = true := hw c (by simp)
      cases w with
      | nil => simp [ofChars, hc]
      | cons d w =>
          have hrest := ih (by simp) fun x hx => hw x (List.mem_cons_of_mem _ hx)
          rw [ofChars, if_pos hc, hrest]

end Lexeme

open Lexeme

theorem lexemes_append_mark {m : Char} (hm : isNameChar m = false) (a : String) (cs : List Char) :
    ofChars (a.toList ++ m :: cs) = lexemes a ++ .mark m :: ofChars cs :=
  ofChars_append_mark hm a.toList cs

/-- Lists of lexemes with a comma and a blank between them. -/
def separated : List (List Lexeme) → List Lexeme
  | [] => []
  | [x] => x
  | x :: rest => x ++ .mark ',' :: .mark ' ' :: separated rest

theorem separated_cons_cons (x y : List Lexeme) (rest : List (List Lexeme)) :
    separated (x :: y :: rest) = x ++ .mark ',' :: .mark ' ' :: separated (y :: rest) := rfl

theorem mem_of_word_mem_separated {w : List Char} {ls : List (List Lexeme)}
    (h : .word w ∈ separated ls) : ∃ l ∈ ls, .word w ∈ l := by
  induction ls with
  | nil => exact absurd h (by simp [separated])
  | cons x rest ih =>
      cases rest with
      | nil => exact ⟨x, by simp, h⟩
      | cons y rest =>
          rw [separated_cons_cons] at h
          simp only [List.mem_append, List.mem_cons, reduceCtorEq, false_or] at h
          rcases h with h | h
          · exact ⟨x, by simp, h⟩
          · obtain ⟨l, hl, hw⟩ := ih h
            exact ⟨l, List.mem_cons_of_mem _ hl, hw⟩

theorem lexemes_joinWith (xs : List String) :
    lexemes (joinWith ", " xs) = separated (xs.map lexemes) := by
  induction xs with
  | nil => rfl
  | cons x rest ih =>
      cases rest with
      | nil => rfl
      | cons y rest =>
          have htext : (joinWith ", " (x :: y :: rest)).toList =
              x.toList ++ ',' :: ' ' :: (joinWith ", " (y :: rest)).toList := by
            simp [joinWith]
          rw [List.map_cons, List.map_cons, separated_cons_cons, ← List.map_cons, ← ih, lexemes,
            htext, lexemes_append_mark (by decide), ofChars_cons_mark (by decide)]
          rfl

/-- The lexemes of an operation. -/
theorem lexemes_binary {c : Char} (hc : isNameChar c = false) (x y : String) :
    lexemes (Code.binary (String.singleton c) x y) =
      lexemes x ++ .mark ' ' :: .mark c :: .mark ' ' :: lexemes y := by
  have htext : (Code.binary (String.singleton c) x y).toList =
      x.toList ++ ' ' :: c :: ' ' :: y.toList := by
    simp [Code.binary]
  rw [lexemes, htext, lexemes_append_mark (by decide), ofChars_cons_mark hc,
    ofChars_cons_mark (by decide)]
  rfl

/-- The lexemes of a call. -/
theorem lexemes_apply (f : String) (xs : List String) :
    lexemes (Code.apply f xs) =
      lexemes f ++ .mark '(' :: separated (xs.map lexemes) ++ [.mark ')'] := by
  have htext : (Code.apply f xs).toList =
      f.toList ++ '(' :: ((joinWith ", " xs).toList ++ ')' :: []) := by
    simp [Code.apply]
  rw [lexemes, htext, lexemes_append_mark (by decide), lexemes_append_mark (by decide),
    lexemes_joinWith]
  simp [ofChars]

/-- The lexemes of a selection. -/
theorem lexemes_select (x component : String) :
    lexemes (Code.select x component) = lexemes x ++ .mark '.' :: lexemes component := by
  have htext : (Code.select x component).toList = x.toList ++ '.' :: component.toList := by
    simp [Code.select]
  rw [lexemes, htext, lexemes_append_mark (by decide)]
  rfl

/-- The lexemes of an assignment. -/
theorem lexemes_assign (target x : String) :
    lexemes (Code.assign target x) =
      lexemes target ++ .mark ' ' :: .mark '=' :: .mark ' ' :: (lexemes x ++ [.mark ';']) := by
  have htext : (Code.assign target x).toList =
      target.toList ++ ' ' :: '=' :: ' ' :: (x.toList ++ ';' :: []) := by
    simp [Code.assign]
  rw [lexemes, htext, lexemes_append_mark (by decide), ofChars_cons_mark (by decide),
    ofChars_cons_mark (by decide), lexemes_append_mark (by decide)]
  rfl

/-- The lexemes of a declaration. -/
theorem lexemes_define (t : Ty) (name x : String) :
    lexemes (Code.define t name x) =
      lexemes t.text ++ .mark ' ' :: (lexemes name ++ .mark ' ' :: .mark '=' :: .mark ' ' ::
        (lexemes x ++ [.mark ';'])) := by
  have htext : (Code.define t name x).toList =
      t.text.toList ++ ' ' :: (name.toList ++ ' ' :: '=' :: ' ' :: (x.toList ++ ';' :: [])) := by
    simp [Code.define]
  rw [lexemes, htext, lexemes_append_mark (by decide), lexemes_append_mark (by decide),
    ofChars_cons_mark (by decide), ofChars_cons_mark (by decide), lexemes_append_mark (by decide)]
  rfl

end NodeShader
