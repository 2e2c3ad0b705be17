import NodeShader.Proofs.Source.Names

/-!
# Syntax trees

The structure of expressions and statements, how they are written, and the grammar of the language
as far as nodes use it. `Derives level t` says that `t` is written at a level of the grammar without
parentheses other than those it has itself:

* a sum is a product, or a sum and a product with `+` or `-` between them;
* a product is a signed expression, or a product and a signed expression with `*` or `/` between them;
* a signed expression is a primary expression with at most one minus before it;
* a primary expression is a number, a name, a call, a selection or an element of a primary
  expression, or a sum in parentheses.

A tree in which, say, a sum is an operand of a product has a text all the same, but that text is one
of another tree.
-/

namespace NodeShader

open Lexeme

inductive Ast where
  /-- No expression. -/
  | hole
  | number (whole fraction : String)
  | integer (digits : String)
  | name (word : String)
  | negate (x : Ast)
  | binary (operator : String) (x y : Ast)
  | apply (f : String) (args : List Ast)
  | select (x : Ast) (component : String)
  | index (x i : Ast)
  | group (x : Ast)
  | assign (target x : Ast)
  | define (type name : String) (x : Ast)
  | remark (x : Ast) (note : String)
  deriving Repr, Inhabited

namespace Ast

mutual

/-- The text of a tree. -/
def print : Ast → String
  | .hole => ""
  | .number whole fraction => whole ++ "." ++ fraction
  | .integer digits => digits
  | .name w => w
  | .negate x => "-" ++ print x
  | .binary operator x y => Code.binary operator (print x) (print y)
  | .apply f args => Code.apply f (printAll args)
  | .select x component => Code.select (print x) component
  | .index x i => print x ++ "[" ++ print i ++ "]"
  | .group x => "(" ++ print x ++ ")"
  | .assign target x => Code.assign (print target) (print x)
  | .define type w x => type ++ " " ++ w ++ " = " ++ print x ++ ";"
  | .remark x note => Code.remark (print x) note

/-- The texts of trees. -/
def printAll : List Ast → List String
  | [] => []
  | t :: rest => print t :: printAll rest

end

theorem printAll_eq_map (ts : List Ast) : printAll ts = ts.map print := by
  induction ts with
  | nil => rfl
  | cons t rest ih => rw [printAll, ih, List.map_cons]

end Ast

/-! ## The grammar -/

/-- The levels of the grammar, from loose to tight. -/
inductive Level where
  | sum
  | product
  | unary
  | primary
  deriving DecidableEq, Repr

def Level.rank : Level → Nat
  | .sum => 1
  | .product => 2
  | .unary => 3
  | .primary => 4

/-- One word that does not start with a digit. -/
structure IsName (s : String) : Prop where
  word : lexemes s = [.word s.toList]
  start : startsWithDigit s.toList = false

/-- One word that starts with a digit. -/
structure IsDigits (s : String) : Prop where
  word : lexemes s = [.word s.toList]
  start : startsWithDigit s.toList = true

/-- The trees of each level. -/
inductive Derives : Level → Ast → Prop
  | ofProduct {x : Ast} : Derives .product x → Derives .sum x
  | sum {operator : String} {x y : Ast} (hop : operator ∈ ["+", "-"]) :
      Derives .sum x → Derives .product y → Derives .sum (.binary operator x y)
  | ofUnary {x : Ast} : Derives .unary x → Derives .product x
  | product {operator : String} {x y : Ast} (hop : operator ∈ ["*", "/"]) :
      Derives .product x → Derives .unary y → Derives .product (.binary operator x y)
  | ofPrimary {x : Ast} : Derives .primary x → Derives .unary x
  | negate {x : Ast} : Derives .primary x → Derives .unary (.negate x)
  | number {whole fraction : String} : IsDigits whole → IsDigits fraction →
      Derives .primary (.number whole fraction)
  | integer {digits : String} : IsDigits digits → Derives .primary (.integer digits)
  | name {word : String} : IsName word → Derives .primary (.name word)
  | apply {f : String} {args : List Ast} : IsName f → (∀ a ∈ args, Derives .sum a) →
      Derives .primary (.apply f args)
  | select {x : Ast} {component : String} : Derives .primary x → IsName component →
      Derives .primary (.select x component)
  | index {x i : Ast} : Derives .primary x → Derives .sum i → Derives .primary (.index x i)
  | group {x : Ast} : Derives .sum x → Derives .primary (.group x)

/-- What stands at some level can stand at every looser one. -/
theorem Derives.sum_of {l : Level} {t : Ast} (h : Derives l t) : Derives .sum t := by
  cases l with
  | sum => exact h
  | product => exact .ofProduct h
  | unary => exact .ofProduct (.ofUnary h)
  | primary => exact .ofProduct (.ofUnary (.ofPrimary h))

/-! ## Tokens -/

/-- The lexemes of a text without blanks. -/
def tokens (s : String) : List Lexeme := (lexemes s).filter (· ≠ .mark ' ')

theorem IsName.tokens {s : String} (h : IsName s) : NodeShader.tokens s = [.word s.toList] := by
  simp [NodeShader.tokens, h.word]

theorem IsDigits.tokens {s : String} (h : IsDigits s) : NodeShader.tokens s = [.word s.toList] := by
  simp [NodeShader.tokens, h.word]

theorem tokens_binary {c : Char} (hc : isNameChar c = false) (hblank : c ≠ ' ') (x y : String) :
    tokens (Code.binary (String.singleton c) x y) = tokens x ++ .mark c :: tokens y := by
  simp [tokens, lexemes_binary hc, hblank]

theorem tokens_select (x component : String) :
    tokens (Code.select x component) = tokens x ++ .mark '.' :: tokens component := by
  simp [tokens, lexemes_select]

theorem tokens_separated (ls : List (List Lexeme)) :
    (separated ls).filter (· ≠ .mark ' ') =
      [.mark ','].intercalate (ls.map (List.filter (· ≠ .mark ' '))) := by
  induction ls with
  | nil => rfl
  | cons x rest ih =>
      cases rest with
      | nil => simp [separated]
      | cons y rest =>
          rw [separated_cons_cons, List.filter_append, List.map_cons, List.map_cons,
            List.intercalate_cons_cons, ← List.map_cons, ← ih]
          simp

theorem tokens_apply (f : String) (xs : List String) :
    tokens (Code.apply f xs) =
      tokens f ++ .mark '(' :: ([.mark ','].intercalate (xs.map tokens) ++ [.mark ')']) := by
  have hseparated := tokens_separated (xs.map lexemes)
  rw [List.map_map] at hseparated
  rw [tokens, lexemes_apply, List.filter_append, List.filter_append, List.filter_cons_of_pos (by simp),
    hseparated]
  simp only [List.append_assoc, List.cons_append]
  rfl

theorem tokens_negate (x : String) : tokens ("-" ++ x) = .mark '-' :: tokens x := by
  have htext : ("-" ++ x).toList = '-' :: x.toList := by simp
  rw [tokens, lexemes, htext, ofChars_cons_mark (by decide)]
  rfl

theorem tokens_group (x : String) :
    tokens ("(" ++ x ++ ")") = .mark '(' :: (tokens x ++ [.mark ')']) := by
  have htext : ("(" ++ x ++ ")").toList = '(' :: (x.toList ++ ')' :: []) := by simp
  rw [tokens, lexemes, htext, ofChars_cons_mark (by decide), lexemes_append_mark (by decide)]
  simp [tokens, ofChars]

theorem tokens_index (x i : String) :
    tokens (x ++ "[" ++ i ++ "]") = tokens x ++ .mark '[' :: (tokens i ++ [.mark ']']) := by
  have htext : (x ++ "[" ++ i ++ "]").toList = x.toList ++ '[' :: (i.toList ++ ']' :: []) := by simp
  rw [tokens, lexemes, htext, lexemes_append_mark (by decide), lexemes_append_mark (by decide)]
  simp [tokens, ofChars]

theorem tokens_assign (target x : String) :
    tokens (Code.assign target x) = tokens target ++ .mark '=' :: (tokens x ++ [.mark ';']) := by
  simp [tokens, lexemes_assign]

theorem tokens_define (t : Ty) (name x : String) :
    tokens (Code.define t name x) =
      tokens t.text ++ (tokens name ++ .mark '=' :: (tokens x ++ [.mark ';'])) := by
  simp [tokens, lexemes_define]

end NodeShader
