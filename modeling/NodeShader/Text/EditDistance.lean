/-!
# Edit distance

The least number of insertions, deletions and replacements of single characters that turn one text
into another, row by row: entry `j` of a row is the distance from a fixed initial part of the first
text to the first `j` characters of the second.
-/

namespace NodeShader.Text

/-- The rest of the next row. `left` is the entry before, `corner` and `above` are the entries of the
old row at and after its place. -/
def nextEntries (c : Char) : (left corner : Nat) → List Char → List Nat → List Nat
  | left, corner, d :: ds, above :: row =>
    let entry := min (min (left + 1) (above + 1)) (if c = d then corner else corner + 1)
    entry :: nextEntries c entry above ds row
  | _, _, _, _ => []

/-- The row after one more character of the first text. -/
def nextRow (c : Char) (target : List Char) : List Nat → List Nat
  | [] => []
  | corner :: row => (corner + 1) :: nextEntries c (corner + 1) corner target row

/-- The edit distance of two texts. -/
def editDistance (source target : List Char) : Nat :=
  ((source.foldl (fun row c => nextRow c target row) (List.range (target.length + 1))).getLast?).getD 0

end NodeShader.Text
