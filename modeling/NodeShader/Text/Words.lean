import NodeShader.Shader.Value
import NodeShader.Text.Blank

/-!
# Words and titles
-/

namespace NodeShader.Text

def isUpper (c : Char) : Bool := 'A' ≤ c && c ≤ 'Z'

def isLower (c : Char) : Bool := 'a' ≤ c && c ≤ 'z'

/-- Splits at the characters of a class; pieces without characters are left out. -/
def splitFields (isSeparator : Char → Bool) : List Char → List (List Char)
  | [] => []
  | c :: rest =>
    if isSeparator c then splitFields isSeparator rest
    else
      match rest with
      | [] => [[c]]
      | d :: _ =>
        if isSeparator d then [c] :: splitFields isSeparator rest
        else match splitFields isSeparator rest with
          | word :: more => (c :: word) :: more
          | [] => [[c]]

/-- A word in camel case. A letter is raised at the start, after a digit and after a divider; of two
capitals in a row the second is lowered unless it is to be raised. Letters and digits of ASCII are
kept and nothing else; a character that is dropped and is no divider ends the raising. -/
def camel : (raise afterUpper : Bool) → List Char → List Char
  | _, _, [] => []
  | raise, afterUpper, c :: rest =>
    if isUpper c then
      (if afterUpper && !raise then c.toLower else c) :: camel false true rest
    else if isLower c then (if raise then c.toUpper else c) :: camel false false rest
    else if '0' ≤ c && c ≤ '9' then c :: camel true false rest
    else camel (c = '_' || c = ' ' || c = '-' || c = '.') false rest

/-- The title of an identifier: its words, divided by `_` or `-`, in camel case with blanks between
them. -/
def titleOf (id : String) : String :=
  let words := splitFields (fun c => c = '_' || c = '-') id.toList
  joinWith " " (words.map fun w => String.ofList (camel true false (trimBlank w)))

end NodeShader.Text
