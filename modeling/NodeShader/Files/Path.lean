import NodeShader.Shader.Value

/-!
# Paths

Paths are texts divided by slashes and are handled by their spelling alone.
-/

namespace NodeShader.Path

/-- Splits at slashes; the pieces between two of them are empty. -/
def split : List Char → List (List Char)
  | [] => [[]]
  | c :: rest =>
    if c = '/' then [] :: split rest
    else match split rest with
      | first :: more => (c :: first) :: more
      | [] => [[c]]

/-- Drops empty and `.` elements and lets `..` take back the element before it. `kept` holds the
elements so far, last first. -/
def simplify (rooted : Bool) : (kept : List (List Char)) → List (List Char) → List (List Char)
  | kept, [] => kept.reverse
  | kept, e :: rest =>
    if e = [] ∨ e = ['.'] then simplify rooted kept rest
    else if e = ['.', '.'] then
      match kept with
      | last :: before =>
        if last = ['.', '.'] then simplify rooted (e :: kept) rest
        else simplify rooted before rest
      | [] => if rooted then simplify rooted [] rest else simplify rooted [e] rest
    else simplify rooted (e :: kept) rest

/-- Elements with slashes between them. -/
def joinElements : List (List Char) → List Char
  | [] => []
  | [e] => e
  | e :: rest => e ++ '/' :: joinElements rest

/-- The shortest spelling of the same path. -/
def clean (path : String) : String :=
  let cs := path.toList
  let rooted := cs.head? = some '/'
  let body := joinElements (simplify rooted [] (split cs))
  if rooted then String.ofList ('/' :: body)
  else if body.isEmpty then "." else String.ofList body

/-- From the last point of the last element on; empty when there is none. -/
def extension (path : String) : String :=
  let tail := path.toList.reverse.takeWhile (· ≠ '/')
  let ext := tail.takeWhile (· ≠ '.')
  if ext.length < tail.length then String.ofList ('.' :: ext.reverse) else ""

/-- The last element. -/
def base (path : String) : String :=
  if path = "" then "."
  else
    let trimmed := path.toList.reverse.dropWhile (· = '/')
    if trimmed.isEmpty then "/" else String.ofList (trimmed.takeWhile (· ≠ '/')).reverse

/-- Everything before the last element. -/
def directory (path : String) : String :=
  clean (String.ofList (path.toList.reverse.dropWhile (· ≠ '/')).reverse)

/-- A path below a directory. -/
def join (dir name : String) : String :=
  if dir = "" then (if name = "" then "" else clean name) else clean (dir ++ "/" ++ name)

/-- A text without an ending, if it has it. -/
def dropSuffix (s ending : String) : String :=
  if ending.toList.reverse.isPrefixOf s.toList.reverse then
    String.ofList (s.toList.take (s.toList.length - ending.toList.length))
  else s

/-- The name of a file without directories and extension. -/
def stem (path : String) : String := dropSuffix (base path) (extension path)

end NodeShader.Path
