import NodeShader.Files.Path
import NodeShader.Text.Utf8

/-!
# Files

A file system as a value: contents by path, in the order the files came in. Directories exist as far
as files lie in them, and read as empty.
-/

namespace NodeShader

structure Files where
  entries : List (String × List UInt8) := []
  deriving Repr, Inhabited

/-- A file that is not there. -/
structure MissingFile where
  path : String
  deriving DecidableEq, Repr

def MissingFile.message (e : MissingFile) : String := "open " ++ e.path ++ ": file does not exist"

namespace Files

/-- The one spelling under which a file is kept. -/
def key (path : String) : String :=
  let p := Path.clean path
  if p = "." ∨ p = ".." then "/" else p

def hasFile (fs : Files) (path : String) : Bool := fs.entries.any (·.1 = key path)

/-- Does a file lie below the path? -/
def isDirectory (fs : Files) (path : String) : Bool :=
  fs.entries.any fun (k, _) => ((key path).toList ++ ['/']).isPrefixOf k.toList

def read (fs : Files) (path : String) : Except MissingFile (List UInt8) :=
  match fs.entries.lookup (key path) with
  | some data => .ok data
  | none => if fs.isDirectory path then .ok [] else .error ⟨key path⟩

def write (fs : Files) (path : String) (data : List UInt8) : Files :=
  let k := key path
  if fs.entries.any (·.1 = k) then
    ⟨fs.entries.map fun e => if e.1 = k then (k, data) else e⟩
  else ⟨fs.entries ++ [(k, data)]⟩

/-- The files that are new, or have other contents than before. -/
def changedSince (fs before : Files) : List (String × List UInt8) :=
  fs.entries.filter fun (path, data) => before.entries.lookup path ≠ some data

end Files

end NodeShader
