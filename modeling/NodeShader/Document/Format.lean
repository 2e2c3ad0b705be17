import NodeShader.Files.Path
import NodeShader.Text.Lower
import NodeShader.Text.Quoted

/-!
# Document formats

A format is known by a number, a name, or the extension of a file. Numbers without a name stand for
no format.
-/

namespace NodeShader

structure Format where
  number : UInt8
  deriving DecidableEq, Repr, Inhabited

/-- Why there is no format. -/
inductive FormatError where
  | unknownName (name : String)
  | noExtension (path : String)
  | unknownExtension (path extension : String)
  | unknownNumber (format : Format)
  deriving DecidableEq, Repr

namespace Format

def yaml : Format := ⟨0⟩

def json : Format := ⟨1⟩

def messagePack : Format := ⟨2⟩

def all : List Format := [yaml, json, messagePack]

def text (f : Format) : String :=
  if f = yaml then "yaml"
  else if f = json then "json"
  else if f = messagePack then "msgpack"
  else "format(" ++ Number.natText f.number.toNat ++ ")"

/-- The extension of new files. -/
def extension (f : Format) : String :=
  if f = json then ".json" else if f = messagePack then ".msgpack" else ".yaml"

/-- Reads a name, long or short, in any case. -/
def ofName? (name : String) : Option Format :=
  match Text.lower name with
  | "yaml" | "yml" => some yaml
  | "json" => some json
  | "msgpack" | "mp" => some messagePack
  | _ => none

def ofName (name : String) : Except FormatError Format :=
  match ofName? name with
  | some f => .ok f
  | none => .error (.unknownName name)

/-- The format that the extension of a path stands for. -/
def ofPath (path : String) : Except FormatError Format :=
  let ext := String.ofList (Path.extension path).toList.tail
  if ext = "" then .error (.noExtension path)
  else
    match ofName? ext with
    | some f => .ok f
    | none => .error (.unknownExtension path ext)

end Format

def FormatError.message : FormatError → String
  | .unknownName name => Text.quote name ++ ": unknown document format"
  | .noExtension path => path ++ ": no file extension: unknown document format"
  | .unknownExtension path ext => path ++ ": " ++ Text.quote ext ++ ": unknown document format"
  | .unknownNumber f => f.text ++ ": unknown document format"

end NodeShader
