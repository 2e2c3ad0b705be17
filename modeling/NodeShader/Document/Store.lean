import NodeShader.Document.Codec
import NodeShader.Files.Basic

/-!
# Documents in files

The extension of a path says which format a document has there.
-/

namespace NodeShader

/-- Why a document cannot be read from a file or written to one. -/
inductive StoreError where
  | format (cause : FormatError)
  | missing (path : String) (cause : MissingFile)
  | codec (path : String) (cause : CodecError)
  | encode (path : String) (cause : EncodeError)
  | decode (path : String) (cause : DecodeError)
  deriving DecidableEq, Repr

def StoreError.message : StoreError → String
  | .format cause => cause.message
  | .missing path cause => "read " ++ path ++ ": " ++ cause.message
  | .codec path cause => path ++ ": " ++ cause.message
  | .encode path cause => "save " ++ path ++ ": " ++ cause.message
  | .decode path cause => "load " ++ path ++ ": " ++ cause.message

namespace Files

def readDocument (fs : Files) (path : String) : Except StoreError Document := do
  let f ← (Format.ofPath path).mapError .format
  let data ← (fs.read path).mapError (.missing path)
  (Document.decode data f).mapError (.codec path)

def writeDocument (fs : Files) (path : String) (d : Document) : Except StoreError Files := do
  let f ← (Format.ofPath path).mapError .format
  let data ← (d.encode f).mapError (.codec path)
  return fs.write path data

/-- Writes a graph down and puts it into a file. -/
def save (fs : Files) (path : String) (g : ShaderGraph) (r : Registry) (id fresh : Uuid) :
    Except StoreError Files := do
  let d ← (Document.ofGraph g r id fresh).mapError (.encode path)
  fs.writeDocument path d

/-- Reads a document from a file and makes a graph of it. -/
def load (fs : Files) (path : String) (r : Registry) : Except StoreError (Document × Decoded) := do
  let d ← fs.readDocument path
  let decoded ← (d.toGraph r).mapError (.decode path)
  return (d, decoded)

end Files

end NodeShader
