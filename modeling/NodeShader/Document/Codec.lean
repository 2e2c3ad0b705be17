import NodeShader.Document.Format
import NodeShader.Document.Graph
import NodeShader.Document.Json
import NodeShader.Document.MessagePack
import NodeShader.Document.Yaml

/-!
# Documents as bytes

A document is written and read in one of the formats. Reading does not check it.
-/

namespace NodeShader

/-- Why bytes are no document, or a document cannot become bytes. -/
inductive CodecError where
  | format (cause : FormatError)
  | unreadable (format : Format)
  | unwritable (format : Format)
  deriving DecidableEq, Repr

def CodecError.message : CodecError → String
  | .format cause => cause.message
  | .unreadable f => "decode " ++ f.text ++ ": malformed document"
  | .unwritable f => "encode " ++ f.text ++ ": value cannot be represented"

namespace Document

def encode (d : Document) (f : Format) : Except CodecError (List UInt8) :=
  if f = .yaml then .ok (Text.bytesOf d.toYaml)
  else if f = .json then
    match d.toJson? with
    | some s => .ok (Text.bytesOf s)
    | none => .error (.unwritable f)
  else if f = .messagePack then .ok d.toMessagePack
  else .error (.format (.unknownNumber f))

def orUnreadable (f : Format) : Option Document → Except CodecError Document
  | some d => .ok d
  | none => .error (.unreadable f)

def decode (bytes : List UInt8) (f : Format) : Except CodecError Document :=
  if f = .yaml then orUnreadable f (ofYaml? bytes)
  else if f = .json then orUnreadable f (ofJson? bytes)
  else if f = .messagePack then orUnreadable f (ofMessagePack? bytes)
  else .error (.format (.unknownNumber f))

end Document

end NodeShader
