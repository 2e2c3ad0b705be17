import NodeShader.Document.Store
import NodeShader.Log
import NodeShader.Node.Catalogue

/-!
# From documents to programs

The whole way in one step: a document is read from a file, made into a graph of the built-in
archetypes, and compiled.
-/

namespace NodeShader

open Log (Entry)

/-- Why there is no program. -/
inductive GenerateError where
  | store (cause : StoreError)
  | compile (cause : CompileError)
  | canceled
  deriving DecidableEq, Repr

def GenerateError.message : GenerateError → String
  | .store cause => cause.message
  | .compile cause => "generation error: " ++ cause.message
  | .canceled => "generation error: context canceled"

/-- What generating a program leaves behind. -/
structure Generation where
  outcome : Except GenerateError Program
  /-- What there is to say about the document. -/
  entries : List Entry := []
  events : List (Stage × List Event) := []

/-- A graph that was loaded with the built-in archetypes, and what there is to say about it. -/
structure Opened where
  document : Document
  decoded : Decoded
  entries : List Entry

/-- Loads a graph of the built-in archetypes. Links that cannot be made are dropped. -/
def Files.openGraph (fs : Files) (path : String) : Except StoreError Opened := do
  let (document, decoded) ← fs.load path .builtin
  return { document, decoded
           entries := Log.withPairs [("path", path)] (decoded.logEntries document.id) }

/-- Compiles both stages of a graph, and leaves the states on its nodes. -/
def generate (g : ShaderGraph) (r : Registry) (o : Options) : Generation × ShaderGraph :=
  let run := compileProgram g r o
  ({ outcome := run.outcome.mapError .compile, events := run.events }, run.graph)

/-- Compiles both stages of the document in a file. -/
def Files.generate (fs : Files) (path : String) (o : Options) : Generation :=
  match fs.openGraph path with
  | .error cause => { outcome := .error (.store cause) }
  | .ok opened =>
    { (NodeShader.generate opened.decoded.graph .builtin o).1 with entries := opened.entries }

end NodeShader
