import NodeShader.Pass.Evaluate

/-!
# Compiling graphs

A stage compiles to its source and an account of the pass. Problems on single inputs do not prevent
source from being written; a cycle does, and then the graph keeps the states it had.
-/

namespace NodeShader

/-- The source of a stage and what is known about it. -/
structure Compiled where
  stage : Stage
  source : String
  roots : List NodeId
  declarations : List String
  stats : Stats
  diagnostics : List SlotError
  deriving Repr, Inhabited

/-- Why there is no source. -/
inductive CompileError where
  | absent
  | cycle (stage : Stage) (c : Cycle)
  deriving DecidableEq, Repr

def CompileError.message : CompileError → String
  | .absent => "glsl: nil graph or registry"
  | .cycle stage c => "glsl: " ++ stage.text ++ " stage: " ++ c.message

/-- The account of a pass that has run. -/
def Pass.compiled (p : Pass) (g : ShaderGraph) : Compiled :=
  { stage := p.stage, source := p.source, roots := p.roots g, declarations := p.declarations,
    stats := p.stats, diagnostics := p.diagnostics g }

/-- Runs a pass over a graph. -/
def runStage (g : ShaderGraph) (r : Registry) (stage : Stage) (o : Options) :
    Except CompileError Unit × Pass :=
  match (Pass.start g r stage o).run g with
  | (.ok (), p) => (.ok (), p)
  | (.error c, p) => (.error (.cycle stage c), p)

/-- What compiling leaves behind, events included when it failed. -/
structure CompileRun (α : Type) where
  outcome : Except CompileError α
  graph : ShaderGraph
  events : List (Stage × List Event)

/-- Compiles one stage and leaves the states on the nodes. -/
def compileStage (g : ShaderGraph) (r : Registry) (stage : Stage) (o : Options) :
    CompileRun Compiled :=
  match runStage g r stage o with
  | (.ok (), p) =>
    { outcome := .ok (p.compiled g), graph := p.publish g, events := [(stage, p.events)] }
  | (.error e, p) => { outcome := .error e, graph := g, events := [(stage, p.events)] }

/-- Both stages of a shader program. -/
structure Program where
  vertex : Compiled
  fragment : Compiled
  deriving Repr, Inhabited

def Program.stage (p : Program) (s : Stage) : Compiled :=
  if s = .vertex then p.vertex else p.fragment

/-- Compiles both stages. A node that both evaluate keeps the state of the fragment stage. -/
def compileProgram (g : ShaderGraph) (r : Registry) (o : Options) : CompileRun Program :=
  let (vertexOk, v) := runStage g r .vertex o
  let (fragmentOk, f) := runStage g r .fragment o
  let events := [(Stage.vertex, v.events), (Stage.fragment, f.events)]
  match vertexOk, fragmentOk with
  | .ok (), .ok () =>
    { outcome := .ok ⟨v.compiled g, f.compiled g⟩
      graph := f.publishWhere (·.state.evaluated) (v.publish g)
      events }
  | .error e, _ | .ok (), .error e => { outcome := .error e, graph := g, events }

end NodeShader
