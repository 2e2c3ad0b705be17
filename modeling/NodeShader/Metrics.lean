import NodeShader.Pass.Compile

/-!
# Metrics

Counts over many passes, by stage: node evaluations by archetype, finished passes, statements per pass
as a histogram, and what the last pass hoisted and declared. They are shown in the text format that
monitoring systems collect: families by name, and within a family by the values of the labels.
-/

namespace NodeShader

/-- What is known about the passes over one stage. -/
structure StageMetrics where
  passes : Nat := 0
  /-- The statements of each pass. -/
  statements : List Nat := []
  hoisted : Nat := 0
  declarations : Nat := 0
  deriving DecidableEq, Repr, Inhabited

structure Metrics where
  /-- Evaluations by archetype and stage. -/
  evaluations : List ((String × String) × Nat) := []
  stages : List (String × StageMetrics) := []
  deriving Repr, Inhabited

namespace Metrics

/-- Changes the value of a key in a list that is sorted by `below`. A key that is not there starts from
`zero`. -/
def alter {κ α : Type} [DecidableEq κ] (below : κ → κ → Bool) (zero : α) (key : κ) (f : α → α) :
    List (κ × α) → List (κ × α)
  | [] => [(key, f zero)]
  | (k, a) :: rest =>
    if k = key then (k, f a) :: rest
    else if below key k then (key, f zero) :: (k, a) :: rest
    else (k, a) :: alter below zero key f rest

def pairBelow (a b : String × String) : Bool :=
  if a.1 ≠ b.1 then a.1 < b.1 else a.2 < b.2

def textBelow (a b : String) : Bool := a < b

def countEvaluation (m : Metrics) (stage : Stage) (archetype : String) : Metrics :=
  { m with evaluations := alter pairBelow 0 (archetype, stage.text) (· + 1) m.evaluations }

def countPass (m : Metrics) (stage : Stage) (stats : Stats) : Metrics :=
  { m with
    stages := alter textBelow {} stage.text
      (fun s =>
        { passes := s.passes + 1, statements := s.statements ++ [stats.statements],
          hoisted := stats.hoisted, declarations := stats.declarations })
      m.stages }

/-- Counts an event of a pass over a stage. -/
def observe (stage : Stage) (m : Metrics) : Event → Metrics
  | .evaluated _ archetype _ => m.countEvaluation stage archetype
  | .hoisted .. => m
  | .finished stats => m.countPass stage stats

/-- How many values a bucket of a histogram holds: those up to its bound. -/
def bucket (values : List Nat) (bound : Nat) : Nat := values.countP (· ≤ bound)

/-- The sum of a histogram. -/
def total (values : List Nat) : Nat := values.foldl (· + ·) 0

/-- Counts the events of passes. -/
def observeAll (m : Metrics) (passes : List (Stage × List Event)) : Metrics :=
  passes.foldl (fun m (stage, events) => events.foldl (observe stage) m) m

/-! ### Text -/

/-- Numbers have an exponent from a million on. -/
def numberStyle : Number.Style := ⟨-4, 6, 2⟩

def number (n : Nat) : String :=
  (Number.Double.ofInt n).read.write .double numberStyle "+Inf" "-Inf" "NaN"

def escapeChar (c : Char) : List Char :=
  if c = '\\' then ['\\', '\\']
  else if c = '\n' then ['\\', 'n']
  else if c = '"' then ['\\', '"']
  else [c]

def label (name value : String) : String :=
  name ++ "=\"" ++ String.ofList (value.toList.flatMap escapeChar) ++ "\""

def sample (name : String) (labels : List (String × String)) (value : Nat) : String :=
  name ++ "\x7b" ++ joinWith "," (labels.map fun (n, v) => label n v) ++ "\x7d " ++ number value ++ "\n"

/-- A family of samples; one without samples is left out. -/
def family (name help type : String) (samples : List String) : String :=
  if samples.isEmpty then ""
  else
    "# HELP " ++ name ++ " " ++ help ++ "\n# TYPE " ++ name ++ " " ++ type ++ "\n" ++
      String.join samples

/-- The upper bounds of the buckets. -/
def bounds : List Nat := (List.range 10).map (2 ^ ·)

def histogram (name stage : String) (values : List Nat) : String :=
  String.join (bounds.map fun b =>
    sample (name ++ "_bucket") [("stage", stage), ("le", number b)] (bucket values b)) ++
    sample (name ++ "_bucket") [("stage", stage), ("le", "+Inf")] values.length ++
    sample (name ++ "_sum") [("stage", stage)] (total values) ++
    sample (name ++ "_count") [("stage", stage)] values.length

def byStage (m : Metrics) (name help type : String) (value : StageMetrics → Nat) : String :=
  family name help type (m.stages.map fun (stage, s) => sample name [("stage", stage)] (value s))

def text (m : Metrics) : String :=
  m.byStage "shadergraph_declarations" "Global declarations emitted by the last pass." "gauge"
      (·.declarations) ++
    m.byStage "shadergraph_hoisted_variables" "Variables hoisted by the last pass." "gauge"
      (·.hoisted) ++
    family "shadergraph_node_evaluations_total" "Number of node evaluations." "counter"
      (m.evaluations.map fun ((archetype, stage), n) =>
        sample "shadergraph_node_evaluations_total" [("archetype", archetype), ("stage", stage)] n) ++
    family "shadergraph_pass_statements" "Statements emitted into main per pass." "histogram"
      (m.stages.map fun (stage, s) => histogram "shadergraph_pass_statements" stage s.statements) ++
    m.byStage "shadergraph_passes_total" "Number of finished generation passes." "counter"
      (·.passes)

end Metrics

end NodeShader
