import NodeShader.Command.Address
import NodeShader.Command.Config
import NodeShader.Command.Usage
import NodeShader.Generate

/-!
# Running commands

A run of the program over a file system: what it prints, what it logs, which files it writes and how it
fails. Watching builds once here; building again when the document changes is up to the caller.
-/

namespace NodeShader.Command

open Log (Entry)

/-- Why a run fails. -/
inductive RunError where
  | arguments (cause : ArgumentError)
  | config (cause : ConfigError)
  | settings (cause : ConfigProblem)
  | generate (cause : GenerateError)
  | store (cause : StoreError)
  | decode (path : String) (cause : DecodeError)
  | dropped (path : String) (links : List DroppedLink)
  | metrics (address : String) (cause : AddressError)
  deriving DecidableEq, Repr

/-- Several problems as one text. -/
def listProblems (problems : List String) : String :=
  (if problems.length = 1 then "1 error occurred:"
    else Number.natText problems.length ++ " errors occurred:") ++
    String.join (problems.map fun p => "\n\t* " ++ p) ++ "\n\n"

def RunError.message : RunError → String
  | .arguments cause => cause.message
  | .config cause => cause.message
  | .settings cause => cause.message
  | .generate cause => cause.message
  | .store cause => cause.message
  | .decode path cause => path ++ ": " ++ cause.message
  | .dropped path links => path ++ ": " ++ listProblems (links.map DroppedLink.message)
  | .metrics address cause => "metrics server on " ++ address ++ ": " ++ cause.message

/-- What a run leaves behind. -/
structure Run where
  files : Files
  stdout : String := ""
  /-- The usage, for arguments that cannot be run. -/
  usage : String := ""
  /-- Log entries, with the part of the program they come from. -/
  entries : List (String × Entry) := []
  failure : Option RunError := none

namespace Run

def print (r : Run) (text : String) : Run := { r with stdout := r.stdout ++ text }

def log (r : Run) (e : Entry) : Run := { r with entries := r.entries ++ [(programName, e)] }

def logAll (r : Run) (es : List Entry) : Run := es.foldl log r

def fail (r : Run) (e : RunError) : Run := { r with failure := some e }

end Run

/-! ### Compiling -/

def diagnosticEntry (stage : Stage) (e : SlotError) : Entry :=
  { level := .warn, message := "diagnostic", pairs := [("stage", stage.text), ("error", e.message)] }

/-- Prints the source of a stage or puts it into a file. -/
def writeStage (c : Config) (name : String) (compiled : Compiled) (r : Run) : Run :=
  let stage := compiled.stage
  if c.outputDirectory = "" then r.print ("// " ++ stage.text ++ "\n" ++ compiled.source)
  else
    let path := Path.join c.outputDirectory (name ++ stage.extension)
    { r with files := r.files.write path (Text.bytesOf compiled.source) }.log
      { level := .info, message := "wrote stage"
        pairs := [("path", path), ("statements", Number.natText compiled.stats.statements),
          ("hoisted", Number.natText compiled.stats.hoisted)] }

/-- What the passes have to say, each under the name of its stage. -/
def passEntries (events : List (Stage × List Event)) : List (String × Entry) :=
  events.flatMap fun (stage, es) =>
    es.map fun e => (programName ++ "." ++ stage.text, e.logEntry)

/-- Compiles a document and writes the stages that are asked for. -/
def build (c : Config) (stages : List Stage) (o : Options) (path : String) (r : Run) : Run :=
  let g := r.files.generate path o
  let r := r.logAll g.entries
  let r := { r with entries := r.entries ++ passEntries g.events }
  match g.outcome with
  | .error cause => r.fail (.generate cause)
  | .ok program =>
    stages.foldl
      (fun r stage =>
        let compiled := program.stage stage
        writeStage c (Path.stem path) compiled
          (r.logAll (compiled.diagnostics.map (diagnosticEntry stage)))) r

/-- A build while watching: a failure is logged and does not end the run. -/
def buildWatched (c : Config) (stages : List Stage) (o : Options) (path : String) (r : Run) : Run :=
  let built := build c stages o path r
  match built.failure with
  | some e =>
    { built with failure := none }.log
      { level := .error, message := "compile failed", pairs := [("path", path), ("error", e.message)] }
  | none => built.log { level := .info, message := "compiled", pairs := [("path", path)] }

/-- Compiles, once or watching. A run that is canceled from the start does not get to listen. -/
def runCompile (c : Config) (a : Arguments) (canceled : Bool) (r : Run) : Run :=
  match c.compileOptions, c.shaderStages with
  | .error cause, _ | _, .error cause => r.fail (.settings cause)
  | .ok o, .ok stages =>
    let path := a.positional 0
    if !a.isSet "watch" then build c stages o path r
    else
      let r := buildWatched c stages o path r
      if c.metricsAddress = "" || canceled then r
      else
        match checkAddress c.metricsAddress with
        | .ok () => r
        | .error cause => r.fail (.metrics c.metricsAddress cause)

/-! ### Converting -/

/-- The path that a document is written to. -/
def outputPath (c : Config) (path : String) : Except RunError String :=
  if Path.extension path ≠ "" then .ok path
  else
    match Format.ofName c.format with
    | .ok f => .ok (path ++ f.extension)
    | .error cause => .error (.settings (.format cause))

/-- Reads a document, checks that it is a graph without dropped links, and writes it again. -/
def runConvert (c : Config) (a : Arguments) (r : Run) : Run :=
  let source := a.positional 0
  match r.files.readDocument source with
  | .error cause => r.fail (.store cause)
  | .ok d =>
    match d.toGraph .builtin with
    | .error cause => r.fail (.decode source cause)
    | .ok decoded =>
      let r := r.logAll (decoded.logEntries d.id)
      if !decoded.dropped.isEmpty then r.fail (.dropped source decoded.dropped)
      else
        match outputPath c (a.positional 1) with
        | .error e => r.fail e
        | .ok target =>
          match r.files.writeDocument target d with
          | .error cause => r.fail (.store cause)
          | .ok files =>
            { r with files }.log
              { level := .info, message := "converted", pairs := [("from", source), ("to", target)] }

/-! ### Listing archetypes -/

/-- A table whose columns, all but the last, are filled up to their widest cell and two blanks more. -/
def table (rows : List (List String)) : String :=
  let columns := (rows.map List.length).foldl max 0
  let width (i : Nat) : Nat := (rows.map fun row => ((row[i]?).getD "").length).foldl max 0 + 2
  let cell (i : Nat) (s : String) : String :=
    if i + 1 < columns then s ++ spaces (width i - s.length) else s
  String.join (rows.map fun row => String.join (row.mapIdx cell) ++ "\n")

def archetypeRow (a : Archetype) : List String :=
  [a.category, a.id, a.title, joinWith "," (a.inputs.map (·.name)),
    joinWith "," (a.outputs.map (·.name))]

def runArchetypes (a : Arguments) (r : Run) : Run :=
  r.print (table (["CATEGORY", "ID", "TITLE", "INPUTS", "OUTPUTS"] ::
    (Registry.builtin.filter (a.value "filter")).map archetypeRow))

/-! ### The program -/

/-- The settings of a run: those of the arguments go over those of the file. -/
def Config.override (c : Config) (a : Arguments) : Config :=
  let pick (long old : String) : String := if a.value long = "" then old else a.value long
  { c with
    logLevel := pick "log-level" c.logLevel
    outputDirectory := pick "output" c.outputDirectory
    stages := if a.value "stage" = "" then c.stages else [a.value "stage"]
    version := pick "glsl" c.version
    metricsAddress := pick "metrics-addr" c.metricsAddress
    format := pick "format" c.format }

/-- The log entries of a run as lines, as far as the settings admit them. -/
structure Finished where
  run : Run
  lines : List String := []

def finish (c : Config) (r : Run) : Finished :=
  let t := (Log.Threshold.ofName? c.logLevel).getD .off
  { run := r, lines := r.entries.flatMap fun (name, e) => Log.lines t name [e] }

def runSubcommand (c : Config) (a : Arguments) (canceled : Bool) (r : Run) : Run :=
  match a.subcommand.map (·.name) with
  | some "compile" => runCompile c a canceled r
  | some "convert" => runConvert c a r
  | some "archetypes" => runArchetypes a r
  | _ => r.print (help none)

/-- The files that a run reads: the settings and the document. -/
def inputPaths (arguments : List String) : List String :=
  match parseArguments arguments with
  | .error _ => []
  | .ok a =>
    (if a.value "config" = "" then Config.defaultPath else a.value "config") :: a.positionals.take 1

/-- Does a run go on after its first build? -/
def isWatching (arguments : List String) : Bool :=
  match parseArguments arguments with
  | .error _ => false
  | .ok a => a.isSet "watch"

/-- Runs the program. -/
def run (files : Files) (canceled : Bool) (arguments : List String) : Finished :=
  let r : Run := { files }
  match parseArguments arguments with
  | .error ⟨.help, read⟩ => { run := r.print (help read.subcommand) }
  | .error ⟨.version, _⟩ => { run := r.print (programVersion ++ "\n") }
  | .error ⟨e, read⟩ =>
    { run := { r with usage := usage read.subcommand, failure := some (.arguments e) } }
  | .ok a =>
    match Config.load files (a.value "config") with
    | .error cause => { run := r.fail (.config cause) }
    | .ok c =>
      let c := c.override a
      match c.validate with
      | .error cause => { run := r.fail (.settings cause) }
      | .ok () => finish c (runSubcommand c a canceled r)

end NodeShader.Command
