import NodeShader.Document.Yaml
import NodeShader.Document.Format
import NodeShader.Files.Basic
import NodeShader.Log

/-!
# Settings

What a settings file says, over the defaults. A file of the default name need not be there.
-/

namespace NodeShader.Command

structure Config where
  version : String := "120"
  /-- The length from which values become variables. -/
  threshold : Int := Options.defaultThreshold
  stages : List String := ["vertex", "fragment"]
  /-- Where sources are put; they are printed when it is empty. -/
  outputDirectory : String := ""
  /-- The format of documents without an extension. -/
  format : String := "yaml"
  logLevel : String := "info"
  metricsAddress : String := ""
  deriving DecidableEq, Repr, Inhabited

/-- What is wrong with a setting. -/
inductive ConfigProblem where
  | version (text : String)
  | threshold (given : Int)
  | noStages
  | stage (name : String)
  | format (cause : FormatError)
  | logLevel (name : String)
  deriving DecidableEq, Repr

def ConfigProblem.message : ConfigProblem → String
  | .version text => Version.invalidText text
  | .threshold n => "hoist_threshold must be positive, got " ++ Number.intText n
  | .noStages => "stages is empty"
  | .stage name => Stage.unknownText name
  | .format cause => cause.message
  | .logLevel name => "unknown log_level " ++ Text.quote name

/-- Why there are no settings. -/
inductive ConfigError where
  | missing (cause : MissingFile)
  | malformed (path : String)
  | invalid (path : String) (cause : ConfigProblem)
  deriving DecidableEq, Repr

def ConfigError.message : ConfigError → String
  | .missing cause => "read config: " ++ cause.message
  | .malformed path => "parse config " ++ path ++ ": malformed document"
  | .invalid path cause => "config " ++ path ++ ": " ++ cause.message

namespace Config

/-- The name of a settings file that is read when it is there. -/
def defaultPath : String := "shadergraph.yaml"

/-! ### Checking -/

def parsedVersion (c : Config) : Except ConfigProblem Version :=
  match Version.parse? c.version with
  | some v => .ok v
  | none => .error (.version c.version)

/-- The stages of a name; `all` is every stage. -/
def stagesOf (name : String) : Except ConfigProblem (List Stage) :=
  if name = "all" then .ok Stage.all
  else
    match Stage.ofName? name with
    | some s => .ok [s]
    | none => .error (.stage name)

/-- The stages without repetitions, in the order they are named. -/
def shaderStages (c : Config) : Except ConfigProblem (List Stage) := do
  let named ← c.stages.mapM stagesOf
  return named.flatten.eraseDups

/-- The first thing that is wrong, in the order of the checks. -/
def validate (c : Config) : Except ConfigProblem Unit := do
  let _ ← c.parsedVersion
  if c.threshold < 1 then throw (.threshold c.threshold)
  if c.stages.isEmpty then throw .noStages
  let _ ← c.shaderStages
  let _ ← (Format.ofName c.format).mapError .format
  if (Log.Threshold.ofName? c.logLevel).isNone then throw (.logLevel c.logLevel)

def compileOptions (c : Config) : Except ConfigProblem Options := do
  return { version := ← c.parsedVersion, threshold := c.threshold }

/-! ### Reading -/

def readField (name : String) (n : Yaml.Node) (c : Config) : Option Config :=
  match name with
  | "version" => Yaml.keep n.text? c fun version => { c with version }
  | "hoist_threshold" => Yaml.keep n.word? c fun threshold => { c with threshold }
  | "stages" =>
    Yaml.keepList (n.listOf? (·.text?)) fun stages => { c with stages := stages.getD [] }
  | "output_dir" => Yaml.keep n.text? c fun outputDirectory => { c with outputDirectory }
  | "format" => Yaml.keep n.text? c fun format => { c with format }
  | "log_level" => Yaml.keep n.text? c fun logLevel => { c with logLevel }
  | "metrics_addr" => Yaml.keep n.text? c fun metricsAddress => { c with metricsAddress }
  | _ => some c

/-- Settings written over the defaults. -/
def ofYaml? (bytes : List UInt8) : Option Config :=
  match Yaml.document? bytes with
  | none => none
  | some none => some {}
  | some (some root) => root.over? readField {}

/-- Reads settings from a file. -/
def read (fs : Files) (path : String) : Except ConfigError Config := do
  let data ← (fs.read path).mapError .missing
  match ofYaml? data with
  | none => throw (.malformed path)
  | some c =>
    c.validate.mapError (.invalid path)
    return c

/-- The settings at a path, or those of the default name when no path is given. -/
def load (fs : Files) (path : String) : Except ConfigError Config :=
  if path ≠ "" then read fs path
  else if fs.hasFile defaultPath then read fs defaultPath
  else .ok {}

end Config

end NodeShader.Command
