import NodeShader.Text.Quoted

/-!
# Command line arguments

Options may stand anywhere, with one dash or more, and with their value after `=` or as the next
argument. Options of the program may also follow the subcommand. What is not an option is the
subcommand and then its positional arguments; everything after `--` is positional.
-/

namespace NodeShader.Command

/-- An option. -/
structure OptionSpec where
  long : String
  short : String := ""
  /-- A switch takes no value. -/
  isSwitch : Bool := false
  help : String
  deriving DecidableEq, Repr, Inhabited

/-- A positional argument. All of them are required. -/
structure PositionalSpec where
  name : String
  help : String
  deriving DecidableEq, Repr, Inhabited

structure Subcommand where
  name : String
  help : String
  positionals : List PositionalSpec := []
  options : List OptionSpec := []
  deriving DecidableEq, Repr, Inhabited

/-- Options of the program. -/
def globalOptions : List OptionSpec :=
  [{ long := "config", short := "c", help := "config file (default: shadergraph.yaml when present)" },
    { long := "log-level", help := "trace, debug, info, warn or error" }]

def compileCommand : Subcommand where
  name := "compile"
  help := "generate GLSL from a graph document"
  positionals := [⟨"graph", "graph document (.yaml, .json or .msgpack)"⟩]
  options :=
    [{ long := "output", short := "o", help := "output directory (default: stdout)" },
      { long := "stage", help := "vertex, fragment or all" },
      { long := "glsl", help := "GLSL version, e.g. 120 or 100" },
      { long := "watch", short := "w", isSwitch := true,
        help := "recompile whenever the document changes" },
      { long := "metrics-addr", help := "serve Prometheus metrics while watching" }]

def convertCommand : Subcommand where
  name := "convert"
  help := "re-encode a graph document"
  positionals := [⟨"in", "input document"⟩,
    ⟨"out", "output document; the extension picks the format"⟩]
  options := [{ long := "format", short := "f", help := "format used when OUT has no extension" }]

def archetypesCommand : Subcommand where
  name := "archetypes"
  help := "list registered node archetypes"
  options := [{ long := "filter", short := "f", help := "only list archetypes matching this text" }]

def subcommands : List Subcommand := [compileCommand, convertCommand, archetypesCommand]

/-! ### Parsing -/

/-- Why arguments are not run. Asking for help or the version is one reason. -/
inductive ArgumentError where
  | help
  | version
  | unknownArgument (argument : String)
  | missingValue (argument : String)
  | invalidSwitch (argument value : String)
  | invalidSubcommand (name : String)
  | tooManyPositionals (argument : String)
  | required (name : String)
  deriving DecidableEq, Repr

def ArgumentError.message : ArgumentError → String
  | .help => "help requested by user"
  | .version => "version requested by user"
  | .unknownArgument a => "unknown argument " ++ a
  | .missingValue a => "missing value for " ++ a
  | .invalidSwitch a value =>
    "error processing " ++ a ++ ": strconv.ParseBool: parsing " ++ Text.quote value ++
      ": invalid syntax"
  | .invalidSubcommand name => "invalid subcommand: " ++ name
  | .tooManyPositionals a => "too many positional arguments at '" ++ a ++ "'"
  | .required name => name ++ " is required"

/-- What has been read of the arguments. -/
structure Arguments where
  subcommand : Option Subcommand := none
  /-- Values of options by their long name; the last one counts. -/
  values : List (String × String) := []
  positionals : List String := []
  deriving Repr, Inhabited

namespace Arguments

/-- The value of an option; empty when it was not given. -/
def value (a : Arguments) (long : String) : String := (a.values.lookup long).getD ""

def isSet (a : Arguments) (long : String) : Bool := a.value long = "true"

/-- A positional argument by its place. -/
def positional (a : Arguments) (i : Nat) : String := a.positionals.getD i ""

/-- The options that can be given now. -/
def options (a : Arguments) : List OptionSpec :=
  globalOptions ++ (a.subcommand.map (·.options)).getD []

def set (a : Arguments) (o : OptionSpec) (value : String) : Arguments :=
  { a with values := (o.long, value) :: a.values }

end Arguments

/-- Does an argument look like an option? Dashes alone do not. -/
def isOption (argument : String) : Bool :=
  argument.toList.head? = some '-' && argument.toList.any (· ≠ '-')

/-- The name of an option and the value behind `=`, which may be empty. -/
def splitOption (argument : String) : String × String :=
  let body := argument.toList.dropWhile (· = '-')
  (String.ofList (body.takeWhile (· ≠ '=')), String.ofList (body.dropWhile (· ≠ '=')).tail)

/-- Truth values as they may be written. -/
def switchValue? (s : String) : Option Bool :=
  if ["1", "t", "T", "TRUE", "true", "True"].contains s then some true
  else if ["0", "f", "F", "FALSE", "false", "False"].contains s then some false
  else none

/-- Why parsing stopped, and what had been read until then. -/
structure Refusal where
  error : ArgumentError
  read : Arguments
  deriving Repr

/-- Gives an option its value. -/
def assign (a : Arguments) (o : OptionSpec) (argument value : String) : Except Refusal Arguments :=
  if o.isSwitch then
    match switchValue? value with
    | some b => .ok (a.set o (if b then "true" else "false"))
    | none => .error ⟨.invalidSwitch argument value, a⟩
  else .ok (a.set o value)

/-- Takes an argument that is no option. -/
def takePositional (a : Arguments) (argument : String) : Except Refusal Arguments :=
  match a.subcommand with
  | some _ => .ok { a with positionals := a.positionals ++ [argument] }
  | none =>
    match subcommands.find? (·.name = argument) with
    | some c => .ok { a with subcommand := some c }
    | none => .error ⟨.invalidSubcommand argument, a⟩

/-- Reads arguments one by one; after `--` all of them are positional. -/
def readArguments : (positionalOnly : Bool) → Arguments → List String → Except Refusal Arguments
  | _, a, [] => .ok a
  | positionalOnly, a, argument :: rest =>
    if argument = "--" && !positionalOnly then readArguments true a rest
    else if positionalOnly || !isOption argument then
      match takePositional a argument with
      | .ok a => readArguments positionalOnly a rest
      | .error r => .error r
    else if argument = "-h" || argument = "--help" then .error ⟨.help, a⟩
    else if argument = "--version" then .error ⟨.version, a⟩
    else
      let (name, given) := splitOption argument
      match a.options.find? fun o => name ≠ "" && (o.long = name || o.short = name) with
      | none => .error ⟨.unknownArgument argument, a⟩
      | some o =>
        let value := if o.isSwitch && given = "" then "true" else given
        if value ≠ "" then
          match assign a o argument value with
          | .ok a => readArguments positionalOnly a rest
          | .error r => .error r
        else
          match rest with
          | [] => .error ⟨.missingValue argument, a⟩
          | next :: rest =>
            if isOption next then .error ⟨.missingValue argument, a⟩
            else readArguments positionalOnly (a.set o next) rest

/-- Checks that every positional argument is there and no more. -/
def checkPositionals (a : Arguments) : Except Refusal Arguments :=
  let wanted := (a.subcommand.map (·.positionals)).getD []
  match a.positionals.drop wanted.length, wanted.drop a.positionals.length with
  | extra :: _, _ => .error ⟨.tooManyPositionals extra, a⟩
  | [], missing :: _ => .error ⟨.required missing.name, a⟩
  | [], [] => .ok a

/-- Reads the arguments of the program. Asking for help comes before every other problem. -/
def parseArguments (arguments : List String) : Except Refusal Arguments :=
  match (readArguments false {} arguments).bind checkPositionals with
  | .ok a => .ok a
  | .error r =>
    let plain := arguments.takeWhile (· ≠ "--")
    if plain.contains "-h" || plain.contains "--help" then .error { r with error := .help }
    else .error r

end NodeShader.Command
