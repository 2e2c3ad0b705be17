import NodeShader.Command.Arguments

/-!
# Usage and help

The usage is one line for the program or for a subcommand. The help lists every argument in two
columns.
-/

namespace NodeShader.Command

def programName : String := "shadergraphc"

def programVersion : String := programName ++ " 0.1.0-dev"

def programDescription : String := "shadergraphc compiles shader node graphs to GLSL."

/-- What stands for the value of an argument. -/
def placeholder (name : String) : String := name.toUpper

/-- A way to write an option, such as `--stage STAGE`. -/
def synopsis (o : OptionSpec) (written : String) : String :=
  if o.isSwitch then written else written ++ " " ++ placeholder o.long

/-- The version, and the usage of the program or of a subcommand. -/
def usage (command : Option Subcommand) : String :=
  let options := match command with
    | some c => c.options
    | none => globalOptions
  programVersion ++ "\nUsage: " ++ programName ++
    (match command with | some c => " " ++ c.name | none => "") ++
    String.join (options.map fun o => " [" ++ synopsis o ("--" ++ o.long) ++ "]") ++
    (match command with
      | some c => String.join (c.positionals.map fun p => " " ++ placeholder p.name)
      | none => " <command> [<args>]") ++ "\n"

/-- Where the second column begins. -/
def columnWidth : Nat := 25

def spaces (n : Nat) : String := String.ofList (List.replicate n ' ')

/-- An item and what it is for, on one line if there is room. -/
def helpLine (item description : String) : String :=
  let left := "  " ++ item
  left ++
    (if left.length + 2 < columnWidth then spaces (columnWidth - left.length)
      else "\n" ++ spaces columnWidth) ++ description ++ "\n"

def optionLine (o : OptionSpec) : String :=
  helpLine
    (synopsis o ("--" ++ o.long) ++ (if o.short = "" then "" else ", " ++ synopsis o ("-" ++ o.short)))
    o.help

/-- Options that every command has. -/
def builtInOptions : List OptionSpec :=
  [{ long := "help", short := "h", isSwitch := true, help := "display this help and exit" },
    { long := "version", isSwitch := true, help := "display version and exit" }]

def paragraph (title : String) (lines : List String) : String :=
  if lines.isEmpty then "" else "\n" ++ title ++ ":\n" ++ String.join lines

/-- The help for the program or for a subcommand. -/
def help (command : Option Subcommand) : String :=
  programDescription ++ "\n" ++ usage command ++
    match command with
    | none =>
      paragraph "Options" ((globalOptions ++ builtInOptions).map optionLine) ++
        paragraph "Commands" (subcommands.map fun c => helpLine c.name c.help)
    | some c =>
      paragraph "Positional arguments"
          (c.positionals.map fun p => helpLine (placeholder p.name) p.help) ++
        paragraph "Options" (c.options.map optionLine) ++
        paragraph "Global options" ((globalOptions ++ builtInOptions).map optionLine)

end NodeShader.Command
