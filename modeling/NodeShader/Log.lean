import NodeShader.Document.Graph
import NodeShader.Pass.Compile
import NodeShader.Text.Blank
import NodeShader.Text.Lower

/-!
# Log lines

A line has a level, the name of whoever writes it, a message and pairs of a key and a value. Values
are quoted where they would run into their neighbours.
-/

namespace NodeShader

namespace Log

inductive Level where
  | trace
  | debug
  | info
  | warn
  | error
  deriving DecidableEq, Repr, Inhabited

def Level.rank : Level → Nat
  | .trace => 0
  | .debug => 1
  | .info => 2
  | .warn => 3
  | .error => 4

/-- How the level stands at the front of a line. -/
def Level.tag : Level → String
  | .trace => "[TRACE] "
  | .debug => "[DEBUG] "
  | .info => "[INFO]  "
  | .warn => "[WARN]  "
  | .error => "[ERROR] "

/-- The least level that is written; `off` writes nothing. -/
inductive Threshold where
  | atLeast (level : Level)
  | off
  deriving DecidableEq, Repr, Inhabited

/-- Reads the name of a threshold, in any case and with blanks around it. -/
def Threshold.ofName? (name : String) : Option Threshold :=
  match Text.lower (String.ofList (Text.trimBlank name.toList)) with
  | "trace" => some (.atLeast .trace)
  | "debug" => some (.atLeast .debug)
  | "info" => some (.atLeast .info)
  | "warn" => some (.atLeast .warn)
  | "error" => some (.atLeast .error)
  | "off" => some .off
  | _ => none

def Threshold.admits (t : Threshold) (level : Level) : Bool :=
  match t with
  | .atLeast least => least.rank ≤ level.rank
  | .off => false

structure Entry where
  level : Level
  message : String
  pairs : List (String × String) := []
  deriving DecidableEq, Repr, Inhabited

/-- Must a value stand between quotes? -/
def needsQuotes (value : String) : Bool :=
  value = "" || value.toList.any fun c => c < '-' || '~' < c

def escapeChar (c : Char) : List Char :=
  if c = '"' then ['\\', '"']
  else if Text.isPrintable c then [c]
  else match Text.letterEscape? c with
    | some e => ['\\', e]
    | none => Text.numberEscape 0x20 c

def valueText (value : String) : String :=
  if needsQuotes value then String.ofList ('"' :: value.toList.flatMap escapeChar ++ ['"']) else value

/-- The line of an entry; an empty name is left out. -/
def Entry.line (e : Entry) (name : String) : String :=
  e.level.tag ++ (if name = "" then "" else name ++ ": ") ++ e.message ++
    (if e.pairs.isEmpty then "" else ":") ++
    String.join (e.pairs.map fun (k, v) => " " ++ k ++ "=" ++ valueText v)

/-- Entries with pairs in front of their own. -/
def withPairs (pairs : List (String × String)) (entries : List Entry) : List Entry :=
  entries.map fun e => { e with pairs := pairs ++ e.pairs }

/-- The lines of the entries that a threshold admits. -/
def lines (t : Threshold) (name : String) (entries : List Entry) : List String :=
  (entries.filter (t.admits ·.level)).map (·.line name)

end Log

open Log (Entry)

/-! ### What the library reports -/

def Event.logEntry : Event → Entry
  | .evaluated id archetype overload =>
    { level := .trace, message := "evaluated node"
      pairs := [("id", id.text), ("archetype", archetype),
        ("overload", match overload with | some i => Number.natText i | none => "-1")] }
  | .hoisted pin name fanOut =>
    { level := .trace, message := "hoisted output"
      pairs := [("pin", pin.text), ("var", name), ("fanout", Number.natText fanOut)] }
  | .finished stats =>
    { level := .debug, message := "pass finished"
      pairs := [("nodes", Number.natText stats.nodes),
        ("statements", Number.natText stats.statements), ("hoisted", Number.natText stats.hoisted)] }

/-- A new archetype. -/
def Archetype.logEntry (a : Archetype) (h : Handle) : Entry :=
  { level := .debug, message := "registered archetype"
    pairs := [("id", a.id), ("category", a.category), ("handle", Number.natText h)] }

/-- A pin entry as log lines show it. -/
def PinEntry.logText (p : PinEntry) : String :=
  "\x7b" ++ NodeId.text p.node ++ " " ++ Number.intText p.index ++ "\x7d"

def DroppedLink.logEntry (d : DroppedLink) : Entry :=
  { level := .warn, message := "dropping link"
    pairs := [("from", d.link.source.logText), ("to", d.link.target.logText),
      ("error", d.reason.message)] }

/-- What is said about a document that became a graph. -/
def Decoded.logEntries (d : Decoded) (id : String) : List Entry :=
  d.dropped.map DroppedLink.logEntry ++
    [{ level := .debug, message := "decoded graph"
       pairs := [("id", id), ("nodes", Number.natText d.graph.size),
         ("links", Number.natText d.graph.links.length)] }]

end NodeShader
