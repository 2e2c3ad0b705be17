import NodeShader.Node.Archetype
import NodeShader.Node.Kind
import NodeShader.Text.EditDistance
import NodeShader.Text.Lower
import NodeShader.Text.Utf8
import NodeShader.Text.Words

/-!
# Registries

A registry holds archetypes in the order they were registered. The position of an archetype is its
handle and never changes. Identifiers are unique.
-/

namespace NodeShader

/-- The position of an archetype in its registry. -/
abbrev Handle := Nat

/-- An archetype with the kind that new nodes of it start with. -/
structure Registration where
  archetype : Archetype
  initial : Kind
  deriving Repr, Inhabited

structure Registry where
  entries : List Registration := []
  deriving Repr, Inhabited

/-- Why an archetype is not registered. -/
inductive RegistryError where
  | emptyId
  | duplicateId (id : String)
  | noKind (id : String)
  | tooManyPins (id : String)
  | wrongShape (id : String) (overload : Nat) (given wanted : Nat × Nat)
  deriving DecidableEq, Repr

/-- An archetype that is not there, with the identifiers closest to its name. -/
structure UnknownArchetype where
  id : String
  suggestions : List String
  deriving DecidableEq, Repr

namespace Registry

def empty : Registry := {}

def size (r : Registry) : Nat := r.entries.length

/-- The handle of an identifier. -/
def lookup? (r : Registry) (id : String) : Option Handle :=
  r.entries.findIdx? (·.archetype.id = id)

/-- What a handle stands for. -/
def get? (r : Registry) (h : Handle) : Option Registration := r.entries[h]?

/-- The archetype of a handle. -/
def archetype? (r : Registry) (h : Handle) : Option Archetype := (r.get? h).map (·.archetype)

/-- The most pins a node can have on one side. -/
def pinLimit : Nat := Pin.greatestIndex + 1

/-- The first signature, counted from `i`, that does not have the pins of the archetype. -/
def badOverload? (inputs outputs : Nat) : Nat → List Overload → Option (Nat × Overload)
  | _, [] => none
  | i, o :: rest =>
    if o.inputs.length ≠ inputs ∨ o.outputs.length ≠ outputs then some (i, o)
    else badOverload? inputs outputs (i + 1) rest

/-- Adds an archetype. One without a title gets the title of its identifier. -/
def register (r : Registry) (a : Archetype) (initial? : Option Kind) :
    Except RegistryError (Handle × Registry) :=
  if a.id = "" then .error .emptyId
  else if (r.lookup? a.id).isSome then .error (.duplicateId a.id)
  else
    match initial? with
    | none => .error (.noKind a.id)
    | some initial =>
      if pinLimit < a.inputs.length ∨ pinLimit < a.outputs.length then .error (.tooManyPins a.id)
      else
        match badOverload? a.inputs.length a.outputs.length 0 a.overloads with
        | some (i, o) =>
          .error (.wrongShape a.id i (o.inputs.length, o.outputs.length)
            (a.inputs.length, a.outputs.length))
        | none =>
          let titled := if a.title = "" then { a with title := Text.titleOf a.id } else a
          .ok (r.entries.length, ⟨r.entries ++ [⟨titled, initial⟩]⟩)

/-- Adds archetypes one by one and collects the refusals. -/
def registerAll (r : Registry) : List Registration → List RegistryError × Registry
  | [] => ([], r)
  | e :: rest =>
    match r.register e.archetype (some e.initial) with
    | .ok (_, r) => registerAll r rest
    | .error err =>
      let (errs, r) := registerAll r rest
      (err :: errs, r)

/-! ### Listings -/

/-- Sorted by category, then by identifier. -/
def listedBefore (a b : Archetype) : Bool :=
  if a.category ≠ b.category then a.category < b.category else a.id ≤ b.id

/-- Every archetype, by category and identifier. -/
def all (r : Registry) : List Archetype :=
  (r.entries.map (·.archetype)).mergeSort listedBefore

/-- The list without repetitions, in the order of first occurrence. -/
def distinct : List String → List String
  | [] => []
  | s :: rest => s :: (distinct rest).filter (· ≠ s)

/-- The categories of archetypes that are not hidden, sorted. -/
def categories (r : Registry) : List String :=
  (distinct ((r.entries.filter (!·.archetype.hidden)).map (·.archetype.category))).mergeSort
    (fun a b => decide (a ≤ b))

/-- Does one list of characters occur in another? -/
def occursIn (needle : List Char) : List Char → Bool
  | [] => needle.isEmpty
  | c :: rest => needle.isPrefixOf (c :: rest) || occursIn needle rest

/-- Is a text part of the category, identifier or title, in any case? -/
def matchesText (text : String) (a : Archetype) : Bool :=
  let needle := (Text.lower text).toList
  [a.category, a.id, a.title].any fun s => occursIn needle (Text.lower s).toList

/-- The archetypes that are not hidden and match a text, by category and identifier. -/
def filter (r : Registry) (text : String) : List Archetype :=
  r.all.filter fun a => !a.hidden && matchesText text a

/-- At most this many identifiers are suggested. -/
def suggestionLimit : Nat := 3

/-- How far a suggestion may be from a name. -/
def distanceLimit (id : String) : Nat := Text.byteLength id / 3 + 2

/-- Nearer first, then by identifier. -/
def closerThan (a b : Nat × String) : Bool :=
  if a.1 ≠ b.1 then a.1 < b.1 else decide (a.2 ≤ b.2)

/-- The registered identifiers closest to a name. -/
def suggest (r : Registry) (id : String) : List String :=
  let measured := r.entries.map fun e =>
    (Text.editDistance id.toList e.archetype.id.toList, e.archetype.id)
  let near := measured.filter (·.1 ≤ distanceLimit id)
  ((near.mergeSort closerThan).take suggestionLimit).map (·.2)

/-- The handle of an identifier, or what to say when it has none. -/
def find (r : Registry) (id : String) : Except UnknownArchetype Handle :=
  match r.lookup? id with
  | some h => .ok h
  | none => .error ⟨id, r.suggest id⟩

end Registry

def RegistryError.message : RegistryError → String
  | .emptyId => "archetype id is empty"
  | .duplicateId id => "archetype " ++ Text.quote id ++ " already registered"
  | .noKind id => "archetype " ++ Text.quote id ++ " has no factory"
  | .tooManyPins id =>
    "archetype " ++ Text.quote id ++ " has more than " ++ Number.natText Registry.pinLimit ++
      " pins on one side"
  | .wrongShape id i given wanted =>
    "archetype " ++ Text.quote id ++ ": overload " ++ Number.natText i ++ " has shape (" ++
      Number.natText given.1 ++ ", " ++ Number.natText given.2 ++ "), want (" ++
      Number.natText wanted.1 ++ ", " ++ Number.natText wanted.2 ++ ")"

def UnknownArchetype.message (e : UnknownArchetype) : String :=
  match e.suggestions with
  | [] => Text.quote e.id ++ ": unknown archetype"
  | ids =>
    Text.quote e.id ++ " (did you mean " ++ joinWith ", " (ids.map Text.quote) ++
      "?): unknown archetype"

end NodeShader
