import NodeShader.Record.Datum
import NodeShader.Text.Quoted

/-!
# Records

The fields of a node: dynamic values by name, in ascending order of the names.
-/

namespace NodeShader

structure Record where
  entries : List (String × Datum) := []
  deriving Repr, Inhabited

/-- Why a field cannot be used. -/
inductive FieldError where
  | notNumber (key : String) (position : Option Nat) (typeName : String)
  | notList (key : String) (typeName : String)
  | notText (key : String) (typeName : String)
  | wrongLength (arity given : Nat)
  deriving DecidableEq, Repr

def FieldError.message : FieldError → String
  | .notNumber key none t => "field " ++ Text.quote key ++ ": expected number, got " ++ t
  | .notNumber key (some i) t =>
    "field " ++ Text.quote key ++ "[" ++ Number.natText i ++ "]: expected number, got " ++ t
  | .notList key t => "field " ++ Text.quote key ++ ": expected list, got " ++ t
  | .notText key t => "field " ++ Text.quote key ++ ": expected string, got " ++ t
  | .wrongLength arity given =>
    "vec" ++ Number.natText arity ++ ": expected " ++ Number.natText arity ++ " values, got " ++
      Number.natText given

namespace Record

def empty : Record := {}

def isEmpty (r : Record) : Bool := r.entries.isEmpty

def get? (r : Record) (key : String) : Option Datum := r.entries.lookup key

/-- Puts a value into a list sorted by name, in the place of one of the same name. -/
def insertEntry (key : String) (value : Datum) : List (String × Datum) → List (String × Datum)
  | [] => [(key, value)]
  | (k, v) :: rest =>
    if key = k then (key, value) :: rest
    else if key < k then (key, value) :: (k, v) :: rest
    else (k, v) :: insertEntry key value rest

def put (r : Record) (key : String) (value : Datum) : Record := ⟨insertEntry key value r.entries⟩

def erase (r : Record) (key : String) : Record := ⟨r.entries.filter (·.1 ≠ key)⟩

/-- The record of a list of fields; of two with one name the later counts. -/
def ofList (fields : List (String × Datum)) : Record :=
  fields.foldl (fun r (k, v) => r.put k v) empty

def putNumber (r : Record) (key : String) (x : Number.Single) : Record :=
  r.put key (.double x.toDouble)

def putNumbers (r : Record) (key : String) (xs : List Number.Single) : Record :=
  r.put key (.doubles (xs.map Number.Single.toDouble))

def putText (r : Record) (key : String) (s : String) : Record := r.put key (.text s)

/-- The field as a number; `none` when it is absent. -/
def number (r : Record) (key : String) : Except FieldError (Option Number.Single) :=
  match r.get? key with
  | none => .ok none
  | some d =>
    match d.toSingle? with
    | some x => .ok (some x)
    | none => .error (.notNumber key none d.typeName)

/-- The items of a list as numbers, counted from `i`. -/
def numbersFrom (key : String) : Nat → List Datum → Except FieldError (List Number.Single)
  | _, [] => .ok []
  | i, d :: rest =>
    match d.toSingle? with
    | none => .error (.notNumber key (some i) d.typeName)
    | some x =>
      match numbersFrom key (i + 1) rest with
      | .ok xs => .ok (x :: xs)
      | .error e => .error e

/-- The field as a list of numbers; `none` when it is absent. -/
def numbers (r : Record) (key : String) : Except FieldError (Option (List Number.Single)) :=
  match r.get? key with
  | none => .ok none
  | some (.list items) => (numbersFrom key 0 items).map some
  | some (.doubles xs) => .ok (some (xs.map Number.Double.toSingle))
  | some (.singles xs) => .ok (some xs)
  | some d => .error (.notList key d.typeName)

/-- The field as a text; `none` when it is absent. -/
def text (r : Record) (key : String) : Except FieldError (Option String) :=
  match r.get? key with
  | none => .ok none
  | some (.text s) => .ok (some s)
  | some d => .error (.notText key d.typeName)

end Record

end NodeShader
