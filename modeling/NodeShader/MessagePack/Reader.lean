import NodeShader.Record.Basic
import NodeShader.Text.Utf8

/-!
# Reading MessagePack

The first byte of a value says what it is and how its length is given. Numbers are big-endian. A
reader takes a value off the front of some bytes; what follows is left alone.
-/

namespace NodeShader.MessagePack

/-- Takes something off the front of some bytes. -/
abbrev Take := StateT (List UInt8) Option

namespace Take

def fail {α : Type} : Take α := fun _ => none

def byte : Take UInt8
  | [] => none
  | b :: rest => some (b, rest)

def bytes (n : Nat) : Take (List UInt8) := fun bs =>
  if bs.length < n then none else some (bs.take n, bs.drop n)

/-- The number of some bytes, the most significant first. -/
def ofBigEndian (bs : List UInt8) : Nat := bs.foldl (fun n b => n * 256 + b.toNat) 0

/-- A number of `n` bytes without a sign. -/
def natural (n : Nat) : Take Nat := do return ofBigEndian (← bytes n)

/-- The number with a sign that has the same bits. -/
def signed (bits n : Nat) : Int := Int.bmod n (2 ^ bits)

/-- A number of `n` bytes with a sign. -/
def integer (n : Nat) : Take Int := do return signed (8 * n) (← natural n)

/-- Something `n` times. -/
def times {α : Type} (take : Take α) : Nat → Take (List α)
  | 0 => return []
  | n + 1 => do
    let a ← take
    return a :: (← times take n)

/-- Something into a value `n` times. -/
def fold {α : Type} (take : α → Take α) : Nat → α → Take α
  | 0, a => return a
  | n + 1, a => do fold take n (← take a)

/-! ### Lengths -/

/-- The length of an array that starts with `code`; the inner `none` is nil. -/
def arrayLength (code : UInt8) : Take (Option Nat) :=
  if code = 0xc0 then return none
  else if 0x90 ≤ code && code ≤ 0x9f then return some (code.toNat - 0x90)
  else if code = 0xdc then do return some (← natural 2)
  else if code = 0xdd then do return some (← natural 4)
  else fail

/-- The length of a map that starts with `code`. -/
def mapLength (code : UInt8) : Take (Option Nat) :=
  if code = 0xc0 then return none
  else if 0x80 ≤ code && code ≤ 0x8f then return some (code.toNat - 0x80)
  else if code = 0xde then do return some (← natural 2)
  else if code = 0xdf then do return some (← natural 4)
  else fail

def isFixedText (code : UInt8) : Bool := 0xa0 ≤ code && code ≤ 0xbf

/-- The length of a text or of bytes. -/
def textLength (code : UInt8) : Take (Option Nat) :=
  if code = 0xc0 then return none
  else if isFixedText code then return some (code.toNat - 0xa0)
  else if code = 0xd9 || code = 0xc4 then do return some (← natural 1)
  else if code = 0xda || code = 0xc5 then do return some (← natural 2)
  else if code = 0xdb || code = 0xc6 then do return some (← natural 4)
  else fail

/-- How many bytes an extension holds after its type, and how many bytes give that number. -/
def extensionSize? (code : UInt8) : Option (Nat ⊕ Nat) :=
  match code.toNat with
  | 0xd4 => some (.inl 1)
  | 0xd5 => some (.inl 2)
  | 0xd6 => some (.inl 4)
  | 0xd7 => some (.inl 8)
  | 0xd8 => some (.inl 16)
  | 0xc7 => some (.inr 1)
  | 0xc8 => some (.inr 2)
  | 0xc9 => some (.inr 4)
  | _ => none

/-- Type and length of an extension. -/
def extensionHeader (code : UInt8) : Take (UInt8 × Nat) := do
  match extensionSize? code with
  | some (.inl n) => return (← byte, n)
  | some (.inr width) => do
    let n ← natural width
    return (← byte, n)
  | none => fail

/-! ### Scalars -/

/-- Is the number the code itself? -/
def isFixedNumber (code : UInt8) : Bool := code ≤ 0x7f || 0xe0 ≤ code

/-- An integer of any width, as a word with a sign; nil is zero. -/
def integerOf (code : UInt8) : Take Int :=
  if code = 0xc0 then return 0
  else if isFixedNumber code then return signed 8 code.toNat
  else
    match code.toNat with
    | 0xcc => do return (← natural 1 : Nat)
    | 0xcd => do return (← natural 2 : Nat)
    | 0xce => do return (← natural 4 : Nat)
    | 0xcf => integer 8
    | 0xd0 => integer 1
    | 0xd1 => integer 2
    | 0xd2 => integer 4
    | 0xd3 => integer 8
    | _ => fail

def word : Take Int := do integerOf (← byte)

/-- An integer of which the low 32 bits count. -/
def natural32 : Take UInt32 := do return UInt32.ofInt (← word)

/-- A number of 32 bits, or an integer. -/
def single : Take Number.Single := do
  let code ← byte
  if code = 0xca then return .ofNatBits (← natural 4)
  else return .ofInt (← integerOf code)

/-- The text that starts with `code`; nil is empty. -/
def textOf (code : UInt8) : Take String := do
  match ← textLength code with
  | some n => return Text.textOf (← bytes n)
  | none => return ""

def text : Take String := do textOf (← byte)

/-! ### Dynamic values -/

/-- A point in time of 4, 8 or 12 bytes. -/
def time (n : Nat) : Take Timestamp := do
  let bs ← bytes n
  match n with
  | 4 => return .ofUnix (ofBigEndian bs) 0
  | 8 =>
    let all := ofBigEndian bs
    return .ofUnix ((all % 2 ^ 34 : Nat)) (all / 2 ^ 34)
  | 12 => return .ofUnix (signed 64 (ofBigEndian (bs.drop 4))) (ofBigEndian (bs.take 4))
  | _ => fail

/-- The only type of extension that is known. -/
def timeType : UInt8 := 0xff

def namedDatums (datum : Take Datum) (n : Nat) : Take (List (String × Datum)) :=
  times (do
    let name ← text
    return (name, ← datum)) n

def datum : Nat → Take Datum
  | 0 => fail
  | fuel + 1 => do
    let code ← byte
    if isFixedNumber code then return .int .int8 (signed 8 code.toNat)
    else if (0x80 ≤ code && code ≤ 0x8f) || code = 0xde || code = 0xdf then do
      match ← mapLength code with
      | some n => return .map .plain (Record.ofList (← namedDatums (datum fuel) n)).entries
      | none => fail
    else if (0x90 ≤ code && code ≤ 0x9f) || code = 0xdc || code = 0xdd then do
      match ← arrayLength code with
      | some n => return .list (← times (datum fuel) n)
      | none => fail
    else if isFixedText code || code = 0xd9 || code = 0xda || code = 0xdb then
      return .text (← textOf code)
    else if code = 0xc4 || code = 0xc5 || code = 0xc6 then do
      match ← textLength code with
      | some n => return .bytes (← bytes n)
      | none => fail
    else
      match code.toNat with
      | 0xc0 => return .nil
      | 0xc2 => return .bool false
      | 0xc3 => return .bool true
      | 0xca => do return .single (.ofNatBits (← natural 4))
      | 0xcb => do return .double (.ofNatBits (← natural 8))
      | 0xcc => do return .int .uint8 (← natural 1 : Nat)
      | 0xcd => do return .int .uint16 (← natural 2 : Nat)
      | 0xce => do return .int .uint32 (← natural 4 : Nat)
      | 0xcf => do return .int .uint64 (← natural 8 : Nat)
      | 0xd0 => do return .int .int8 (← integer 1)
      | 0xd1 => do return .int .int16 (← integer 2)
      | 0xd2 => do return .int .int32 (← integer 4)
      | 0xd3 => do return .int .int64 (← integer 8)
      | _ => do
        let (type, n) ← extensionHeader code
        if type = timeType then return .time (← time n) else fail

/-- Passes a value. -/
def skip : Nat → Take Unit
  | 0 => fail
  | fuel + 1 => do
    let code ← byte
    if isFixedNumber code then return ()
    else if (0x80 ≤ code && code ≤ 0x8f) || code = 0xde || code = 0xdf then do
      let n ← mapLength code
      let _ ← times (skip fuel) (2 * n.getD 0)
    else if (0x90 ≤ code && code ≤ 0x9f) || code = 0xdc || code = 0xdd then do
      let n ← arrayLength code
      let _ ← times (skip fuel) (n.getD 0)
    else
      match code.toNat with
      | 0xc0 | 0xc2 | 0xc3 => return ()
      | 0xcc | 0xd0 => do let _ ← bytes 1
      | 0xcd | 0xd1 => do let _ ← bytes 2
      | 0xce | 0xd2 | 0xca => do let _ ← bytes 4
      | 0xcf | 0xd3 | 0xcb => do let _ ← bytes 8
      | _ => do
        match extensionSize? code with
        | some _ => do
          let (_, n) ← extensionHeader code
          let _ ← bytes n
        | none => do
          let n ← textLength code
          let _ ← bytes (n.getD 0)

/-- One more than the bytes ahead, which is enough for the depth of every value in them. -/
def depth : Take Nat := fun bs => some (bs.length + 1, bs)

/-- A map with texts for keys, over an old one; nil is absent. An extension header before it is passed
over. -/
def record (old : Option Record) : Take (Option Record) := do
  let code ← byte
  let code ← match extensionSize? code with
    | some size => do
      let _ ← byte
      let _ ← bytes (match size with | .inl _ => 0 | .inr width => width)
      byte
    | none => pure code
  match ← mapLength code with
  | none => return none
  | some n => do
    let entries ← namedDatums (datum (← depth)) n
    return some (entries.foldl (fun r (name, d) => r.put name d) (old.getD .empty))

/-! ### Structures -/

/-- A structure with named fields, as a map by name or as an array in the order of the names. Nil is
the fresh structure, and so is the empty array. -/
def fieldsOf {α : Type} (names : List String) (field : String → α → Take α) (fresh : α) (old : α) :
    Take α := do
  let code ← byte
  if code = 0xc0 then return fresh
  else if (0x80 ≤ code && code ≤ 0x8f) || code = 0xde || code = 0xdf then do
    match ← mapLength code with
    | none => return fresh
    | some n =>
      fold (fun value => do
        let name ← text
        if names.contains name then field name value
        else do
          skip (← depth)
          return value) n old
  else do
    match ← arrayLength code with
    | none => return fresh
    | some n =>
      if n = 0 then return fresh
      else if n = names.length then names.foldlM (fun value name => field name value) old
      else fail

/-- Items over old items, as far as there are any. -/
def itemsOver {α : Type} (item : α → Take α) (fresh : α) : Nat → List α → Take (List α)
  | 0, _ => return []
  | n + 1, old => do
    let a ← item (old.headD fresh)
    return a :: (← itemsOver item fresh n old.tail)

/-- A list, over an old one; nil is absent. -/
def list {α : Type} (item : α → Take α) (fresh : α) (old : Option (List α)) :
    Take (Option (List α)) := do
  match ← arrayLength (← byte) with
  | none => return none
  | some n => return some (← itemsOver item fresh n (old.getD []))

end Take

end NodeShader.MessagePack
