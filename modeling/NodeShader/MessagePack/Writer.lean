import NodeShader.Record.Basic
import NodeShader.Text.Utf8

/-!
# Writing MessagePack

An integer of no particular width takes the shortest form that holds it; one that has a width keeps
it. Lengths take the shortest form too.
-/

namespace NodeShader.MessagePack

abbrev Bytes := List UInt8

/-- The last `n` bytes of a number, the most significant first. -/
def bigEndian : Nat → Nat → Bytes
  | 0, _ => []
  | n + 1, x => bigEndian n (x / 256) ++ [UInt8.ofNat x]

/-- The same for a number with a sign. -/
def signedBigEndian (n : Nat) (x : Int) : Bytes := bigEndian n (x % 2 ^ (8 * n)).toNat

/-- The shortest form of a number without a sign. -/
def natural (n : Nat) : Bytes :=
  if n < 128 then [UInt8.ofNat n]
  else if n < 2 ^ 8 then 0xcc :: bigEndian 1 n
  else if n < 2 ^ 16 then 0xcd :: bigEndian 2 n
  else if n < 2 ^ 32 then 0xce :: bigEndian 4 n
  else 0xcf :: bigEndian 8 n

/-- The shortest form of an integer. -/
def integer (n : Int) : Bytes :=
  if 0 ≤ n then natural n.toNat
  else if -32 ≤ n then signedBigEndian 1 n
  else if -(2 ^ 7) ≤ n then 0xd0 :: signedBigEndian 1 n
  else if -(2 ^ 15) ≤ n then 0xd1 :: signedBigEndian 2 n
  else if -(2 ^ 31) ≤ n then 0xd2 :: signedBigEndian 4 n
  else 0xd3 :: signedBigEndian 8 n

/-- An integer in the width it has. -/
def sizedInteger (kind : IntKind) (n : Int) : Bytes :=
  match kind with
  | .int | .uint => integer n
  | .int8 => 0xd0 :: signedBigEndian 1 n
  | .int16 => 0xd1 :: signedBigEndian 2 n
  | .int32 => 0xd2 :: signedBigEndian 4 n
  | .int64 => 0xd3 :: signedBigEndian 8 n
  | .uint8 => 0xcc :: signedBigEndian 1 n
  | .uint16 => 0xcd :: signedBigEndian 2 n
  | .uint32 => 0xce :: signedBigEndian 4 n
  | .uint64 => 0xcf :: signedBigEndian 8 n

def natural32 (n : UInt32) : Bytes := 0xce :: bigEndian 4 n.toNat

def single (x : Number.Single) : Bytes := 0xca :: bigEndian 4 x.bits.toNat

def double (x : Number.Double) : Bytes := 0xcb :: bigEndian 8 x.bits.toNat

def text (s : String) : Bytes :=
  let bs := Text.bytesOf s
  let n := bs.length
  (if n < 32 then [UInt8.ofNat (0xa0 + n)]
    else if n < 2 ^ 8 then 0xd9 :: bigEndian 1 n
    else if n < 2 ^ 16 then 0xda :: bigEndian 2 n
    else 0xdb :: bigEndian 4 n) ++ bs

def bytes (bs : Bytes) : Bytes :=
  let n := bs.length
  (if n < 2 ^ 8 then 0xc4 :: bigEndian 1 n
    else if n < 2 ^ 16 then 0xc5 :: bigEndian 2 n
    else 0xc6 :: bigEndian 4 n) ++ bs

def arrayHeader (n : Nat) : Bytes :=
  if n < 16 then [UInt8.ofNat (0x90 + n)]
  else if n < 2 ^ 16 then 0xdc :: bigEndian 2 n
  else 0xdd :: bigEndian 4 n

def mapHeader (n : Nat) : Bytes :=
  if n < 16 then [UInt8.ofNat (0x80 + n)]
  else if n < 2 ^ 16 then 0xde :: bigEndian 2 n
  else 0xdf :: bigEndian 4 n

def nil : Bytes := [0xc0]

def array (items : List Bytes) : Bytes := arrayHeader items.length ++ items.flatten

def map (entries : List (Bytes × Bytes)) : Bytes :=
  mapHeader entries.length ++ entries.flatMap fun (k, v) => k ++ v

/-- A structure: its fields by name. -/
def fields (entries : List (String × Bytes)) : Bytes := map (entries.map fun (k, v) => (text k, v))

/-- A point in time in 4, 8 or 12 bytes: the seconds alone if they suffice, both in one word of 64
bits if the seconds take 34 of them at most, and else one after the other. -/
def time (t : Timestamp) : Bytes :=
  let seconds := t.unixSeconds
  if 0 ≤ seconds ∧ seconds < 2 ^ 34 then
    let all := t.nanosecond * 2 ^ 34 + seconds.toNat
    if all < 2 ^ 32 then [0xd6, 0xff] ++ bigEndian 4 all else [0xd7, 0xff] ++ bigEndian 8 all
  else [0xc7, 0x0c, 0xff] ++ bigEndian 4 t.nanosecond ++ signedBigEndian 8 seconds

mutual

def datum : Datum → Bytes
  | .nil => nil
  | .text s => text s
  | .bool b => [if b then 0xc3 else 0xc2]
  | .double x => double x
  | .single x => single x
  | .int kind n => sizedInteger kind n
  | .list items => array (datums items)
  | .doubles xs => array (xs.map double)
  | .singles xs => array (xs.map single)
  | .texts ss => array (ss.map text)
  | .bytes bs => bytes bs
  | .time t => time t
  | .map _ entries => fields (namedDatums entries)
  | .table entries => map (pairedDatums entries)

def datums : List Datum → List Bytes
  | [] => []
  | d :: rest => datum d :: datums rest

def namedDatums : List (String × Datum) → List (String × Bytes)
  | [] => []
  | (k, d) :: rest => (k, datum d) :: namedDatums rest

def pairedDatums : List (Datum × Datum) → List (Bytes × Bytes)
  | [] => []
  | (k, d) :: rest => (datum k, datum d) :: pairedDatums rest

end

/-- A list that may be absent. -/
def optionalArray (items : Option (List Bytes)) : Bytes :=
  match items with
  | some items => array items
  | none => nil

end NodeShader.MessagePack
