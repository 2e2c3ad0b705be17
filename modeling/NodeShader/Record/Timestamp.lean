import NodeShader.Number.Literal

/-!
# Points in time

Document fields may hold a point in time. It is kept as the civil date and time it was written with
and the offset of its zone, and can be shown again or counted in seconds.
-/

namespace NodeShader

structure Timestamp where
  year : Nat
  month : Nat
  day : Nat
  hour : Nat := 0
  minute : Nat := 0
  second : Nat := 0
  nanosecond : Nat := 0
  /-- Seconds east of Greenwich. -/
  offset : Int := 0
  deriving DecidableEq, Repr, Inhabited

namespace Timestamp

open Number (padLeft digitsOf isDigit spanDigits digitsValue?)

def isLeapYear (year : Nat) : Bool := year % 4 = 0 && (year % 100 ≠ 0 || year % 400 = 0)

def daysInMonth (year month : Nat) : Nat :=
  match month with
  | 1 | 3 | 5 | 7 | 8 | 10 | 12 => 31
  | 4 | 6 | 9 | 11 => 30
  | 2 => if isLeapYear year then 29 else 28
  | _ => 0

/-- Days from the first of January 1970 to a civil date. -/
def dayNumber (year month day : Nat) : Int :=
  let y : Int := if month ≤ 2 then (year : Int) - 1 else year
  let era := y.fdiv 400
  let yearOfEra := y - era * 400
  let shifted : Int := if month > 2 then (month : Int) - 3 else month + 9
  let dayOfYear := (153 * shifted + 2).fdiv 5 + day - 1
  let dayOfEra := yearOfEra * 365 + yearOfEra.fdiv 4 - yearOfEra.fdiv 100 + dayOfYear
  era * 146097 + dayOfEra - 719468

/-- The civil date of a day number. -/
def dateOfDay (n : Int) : Int × Nat × Nat :=
  let z := n + 719468
  let era := z.fdiv 146097
  let dayOfEra := z - era * 146097
  let yearOfEra :=
    (dayOfEra - dayOfEra.fdiv 1460 + dayOfEra.fdiv 36524 - dayOfEra.fdiv 146096).fdiv 365
  let dayOfYear := dayOfEra - (365 * yearOfEra + yearOfEra.fdiv 4 - yearOfEra.fdiv 100)
  let shifted := (5 * dayOfYear + 2).fdiv 153
  let day := dayOfYear - (153 * shifted + 2).fdiv 5 + 1
  let month := if shifted < 10 then shifted + 3 else shifted - 9
  let year := yearOfEra + era * 400 + (if month ≤ 2 then 1 else 0)
  (year, month.toNat, day.toNat)

/-- Seconds since the first of January 1970. -/
def unixSeconds (t : Timestamp) : Int :=
  dayNumber t.year t.month t.day * 86400 + t.hour * 3600 + t.minute * 60 + t.second - t.offset

/-- The point in time so many seconds and nanoseconds after the first of January 1970. -/
def ofUnix (seconds : Int) (nanosecond : Nat) : Timestamp :=
  let dayCount := seconds.fdiv 86400
  let rest := (seconds - dayCount * 86400).toNat
  let (year, month, day) := dateOfDay dayCount
  { year := year.toNat, month, day, hour := rest / 3600, minute := rest / 60 % 60,
    second := rest % 60, nanosecond }

def twoDigits (n : Nat) : List Char := padLeft 2 '0' (digitsOf n)

/-- The fraction of a second without trailing zeros, after a point. -/
def fractionText (nanosecond : Nat) : List Char :=
  if nanosecond = 0 then []
  else '.' :: ((padLeft 9 '0' (digitsOf nanosecond)).reverse.dropWhile (· = '0')).reverse

/-- `2001-12-14T21:59:43.1-05:00`. -/
def text (t : Timestamp) : String :=
  let zone := if t.offset = 0 then ['Z'] else
    (if t.offset < 0 then '-' else '+') ::
      (twoDigits (t.offset.natAbs / 3600) ++ ':' :: twoDigits (t.offset.natAbs / 60 % 60))
  String.ofList (padLeft 4 '0' (digitsOf t.year) ++ '-' :: twoDigits t.month ++
    '-' :: twoDigits t.day ++ 'T' :: twoDigits t.hour ++ ':' :: twoDigits t.minute ++
    ':' :: twoDigits t.second ++ fractionText t.nanosecond ++ zone)

/-- One or two digits. -/
def shortNumber? (cs : List Char) : Option (Nat × List Char) :=
  match cs with
  | a :: b :: rest =>
    if isDigit a then
      if isDigit b then (digitsValue? 10 [a, b] 0).map (·, rest)
      else (digitsValue? 10 [a] 0).map (·, b :: rest)
    else none
  | [a] => if isDigit a then (digitsValue? 10 [a] 0).map (·, []) else none
  | [] => none

def expect? (c : Char) : List Char → Option (List Char)
  | d :: rest => if c = d then some rest else none
  | [] => none

/-- `YYYY-M-D`. -/
def readDate? (cs : List Char) : Option (Timestamp × List Char) := do
  let (year, rest) := cs.splitAt 4
  guard (year.length = 4 && year.all isDigit)
  let y ← digitsValue? 10 year 0
  let rest ← expect? '-' rest
  let (m, rest) ← shortNumber? rest
  let rest ← expect? '-' rest
  let (d, rest) ← shortNumber? rest
  guard (1 ≤ m ∧ m ≤ 12 ∧ 1 ≤ d ∧ d ≤ daysInMonth y m)
  return ({ year := y, month := m, day := d }, rest)

/-- A point and digits, of which nine count. -/
def readFraction (cs : List Char) : Nat × List Char :=
  match cs with
  | c :: rest =>
    let (digits, after) := spanDigits rest
    if (c = '.' ∨ c = ',') ∧ !digits.isEmpty then
      let nine := digits.take 9
      (((digitsValue? 10 (nine ++ List.replicate (9 - nine.length) '0') 0).getD 0), after)
    else (0, cs)
  | [] => (0, [])

/-- `h:m:s` with an optional fraction. -/
def readClock? (t : Timestamp) (cs : List Char) : Option (Timestamp × List Char) := do
  let (h, rest) ← shortNumber? cs
  let rest ← expect? ':' rest
  let (m, rest) ← shortNumber? rest
  let rest ← expect? ':' rest
  let (s, rest) ← shortNumber? rest
  guard (h < 24 ∧ m < 60 ∧ s < 60)
  let (n, rest) := readFraction rest
  return ({ t with hour := h, minute := m, second := s, nanosecond := n }, rest)

/-- `Z` or `±hh:mm`. -/
def readZone? (cs : List Char) : Option Int :=
  match cs with
  | ['Z'] => some 0
  | [sign, a, b, ':', c, d] => do
    guard ((sign = '+' ∨ sign = '-') ∧ [a, b, c, d].all isDigit)
    let h ← digitsValue? 10 [a, b] 0
    let m ← digitsValue? 10 [c, d] 0
    guard (h ≤ 24 ∧ m ≤ 60)
    let seconds : Int := h * 3600 + m * 60
    return if sign = '-' then -seconds else seconds
  | _ => none

/-- Reads a date, or a date and time divided by `T`, `t` or blanks; only the first two take a
zone, and need one. -/
def read? (cs : List Char) : Option Timestamp := do
  let (t, rest) ← readDate? cs
  match rest with
  | [] => return t
  | c :: rest =>
    if c = 'T' ∨ c = 't' then
      let (t, rest) ← readClock? t rest
      let zone ← readZone? rest
      return { t with offset := zone }
    else
      guard (c = ' ')
      let (t, rest) ← readClock? t (rest.dropWhile (· = ' '))
      guard rest.isEmpty
      return t

end Timestamp

end NodeShader
