import FirmwareRollout.Time.Calendar
import FirmwareRollout.Time.Instant
import FirmwareRollout.Text.Unicode

/-!
The text of an instant after RFC 3339. Written are date and time in UTC with `Z`, as many fraction
digits as needed in groups of three, and a sign before a year that has not four digits. Read is a
more liberal form: numbers without leading zeros, blanks before each part, `t` or a blank for `T`,
`UTC` for `Z`, any offset below a day, fraction digits beyond the ninth, and second 60.
-/

namespace FirmwareRollout.Rfc3339

open Decimal (digits padded value isDigit)
open Text (trimStart)

/-! ### Writing -/

/-- The day number of 1970-01-01. -/
def epochDay : Int := 719528

/-- A year of four digits has no sign, any other has one and at least four digits. -/
def yearText (y : Int) : List Char :=
  if 0 ≤ y ∧ y ≤ 9999 then padded 4 y.toNat
  else (if y < 0 then '-' else '+') ::
    if y.natAbs ≤ 9999 then padded 4 y.natAbs else digits y.natAbs

/-- No fraction, or three, six or nine digits, whichever is exact first. -/
def fractionText (nano : Nat) : List Char :=
  if nano = 0 then []
  else if nano % 1000000 = 0 then '.' :: padded 3 (nano / 1000000)
  else if nano % 1000 = 0 then '.' :: padded 6 (nano / 1000)
  else '.' :: padded 9 nano

/-- The text of an instant. A leap second is second 60 of its minute. -/
def text (t : Instant) : List Char :=
  let (year, month, day) := Calendar.date (t.second / 86400 + epochDay)
  let clock := (t.second % 86400).toNat
  let second := clock % 60 + t.nano / 1000000000
  yearText year ++ '-' :: padded 2 month ++ '-' :: padded 2 day ++
    'T' :: padded 2 (clock / 3600) ++ ':' :: padded 2 (clock / 60 % 60) ++
    ':' :: padded 2 second ++ fractionText (t.nano % 1000000000) ++ ['Z']

/-! ### Reading -/

/-- A run of at least one and at most `width` digits. -/
def number (width : Nat) (cs : List Char) : Option (Nat × List Char) :=
  let run := (cs.take width).takeWhile isDigit
  if run = [] then none else some (value run, cs.drop run.length)

/-- A number after blanks. -/
def field (width : Nat) (cs : List Char) : Option (Nat × List Char) := number width (trimStart cs)

/-- That character. -/
def literal (c : Char) : List Char → Option (List Char)
  | [] => none
  | c' :: rest => if c' = c then some rest else none

/-- A year: four digits at most, or any number of digits after a sign. -/
def yearField (cs : List Char) : Option (Int × List Char) :=
  match trimStart cs with
  | '-' :: rest => (number rest.length rest).map fun (n, rest) => (-(n : Int), rest)
  | '+' :: rest => (number rest.length rest).map fun (n, rest) => ((n : Int), rest)
  | rest => (number 4 rest).map fun (n, rest) => ((n : Int), rest)

/-- A fraction as nanoseconds: none, or at least one digit of which the first nine count. -/
def fraction (cs : List Char) : Option (Nat × List Char) :=
  match cs with
  | '.' :: rest =>
    (number 9 rest).map fun (n, after) =>
      (n * Nat.pow 10 (9 - (rest.length - after.length)), after.dropWhile isDigit)
  | _ => some (0, cs)

/-- Two digits. -/
def twoDigits : List Char → Option (Nat × List Char)
  | a :: b :: rest => if isDigit a && isDigit b then some (value [a, b], rest) else none
  | _ => none

/-- A zone as its offset from UTC in minutes: `Z`, `UTC`, or a signed offset in hours and minutes,
which colons and blanks may separate. -/
def zone (cs : List Char) : Option (Int × List Char) :=
  if (cs.take 3).map Char.toUpper = ['U', 'T', 'C'] then some (0, cs.drop 3)
  else
    match cs with
    | [] => none
    | c :: rest =>
      if c = 'Z' ∨ c = 'z' then some (0, rest)
      else if c = '+' ∨ c = '-' ∨ c = '\u2212' then do
        let (hours, rest) ← twoDigits rest
        let (minutes, rest) ← twoDigits (rest.dropWhile fun c => c = ':' || Text.isBlank c)
        if minutes < 60 ∧ hours < 24 then
          let offset : Int := hours * 60 + minutes
          some (if c = '+' then offset else -offset, rest)
        else none
      else none

def parse? (cs : List Char) : Option Instant := do
  let (year, cs) ← yearField cs
  let cs ← literal '-' (trimStart cs)
  let (month, cs) ← field 2 cs
  let cs ← literal '-' (trimStart cs)
  let (day, cs) ← field 2 cs
  let cs ← match cs with
    | c :: rest => if c = 'T' ∨ c = 't' ∨ c = ' ' then some rest else none
    | [] => none
  let (hour, cs) ← field 2 cs
  let cs ← literal ':' (trimStart cs)
  let (minute, cs) ← field 2 cs
  let cs ← literal ':' (trimStart cs)
  let (second, cs) ← field 2 cs
  let (nano, cs) ← fraction cs
  let (offset, cs) ← zone (trimStart cs)
  if trimStart cs ≠ [] then none
  if year < -262143 ∨ 262142 < year ∨ 24 ≤ hour ∨ 60 ≤ minute ∨ 61 ≤ second then none
  let dayNumber ← Calendar.dayNumber? year month day
  let clock : Int := hour * 3600 + minute * 60 + (if second = 60 then 59 else second)
  Instant.ofParts? ((dayNumber - epochDay) * 86400 + clock - offset * 60)
    (if second = 60 then nano + 1000000000 else nano)

end FirmwareRollout.Rfc3339
