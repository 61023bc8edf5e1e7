import FirmwareRollout.Settings.Datum
import FirmwareRollout.Toml.Text

/-!
The values of TOML that have no parts: strings, truth values, whole numbers of 64 bits, numbers with
a fraction or an exponent, and points in time.
-/

namespace FirmwareRollout.Toml

/-! ### Numbers -/

/-- A run of digits of a base, in which single underscores may stand between digits. -/
def digitRun (base : Nat) : Chars → List Nat × Chars
  | '_' :: c :: rest =>
    match digitIn? base c with
    | some d =>
      let (ds, rest) := digitRun base rest
      (d :: ds, rest)
    | none => ([], '_' :: c :: rest)
  | c :: rest =>
    match digitIn? base c with
    | some d =>
      let (ds, rest) := digitRun base rest
      (d :: ds, rest)
    | none => ([], c :: rest)
  | [] => ([], [])

def digits? (base : Nat) (s : Chars) : Option (List Nat × Chars) :=
  match s with
  | c :: _ => if (digitIn? base c).isSome then some (digitRun base s) else none
  | [] => none

def spelt (base : Nat) (digits : List Nat) : Nat := digits.foldl (fun n d => base * n + d) 0

/-- A sign, if there is one: is it a minus? -/
def sign : Chars → Bool × Chars
  | '-' :: rest => (true, rest)
  | '+' :: rest => (false, rest)
  | s => (false, s)

/-- The digits of a decimal number, which has no zeros in front. -/
def decimal? : Chars → Option (List Nat × Chars)
  | '0' :: rest => some ([0], rest)
  | s => digits? 10 s

/-- A whole number that fits 64 bits with a sign. -/
def fitting (negative : Bool) (n : Nat) : Option Datum :=
  if negative then if n ≤ 9223372036854775808 then some (.integer (-n)) else none
  else if n < 9223372036854775808 then some (.integer n) else none

def integer? (s : Chars) : Option (Datum × Chars) :=
  let based (base : Nat) (s : Chars) : Option (Datum × Chars) := do
    let (ds, rest) ← digits? base s
    return (← fitting false (spelt base ds), rest)
  match s with
  | '0' :: 'x' :: rest => based 16 rest
  | '0' :: 'o' :: rest => based 8 rest
  | '0' :: 'b' :: rest => based 2 rest
  | s => do
    let (negative, s) := sign s
    let (ds, rest) ← decimal? s
    return (← fitting negative (spelt 10 ds), rest)

def exponent? : Chars → Option (Int × Chars)
  | c :: rest =>
    if c = 'e' ∨ c = 'E' then do
      let (negative, rest) := sign rest
      let (ds, rest) ← digits? 10 rest
      return (if negative then -(spelt 10 ds : Int) else spelt 10 ds, rest)
    else none
  | [] => none

/-- The least number that rounds to no finite double. -/
def doubleBound : Nat := Nat.pow 2 1024 - Nat.pow 2 970

/-- Is the number of these digits, moved that many places to the left, too large for a double? -/
def overflows (digits : List Nat) (exponent : Int) : Bool :=
  let n := spelt 10 digits
  if n = 0 then false
  else if 0 ≤ exponent then 400 < exponent || doubleBound ≤ n * Nat.pow 10 exponent.toNat
  else if digits.length < (-exponent).toNat then false
  else doubleBound * Nat.pow 10 (-exponent).toNat ≤ n

/-- A number with a fraction or an exponent. One that is too large for a double is none, unless it
is negative. -/
def fraction? (s : Chars) : Option (Datum × Chars) := do
  let (negative, s) := sign s
  let (whole, rest) ← decimal? s
  let (part, e, rest) ← match rest with
    | '.' :: rest => do
      let (part, rest) ← digits? 10 rest
      match exponent? rest with
      | some (e, rest) => some (part, e, rest)
      | none => some (part, 0, rest)
    | rest => do
      let (e, rest) ← exponent? rest
      some ([], e, rest)
  if !negative && overflows (whole ++ part) (e - part.length) then none
  else return (.fraction, rest)

/-- Infinity or the value that is no number, with or without a sign. -/
def special? (s : Chars) : Option (Datum × Chars) :=
  match (sign s).2 with
  | 'i' :: 'n' :: 'f' :: rest => some (.fraction, rest)
  | 'n' :: 'a' :: 'n' :: rest => some (.fraction, rest)
  | _ => none

/-! ### Points in time -/

/-- The number that exactly `width` digits spell, if it lies in the range. -/
def field? (width low high : Nat) (s : Chars) : Option (Nat × Chars) := do
  let front := s.take width
  let ds ← front.mapM (digitIn? 10)
  let n := spelt 10 ds
  if front.length = width ∧ low ≤ n ∧ n ≤ high then return (n, s.drop width) else none

/-- What follows a certain character. -/
def after? (c : Char) : Chars → Option Chars
  | c' :: rest => if c' = c then some rest else none
  | [] => none

def monthLength (year month : Nat) : Nat :=
  if month = 2 then if year % 4 = 0 ∧ (year % 100 ≠ 0 ∨ year % 400 = 0) then 29 else 28
  else if month = 4 ∨ month = 6 ∨ month = 9 ∨ month = 11 then 30
  else 31

/-- What follows a date. -/
def date? (s : Chars) : Option Chars := do
  let (year, s) ← field? 4 0 9999 s
  let (month, s) ← field? 2 1 12 (← after? '-' s)
  let (_, s) ← field? 2 1 (monthLength year month) (← after? '-' s)
  return s

/-- What follows a time of day. -/
def time? (s : Chars) : Option Chars := do
  let (_, s) ← field? 2 0 23 s
  let (_, s) ← field? 2 0 59 (← after? ':' s)
  let (_, s) ← field? 2 0 60 (← after? ':' s)
  match s with
  | '.' :: c :: rest =>
    if Decimal.isDigit c then return rest.dropWhile Decimal.isDigit else return s
  | s => return s

/-- What follows a distance from universal time. -/
def offset? : Chars → Option Chars
  | c :: rest =>
    if c = 'Z' ∨ c = 'z' then some rest
    else if c = '+' ∨ c = '-' then do
      let (_, s) ← field? 2 0 23 rest
      let (_, s) ← field? 2 0 59 (← after? ':' s)
      return s
    else none
  | [] => none

/-- A point in time: a date, a time of day, or a date with a time of day, which may have a distance
from universal time. No setting is one; it counts as a table without a known name. -/
def moment? (s : Chars) : Option (Datum × Chars) :=
  match date? s with
  | some rest =>
    let timed := match rest with
      | c :: rest => if c = 'T' ∨ c = 't' ∨ c = ' ' then time? rest else none
      | [] => none
    match timed with
    | some rest => some (.table [], (offset? rest).getD rest)
    | none => some (.table [], rest)
  | none => (time? s).map fun rest => (.table [], rest)

/-! ### Any of them -/

def scalar? (s : Chars) : Option (Datum × Chars) :=
  match s with
  | 't' :: 'r' :: 'u' :: 'e' :: rest => some (.flag true, rest)
  | 'f' :: 'a' :: 'l' :: 's' :: 'e' :: rest => some (.flag false, rest)
  | c :: _ =>
    if c = '"' ∨ c = '\'' then (string? s).map fun r => (.text r.1, r.2)
    else (moment? s).or ((fraction? s).or ((special? s).or (integer? s)))
  | [] => none

end FirmwareRollout.Toml
