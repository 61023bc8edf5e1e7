import FirmwareRollout.Text.Decimal

/-!
Lengths of time: a whole number of nanoseconds below 2⁶⁴ seconds. Sums and products that would leave
the range stop at its end. Main statements: `nanos_add`, `nanos_mul` and `nanos_min` give the
arithmetic in natural numbers.
-/

namespace FirmwareRollout

/-- A length of time in nanoseconds. -/
structure Duration where
  nanos : Nat
  nanos_lt : nanos < 18446744073709551616000000000
deriving DecidableEq

namespace Duration

/-- The longest duration, one nanosecond short of 2⁶⁴ seconds. -/
def maxNanos : Nat := 18446744073709551615999999999

@[ext] theorem ext {a b : Duration} (h : a.nanos = b.nanos) : a = b := by
  cases a; cases b; cases h; rfl

/-- That many nanoseconds, or the longest duration if there are more. -/
def ofNanos (n : Nat) : Duration := ⟨min n maxNanos, by unfold maxNanos; omega⟩

def ofSeconds (s : UInt64) : Duration :=
  ⟨s.toNat * 1000000000, by have := s.toNat_lt; omega⟩

/-- Whole seconds and nanoseconds, if they fit. A nanosecond part above a second carries over. -/
def ofParts? (seconds nanos : Nat) : Option Duration :=
  if h : seconds * 1000000000 + nanos < 18446744073709551616000000000 then
    some ⟨seconds * 1000000000 + nanos, h⟩
  else none

/-- No time at all. -/
def zero : Duration := ⟨0, by decide⟩

instance : Inhabited Duration := ⟨zero⟩

def seconds (d : Duration) : Nat := d.nanos / 1000000000

def subsecond (d : Duration) : Nat := d.nanos % 1000000000

def millis (d : Duration) : Nat := d.nanos / 1000000

/-! ### Arithmetic that stops at the longest duration -/

/-- Both durations one after the other. -/
def add (a b : Duration) : Duration := ofNanos (a.nanos + b.nanos)

/-- The duration `k` times over. -/
def mul (d : Duration) (k : Nat) : Duration := ofNanos (d.nanos * k)

instance : LE Duration := ⟨fun a b => a.nanos ≤ b.nanos⟩
instance : LT Duration := ⟨fun a b => a.nanos < b.nanos⟩
instance (a b : Duration) : Decidable (a ≤ b) := inferInstanceAs (Decidable (a.nanos ≤ b.nanos))
instance (a b : Duration) : Decidable (a < b) := inferInstanceAs (Decidable (a.nanos < b.nanos))
instance : Min Duration := ⟨fun a b => if a ≤ b then a else b⟩

theorem le_iff {a b : Duration} : a ≤ b ↔ a.nanos ≤ b.nanos := Iff.rfl

theorem nanos_le (d : Duration) : d.nanos ≤ maxNanos := by
  have := d.nanos_lt
  unfold maxNanos
  omega

@[simp] theorem nanos_ofNanos (n : Nat) : (ofNanos n).nanos = min n maxNanos := rfl

@[simp] theorem nanos_ofSeconds (s : UInt64) : (ofSeconds s).nanos = s.toNat * 1000000000 := rfl

@[simp] theorem nanos_zero : zero.nanos = 0 := rfl

theorem nanos_add (a b : Duration) : (a.add b).nanos = min (a.nanos + b.nanos) maxNanos := rfl

theorem nanos_mul (d : Duration) (k : Nat) : (d.mul k).nanos = min (d.nanos * k) maxNanos := rfl

theorem nanos_min (a b : Duration) : (min a b).nanos = min a.nanos b.nanos := by
  show (if a ≤ b then a else b).nanos = _
  split <;> rename_i h <;> rw [le_iff] at h <;> omega

theorem seconds_subsecond (d : Duration) : d.seconds * 1000000000 + d.subsecond = d.nanos := by
  unfold seconds subsecond
  omega

theorem ofParts?_parts (d : Duration) : ofParts? d.seconds d.subsecond = some d := by
  unfold ofParts?
  rw [dif_pos (by rw [seconds_subsecond]; exact d.nanos_lt)]
  exact congrArg some (ext (seconds_subsecond d))

/-! ### Text for people -/

/-- The fraction digits of a number of `width` decimal places, without trailing zeros. -/
def fractionDigits (width n : Nat) : List Char :=
  ((Decimal.padded width n).reverse.dropWhile (· = '0')).reverse

/-- A number with `width` decimal places and a unit. -/
def withUnit (width n : Nat) (unit : String) : String :=
  let fraction := fractionDigits width (n % Nat.pow 10 width)
  let whole := Decimal.digits (n / Nat.pow 10 width)
  String.ofList (whole ++ if fraction = [] then [] else '.' :: fraction) ++ unit

/-- The duration in the largest of the units s, ms, µs and ns in which it is at least one, exactly,
without trailing zeros. -/
def text (d : Duration) : String :=
  if 1000000000 ≤ d.nanos then withUnit 9 d.nanos "s"
  else if 1000000 ≤ d.nanos then withUnit 6 d.nanos "ms"
  else if 1000 ≤ d.nanos then withUnit 3 d.nanos "µs"
  else withUnit 0 d.nanos "ns"

end Duration

end FirmwareRollout
