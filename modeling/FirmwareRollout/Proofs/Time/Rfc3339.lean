import FirmwareRollout.Time.Rfc3339

/-!
The text of an instant read back. The calendar goes both ways (`Calendar.dayNumber?_date`), each
part of the text is read as the number that was written, whatever comes after it, and an instant is
what its parts say (`Rfc3339.parse?_text`), leap seconds and the ends of the range included.

Main statements: `Calendar.dayNumber?_date`, `Rfc3339.parse?_text`.
-/

namespace FirmwareRollout

/-! ### The day number of a date -/

namespace Calendar

theorem daysBefore_monthAndDay (leap : Bool) {k : Nat} (h : k < if leap then 366 else 365) :
    let m := monthAndDay 1 (monthLengths leap) k
    (1 ≤ m.1 ∧ m.1 ≤ 12 ∧ 1 ≤ m.2 ∧ m.2 ≤ monthLength leap m.1) ∧
      daysBefore leap m.1 + (m.2 - 1) = k := by
  have all : ∀ leap : Bool, ∀ k < if leap then 366 else 365,
      let m := monthAndDay 1 (monthLengths leap) k
      (1 ≤ m.1 ∧ m.1 ≤ 12 ∧ 1 ≤ m.2 ∧ m.2 ≤ monthLength leap m.1) ∧
        daysBefore leap m.1 + (m.2 - 1) = k := by
    decide +kernel
  exact all leap k h

/-- **The day number of the date of a day is that day.** -/
theorem dayNumber?_date (n : Int) :
    dayNumber? (date n).1 (date n).2.1 (date n).2.2 = some n := by
  obtain ⟨low, high⟩ := yearStart_yearOf n
  rw [yearStart_succ] at high
  obtain ⟨valid, days⟩ := daysBefore_monthAndDay (isLeap (yearOf n))
    (k := (n - yearStart (yearOf n)).toNat) (by split at high <;> simp_all <;> omega)
  unfold date dayNumber?
  simp only
  rw [if_pos valid]
  congr 1
  omega

theorem yearStart_le {y z : Int} (h : y ≤ z) : yearStart y ≤ yearStart z := by
  rcases Int.lt_or_eq_of_le h with h | rfl
  · exact Int.le_of_lt (yearStart_lt h)
  · exact Int.le_refl _

/-- Days between the starts of two years are in the years between. -/
theorem yearOf_bounds {n y z : Int} (low : yearStart y ≤ n) (high : n < yearStart z) :
    y ≤ yearOf n ∧ yearOf n < z := by
  obtain ⟨h1, h2⟩ := yearStart_yearOf n
  constructor
  · rcases Int.lt_or_le (yearOf n) y with h | h
    · have := yearStart_le (show yearOf n + 1 ≤ y by omega)
      omega
    · exact h
  · rcases Int.lt_or_le (yearOf n) z with h | h
    · exact h
    · have := yearStart_le h
      omega

end Calendar

namespace Rfc3339

open Decimal (digits padded value isDigit digitChar)
open Text (trimStart isBlank)

/-! ### The parts of the text -/

theorem not_blank_of_digit {c : Char} (h : isDigit c = true) : isBlank c = false := by
  simp only [isDigit, Bool.and_eq_true, decide_eq_true_eq] at h
  simp only [isBlank, Bool.or_eq_false_iff, Bool.and_eq_false_iff, decide_eq_false_iff_not]
  omega

theorem trimStart_cons {c : Char} (h : isBlank c = false) (rest : List Char) :
    trimStart (c :: rest) = c :: rest := by
  rw [trimStart, List.dropWhile_cons, if_neg (by simp [h])]

/-- The text does not go on with a digit. -/
def Stops (rest : List Char) : Prop := ∀ c more, rest = c :: more → isDigit c = false

theorem stops_cons {c : Char} (h : isDigit c = false) (rest : List Char) : Stops (c :: rest) := by
  intro c' more heq
  cases heq
  exact h

theorem takeWhile_digits {rest : List Char} (h : Stops rest) (k : Nat) :
    (rest.take k).takeWhile isDigit = [] := by
  cases rest with
  | nil => simp
  | cons c more =>
    cases k with
    | zero => rfl
    | succ k => simp [h c more rfl]

/-- Digits are read up to where the width ends or what follows is no digit. -/
theorem number_append {ds : List Char} (nonempty : ds ≠ []) (all : ∀ c ∈ ds, isDigit c = true)
    {width : Nat} {rest : List Char} (fits : ds.length ≤ width)
    (stop : width = ds.length ∨ Stops rest) : number width (ds ++ rest) = some (value ds, rest) := by
  have run : ((ds ++ rest).take width).takeWhile isDigit = ds := by
    rw [List.take_append, List.take_of_length_le fits, List.takeWhile_append_of_pos all]
    rcases stop with rfl | stop
    · simp
    · rw [takeWhile_digits stop, List.append_nil]
  rw [number, run, if_neg nonempty, List.drop_left]

theorem padded_ne_nil (width n : Nat) : padded (width + 1) n ≠ [] := by
  simp [padded]

theorem field_append {ds : List Char} (nonempty : ds ≠ []) (all : ∀ c ∈ ds, isDigit c = true)
    {width : Nat} {rest : List Char} (fits : ds.length ≤ width)
    (stop : width = ds.length ∨ Stops rest) : field width (ds ++ rest) = some (value ds, rest) := by
  cases ds with
  | nil => exact absurd rfl nonempty
  | cons c ds =>
    rw [field, List.cons_append, trimStart_cons (not_blank_of_digit (all c (by simp))),
      ← List.cons_append, number_append nonempty all fits stop]

/-- Two digits are read back. -/
theorem field_padded {n : Nat} (h : n < 100) (rest : List Char) :
    field 2 (padded 2 n ++ rest) = some (n, rest) := by
  rw [field_append (padded_ne_nil 1 n) (fun _ => Decimal.isDigit_of_mem_padded)
    (Nat.le_of_eq (Decimal.padded_length 2 n)) (.inl (Decimal.padded_length 2 n).symm),
    Decimal.value_padded]
  have : n % Nat.pow 10 2 = n := Nat.mod_eq_of_lt h
  rw [this]

/-- The digits of the number of a year. -/
def yearDigits (n : Nat) : List Char := if n ≤ 9999 then padded 4 n else digits n

theorem yearDigits_ne_nil (n : Nat) : yearDigits n ≠ [] := by
  unfold yearDigits
  split
  · exact padded_ne_nil 3 n
  · rw [digits]
    split <;> simp

theorem isDigit_of_mem_yearDigits {n : Nat} {c : Char} (h : c ∈ yearDigits n) :
    isDigit c = true := by
  unfold yearDigits at h
  split at h
  · exact Decimal.isDigit_of_mem_padded h
  · exact Decimal.isDigit_of_mem_digits h

theorem value_yearDigits (n : Nat) : value (yearDigits n) = n := by
  unfold yearDigits
  split
  · next h =>
    rw [Decimal.value_padded]
    exact Nat.mod_eq_of_lt (Nat.lt_succ_of_le h)
  · rw [Decimal.value_digits]

/-- The digits after a sign are read up to the first character that is none. -/
theorem number_yearDigits (n : Nat) {rest : List Char} (h : Stops rest) :
    number (yearDigits n ++ rest).length (yearDigits n ++ rest) = some (n, rest) := by
  rw [number_append (yearDigits_ne_nil n) (fun _ => isDigit_of_mem_yearDigits)
    (by rw [List.length_append]; omega) (.inr h), value_yearDigits]

/-- **The year is read back**, with or without a sign. -/
theorem yearField_yearText (y : Int) {rest : List Char} (h : Stops rest) :
    yearField (yearText y ++ rest) = some (y, rest) := by
  unfold yearText
  split
  · next plain =>
    have hfield : field 4 (padded 4 y.toNat ++ rest) = some (value (padded 4 y.toNat), rest) :=
      field_append (padded_ne_nil 3 y.toNat) (fun _ => Decimal.isDigit_of_mem_padded)
        (Nat.le_of_eq (Decimal.padded_length 4 _)) (.inl (Decimal.padded_length 4 _).symm)
    rw [field] at hfield
    have value : value (padded 4 y.toNat) = y.toNat := by
      rw [Decimal.value_padded]
      refine Nat.mod_eq_of_lt ?_
      show y.toNat < 10000
      omega
    unfold yearField
    split
    · next more sign => simp [sign, number, isDigit] at hfield
    · next more sign => simp [sign, number, isDigit] at hfield
    · rw [hfield, value, Option.map_some]
      simp only [Int.toNat_of_nonneg plain.1]
  · next signed =>
    show yearField (_ :: (yearDigits y.natAbs ++ rest)) = _
    have hnumber := number_yearDigits y.natAbs h
    split
    · next negative =>
      rw [yearField, trimStart_cons (by decide)]
      simp only [hnumber, Option.map_some]
      rw [show -(y.natAbs : Int) = y by omega]
    · next positive =>
      rw [yearField, trimStart_cons (by decide)]
      simp only [hnumber, Option.map_some]
      rw [show (y.natAbs : Int) = y by omega]

/-- A fraction of `width` digits. -/
theorem fraction_padded (width : Nat) {n : Nat} (h : n < Nat.pow 10 (width + 1))
    (fits : width + 1 ≤ 9) :
    fraction ('.' :: padded (width + 1) n ++ ['Z']) =
      some (n * Nat.pow 10 (9 - (width + 1)), ['Z']) := by
  have hnumber : number 9 (padded (width + 1) n ++ ['Z']) =
      some (value (padded (width + 1) n), ['Z']) :=
    number_append (padded_ne_nil width n) (fun _ => Decimal.isDigit_of_mem_padded)
      (by rw [Decimal.padded_length]; exact fits) (.inr (stops_cons (by decide) []))
  rw [List.cons_append, fraction]
  simp only [hnumber, Option.map_some, Decimal.value_padded, Nat.mod_eq_of_lt h,
    List.length_append, Decimal.padded_length, List.length_singleton, Nat.add_sub_cancel]
  rfl

/-- **The fraction is read back as nanoseconds**, however many digits were needed. -/
theorem fraction_fractionText {nano : Nat} (h : nano < 1000000000) :
    fraction (fractionText nano ++ ['Z']) = some (nano, ['Z']) := by
  unfold fractionText
  split
  · next none => rw [none]; rfl
  split
  · next millis =>
    rw [fraction_padded 2 (by show _ < 1000; omega) (by decide)]
    show some (nano / 1000000 * 1000000, _) = _
    rw [show nano / 1000000 * 1000000 = nano by omega]
  split
  · next micros =>
    rw [fraction_padded 5 (by show _ < 1000000; omega) (by decide)]
    show some (nano / 1000 * 1000, _) = _
    rw [show nano / 1000 * 1000 = nano by omega]
  · rw [fraction_padded 8 (by show _ < 1000000000; omega) (by decide)]
    show some (nano * 1, _) = _
    rw [Nat.mul_one]

/-! ### The whole text -/

theorem literal_mark {c : Char} (h : isBlank c = false) (rest : List Char) :
    literal c (trimStart (c :: rest)) = some rest := by
  rw [trimStart_cons h, literal, if_pos rfl]

/-- What follows a part that is read goes on with what was read. -/
theorem bind_of_read {α β : Type} {o : Option α} {a : α} (h : o = some a) (f : α → Option β) :
    (o >>= f) = f a := by
  rw [h]
  rfl

/-- The months and days of a date have two digits at most. -/
theorem small_of_dayNumber? {year : Int} {month day : Nat} {n : Int}
    (h : Calendar.dayNumber? year month day = some n) : month < 100 ∧ day < 100 := by
  have short : ∀ leap : Bool, ∀ m < 13, Calendar.monthLength leap m < 100 := by decide
  unfold Calendar.dayNumber? at h
  simp only at h
  split at h
  · next valid =>
    have := short (Calendar.isLeap year) month (by omega)
    omega
  · cases h

/-- The text of a date and a time of day is read as the instant that they make. -/
theorem parse?_fields {year n : Int} {month day hour minute second nano : Nat}
    (hyear : -262143 ≤ year ∧ year ≤ 262142)
    (hdate : Calendar.dayNumber? year month day = some n)
    (hclock : hour < 24 ∧ minute < 60 ∧ second < 61) (hnano : nano < 1000000000) :
    parse? (yearText year ++ '-' :: padded 2 month ++ '-' :: padded 2 day ++ 'T' :: padded 2 hour ++
      ':' :: padded 2 minute ++ ':' :: padded 2 second ++ fractionText nano ++ ['Z']) =
      Instant.ofParts? ((n - epochDay) * 86400 +
          (hour * 3600 + minute * 60 + (if second = 60 then 59 else second : Nat)))
        (if second = 60 then nano + 1000000000 else nano) := by
  obtain ⟨hmonth, hday⟩ := small_of_dayNumber? hdate
  have hzone : zone (trimStart ['Z']) = some (0, []) := by
    rw [trimStart_cons (by decide)]
    rfl
  have hend : ¬ trimStart [] ≠ [] := by simp [trimStart]
  have separates : 'T' = 'T' ∨ 'T' = 't' ∨ 'T' = ' ' := .inl rfl
  have hvalid : ¬ (year < -262143 ∨ 262142 < year ∨ 24 ≤ hour ∨ 60 ≤ minute ∨ 61 ≤ second) := by
    omega
  simp only [List.append_assoc, List.cons_append]
  unfold parse?
  refine (bind_of_read (yearField_yearText year (stops_cons (by decide) _)) _).trans ?_
  refine (bind_of_read (literal_mark (by decide) _) _).trans ?_
  refine (bind_of_read (field_padded hmonth _) _).trans ?_
  refine (bind_of_read (literal_mark (by decide) _) _).trans ?_
  refine (bind_of_read (field_padded hday _) _).trans ?_
  refine (bind_of_read (if_pos separates : ite _ (some _) none = some _) _).trans ?_
  refine (bind_of_read (field_padded (by omega) _) _).trans ?_
  refine (bind_of_read (literal_mark (by decide) _) _).trans ?_
  refine (bind_of_read (field_padded (by omega) _) _).trans ?_
  refine (bind_of_read (literal_mark (by decide) _) _).trans ?_
  refine (bind_of_read (field_padded (by omega) _) _).trans ?_
  refine (bind_of_read (fraction_fractionText hnano) _).trans ?_
  refine (bind_of_read hzone _).trans ?_
  dsimp only
  rw [if_neg hend, if_neg hvalid]
  refine (bind_of_read hdate _).trans ?_
  rw [Int.zero_mul, Int.sub_zero]

/-- The years of instants. -/
theorem year_bounds (t : Instant) :
    -262143 ≤ (Calendar.date (t.second / 86400 + epochDay)).1 ∧
      (Calendar.date (t.second / 86400 + epochDay)).1 ≤ 262142 := by
  have hge := t.second_ge
  have hle := t.second_le
  have first : Calendar.yearStart (-262143) = -95745764 := by decide
  have past : Calendar.yearStart 262143 = 95745765 := by decide
  have := Calendar.yearOf_bounds (n := t.second / 86400 + epochDay) (y := -262143) (z := 262143)
    (by unfold epochDay; omega) (by unfold epochDay; omega)
  show -262143 ≤ Calendar.yearOf _ ∧ Calendar.yearOf _ ≤ 262142
  omega

/-- **Reading back.** The text of an instant is read as that instant. -/
theorem parse?_text (t : Instant) : parse? (text t) = some t := by
  have hnano := t.nano_ok
  have hdate := Calendar.dayNumber?_date (t.second / 86400 + epochDay)
  have hyear := year_bounds t
  unfold text
  generalize Calendar.date (t.second / 86400 + epochDay) = date at hdate hyear
  have hclock : (t.second % 86400).toNat < 86400 := by omega
  simp only
  rw [parse?_fields hyear hdate (by omega) (by omega)]
  have parts : Instant.ofParts? t.second t.nano = some t :=
    dif_pos ⟨⟨t.second_ge, t.second_le⟩, t.nano_ok⟩
  -- second 60 is written of a leap second alone
  by_cases leap : t.nano < 1000000000
  · rw [if_neg (by omega), if_neg (by omega), ← parts]
    congr 1 <;> omega
  · rw [if_pos (by omega), if_pos (by omega), ← parts]
    congr 1 <;> omega

end Rfc3339

end FirmwareRollout
