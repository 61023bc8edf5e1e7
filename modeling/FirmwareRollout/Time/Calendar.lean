/-!
The Gregorian calendar, extended to all years, with a year 0. Days are counted from 0000-01-01.
Main statement: `date_dayNumber`, the date of the day number of a date is that date.
-/

namespace FirmwareRollout.Calendar

/-- The first day of a year: 365 days for each year before it and one for each leap year. -/
def yearStart (y : Int) : Int := 365 * y + (y + 3) / 4 - (y + 99) / 100 + (y + 399) / 400

/-- Every fourth year is a leap year, but of the centuries only every fourth. -/
def isLeap (y : Int) : Bool := y % 4 = 0 && (y % 100 ≠ 0 || y % 400 = 0)

/-- The lengths of the months of a year. -/
def monthLengths (leap : Bool) : List Nat :=
  [31, if leap then 29 else 28, 31, 30, 31, 30, 31, 31, 30, 31, 30, 31]

/-- The number of days before a month, months counted from 1. -/
def daysBefore (leap : Bool) (month : Nat) : Nat :=
  ((monthLengths leap).take (month - 1)).foldl (· + ·) 0

/-- The length of a month, months counted from 1. -/
def monthLength (leap : Bool) (month : Nat) : Nat := (monthLengths leap).getD (month - 1) 0

/-- The day number of a date, if the year has that month and the month that day. -/
def dayNumber? (year : Int) (month day : Nat) : Option Int :=
  let leap := isLeap year
  if 1 ≤ month ∧ month ≤ 12 ∧ 1 ≤ day ∧ day ≤ monthLength leap month then
    some (yearStart year + daysBefore leap month + (day - 1 : Nat))
  else none

/-- The month and the day of the month, counted from 1, of a day of the year counted from 0;
`month` is the month whose lengths are at the head of the list. -/
def monthAndDay (month : Nat) : List Nat → Nat → Nat × Nat
  | [], day => (month, day + 1)
  | length :: rest, day =>
    if day < length then (month, day + 1) else monthAndDay (month + 1) rest (day - length)

/-- The year of a day number: the mean length of a year gives it within one. -/
def yearOf (n : Int) : Int :=
  let y := 400 * n / 146097
  if n < yearStart y then y - 1 else if yearStart (y + 1) ≤ n then y + 1 else y

/-- Year, month and day of a day number. -/
def date (n : Int) : Int × Nat × Nat :=
  let y := yearOf n
  (y, monthAndDay 1 (monthLengths (isLeap y)) (n - yearStart y).toNat)

/-! ### The date of a day number -/

theorem yearStart_succ (y : Int) :
    yearStart (y + 1) = yearStart y + if isLeap y then 366 else 365 := by
  unfold yearStart isLeap
  by_cases h4 : y % 4 = 0 <;> by_cases h100 : y % 100 = 0 <;> by_cases h400 : y % 400 = 0 <;>
    simp [h4, h100, h400] <;> omega

theorem yearStart_yearOf (n : Int) : yearStart (yearOf n) ≤ n ∧ n < yearStart (yearOf n + 1) := by
  have low : yearStart (400 * n / 146097 - 1) ≤ n := by unfold yearStart; omega
  have high : n < yearStart (400 * n / 146097 + 1 + 1) := by unfold yearStart; omega
  unfold yearOf
  simp only
  split
  · next h => exact ⟨low, by rwa [Int.sub_add_cancel]⟩
  · next h =>
    split
    · next h' => exact ⟨h', high⟩
    · next h' => exact ⟨by omega, by omega⟩

theorem yearStart_lt {y z : Int} (h : y < z) : yearStart y < yearStart z := by
  unfold yearStart
  omega

/-- The year is the only one that holds the day. -/
theorem yearOf_eq {n y : Int} (h : yearStart y ≤ n) (h' : n < yearStart (y + 1)) :
    yearOf n = y := by
  obtain ⟨h1, h2⟩ := yearStart_yearOf n
  rcases Int.lt_trichotomy (yearOf n) y with hlt | heq | hgt
  · have : yearStart (yearOf n + 1) ≤ yearStart y := by
      rcases Int.lt_or_eq_of_le (show yearOf n + 1 ≤ y by omega) with h | h
      · exact Int.le_of_lt (yearStart_lt h)
      · exact Int.le_of_eq (congrArg yearStart h)
    omega
  · exact heq
  · have : yearStart (y + 1) ≤ yearStart (yearOf n) := by
      rcases Int.lt_or_eq_of_le (show y + 1 ≤ yearOf n by omega) with h | h
      · exact Int.le_of_lt (yearStart_lt h)
      · exact Int.le_of_eq (congrArg yearStart h)
    omega

theorem monthAndDay_daysBefore (leap : Bool) {month day : Nat} (hm : 1 ≤ month) (hm' : month ≤ 12)
    (hd : 1 ≤ day) (hd' : day ≤ monthLength leap month) :
    daysBefore leap month + (day - 1) < (if leap then 366 else 365) ∧
      monthAndDay 1 (monthLengths leap) (daysBefore leap month + (day - 1)) = (month, day) := by
  have all : ∀ leap : Bool, ∀ m < 12, ∀ d < monthLength leap (m + 1),
      daysBefore leap (m + 1) + d < (if leap then 366 else 365) ∧
        monthAndDay 1 (monthLengths leap) (daysBefore leap (m + 1) + d) = (m + 1, d + 1) := by
    decide +kernel
  have := all leap (month - 1) (by omega) (day - 1) (by
    rw [show month - 1 + 1 = month by omega]; omega)
  rwa [show month - 1 + 1 = month by omega, show day - 1 + 1 = day by omega] at this

/-- **The date of the day number of a date is that date.** -/
theorem date_dayNumber {year : Int} {month day : Nat} {n : Int}
    (h : dayNumber? year month day = some n) : date n = (year, month, day) := by
  unfold dayNumber? at h
  simp only at h
  split at h
  · next hv =>
    obtain ⟨hm, hm', hd, hd'⟩ := hv
    obtain ⟨hlt, hmd⟩ := monthAndDay_daysBefore (isLeap year) hm hm' hd hd'
    cases h
    have hy :
        yearOf (yearStart year + daysBefore (isLeap year) month + (day - 1 : Nat)) = year := by
      refine yearOf_eq (by omega) ?_
      rw [yearStart_succ]
      split <;> simp_all <;> omega
    unfold date
    simp only [hy]
    rw [show (yearStart year + daysBefore (isLeap year) month + ((day - 1 : Nat) : Int) -
      yearStart year).toNat = daysBefore (isLeap year) month + (day - 1) by omega, hmd]
  · cases h

end FirmwareRollout.Calendar
