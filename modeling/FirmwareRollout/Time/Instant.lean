import FirmwareRollout.Time.Duration

/-!
Instants of UTC, from the start of the year -262143 to the end of the year 262142: whole seconds
since 1970-01-01 and nanoseconds added to them. The nanoseconds reach 10⁹ only in a leap second,
the sixty-first of a minute. Main statements: `nanos_later` says that adding a duration is the exact
sum, stopped at the last instant, `nanos_later_of_leap` what it is from a leap second on, and
`nanos_floorMicros` that flooring takes off less than a microsecond.
-/

namespace FirmwareRollout

/-- An instant of UTC. -/
structure Instant where
  second : Int
  nano : Nat
  second_ge : -8334601228800 ≤ second
  second_le : second ≤ 8210266876799
  nano_ok : nano < 1000000000 ∨ second % 60 = 59 ∧ nano < 2000000000
deriving DecidableEq

namespace Instant

@[ext] theorem ext {a b : Instant} (hs : a.second = b.second) (hn : a.nano = b.nano) : a = b := by
  cases a; cases b; cases hs; cases hn; rfl

/-- The instant of those seconds and nanoseconds, if there is one. -/
def ofParts? (second : Int) (nano : Nat) : Option Instant :=
  if h : (-8334601228800 ≤ second ∧ second ≤ 8210266876799) ∧
      (nano < 1000000000 ∨ second % 60 = 59 ∧ nano < 2000000000) then
    some ⟨second, nano, h.1.1, h.1.2, h.2⟩
  else none

def last : Instant := ⟨8210266876799, 999999999, by decide, by decide, .inl (by decide)⟩

/-- The start of 1970. -/
def epoch : Instant := ⟨0, 0, by decide, by decide, .inl (by decide)⟩

instance : Inhabited Instant := ⟨epoch⟩

def nanos (t : Instant) : Int := t.second * 1000000000 + t.nano

/-! ### Order -/

instance : LE Instant :=
  ⟨fun a b => a.second < b.second ∨ a.second = b.second ∧ a.nano ≤ b.nano⟩

instance (a b : Instant) : Decidable (a ≤ b) :=
  inferInstanceAs (Decidable (a.second < b.second ∨ a.second = b.second ∧ a.nano ≤ b.nano))

instance : Max Instant := ⟨fun a b => if b ≤ a then a else b⟩

theorem le_iff {a b : Instant} :
    a ≤ b ↔ a.second < b.second ∨ a.second = b.second ∧ a.nano ≤ b.nano := Iff.rfl

theorem le_refl (a : Instant) : a ≤ a := .inr ⟨rfl, Nat.le_refl _⟩

theorem le_trans {a b c : Instant} (hab : a ≤ b) (hbc : b ≤ c) : a ≤ c := by
  rw [le_iff] at *
  omega

theorem le_total (a b : Instant) : a ≤ b ∨ b ≤ a := by
  rw [le_iff, le_iff]
  omega

theorem le_antisymm {a b : Instant} (hab : a ≤ b) (hba : b ≤ a) : a = b := by
  rw [le_iff] at *
  exact ext (by omega) (by omega)

theorem le_max_left (a b : Instant) : a ≤ max a b := by
  show a ≤ if b ≤ a then a else b
  split
  · exact le_refl a
  · next h => exact (le_total a b).resolve_right h

theorem le_max_right (a b : Instant) : b ≤ max a b := by
  show b ≤ if b ≤ a then a else b
  split
  · next h => exact h
  · exact le_refl b

/-! ### Moving -/

/-- The instant that many nanoseconds after the start of 1970, or the last one if that is later.
What is earlier than the range gives its start. -/
def ofNanos (n : Int) : Instant :=
  if h : 8210266876799999999999 < n then last
  else if h' : n < -8334601228800000000000 then
    ⟨-8334601228800, 0, by decide, by decide, .inl (by decide)⟩
  else ⟨n / 1000000000, (n % 1000000000).toNat, by omega, by omega, .inl (by omega)⟩

/-- The instant that lies `d` after `t`, or the last one if that would lie beyond the range. What
ends within the leap second that `t` is in stays there; what goes on beyond it does not count it. -/
def later (t : Instant) (d : Duration) : Instant :=
  if h : 1000000000 ≤ t.nano ∧ t.nano + d.nanos < 2000000000 then
    ⟨t.second, t.nano + d.nanos, t.second_ge, t.second_le,
      .inr ⟨(t.nano_ok.resolve_left (Nat.not_lt.2 h.1)).1, h.2⟩⟩
  else ofNanos (t.second * 1000000000 + (t.nano % 1000000000 : Nat) + d.nanos)

/-- The instant without what it has beyond whole microseconds. -/
def floorMicros (t : Instant) : Instant :=
  ⟨t.second, t.nano - t.nano % 1000, t.second_ge, t.second_le, by
    have := t.nano_ok
    omega⟩

/-- The instant one hour after `t`, if the range has it. A leap second counts toward the hour. -/
def anHourLater? (t : Instant) : Option Instant := ofParts? (t.second + 3600) (t.nano % 1000000000)

/-- The start of 2000, from which the database counts. -/
def databaseEpoch : Int := 946684800000000000

/-- The instant without what it has beyond whole microseconds, cut toward the start of 2000. -/
def cutToward2000 (t : Instant) : Instant :=
  ofNanos (databaseEpoch + (t.nanos - databaseEpoch).tdiv 1000 * 1000)

/-- An instant that is no leap second is given by its nanoseconds. -/
theorem ofNanos_nanos {t : Instant} (h : t.nano < 1000000000) : ofNanos t.nanos = t := by
  have hge := t.second_ge
  have hle := t.second_le
  unfold ofNanos nanos
  rw [dif_neg (by omega), dif_neg (by omega)]
  exact ext (by simp only; omega) (by simp only; omega)

theorem nanos_ofNanos {n : Int} (h : -8334601228800000000000 ≤ n) :
    (ofNanos n).nanos = min n last.nanos := by
  have hl : last.nanos = 8210266876799999999999 := by decide
  unfold ofNanos
  split
  · rw [hl]
    show last.nanos = _
    omega
  · rw [dif_neg (by omega), hl]
    simp only [nanos]
    omega

/-- Unless it ends in the leap second that it starts in, a sum counts from the whole second. -/
theorem later_eq_ofNanos {t : Instant} {d : Duration}
    (beyond : t.nano < 1000000000 ∨ 2000000000 ≤ t.nano + d.nanos) :
    t.later d = ofNanos (t.second * 1000000000 + (t.nano % 1000000000 : Nat) + d.nanos) :=
  dif_neg (by omega)

theorem nanos_later_of_beyond {t : Instant} {d : Duration}
    (beyond : t.nano < 1000000000 ∨ 2000000000 ≤ t.nano + d.nanos) : (t.later d).nanos =
      min (t.second * 1000000000 + (t.nano % 1000000000 : Nat) + d.nanos) last.nanos := by
  rw [later_eq_ofNanos beyond]
  refine nanos_ofNanos ?_
  have := t.second_ge
  omega

/-- **Adding a duration is exact** up to the last instant, where it stops. -/
theorem nanos_later {t : Instant} (counted : t.nano < 1000000000) (d : Duration) :
    (t.later d).nanos = min (t.nanos + d.nanos) last.nanos := by
  rw [nanos_later_of_beyond (.inl counted), Nat.mod_eq_of_lt counted]
  rfl

/-- **In a leap second** a duration is added exactly as long as that leads to the same leap second.
Beyond it the sum is a second less, for the leap second is none of the seconds that are counted. -/
theorem nanos_later_of_leap {t : Instant} (leap : 1000000000 ≤ t.nano) (d : Duration) :
    (t.later d).nanos = if t.nano + d.nanos < 2000000000 then t.nanos + d.nanos
      else min (t.nanos - 1000000000 + d.nanos) last.nanos := by
  split
  · next within =>
    rw [later, dif_pos ⟨leap, within⟩]
    simp only [nanos]
    omega
  · next beyond =>
    have bound := t.nano_ok
    have count : t.nanos = t.second * 1000000000 + t.nano := rfl
    rw [nanos_later_of_beyond (.inr (Nat.not_lt.1 beyond))]
    omega

/-- An hour later is what lies an hour after, unless that would be beyond the range. -/
theorem later_of_anHourLater? {t u : Instant} (h : t.anHourLater? = some u) :
    t.later (.ofSeconds 3600) = u := by
  unfold anHourLater? ofParts? at h
  split at h
  · have hour : (Duration.ofSeconds 3600).nanos = 3600000000000 := by decide
    have split : u.second = t.second + 3600 ∧ u.nano = t.nano % 1000000000 := by
      cases h
      exact ⟨rfl, rfl⟩
    have sum : u.nanos =
        t.second * 1000000000 + (t.nano % 1000000000 : Nat) + (3600000000000 : Nat) := by
      rw [nanos, split.1, split.2]
      omega
    rw [later_eq_ofNanos (by omega), hour, ← sum, ofNanos_nanos (by omega)]
  · cases h

/-- Flooring takes off what is beyond whole microseconds. -/
theorem nanos_floorMicros (t : Instant) :
    t.floorMicros.nanos = t.nanos - t.nanos % 1000 := by
  unfold nanos floorMicros
  simp only
  omega

/-- Among instants that are no leap seconds the order is that of the nanoseconds. -/
theorem le_iff_nanos {a b : Instant} (ha : a.nano < 1000000000) (hb : b.nano < 1000000000) :
    a ≤ b ↔ a.nanos ≤ b.nanos := by
  rw [le_iff]
  unfold nanos
  omega

end Instant

end FirmwareRollout
