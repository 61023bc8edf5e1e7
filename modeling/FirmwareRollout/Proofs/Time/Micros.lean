import FirmwareRollout.Proofs.Rollout.Ending

/-!
Times that a database keeps as they are. It counts whole microseconds, so that `cutToward2000`
leaves an instant alone exactly if it is one of them (`cutToward2000_eq_self_iff`). The state machine
makes no other instants of them: whatever it adds, caps or stops at the last instant is floored
again, and what it is given it keeps (`wholeMicros_transition`). Only a clock that reads a leap
second can lead to an instant that is none, for a short delay stays in the leap second.

Main statements: `cutToward2000_eq_self_iff`, `Machine.wholeMicros_walk`.
-/

namespace FirmwareRollout

namespace Instant

/-- An instant that is a whole number of microseconds. A leap second is none: counted in
microseconds it is the second that follows it. -/
structure WholeMicros (t : Instant) : Prop where
  whole : t.nano % 1000 = 0
  counted : t.nano < 1000000000

instance (t : Instant) : Decidable t.WholeMicros :=
  decidable_of_iff (t.nano % 1000 = 0 ∧ t.nano < 1000000000)
    ⟨fun h => ⟨h.1, h.2⟩, fun h => ⟨h.1, h.2⟩⟩

theorem nano_ofNanos_lt (n : Int) : (ofNanos n).nano < 1000000000 := by
  unfold ofNanos
  split
  · exact (by decide : (999999999 : Nat) < 1000000000)
  · split
    · exact (by decide : 0 < 1000000000)
    · show (n % 1000000000).toNat < 1000000000
      omega

theorem wholeMicros_floorMicros {t : Instant} (counted : t.nano < 1000000000) :
    t.floorMicros.WholeMicros := by
  constructor <;> unfold floorMicros <;> simp only <;> omega

theorem WholeMicros.max {a b : Instant} (ha : a.WholeMicros) (hb : b.WholeMicros) :
    (Max.max a b).WholeMicros := by
  show (if b ≤ a then a else b).WholeMicros
  split
  · exact ha
  · exact hb

/-- What a cut leaves of an instant is a multiple of a microsecond, or an end of the range. -/
theorem nano_ofNanos_mod {n : Int} (whole : n % 1000 = 0) (inside : n ≤ last.nanos) :
    (ofNanos n).nano % 1000 = 0 := by
  have hlast : last.nanos = 8210266876799999999999 := by decide
  unfold ofNanos
  rw [dif_neg (by omega)]
  split
  · rfl
  · show (n % 1000000000).toNat % 1000 = 0
    omega

theorem tdiv_mul_le_max (n : Int) : n.tdiv 1000 * 1000 ≤ Max.max n 0 := by
  rw [Int.tdiv_eq_ediv]
  split
  · omega
  · have : Int.sign 1000 = 1 := rfl
    omega

/-- **Whole microseconds come back as they were sent**, and nothing else does. -/
theorem cutToward2000_eq_self_iff {t : Instant} : t.cutToward2000 = t ↔ t.WholeMicros := by
  have hepoch : databaseEpoch = 946684800000000000 := rfl
  constructor
  · intro same
    have counted : t.nano < 1000000000 := same ▸ nano_ofNanos_lt _
    refine ⟨?_, counted⟩
    rw [← same]
    refine nano_ofNanos_mod (by rw [hepoch]; omega) ?_
    -- the cut is toward an instant inside of the range
    have hlast : last.nanos = 8210266876799999999999 := by decide
    have upper : t.nanos ≤ last.nanos := by
      have hle := t.second_le
      rw [hlast, nanos]
      omega
    have toward := tdiv_mul_le_max (t.nanos - databaseEpoch)
    omega
  · intro h
    have whole : (1000 : Int) ∣ t.nanos - databaseEpoch := by
      have := h.whole
      refine Int.dvd_of_emod_eq_zero ?_
      unfold nanos
      omega
    rw [cutToward2000, Int.tdiv_mul_cancel whole]
    have back : databaseEpoch + (t.nanos - databaseEpoch) = t.nanos := by omega
    rw [back, ofNanos_nanos h.counted]

end Instant

/-! ### Transitions -/

/-- A rollout all of whose times are whole microseconds. -/
structure Deployment.WholeMicros (d : Deployment) : Prop where
  createdAt : d.createdAt.WholeMicros
  updatedAt : d.updatedAt.WholeMicros
  nextStepAfter : d.progress.nextStepAfter.WholeMicros

namespace Machine

variable {m : Machine} {plan : Plan} {p : Progress} {outcome : StepOutcome} {now : Instant}
  {pending : Nat} {d : Deployment}

/-- A time that is planned is floored, unless the clock reads a leap second. -/
theorem wholeMicros_schedule {floor : Instant} (h : floor.WholeMicros)
    (counted : now.nano < 1000000000) (delay : Duration) :
    (schedule now delay floor).WholeMicros := by
  unfold schedule
  rw [Instant.later_eq_ofNanos (.inl counted)]
  exact (Instant.wholeMicros_floorMicros (Instant.nano_ofNanos_lt _)).max h

theorem wholeMicros_retryStep (h : p.nextStepAfter.WholeMicros) (hnow : now.WholeMicros)
    (reason : String) : (m.retryStep p now reason).next.nextStepAfter.WholeMicros := by
  unfold retryStep
  simp only
  split
  · exact hnow.max h
  · exact wholeMicros_schedule h hnow.counted _

theorem wholeMicros_transition (h : p.nextStepAfter.WholeMicros) (hnow : now.WholeMicros) :
    (m.transition plan p outcome now pending).next.nextStepAfter.WholeMicros := by
  unfold transition
  split
  · exact h
  · split
    · unfold advanceStep
      split
      · exact wholeMicros_retryStep h hnow _
      · exact wholeMicros_schedule h hnow.counted _
    · exact wholeMicros_retryStep h hnow _
    · exact hnow.max h

/-- **The times of a rollout stay whole microseconds** through any number of transitions, if those
that the clock reads are. -/
theorem wholeMicros_walk (h : d.WholeMicros) {o : Nat → Occasion}
    (hnow : ∀ n, (o n).now.WholeMicros) (n : Nat) : (m.walk d o n).WholeMicros := by
  induction n with
  | zero => exact h
  | succ n ih =>
    exact ⟨ih.createdAt, ih.updatedAt, wholeMicros_transition ih.nextStepAfter (hnow n)⟩

end Machine

end FirmwareRollout
