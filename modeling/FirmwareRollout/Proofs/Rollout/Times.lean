import FirmwareRollout.Proofs.Rollout.Moves
import FirmwareRollout.Proofs.Time.Micros

/-!
The time of a rollout's next step, in numbers without bounds. Delays are products and sums that stop
at the longest duration, a delay is added to a clock that stops at the last instant, and the sum is
floored to whole microseconds before it is compared with the time that was planned before. Nothing
of that shows in the end (`planned_schedule`): the caps of a policy are below the longest duration,
and what stops at the last instant would be stopped there anyway.

Main statements: `RetryPolicy.nanos_backoff`, `TimingPolicy.nanos_delayAfter` and
`transition_is_timed`.
-/

namespace FirmwareRollout

/-! ### Delays -/

/-- **The delay after failures**, in numbers without bounds. -/
theorem RetryPolicy.nanos_backoff (p : RetryPolicy) (failures : UInt32) :
    (p.backoff failures).nanos =
      min (p.baseDelay.nanos * min (Nat.pow 2 failures.toNat) 4294967295) p.maxDelay.nanos := by
  have cap := p.maxDelay.nanos_le
  have factor : cappedPower maxCount failures.toNat = min (Nat.pow 2 failures.toNat) 4294967295 :=
    cappedPower_eq ..
  rw [backoff, Duration.nanos_min, Duration.nanos_mul, factor]
  omega

namespace TimingPolicy

/-- The nanoseconds that a rollout rests after the step of a stage, were it not for the cap. The
length of a multicast session is at most 2⁶⁴ - 1 seconds. -/
def restNanos (p : TimingPolicy) (plan : Plan) : Stage → Nat
  | .multicastSetup | .fragmentationSetup | .multicastSessionSetup | .transmitted =>
    plan.unicastTimeout.nanos
  | .enqueue => plan.unicastTimeout.nanos * max plan.redundancy.toNat 1
  | .waitingTx =>
    min (Nat.pow 2 plan.multicastTimeout.toNat) 18446744073709551615 * 1000000000 +
      p.sessionMargin.nanos
  | .statusRequested | .done => 0

/-- **The rest after a step**, in numbers without bounds. -/
theorem nanos_delayAfter (p : TimingPolicy) (stage : Stage) (plan : Plan) :
    (p.delayAfter stage plan).nanos = min (p.restNanos plan stage) p.maxStepDelay.nanos := by
  have cap := p.maxStepDelay.nanos_le
  unfold delayAfter
  rw [Duration.nanos_min]
  cases stage with
  | enqueue =>
    rw [restNanos, Duration.nanos_mul]
    omega
  | waitingTx =>
    rw [restNanos, Duration.nanos_add, Duration.nanos_ofNanos, cappedPower_eq]
    show _ = min (min (Nat.pow 2 plan.multicastTimeout.toNat) _ * _ + _) _
    have longest : Duration.maxNanos = 18446744073709551615999999999 := rfl
    omega
  | _ => rfl

end TimingPolicy

/-! ### Planning -/

namespace Instant

variable {now time previous target : Instant} {delay : Duration}

/-- The instant that lies `delay` after `now`, in numbers without bounds, or the last instant if
that is earlier. -/
structure Target (now : Instant) (delay : Duration) (target : Instant) : Prop where
  counted : target.nano < 1000000000
  nanos : target.nanos = min (now.nanos + delay.nanos) last.nanos

theorem target_later (counted : now.nano < 1000000000) (delay : Duration) :
    Target now delay (now.later delay) := by
  refine ⟨?_, nanos_later counted delay⟩
  rw [later_eq_ofNanos (.inl counted)]
  exact nano_ofNanos_lt _

theorem nanos_floorMicros_eq (t : Instant) : t.floorMicros.nanos = t.nanos / 1000 * 1000 := by
  rw [nanos_floorMicros]
  omega

theorem max_eq_left (h : time ≤ previous) : max previous time = previous := if_pos h

theorem max_eq_right (h : previous ≤ time) : max previous time = time := by
  show (if time ≤ previous then previous else time) = time
  split
  · next h' => exact le_antisymm h h'
  · rfl

theorem max_comm (a b : Instant) : max a b = max b a := by
  rcases le_total a b with h | h
  · rw [max_eq_right h, max_eq_left h]
  · rw [max_eq_left h, max_eq_right h]

theorem nanos_max (hp : previous.nano < 1000000000) (ht : time.nano < 1000000000) :
    (max previous time).nanos = max previous.nanos time.nanos := by
  rcases le_total previous time with h | h
  · have := (le_iff_nanos hp ht).1 h
    rw [max_eq_right h]
    omega
  · have := (le_iff_nanos ht hp).1 h
    rw [max_eq_left h]
    omega

theorem floorMicros_le (t : Instant) : t.floorMicros ≤ t := .inr ⟨rfl, Nat.sub_le ..⟩

/-- **A planned time** is the later one of the time that was planned before and of the target,
floored to whole microseconds. So it does not move back, it is not later than both, and it falls
short of the later one by less than a microsecond. Unless the time before is in a leap second, that
is the arithmetic of nanoseconds. -/
structure Planned (now : Instant) (delay : Duration) (previous time : Instant) : Prop where
  exact : ∃ target floored, Target now delay target ∧ floored.nano < 1000000000 ∧
    floored.nanos = target.nanos / 1000 * 1000 ∧ time = max previous floored ∧
    time ≤ max previous target ∧ (max previous target).nanos < time.nanos + 1000
  nanos : previous.nano < 1000000000 → time.nanos =
    max previous.nanos (min (now.nanos + delay.nanos) last.nanos / 1000 * 1000)
  previous_le : previous ≤ time
  nanos_le : time.nanos ≤ max previous.nanos (now.nanos + delay.nanos)

/-- What is between an instant and the microsecond that it is in is less than a microsecond away. -/
theorem nanos_lt_of_floorMicros_le (after : target.floorMicros ≤ time) (until_ : time ≤ target) :
    target.nanos < time.nanos + 1000 := by
  have same : target.floorMicros.second = target.second := rfl
  have floored : target.floorMicros.nano = target.nano - target.nano % 1000 := rfl
  rw [le_iff] at after until_
  unfold nanos
  omega

/-- **What is scheduled is planned**, however long the delay is, unless the clock reads a leap
second. -/
theorem planned_schedule (counted : now.nano < 1000000000) (delay : Duration) (previous : Instant) :
    Planned now delay previous (Machine.schedule now delay previous) := by
  have target := target_later counted delay
  have floored := nanos_floorMicros_eq (now.later delay)
  have own : (now.later delay).floorMicros.nano < 1000000000 :=
    (wholeMicros_floorMicros target.counted).counted
  have below := floorMicros_le (now.later delay)
  have sum := target.nanos
  rw [Machine.schedule, max_comm]
  generalize now.later delay = goal at *
  refine ⟨⟨goal, goal.floorMicros, target, own, floored, rfl, ?_⟩, fun before => ?_,
    le_max_left .., ?_⟩
  · rcases le_total goal.floorMicros previous with early | late
    · -- the time before stays, and it may be later than the target or within its microsecond
      rw [max_eq_left early]
      refine ⟨le_max_left .., ?_⟩
      rcases le_total goal previous with before | within
      · rw [max_eq_left before]
        omega
      · rw [max_eq_right within]
        exact nanos_lt_of_floorMicros_le early within
    · rw [max_eq_right late, max_eq_right (le_trans late below)]
      exact ⟨below, nanos_lt_of_floorMicros_le (le_refl _) below⟩
  · rw [nanos_max before own, floored, sum]
  · rcases le_total goal.floorMicros previous with early | late
    · rw [max_eq_left early]
      omega
    · rw [max_eq_right late]
      omega

end Instant

/-! ### Transitions -/

namespace Machine

variable {m : Machine} {plan : Plan} {p : Progress} {outcome : StepOutcome} {now : Instant}
  {pending : Nat}

/-- The step is to be tried again: it asks for that, or it waits for devices. -/
def Undone (p : Progress) (outcome : StepOutcome) (pending : Nat) : Prop :=
  (∃ reason, outcome = .retry reason) ∨
    outcome = .advance ∧ p.stage = .statusRequested ∧ 0 < pending

/-- **When a rollout goes on** after a step, by what came of the step. -/
inductive Timed (m : Machine) (plan : Plan) (p : Progress) (outcome : StepOutcome) (now : Instant)
    (pending : Nat) (t : Transition) : Prop where
  /-- The step is done, and the next stage rests as long as the policy has it. -/
  | advanced (done : outcome = .advance) (reported : p.stage = .statusRequested → pending = 0)
    (stage : p.stage.next? = some t.next.stage) (kept : t.failOutstanding = none)
    (time : Instant.Planned now (m.timing.delayAfter p.stage plan) p.nextStepAfter
      t.next.nextStepAfter)
  /-- It is tried again below the ceiling on attempts, after the delay for the failures so far. -/
  | retried (undone : Undone p outcome pending)
    (below : p.retryCount.toNat + 1 < m.retry.maxAttempts.toNat) (stage : t.next.stage = p.stage)
    (count : t.next.retryCount.toNat = p.retryCount.toNat + 1) (kept : t.failOutstanding = none)
    (time : Instant.Planned now (m.retry.backoff p.retryCount) p.nextStepAfter t.next.nextStepAfter)
  /-- The rollout is given up, at once. -/
  | forced (lost : (∃ reason, outcome = .fatal reason) ∨
      Undone p outcome pending ∧ m.retry.maxAttempts.toNat ≤ p.retryCount.toNat + 1)
    (stage : t.next.stage = .done) (failed : t.failOutstanding.isSome)
    (time : t.next.nextStepAfter = max p.nextStepAfter now)
    (nanos : p.nextStepAfter.nano < 1000000000 →
      t.next.nextStepAfter.nanos = max p.nextStepAfter.nanos now.nanos)

theorem timed_finish (counted : now.nano < 1000000000) {message : String}
    (lost : (∃ reason, outcome = .fatal reason) ∨
      Undone p outcome pending ∧ m.retry.maxAttempts.toNat ≤ p.retryCount.toNat + 1) :
    m.Timed plan p outcome now pending (finish p now message) := by
  have time : (finish p now message).next.nextStepAfter = max p.nextStepAfter now :=
    Instant.max_comm ..
  refine .forced lost rfl rfl time fun own => ?_
  rw [time, Instant.nanos_max own counted]

theorem timed_retryStep (counted : now.nano < 1000000000) (undone : Undone p outcome pending)
    (reason : String) : m.Timed plan p outcome now pending (m.retryStep p now reason) := by
  have ceiling := m.retry.maxAttempts.toNat_lt
  unfold retryStep
  simp only
  split
  · next reached =>
    refine timed_finish counted (.inr ⟨undone, ?_⟩)
    unfold maxCount at reached
    omega
  · next below =>
    have count : min (p.retryCount.toNat + 1) maxCount = p.retryCount.toNat + 1 := by
      unfold maxCount at below ⊢
      omega
    rw [count] at below ⊢
    have small : p.retryCount.toNat + 1 < 4294967296 := by omega
    exact .retried undone (Nat.not_le.1 below) rfl (UInt32.toNat_ofNat_of_lt' small) rfl
      (Instant.planned_schedule counted ..)

theorem timed_transition (unfinished : p.stage.isTerminal = false)
    (counted : now.nano < 1000000000) :
    m.Timed plan p outcome now pending (m.transition plan p outcome now pending) := by
  unfold transition
  rw [if_neg (by simp [unfinished])]
  cases outcome with
  | advance =>
    simp only [advanceStep]
    split
    · next waits => exact timed_retryStep counted (.inr ⟨rfl, waits⟩) _
    · next reported =>
      cases next : p.stage.next? with
      | none => exact absurd (Stage.next?_eq_none_iff.1 next) (by simp [unfinished])
      | some stage =>
        refine .advanced rfl (fun status => ?_) next rfl (Instant.planned_schedule counted ..)
        exact Nat.eq_zero_of_not_pos fun some => reported ⟨status, some⟩
  | retry reason => exact timed_retryStep counted (.inl ⟨reason, rfl⟩) reason
  | fatal reason => exact timed_finish counted (.inl ⟨reason, rfl⟩)

/-- **The time of every transition is exact.** From a stage that is not the last, at any instant
that is no leap second, the next step is planned as `Timed` has it, with delays that are those of
numbers without bounds, and never for a time before the one that was planned. -/
theorem transition_is_timed (m : Machine) (plan : Plan) (p : Progress) (outcome : StepOutcome)
    (now : Instant) (pending : Nat) (unfinished : p.stage.isTerminal = false)
    (counted : now.nano < 1000000000) :
    let t := m.transition plan p outcome now pending
    m.Timed plan p outcome now pending t ∧
    p.nextStepAfter ≤ t.next.nextStepAfter ∧
    (m.timing.delayAfter p.stage plan).nanos =
      min (m.timing.restNanos plan p.stage) m.timing.maxStepDelay.nanos ∧
    (m.retry.backoff p.retryCount).nanos =
      min (m.retry.baseDelay.nanos * min (Nat.pow 2 p.retryCount.toNat) 4294967295)
        m.retry.maxDelay.nanos :=
  ⟨timed_transition unfinished counted, nextStepAfter_le_transition ..,
    m.timing.nanos_delayAfter .., m.retry.nanos_backoff ..⟩

/-- Policies that cap nothing. -/
def boundless : Machine :=
  let longest := Duration.ofNanos Duration.maxNanos
  ⟨⟨4294967295, longest, longest⟩, ⟨longest, longest⟩⟩

end Machine

/-- A plan in which all that can be long is as long as it can be. -/
def Plan.longest : Plan where
  name := "image"
  group := none
  matrix := 0
  descriptor := .replicate 4 0
  payload := []
  fragSize := 0
  redundancy := 4294967295
  blockAckDelay := 0
  multicastTimeout := 4294967295
  unicastTimeout := .ofNanos Duration.maxNanos

namespace Machine

theorem timed_at_the_end :
    Stage.waitingTx.isTerminal = false ∧ Instant.epoch.nano < 1000000000 ∧
    let p : Progress := ⟨.waitingTx, .epoch, 0⟩
    let t := boundless.transition .longest p .advance .epoch 0
    boundless.Timed .longest p .advance .epoch 0 t ∧
      t.next.nextStepAfter = Instant.last.floorMicros := by
  refine ⟨by decide, by decide, ?_⟩
  have timed := transition_is_timed boundless .longest ⟨.waitingTx, .epoch, 0⟩ .advance .epoch 0
    (by decide) (by decide)
  exact ⟨timed.1, by decide⟩

end Machine

end FirmwareRollout
