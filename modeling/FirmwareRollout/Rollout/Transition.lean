import FirmwareRollout.Deployment.Basic

/-!
One step of a rollout: from where it stands, the outcome of the step's side effect, the time and the
number of devices that are still pending, to where it stands next. Two policies say how long to wait
before a failed step is tried again, and after a step that is done; all delays are capped. The rule
is a pure function; a rollout that is over does not move, and the time of the next step never moves
back (`nextStepAfter_le_transition`).
-/

namespace FirmwareRollout

/-! ### Policies -/

/-- Exponential backoff with a ceiling on attempts. -/
structure RetryPolicy where
  /-- The attempts at one step after which a rollout is given up. -/
  maxAttempts : UInt32
  /-- The delay after the first failure. -/
  baseDelay : Duration
  /-- No delay is longer. -/
  maxDelay : Duration
deriving DecidableEq

/-- How long a rollout rests after each step that is done. -/
structure TimingPolicy where
  /-- The slack after a multicast session before it counts as over. -/
  sessionMargin : Duration
  /-- No rest is longer. -/
  maxStepDelay : Duration
deriving DecidableEq

/-- The largest value of a 32-bit counter. -/
def maxCount : Nat := 4294967295

/-- Two to the power of `exponent`, or `top` if the power is larger. -/
def cappedPower (top exponent : Nat) : Nat :=
  if exponent ≤ top.log2 then min (Nat.pow 2 exponent) top else top

theorem cappedPower_eq (top exponent : Nat) :
    cappedPower top exponent = min (Nat.pow 2 exponent) top := by
  unfold cappedPower
  split
  · rfl
  · next hlt =>
    have : top < Nat.pow 2 exponent :=
      Nat.lt_of_lt_of_le (Nat.lt_log2_self) (Nat.pow_le_pow_right (by decide) (by omega))
    omega

namespace RetryPolicy

/-- The delay after `failures` earlier failures: the base delay doubled for each of them, the factor
being at most the largest 32-bit number, and the whole at most the maximal delay. -/
def backoff (p : RetryPolicy) (failures : UInt32) : Duration :=
  min (p.baseDelay.mul (cappedPower maxCount failures.toNat)) p.maxDelay

end RetryPolicy

namespace TimingPolicy

/-- The rest after the step of `stage`. Steps that wait for devices rest for the time that a device
may take, queueing for as many of these as there are redundancy fragments, and a multicast session
for its length and the margin. -/
def delayAfter (p : TimingPolicy) (stage : Stage) (plan : Plan) : Duration :=
  let delay :=
    match stage with
    | .multicastSetup | .fragmentationSetup | .multicastSessionSetup | .transmitted =>
      plan.unicastTimeout
    | .enqueue => plan.unicastTimeout.mul (max plan.redundancy.toNat 1)
    | .waitingTx =>
      let session := cappedPower 18446744073709551615 plan.multicastTimeout.toNat
      (Duration.ofNanos (session * 1000000000)).add p.sessionMargin
    | .statusRequested | .done => .zero
  min delay p.maxStepDelay

end TimingPolicy

/-! ### Transitions -/

/-- What came of a step's side effect. -/
inductive StepOutcome where
  /-- It is done. -/
  | advance
  /-- It is to be tried again. -/
  | retry (reason : String)
  /-- It can never be done. -/
  | fatal (reason : String)
deriving DecidableEq, Repr

/-- Where a rollout goes, and the message with which pending devices are to be failed. -/
structure Transition where
  next : Progress
  failOutstanding : Option String
deriving DecidableEq

/-- The two policies that decide the times of a rollout. -/
structure Machine where
  retry : RetryPolicy
  timing : TimingPolicy
deriving DecidableEq

namespace Transition

def isDone (t : Transition) : Bool := t.next.stage.isTerminal

def apply (t : Transition) (d : Deployment) : Deployment := { d with progress := t.next }

end Transition

namespace Machine

/-- The time of the next step: `delay` from now in whole microseconds, but not before `floor`. -/
def schedule (now : Instant) (delay : Duration) (floor : Instant) : Instant :=
  max (now.later delay).floorMicros floor

/-- The end of a rollout that was given up. -/
def finish (p : Progress) (now : Instant) (message : String) : Transition :=
  ⟨⟨.done, max now p.nextStepAfter, p.retryCount⟩, some message⟩

/-- One more attempt at the same step, or the end if there were enough. -/
def retryStep (m : Machine) (p : Progress) (now : Instant) (reason : String) : Transition :=
  let attempts := min (p.retryCount.toNat + 1) maxCount
  if m.retry.maxAttempts.toNat ≤ attempts then
    finish p now
      (p.stage.tag ++ " gave up after " ++ toString attempts ++ " attempt(s): " ++ reason)
  else
    ⟨⟨p.stage, schedule now (m.retry.backoff p.retryCount) p.nextStepAfter, .ofNat attempts⟩, none⟩

/-- The step to the next stage. The status step waits for the devices that have not reported. -/
def advanceStep (m : Machine) (plan : Plan) (p : Progress) (now : Instant) (pending : Nat) :
    Transition :=
  if p.stage = .statusRequested ∧ 0 < pending then
    m.retryStep p now (toString pending ++ " device(s) have not reported status")
  else
    ⟨⟨p.stage.next?.getD .done,
      schedule now (m.timing.delayAfter p.stage plan) p.nextStepAfter, 0⟩, none⟩

/-- Where a rollout goes from here. -/
def transition (m : Machine) (plan : Plan) (p : Progress) (outcome : StepOutcome) (now : Instant)
    (pending : Nat) : Transition :=
  if p.stage.isTerminal then ⟨p, none⟩
  else
    match outcome with
    | .advance => m.advanceStep plan p now pending
    | .retry reason => m.retryStep p now reason
    | .fatal reason => finish p now (p.stage.tag ++ " failed: " ++ reason)

/-! ### The time of the next step -/

theorem le_schedule (now : Instant) (delay : Duration) (floor : Instant) :
    floor ≤ schedule now delay floor := Instant.le_max_right _ _

theorem nextStepAfter_le_retryStep (m : Machine) (p : Progress) (now : Instant) (reason : String) :
    p.nextStepAfter ≤ (m.retryStep p now reason).next.nextStepAfter := by
  unfold retryStep
  simp only
  split
  · exact Instant.le_max_right _ _
  · exact le_schedule ..

/-- The time of the next step never moves back. -/
theorem nextStepAfter_le_transition (m : Machine) (plan : Plan) (p : Progress)
    (outcome : StepOutcome) (now : Instant) (pending : Nat) :
    p.nextStepAfter ≤ (m.transition plan p outcome now pending).next.nextStepAfter := by
  unfold transition
  split
  · exact Instant.le_refl _
  · split
    · unfold advanceStep
      split
      · exact nextStepAfter_le_retryStep ..
      · exact le_schedule ..
    · exact nextStepAfter_le_retryStep ..
    · exact Instant.le_max_right _ _

end Machine

end FirmwareRollout
