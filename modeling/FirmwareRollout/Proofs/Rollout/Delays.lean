import FirmwareRollout.Proofs.Rollout.Times
import FirmwareRollout.Settings.Basic

/-!
The delays of both policies against the rules that they are documented by, which know no largest
number. A power of two stops at the end of a word, a product and a sum stop at the longest duration,
and the cap of the policy comes last. The cap hides the other stops wherever it is not larger than
they are: for the rest after a step always, if the cap is at most 2⁶⁴ - 1 seconds, which is all that
settings can say; for the delay after failures only where `RetryPolicy.Exact` says so.

Main statements: `RetryPolicy.backoff_is_capped_exponential` and `TimingPolicy.delays_follow_rule`.
-/

namespace FirmwareRollout

/-! ### The delay after failures -/

theorem two_pow_le {m n : Nat} (h : m ≤ n) : Nat.pow 2 m ≤ Nat.pow 2 n :=
  Nat.pow_le_pow_right (by decide) h

namespace RetryPolicy

variable {p p' : RetryPolicy} {f g : UInt32}

/-- The factor 2³² - 1, at which powers stop, is not reached, or makes no difference. -/
def Exact (p : RetryPolicy) (f : UInt32) : Prop :=
  f.toNat ≤ 31 ∨ p.baseDelay = .zero ∨ p.maxDelay.nanos ≤ p.baseDelay.nanos * 4294967295

theorem nanos_backoff_of_exact (exact : p.Exact f) : (p.backoff f).nanos =
    min (p.baseDelay.nanos * Nat.pow 2 f.toNat) p.maxDelay.nanos := by
  rw [nanos_backoff]
  rcases exact with few | zero | reached
  · have power : Nat.pow 2 f.toNat ≤ Nat.pow 2 31 := two_pow_le few
    have word : Nat.pow 2 31 ≤ 4294967295 := by decide
    rw [Nat.min_eq_left (Nat.le_trans power word)]
  · rw [zero, Duration.nanos_zero, Nat.zero_mul, Nat.zero_mul]
  · rcases Nat.le_total (Nat.pow 2 f.toNat) 4294967295 with small | large
    · rw [Nat.min_eq_left small]
    · -- both factors take the delay to its cap
      have product := Nat.mul_le_mul_left p.baseDelay.nanos large
      rw [Nat.min_eq_right large, Nat.min_eq_right reached,
        Nat.min_eq_right (Nat.le_trans reached product)]

theorem nanos_backoff_of_not_exact (inexact : ¬ p.Exact f) : (p.backoff f).nanos =
    min (p.baseDelay.nanos * 4294967295) p.maxDelay.nanos := by
  have many : 32 ≤ f.toNat := by
    have := not_or.1 inexact
    omega
  have power : Nat.pow 2 32 ≤ Nat.pow 2 f.toNat := two_pow_le many
  have word : 4294967295 ≤ Nat.pow 2 32 := by decide
  rw [nanos_backoff, Nat.min_eq_right (Nat.le_trans word power)]

theorem backoff_le_maxDelay (p : RetryPolicy) (f : UInt32) : p.backoff f ≤ p.maxDelay := by
  rw [Duration.le_iff, nanos_backoff]
  exact Nat.min_le_right _ _

theorem backoff_mono (base : p.baseDelay ≤ p'.baseDelay) (cap : p.maxDelay ≤ p'.maxDelay)
    (failures : f ≤ g) : p.backoff f ≤ p'.backoff g := by
  rw [Duration.le_iff] at *
  have power : Nat.pow 2 f.toNat ≤ Nat.pow 2 g.toNat :=
    two_pow_le (UInt32.le_iff_toNat_le.1 failures)
  have factor : min (Nat.pow 2 f.toNat) 4294967295 ≤ min (Nat.pow 2 g.toNat) 4294967295 := by omega
  have product := Nat.mul_le_mul base factor
  rw [nanos_backoff, nanos_backoff]
  omega

/-- **The delay after failures is the capped exponential.** It is the base delay doubled for each
failure, and at most the maximal delay, in numbers without bounds, up to 31 failures and wherever
the factor 2³² - 1 makes nothing of the base delay or takes it to the cap; elsewhere it is that
factor of the base delay. More failures or a longer base delay never make it shorter, it never
exceeds the maximal delay, and where it has reached the maximal delay it stays there. -/
theorem backoff_is_capped_exponential (p : RetryPolicy) (f : UInt32) :
    (p.Exact f → (p.backoff f).nanos =
      min (p.baseDelay.nanos * Nat.pow 2 f.toNat) p.maxDelay.nanos) ∧
    (¬ p.Exact f → (p.backoff f).nanos =
      min (p.baseDelay.nanos * 4294967295) p.maxDelay.nanos) ∧
    (∀ g, f ≤ g → p.backoff f ≤ p.backoff g) ∧
    (∀ p' : RetryPolicy, p.baseDelay ≤ p'.baseDelay → p'.maxDelay = p.maxDelay →
      p.backoff f ≤ p'.backoff f) ∧
    p.backoff f ≤ p.maxDelay ∧
    (p.backoff f = p.maxDelay → ∀ g, f ≤ g → p.backoff g = p.maxDelay) := by
  have same : ∀ d : Duration, d ≤ d := fun d => Nat.le_refl d.nanos
  have more : ∀ g, f ≤ g → p.backoff f ≤ p.backoff g := fun g failures =>
    backoff_mono (same _) (same _) failures
  refine ⟨nanos_backoff_of_exact, nanos_backoff_of_not_exact, more, fun p' base cap => ?_,
    backoff_le_maxDelay p f, fun reached g failures => ?_⟩
  · exact backoff_mono base (cap ▸ same _) (UInt32.le_refl f)
  · have below := backoff_le_maxDelay p g
    have above := more g failures
    rw [reached] at above
    exact Duration.ext (Nat.le_antisymm below above)

end RetryPolicy

/-! ### The rest after a step -/

namespace TimingPolicy

variable {p p' : TimingPolicy} {plan plan' : Plan} {stage : Stage}

/-- The nanoseconds that a rollout is to rest after the step of a stage, before the cap. -/
def ruleNanos (p : TimingPolicy) (plan : Plan) : Stage → Nat
  | .multicastSetup | .fragmentationSetup | .multicastSessionSetup | .transmitted =>
    plan.unicastTimeout.nanos
  | .enqueue => plan.unicastTimeout.nanos * max plan.redundancy.toNat 1
  | .waitingTx => Nat.pow 2 plan.multicastTimeout.toNat * 1000000000 + p.sessionMargin.nanos
  | .statusRequested | .done => 0

/-- The cap of a policy that settings can give. -/
theorem capped_policy (s : TimingSettings) :
    s.policy.maxStepDelay ≤ .ofSeconds 18446744073709551615 := by
  have seconds := s.maxStepDelaySecs.toNat_lt
  show s.maxStepDelaySecs.toNat * 1000000000 ≤ 18446744073709551615 * 1000000000
  omega

/-- A session that is cut at 2⁶⁴ - 1 seconds is as long as the cap already. -/
theorem nanos_delayAfter_of_capped (capped : p.maxStepDelay ≤ .ofSeconds 18446744073709551615)
    (stage : Stage) (plan : Plan) :
    (p.delayAfter stage plan).nanos = min p.maxStepDelay.nanos (p.ruleNanos plan stage) := by
  have cap : p.maxStepDelay.nanos ≤ 18446744073709551615 * 1000000000 := capped
  rw [nanos_delayAfter, Nat.min_comm]
  cases stage with
  | waitingTx =>
    rw [restNanos, ruleNanos]
    omega
  | _ => rfl

theorem ruleNanos_mono (margin : p.sessionMargin ≤ p'.sessionMargin)
    (timeout : plan.unicastTimeout ≤ plan'.unicastTimeout)
    (redundancy : plan.redundancy ≤ plan'.redundancy)
    (session : plan.multicastTimeout ≤ plan'.multicastTimeout) :
    p.ruleNanos plan stage ≤ p'.ruleNanos plan' stage := by
  rw [Duration.le_iff] at margin timeout
  cases stage with
  | enqueue =>
    have factor := UInt32.le_iff_toNat_le.1 redundancy
    exact Nat.mul_le_mul timeout (by omega)
  | waitingTx =>
    have power := two_pow_le (UInt32.le_iff_toNat_le.1 session)
    exact Nat.add_le_add (Nat.mul_le_mul_right _ power) margin
  | statusRequested | done => exact Nat.le_refl 0
  | _ => exact timeout

/-- A session of 2⁶⁴ seconds or more is beyond every cap. -/
theorem delayAfter_of_long_session (capped : p.maxStepDelay ≤ .ofSeconds 18446744073709551615)
    (long : 64 ≤ plan.multicastTimeout.toNat) :
    p.delayAfter .waitingTx plan = p.maxStepDelay := by
  have cap : p.maxStepDelay.nanos ≤ 18446744073709551615 * 1000000000 := capped
  have power : Nat.pow 2 64 ≤ Nat.pow 2 plan.multicastTimeout.toNat := two_pow_le long
  have word : 18446744073709551615 ≤ Nat.pow 2 64 := by decide
  refine Duration.ext ?_
  rw [nanos_delayAfter_of_capped capped, ruleNanos]
  omega

/-- **The rest after a step follows its rule.** If the cap is at most 2⁶⁴ - 1 seconds, as it is in
every policy that settings give, then the rest is, in numbers without bounds, the time that a device
may take, that time for each redundancy fragment and at least once, or two to the power of the
session's exponent in seconds with the margin, and nothing after the last step; each is cut at the
cap and nowhere else. So no number of the plan or of the policy can grow and make a rest shorter: a
session of 2⁶⁴ seconds or more rests for as long as the cap allows, and queueing never rests for
less than a single device. -/
theorem delays_follow_rule (p : TimingPolicy) (plan : Plan)
    (capped : p.maxStepDelay ≤ .ofSeconds 18446744073709551615) :
    (∀ stage ∈ [Stage.multicastSetup, .fragmentationSetup, .multicastSessionSetup, .transmitted],
      (p.delayAfter stage plan).nanos = min p.maxStepDelay.nanos plan.unicastTimeout.nanos) ∧
    (p.delayAfter .enqueue plan).nanos =
      min p.maxStepDelay.nanos (plan.unicastTimeout.nanos * max plan.redundancy.toNat 1) ∧
    (p.delayAfter .waitingTx plan).nanos = min p.maxStepDelay.nanos
      (Nat.pow 2 plan.multicastTimeout.toNat * 1000000000 + p.sessionMargin.nanos) ∧
    p.delayAfter .statusRequested plan = .zero ∧
    (∀ (stage : Stage) (p' : TimingPolicy) (plan' : Plan), p'.maxStepDelay = p.maxStepDelay →
      p.sessionMargin ≤ p'.sessionMargin → plan.unicastTimeout ≤ plan'.unicastTimeout →
      plan.redundancy ≤ plan'.redundancy → plan.multicastTimeout ≤ plan'.multicastTimeout →
        p.delayAfter stage plan ≤ p'.delayAfter stage plan') ∧
    (64 ≤ plan.multicastTimeout.toNat → p.delayAfter .waitingTx plan = p.maxStepDelay) ∧
    p.delayAfter .transmitted plan ≤ p.delayAfter .enqueue plan ∧
    ∀ s : TimingSettings, s.policy.maxStepDelay ≤ .ofSeconds 18446744073709551615 := by
  have rule := nanos_delayAfter_of_capped capped
  refine ⟨fun stage listed => ?_, rule .enqueue plan, rule .waitingTx plan, ?_,
    fun stage p' plan' same margin timeout redundancy session => ?_,
    delayAfter_of_long_session capped, ?_, capped_policy⟩
  · rw [rule]
    simp only [List.mem_cons, List.not_mem_nil, or_false] at listed
    rcases listed with rfl | rfl | rfl | rfl <;> rfl
  · refine Duration.ext ?_
    rw [rule]
    exact Nat.min_zero _
  · have more : p.ruleNanos plan stage ≤ p'.ruleNanos plan' stage :=
      ruleNanos_mono margin timeout redundancy session
    rw [Duration.le_iff, rule, nanos_delayAfter_of_capped (same ▸ capped), same]
    omega
  · have once := Nat.mul_le_mul_left plan.unicastTimeout.nanos
      (Nat.le_max_right plan.redundancy.toNat 1)
    rw [Duration.le_iff, rule, rule, ruleNanos, ruleNanos]
    omega

/-- With the default settings a session with the exponent 2³² - 1 rests for a day, and so does
queueing for 2³² - 1 fragments. -/
theorem longest_rests_a_day :
    let p := TimingSettings.policy {}
    p.maxStepDelay ≤ .ofSeconds 18446744073709551615 ∧
      p.delayAfter .waitingTx .longest = .ofSeconds 86400 ∧
      p.delayAfter .enqueue .longest = .ofSeconds 86400 := by
  have capped := capped_policy {}
  obtain ⟨-, queueing, -, -, -, session, -⟩ := delays_follow_rule _ .longest capped
  exact ⟨capped, session (by decide), Duration.ext (queueing.trans (by decide))⟩

end TimingPolicy

end FirmwareRollout
