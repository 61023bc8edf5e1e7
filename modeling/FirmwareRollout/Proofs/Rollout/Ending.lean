import FirmwareRollout.Proofs.Rollout.Moves

/-!
Every rollout ends. `Machine.stepsLeft` counts the transitions that a rollout has left at most: the
attempts that are left at its stage, and all attempts at each stage behind that one. Every
transition uses up at least one of them (`stepsLeft_transition_lt`), whatever its outcome, the clock
and the devices. A rollout that is kept at each stage for as long as the policy allows it (`tarry`) uses up
no more than one at a time (`stepsLeft_transition_tarry`), so that the count is attained.

Main statement: `rollouts_end`.
-/

namespace FirmwareRollout

/-- What a transition depends on besides the rollout. -/
structure Occasion where
  outcome : StepOutcome
  now : Instant
  pending : Nat
deriving DecidableEq

theorem Stage.rank_lt_of_ne_done {s : Stage} (h : s ≠ .done) : s.rank < 7 := by
  cases s with
  | done => exact absurd rfl h
  | _ => decide

namespace Machine

variable {m : Machine} {plan : Plan} {p : Progress} {outcome : StepOutcome} {now : Instant}
  {pending : Nat} {d : Deployment}

/-- The rollout after one transition. -/
def move (m : Machine) (d : Deployment) (o : Occasion) : Deployment :=
  (m.transition d.plan d.progress o.outcome o.now o.pending).apply d

/-- The rollout after its first `n` transitions, which come on the occasions `o 0`, `o 1`, and so
on. -/
def walk (m : Machine) (d : Deployment) (o : Nat → Occasion) : Nat → Deployment
  | 0 => d
  | n + 1 => m.move (m.walk d o n) (o n)

/-! ### The steps that are left -/

/-- The attempts that there are at a stage. Where the policy allows none, one is made still. -/
def attempts (m : Machine) : Nat := max 1 m.retry.maxAttempts.toNat

/-- The most transitions that a rollout can make before it is over. -/
def stepsLeft (m : Machine) (p : Progress) : Nat :=
  if p.stage.isTerminal then 0
  else max 1 (m.retry.maxAttempts.toNat - p.retryCount.toNat) + (6 - p.stage.rank) * m.attempts

theorem stepsLeft_of_unfinished (unfinished : p.stage.isTerminal = false) : m.stepsLeft p =
    max 1 (m.retry.maxAttempts.toNat - p.retryCount.toNat) + (6 - p.stage.rank) * m.attempts := by
  rw [stepsLeft, if_neg (by simp [unfinished])]

theorem stepsLeft_eq_zero_iff : m.stepsLeft p = 0 ↔ p.stage = .done := by
  unfold stepsLeft Stage.isTerminal
  by_cases finished : p.stage = .done
  · simp [finished]
  · have positive : 1 ≤ max 1 (m.retry.maxAttempts.toNat - p.retryCount.toNat) :=
      Nat.le_max_left _ _
    simp only [finished, decide_false, Bool.false_eq_true, if_false, iff_false]
    omega

/-- At the first attempt at the next stage all attempts at the stages behind this one are left. -/
theorem stepsLeft_of_next {p' : Progress} (next : p.stage.next? = some p'.stage)
    (count : p'.retryCount = 0) : m.stepsLeft p' = (6 - p.stage.rank) * m.attempts := by
  have rank := Stage.rank_next? next
  by_cases finished : p'.stage = .done
  · have last : p.stage.rank = 6 := by
      rw [finished] at rank
      exact (Nat.succ.inj rank).symm
    rw [stepsLeft_eq_zero_iff.2 finished, last, Nat.sub_self, Nat.zero_mul]
  · have behind : 6 - p.stage.rank = 6 - p'.stage.rank + 1 := by
      have := Stage.rank_lt_of_ne_done finished
      omega
    rw [stepsLeft, if_neg (by simpa [Stage.isTerminal] using finished), count, behind,
      Nat.succ_mul, Nat.add_comm]
    rfl

/-- **Every transition uses up a step**, until the rollout is over. -/
theorem stepsLeft_transition_lt (unfinished : p.stage.isTerminal = false) :
    m.stepsLeft (m.transition plan p outcome now pending).next < m.stepsLeft p := by
  rw [stepsLeft_of_unfinished unfinished]
  have moves : p.Moves (m.transition plan p outcome now pending).next :=
    m.moves_transition unfinished
  cases moves with
  | again stage count =>
    have below := retryCount_transition_lt unfinished stage
    rw [stepsLeft, stage, if_neg (by simp [unfinished]), count]
    rw [count] at below
    omega
  | on stage count =>
    rw [stepsLeft_of_next stage count]
    omega
  | finished stage =>
    rw [stepsLeft_eq_zero_iff.2 stage]
    omega

theorem stepsLeft_walk_le (m : Machine) (d : Deployment) (o : Nat → Occasion) (n : Nat) :
    m.stepsLeft (m.walk d o n).progress ≤ m.stepsLeft d.progress - n := by
  induction n with
  | zero => exact Nat.le_refl _
  | succ n ih =>
    by_cases finished : (m.walk d o n).progress.stage.isTerminal
    · have still : (m.walk d o (n + 1)).progress = (m.walk d o n).progress := by
        simp [walk, move, Transition.apply, transition, finished]
      rw [still, stepsLeft_eq_zero_iff.2 (of_decide_eq_true finished)]
      exact Nat.zero_le _
    · have uses : m.stepsLeft (m.walk d o (n + 1)).progress < m.stepsLeft (m.walk d o n).progress :=
        stepsLeft_transition_lt (Bool.eq_false_iff.2 finished)
      omega

/-! ### The longest way -/

/-- The outcome that keeps a rollout at its stage for as long as it can be, and then lets it go on
to the next one. The status step is never done, as that would end the rollout. -/
def tarry (m : Machine) (p : Progress) : StepOutcome :=
  if m.retry.maxAttempts.toNat ≤ p.retryCount.toNat + 1 ∧ p.stage ≠ .statusRequested then .advance
  else .retry "not yet"

/-- At the last attempt a step that fails is the last one. -/
theorem retryStep_of_le (last : m.retry.maxAttempts.toNat ≤ p.retryCount.toNat + 1)
    (reason : String) : (m.retryStep p now reason).next.stage = .done := by
  have ceiling := m.retry.maxAttempts.toNat_lt
  have most : m.retry.maxAttempts.toNat ≤ min (p.retryCount.toNat + 1) maxCount := by
    unfold maxCount
    omega
  simp only [retryStep, if_pos most, finish]

/-- Before the last attempt a step that fails uses up one attempt. -/
theorem stepsLeft_retryStep (unfinished : p.stage.isTerminal = false)
    (more : p.retryCount.toNat + 1 < m.retry.maxAttempts.toNat) (reason : String) :
    m.stepsLeft (m.retryStep p now reason).next = m.stepsLeft p - 1 := by
  have ceiling := m.retry.maxAttempts.toNat_lt
  have attempt : min (p.retryCount.toNat + 1) maxCount = p.retryCount.toNat + 1 := by
    unfold maxCount
    omega
  have stays : (m.retryStep p now reason).next.stage = p.stage ∧
      (m.retryStep p now reason).next.retryCount.toNat = p.retryCount.toNat + 1 := by
    simp only [retryStep, attempt, if_neg (Nat.not_le.2 more), true_and]
    exact UInt32.toNat_ofNat_of_lt' (Nat.lt_trans more ceiling)
  rw [stepsLeft_of_unfinished (stays.1 ▸ unfinished), stepsLeft_of_unfinished unfinished, stays.1,
    stays.2]
  omega

/-- **A rollout that tarries uses up one step at a time.** -/
theorem stepsLeft_transition_tarry (m : Machine) (plan : Plan) (p : Progress) (now : Instant)
    (pending : Nat) : m.stepsLeft (m.transition plan p (m.tarry p) now pending).next =
      m.stepsLeft p - 1 := by
  by_cases finished : p.stage.isTerminal
  · have none_left := stepsLeft_eq_zero_iff (m := m).2 (of_decide_eq_true finished)
    simp only [transition, if_pos finished, none_left]
  have unfinished := Bool.eq_false_iff.2 finished
  simp only [transition, if_neg finished]
  by_cases last : m.retry.maxAttempts.toNat ≤ p.retryCount.toNat + 1
  · by_cases status : p.stage = .statusRequested
    · -- the status step fails for good
      rw [tarry, if_neg fun leaves => leaves.2 status]
      have ends : (m.retryStep p now "not yet").next.stage = .done := m.retryStep_of_le last _
      rw [stepsLeft_eq_zero_iff.2 ends, stepsLeft_of_unfinished unfinished, status]
      simp only [Stage.rank, Nat.sub_self, Nat.zero_mul]
      omega
    · rw [tarry, if_pos ⟨last, status⟩]
      obtain ⟨stage, next⟩ := Option.ne_none_iff_exists'.1 (mt Stage.next?_eq_none_iff.1 finished)
      simp only [advanceStep, status, false_and, if_false, next, Option.getD_some]
      rw [stepsLeft_of_next next rfl, stepsLeft_of_unfinished unfinished]
      omega
  · rw [tarry, if_neg fun leaves => last leaves.1]
    exact stepsLeft_retryStep unfinished (Nat.not_le.1 last) "not yet"

/-- The rollout that tarries at the times `now` with `pending` devices that have not reported. -/
def tarrying (m : Machine) (d : Deployment) (now : Nat → Instant) (pending : Nat → Nat) :
    Nat → Deployment
  | 0 => d
  | n + 1 =>
    let d := m.tarrying d now pending n
    m.move d ⟨m.tarry d.progress, now n, pending n⟩

theorem stepsLeft_tarrying (m : Machine) (d : Deployment) (now : Nat → Instant)
    (pending : Nat → Nat) (n : Nat) :
    m.stepsLeft (m.tarrying d now pending n).progress = m.stepsLeft d.progress - n := by
  induction n with
  | zero => rfl
  | succ n ih =>
    have uses := m.stepsLeft_transition_tarry (m.tarrying d now pending n).plan
      (m.tarrying d now pending n).progress (now n) (pending n)
    rw [ih, Nat.sub_sub] at uses
    exact uses

theorem walk_tarry (m : Machine) (d : Deployment) (now : Nat → Instant) (pending : Nat → Nat)
    (n : Nat) : m.walk d
      (fun n => ⟨m.tarry (m.tarrying d now pending n).progress, now n, pending n⟩) n =
        m.tarrying d now pending n := by
  induction n with
  | zero => rfl
  | succ n ih => rw [walk, ih, tarrying]

/-- **Every rollout ends.** From a stage that is not the last, with `r` attempts made there and `M`
attempts allowed, it is over after at most `max 1 (M - r) + (6 - rank) * max 1 M` transitions,
whatever the outcomes, the times and the devices. At all times and with any devices there are
outcomes with which it is over after exactly that many. When it is over no transition changes it or
fails a device. -/
theorem rollouts_end (m : Machine) (d : Deployment) :
    ((m.stepsLeft d.progress : Int) =
        if d.progress.stage = .done then 0
        else max 1 ((m.retry.maxAttempts.toNat : Int) - d.progress.retryCount.toNat) +
          (6 - (d.progress.stage.rank : Int)) * max 1 (m.retry.maxAttempts.toNat : Int)) ∧
      (∀ (o : Nat → Occasion) (n : Nat), m.stepsLeft d.progress ≤ n →
        (m.walk d o n).progress.stage = .done) ∧
      (∀ (now : Nat → Instant) (pending : Nat → Nat), ∃ outcome : Nat → StepOutcome, ∀ n,
        (m.walk d (fun n => ⟨outcome n, now n, pending n⟩) n).progress.stage = .done ↔
          m.stepsLeft d.progress ≤ n) ∧
      ∀ d' : Deployment, d'.progress.stage = .done → ∀ o : Occasion,
        m.transition d'.plan d'.progress o.outcome o.now o.pending = ⟨d'.progress, none⟩ := by
  refine ⟨?_, fun o n enough => ?_, fun now pending => ?_, fun d' finished o => ?_⟩
  · split
    · next finished => rw [stepsLeft_eq_zero_iff.2 finished, Int.natCast_zero]
    · next unfinished =>
      have rank := Stage.rank_lt_of_ne_done unfinished
      have ceiling : ((max 1 m.retry.maxAttempts.toNat : Nat) : Int) =
          max 1 (m.retry.maxAttempts.toNat : Int) := by omega
      have behind : ((6 - d.progress.stage.rank : Nat) : Int) =
          6 - (d.progress.stage.rank : Int) := by omega
      rw [stepsLeft_of_unfinished (decide_eq_false unfinished), attempts, Int.natCast_add,
        Int.natCast_mul, ceiling, behind]
      omega
  · have left := stepsLeft_walk_le m d o n
    exact (stepsLeft_eq_zero_iff (m := m)).1 (by omega)
  · refine ⟨fun n => m.tarry (m.tarrying d now pending n).progress, fun n => ?_⟩
    rw [walk_tarry, ← stepsLeft_eq_zero_iff (m := m), stepsLeft_tarrying]
    exact Nat.sub_eq_zero_iff_le
  · simp only [transition, Stage.isTerminal, finished, decide_true, if_true]

/-- With three attempts at each stage a new rollout makes at most 21 transitions. -/
example :
    Machine.stepsLeft ⟨⟨3, .zero, .zero⟩, ⟨.zero, .zero⟩⟩ ⟨.multicastSetup, .epoch, 0⟩ = 21 := by
  decide

end Machine

end FirmwareRollout
