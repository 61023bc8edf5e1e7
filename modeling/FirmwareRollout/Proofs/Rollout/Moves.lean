import FirmwareRollout.Rollout.Transition

/-!
Where a rollout can go in one step. From a stage that is not the last, a transition tries the same
stage again, goes on to the next one, or gives up; each leads to the end only in a way that leaves
no device out. `Machine.Moves` says that one record of a rollout is what one transition makes of
another, and `Deployment.Follows` what is left of that after any number of transitions.

Main statements: `Machine.moves_transition`, `Machine.pending_of_isDone`, `Machine.Moves.follows`.
-/

namespace FirmwareRollout

/-- Where one step leads from a stage that is not the last. -/
inductive Progress.Moves (p p' : Progress) : Prop where
  /-- To another attempt at the same stage. -/
  | again (stage : p'.stage = p.stage) (count : p'.retryCount.toNat = p.retryCount.toNat + 1)
  /-- To the next stage, where nothing was tried yet. -/
  | on (stage : p.stage.next? = some p'.stage) (count : p'.retryCount = 0)
  /-- To the end. -/
  | finished (stage : p'.stage = .done)

theorem Stage.rank_le_done (s : Stage) : s.rank ≤ Stage.done.rank := by
  cases s <;> decide

theorem Stage.eq_statusRequested {s : Stage} (unfinished : s.isTerminal = false)
    (last : (s.next?.getD .done).isTerminal) : s = .statusRequested := by
  cases s with
  | statusRequested => rfl
  | done => cases unfinished
  | _ => cases last

theorem Progress.Moves.rank_le {p p' : Progress} (h : p.Moves p') : p.stage.rank ≤ p'.stage.rank := by
  cases h with
  | again stage => exact Nat.le_of_eq (congrArg _ stage.symm)
  | on stage => exact Nat.le_trans (Nat.le_succ _) (Nat.le_of_eq (Stage.rank_next? stage).symm)
  | finished stage => exact stage ▸ Stage.rank_le_done _

namespace Machine

variable {m : Machine} {plan : Plan} {p : Progress} {outcome : StepOutcome} {now : Instant}
  {pending : Nat} {d d' : Deployment}

theorem moves_retryStep (m : Machine) (p : Progress) (now : Instant) (reason : String) :
    p.Moves (m.retryStep p now reason).next := by
  unfold retryStep
  simp only
  split
  · exact .finished rfl
  · next hlt =>
    -- below the ceiling the count has not come to its end, so that it is exact
    have ceiling := m.retry.maxAttempts.toNat_lt
    have count : min (p.retryCount.toNat + 1) maxCount = p.retryCount.toNat + 1 := by
      unfold maxCount at hlt ⊢
      omega
    have small : p.retryCount.toNat + 1 < 4294967296 := by omega
    refine .again rfl ?_
    rw [count]
    exact UInt32.toNat_ofNat_of_lt' small

/-- **A transition goes somewhere**, unless the rollout is over. -/
theorem moves_transition (unfinished : p.stage.isTerminal = false) :
    p.Moves (m.transition plan p outcome now pending).next := by
  unfold transition
  rw [if_neg (by simp [unfinished])]
  split
  · unfold advanceStep
    split
    · exact moves_retryStep ..
    · cases next : p.stage.next? with
      | none => exact absurd (Stage.next?_eq_none_iff.1 next) (by simp [unfinished])
      | some stage => exact .on next rfl
  · exact moves_retryStep ..
  · exact .finished rfl

/-- A step that is tried again is below the ceiling on attempts. -/
theorem retryCount_retryStep_lt (unfinished : p.stage.isTerminal = false) {reason : String}
    (stays : (m.retryStep p now reason).next.stage = p.stage) :
    (m.retryStep p now reason).next.retryCount.toNat < m.retry.maxAttempts.toNat := by
  unfold retryStep at stays ⊢
  simp only at stays ⊢
  split at stays
  · rw [← stays] at unfinished
    cases unfinished
  · next below =>
    rw [if_neg below]
    have small : min (p.retryCount.toNat + 1) maxCount < 4294967296 := by
      unfold maxCount
      omega
    show (UInt32.ofNat _).toNat < _
    rw [UInt32.toNat_ofNat_of_lt' small]
    omega

/-- A rollout that stays at its stage is below the ceiling on attempts. -/
theorem retryCount_transition_lt (unfinished : p.stage.isTerminal = false)
    (stays : (m.transition plan p outcome now pending).next.stage = p.stage) :
    (m.transition plan p outcome now pending).next.retryCount.toNat < m.retry.maxAttempts.toNat := by
  unfold transition at stays ⊢
  rw [if_neg (by simp [unfinished])] at stays ⊢
  split at stays
  · unfold advanceStep at stays ⊢
    split at stays
    · next waits =>
      rw [if_pos waits]
      exact retryCount_retryStep_lt unfinished stays
    · -- no stage leads to itself
      cases h : p.stage <;> rw [h] at stays <;> cases stays
      rw [h] at unfinished
      cases unfinished
  · exact retryCount_retryStep_lt unfinished stays
  · rw [← stays] at unfinished
    cases unfinished

theorem failOutstanding_of_retryStep {reason : String} (unfinished : p.stage.isTerminal = false)
    (finished : (m.retryStep p now reason).isDone) :
    (m.retryStep p now reason).failOutstanding.isSome := by
  unfold retryStep at finished ⊢
  simp only at finished ⊢
  split at finished
  · next hle => rw [if_pos hle]; rfl
  · exact absurd finished (by simp [Transition.isDone, unfinished])

/-- **The end leaves no device out**: a transition that ends a rollout fails the devices that are
pending, or there are none. -/
theorem pending_of_isDone (unfinished : p.stage.isTerminal = false)
    (finished : (m.transition plan p outcome now pending).isDone) :
    (m.transition plan p outcome now pending).failOutstanding.isSome ∨ pending = 0 := by
  unfold transition at finished ⊢
  rw [if_neg (by simp [unfinished])] at finished ⊢
  split at finished
  · unfold advanceStep at finished ⊢
    split at finished
    · next hcond =>
      rw [if_pos hcond]
      exact .inl (failOutstanding_of_retryStep unfinished finished)
    · next hcond =>
      -- the one stage that leads to the end does not do so while devices are pending
      have status := Stage.eq_statusRequested unfinished finished
      exact .inr (Nat.eq_zero_of_not_pos fun hpos => hcond ⟨status, hpos⟩)
  · exact .inl (failOutstanding_of_retryStep unfinished finished)
  · exact .inl rfl

/-- One record of a rollout is what one transition at the time `now` makes of another, which was due
then. A store stamps it with its own clock. -/
def Moves (m : Machine) (now : Instant) (d d' : Deployment) : Prop :=
  d.isDue now ∧ ∃ outcome pending, ∃ clock : Instant, d' =
    { (m.transition d.plan d.progress outcome now pending).apply d with
      updatedAt := clock.floorMicros }

end Machine

namespace Deployment

variable {d d' d'' : Deployment}

theorem unfinished_of_isDue {now : Instant} (h : d.isDue now) :
    d.progress.stage.isTerminal = false := by
  simp only [isDue, Bool.and_eq_true, Bool.not_eq_true'] at h
  exact h.1.1

/-- What a rollout keeps through all transitions: what it is about; it does not go back to an
earlier stage or an earlier time; and when it is over it stays as it is. -/
structure Follows (d d' : Deployment) : Prop where
  id : d'.id = d.id
  createdAt : d'.createdAt = d.createdAt
  plan : d'.plan = d.plan
  rank_le : d.progress.stage.rank ≤ d'.progress.stage.rank
  nextStepAfter_le : d.progress.nextStepAfter ≤ d'.progress.nextStepAfter
  finished : d.progress.stage = .done → d' = d

theorem Follows.refl (d : Deployment) : d.Follows d :=
  ⟨rfl, rfl, rfl, Nat.le_refl _, Instant.le_refl _, fun _ => rfl⟩

theorem Follows.trans (h : d.Follows d') (h' : d'.Follows d'') : d.Follows d'' where
  id := h'.id.trans h.id
  createdAt := h'.createdAt.trans h.createdAt
  plan := h'.plan.trans h.plan
  rank_le := Nat.le_trans h.rank_le h'.rank_le
  nextStepAfter_le := Instant.le_trans h.nextStepAfter_le h'.nextStepAfter_le
  finished done := by
    obtain rfl := h.finished done
    exact h'.finished done

end Deployment

namespace Machine.Moves

variable {m : Machine} {now : Instant} {d d' : Deployment}

theorem progress (h : m.Moves now d d') : d.progress.Moves d'.progress := by
  obtain ⟨due, outcome, pending, clock, rfl⟩ := h
  exact moves_transition (Deployment.unfinished_of_isDue due)

theorem retryCount_lt (h : m.Moves now d d') (stays : d'.progress.stage = d.progress.stage) :
    d'.progress.retryCount.toNat < m.retry.maxAttempts.toNat := by
  obtain ⟨due, outcome, pending, clock, rfl⟩ := h
  exact retryCount_transition_lt (Deployment.unfinished_of_isDue due) stays

theorem follows (h : m.Moves now d d') : d.Follows d' := by
  have moves := h.progress
  obtain ⟨due, outcome, pending, clock, rfl⟩ := h
  refine ⟨rfl, rfl, rfl, moves.rank_le, nextStepAfter_le_transition .., fun finished => ?_⟩
  have unfinished := Deployment.unfinished_of_isDue due
  rw [finished] at unfinished
  cases unfinished

end Machine.Moves

end FirmwareRollout
