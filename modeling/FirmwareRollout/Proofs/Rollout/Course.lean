import FirmwareRollout.Proofs.Rollout.Moves

/-!
The course of a rollout as the bridge sees it: it is asked to do a step, a transition is stored, it
is asked again. `Course` lists what can happen in this order and keeps count: the requests for the
stage where a rollout stands are as many as its failed attempts there, and one more while it waits
for an answer (`Course.count_stage`). So the ceiling on attempts is one on requests.

Main statement: `Course.inOrder`.
-/

namespace FirmwareRollout

/-- What happens to a rollout between the workers and the bridge. -/
inductive Dealing where
  /-- The bridge is asked to do the step of a stage. -/
  | asked (stage : Stage)
  /-- A transition is stored. -/
  | moved
deriving DecidableEq

namespace Dealing

/-- The stage that a dealing asks for. -/
def stage? : Dealing → Option Stage
  | asked s => some s
  | moved => none

/-- The stages that the bridge was asked for, the latest first. -/
def stages (ds : List Dealing) : List Stage := ds.filterMap stage?

/-- Requests and transitions take turns, the latest first; the first of all is a request, and the
latest one is a request if an answer is awaited. -/
def Alternate : Bool → List Dealing → Prop
  | false, [] => True
  | true, asked _ :: ds => Alternate false ds
  | false, moved :: ds => Alternate true ds
  | _, _ => False

@[simp] theorem stages_asked (s : Stage) (ds : List Dealing) :
    stages (.asked s :: ds) = s :: stages ds := rfl

@[simp] theorem stages_moved (ds : List Dealing) : stages (.moved :: ds) = stages ds := rfl

end Dealing

/-- The stages of a list, the latest first, begin with the first stage, and each one after it is the
same again or the next one. -/
def Stage.Successive : List Stage → Prop
  | [] => True
  | [s] => s = .multicastSetup
  | s :: s' :: rest => (s = s' ∨ s'.next? = some s) ∧ Successive (s' :: rest)

open Dealing

/-- **The course of a rollout** under a ceiling of `M` attempts: what was dealt so far, the latest
first, where the rollout stands, and whether an answer is awaited. -/
inductive Course (M : Nat) : Bool → Progress → List Dealing → Prop where
  | new {p : Progress} (stage : p.stage = .multicastSetup) (count : p.retryCount = 0) :
    Course M false p []
  | ask {p : Progress} {ds : List Dealing} (earlier : Course M false p ds)
    (unfinished : p.stage ≠ .done) : Course M true p (.asked p.stage :: ds)
  | move {p p' : Progress} {ds : List Dealing} (earlier : Course M true p ds) (moves : p.Moves p')
    (below : p'.stage = p.stage → p'.retryCount.toNat < M) : Course M false p' (.moved :: ds)

namespace Course

variable {M : Nat} {asking : Bool} {p : Progress} {ds : List Dealing}

theorem alternate (h : Course M asking p ds) : Alternate asking ds := by
  induction h with
  | new => exact trivial
  | ask earlier unfinished ih => exact ih
  | move earlier moves below ih => exact ih

theorem unfinished_of_asking (h : Course M true p ds) : p.stage ≠ .done := by
  cases h with
  | ask earlier unfinished => exact unfinished

/-- The last stage is not asked for. -/
theorem unfinished (h : Course M asking p ds) : ∀ s ∈ stages ds, s ≠ .done := by
  induction h with
  | new => exact nofun
  | ask earlier unfinished ih => exact List.forall_mem_cons.2 ⟨unfinished, ih⟩
  | move earlier moves below ih => exact ih

/-- Nothing is asked for ahead of the stage where the rollout stands. -/
theorem rank_le (h : Course M asking p ds) : ∀ s ∈ stages ds, s.rank ≤ p.stage.rank := by
  induction h with
  | new => exact nofun
  | ask earlier unfinished ih => exact List.forall_mem_cons.2 ⟨Nat.le_refl _, ih⟩
  | move earlier moves below ih =>
    intro s hs
    exact Nat.le_trans (ih s hs) moves.rank_le

/-- **Requests are attempts**: there are as many for the stage where the rollout stands as attempts
there that failed, and one more while an answer is awaited. -/
theorem count_stage (h : Course M asking p ds) (open_ : p.stage ≠ .done) :
    (stages ds).count p.stage = p.retryCount.toNat + asking.toNat := by
  induction h with
  | new stage count => simp [stages, count]
  | ask earlier unfinished ih =>
    rw [stages_asked, List.count_cons_self, ih unfinished]
    rfl
  | @move p p' ds earlier moves below ih =>
    have before := ih earlier.unfinished_of_asking
    rw [stages_moved]
    cases moves with
    | again stage count =>
      rw [stage, before, count]
      rfl
    | on stage count =>
      -- nobody was asked for the next stage yet
      have ahead : p'.stage ∉ stages ds := by
        intro asked
        have rank := earlier.rank_le _ asked
        have next := Stage.rank_next? stage
        omega
      rw [List.count_eq_zero.2 ahead, count]
      rfl
    | finished stage => exact absurd stage open_

theorem retryCount_lt (h : Course M asking p ds) (open_ : p.stage ≠ .done) :
    p.retryCount = 0 ∨ p.retryCount.toNat < M := by
  induction h with
  | new stage count => exact .inl count
  | ask earlier unfinished ih => exact ih unfinished
  | move earlier moves below ih =>
    cases moves with
    | again stage count => exact .inr (below stage)
    | on stage count => exact .inl count
    | finished stage => exact absurd stage open_

/-- The bridge is asked for no stage more often than the policy has attempts. -/
theorem count_le (h : Course M asking p ds) (s : Stage) : (stages ds).count s ≤ max 1 M := by
  induction h with
  | new => exact Nat.zero_le _
  | @ask p ds earlier unfinished ih =>
    by_cases here : p.stage = s
    · subst here
      have count := earlier.count_stage unfinished
      have below := earlier.retryCount_lt unfinished
      rw [stages_asked, List.count_cons_self, count]
      rcases below with none | few
      · rw [none]
        exact Nat.le_max_left _ _
      · exact Nat.le_trans few (Nat.le_max_right _ _)
    · rw [stages_asked, List.count_cons_of_ne here]
      exact ih
  | move earlier moves below ih => exact ih

/-- The latest stage that was asked for is where the rollout stands, or right before it, or the
rollout is over. -/
theorem latest (h : Course M asking p ds) {s : Stage} (hs : (stages ds).head? = some s) :
    if asking then p.stage = s else p.stage = s ∨ s.next? = some p.stage ∨ p.stage = .done := by
  cases h with
  | new => cases hs
  | ask earlier unfinished => exact Option.some.inj hs
  | @move p₀ _ ds earlier moves below =>
    cases earlier with
    | ask earlier unfinished =>
      obtain rfl := Option.some.inj hs
      cases moves with
      | again stage => exact .inl stage
      | on stage => exact .inr (.inl stage)
      | finished stage => exact .inr (.inr stage)

theorem stage_of_nil (h : Course M asking p ds) (none : stages ds = []) :
    p.stage = .multicastSetup := by
  cases h with
  | new stage => exact stage
  | ask => cases none
  | move earlier => cases earlier with
    | ask => cases none

theorem successive (h : Course M asking p ds) : Stage.Successive (stages ds) := by
  induction h with
  | new => exact trivial
  | @ask p ds earlier unfinished ih =>
    rw [stages_asked]
    cases before : stages ds with
    | nil => exact earlier.stage_of_nil before
    | cons s rest =>
      have latest := earlier.latest (s := s) (by rw [before]; rfl)
      rw [before] at ih
      refine ⟨?_, ih⟩
      rcases latest with same | next | finished
      · exact .inl same
      · exact .inr next
      · exact absurd finished unfinished
  | move earlier moves below ih => exact ih

end Course

/-- **What can be dealt** for a rollout at once: where it stands before and after, and whether an
answer is awaited. -/
inductive Dealt (M : Nat) :
    (asking asking' : Prop) → (p p' : Progress) → Option Dealing → Prop where
  /-- Nothing. -/
  | still {asking asking' : Prop} {p : Progress} (same : asking' ↔ asking) :
    Dealt M asking asking' p p none
  | asked {asking asking' : Prop} {p : Progress} (free : ¬ asking) (awaited : asking')
    (unfinished : p.stage ≠ .done) : Dealt M asking asking' p p (some (.asked p.stage))
  | moved {asking asking' : Prop} {p p' : Progress} (awaited : asking) (free : ¬ asking')
    (moves : p.Moves p') (below : p'.stage = p.stage → p'.retryCount.toNat < M) :
    Dealt M asking asking' p p' (some .moved)

theorem Course.dealt {M : Nat} {b : Bool} {asking asking' : Prop} {p p' : Progress}
    {ds : List Dealing} {dealing? : Option Dealing} (h : Course M b p ds) (hb : b = true ↔ asking)
    (dealt : Dealt M asking asking' p p' dealing?) :
    ∃ b' : Bool, (b' = true ↔ asking') ∧ Course M b' p' (dealing?.toList ++ ds) := by
  cases dealt with
  | still same => exact ⟨b, hb.trans same.symm, h⟩
  | asked free awaited unfinished =>
    obtain rfl : b = false := Bool.eq_false_iff.2 fun hb' => free (hb.1 hb')
    exact ⟨true, by simp [awaited], h.ask unfinished⟩
  | moved awaited free moves below =>
    obtain rfl := hb.2 awaited
    exact ⟨false, by simp [free], h.move moves below⟩

/-- What the bridge is asked for one rollout, the latest first: its requests and the stored
transitions take turns; the stages of the requests follow one another from the first stage, and the
last one is not among them; and there are at most `M` requests for each, or one if `M` is 0. -/
structure Dealing.InOrder (M : Nat) (asking : Bool) (ds : List Dealing) : Prop where
  alternate : Alternate asking ds
  successive : Stage.Successive (stages ds)
  unfinished : .done ∉ stages ds
  few : ∀ s, (stages ds).count s ≤ max 1 M

/-- **On its course a rollout is dealt with in order.** -/
theorem Course.inOrder {M : Nat} {asking : Bool} {p : Progress} {ds : List Dealing}
    (h : Course M asking p ds) : Dealing.InOrder M asking ds where
  alternate := h.alternate
  successive := h.successive
  unfinished hdone := h.unfinished _ hdone rfl
  few := h.count_le

end FirmwareRollout
