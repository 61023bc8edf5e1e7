import FirmwareRollout.Proofs.Worker.Crew

/-!
What becomes of rollouts while any number of workers and trackers are at work on them, in any order,
with calls refused, answers lost and parties dropped at any point. The record of a rollout changes by
transitions alone, each of the record that it replaces; and where a rollout is over, every device
has its outcome.

Main statements: `change_by_transitions`, `settled_when_done`.
-/

namespace FirmwareRollout

/-- Of a rollout that is over no device is pending. -/
def Store.Complete (s : Store) : Prop :=
  ∀ id d, s.get id = some d → d.progress.stage.isTerminal →
    ∀ eui p, s.participant? id eui = some p → p.state ≠ .pending

theorem Store.Complete.of_entries {s s' : Store} (h : s.Complete) (same : s'.entries = s.entries) :
    s'.Complete := by
  intro id d hd finished eui p hp
  exact h id d ((get_congr same id).symm.trans hd) finished eui p
    ((participant?_congr same id eui).symm.trans hp)

namespace Crew

variable {c : Crew} {tx : TxId} {id : DeploymentId} {d : Deployment}

/-! ### The strokes of a turn -/

theorem go_of_publish {m : Turn} (h : c.stroke? m = some (.act tx .publish)) :
    ∃ e, m = .go tx e := by
  cases m with
  | create d devices => cases h
  | start tx' errand => cases h
  | drop tx' => cases h
  | go tx' e =>
    obtain ⟨⟨a, p⟩, -, h⟩ := Option.bind_eq_some_iff.1 h
    obtain ⟨a, rfl, h⟩ := Option.map_eq_some_iff.1 h
    exact ⟨e, by cases h; rfl⟩

theorem create_of_create {m : Turn} {devices : List EnrolledDevice}
    (h : c.stroke? m = some (.create d devices)) : m = .create d devices := by
  cases m with
  | create d' devices' => cases h; rfl
  | start tx' errand => cases h
  | drop tx' => cases h
  | go tx' e =>
    obtain ⟨⟨a, p⟩, -, h⟩ := Option.bind_eq_some_iff.1 h
    obtain ⟨a, -, h⟩ := Option.map_eq_some_iff.1 h
    cases h

/-- What a transaction of a crew has written is lawful: it belongs to a party, and obeys the law of
its errand. -/
theorem Sound.obeys (hc : c.Sound) {t : Transaction}
    (ht : c.shared.sessions.find? tx = some (.working t)) :
    ∃ p, c.parties.find? tx = some p ∧ t.staging.Obeys p.errand.law c.shared.store := by
  obtain ⟨p, hp⟩ := Table.contains_iff.1 (hc.led ht)
  have own := hc.party hp
  rw [ht] at own
  exact ⟨p, hp, own.2.staging⟩

/-- What a transaction of a crew writes of a rollout is what one transition makes of the record that
is stored, by the worker whose cycle it is. -/
theorem Sound.moves_of_writes (hc : c.Sound) {d' : Deployment}
    (written : c.shared.writes tx id = some d') : ∃ d w now rest,
      c.shared.store.get id = some d ∧ c.parties.find? tx = some ⟨.cycle w now, rest⟩ ∧
        w.machine.Moves now d d' := by
  obtain ⟨t, ht, hfind⟩ := Option.bind_eq_some_iff.1 written
  obtain ⟨⟨errand, rest⟩, hp, obeys⟩ := hc.obeys (Shared.working?_eq_some_iff.1 ht)
  obtain ⟨d, stored, allowed, -⟩ := obeys id d' hfind
  cases errand with
  | cycle w now => exact ⟨d, w, now, rest, stored, hp, allowed⟩
  | record => cases allowed

/-! ### Records -/

/-- **One turn** leaves the record of a rollout as it is, or it is the turn of a worker, and the new
record is what one transition makes of the old one. -/
theorem Sound.get_step (hc : c.Sound) (m : Turn) (hd : c.shared.store.get id = some d) :
    ∃ d', (c.step m).shared.store.get id = some d' ∧ (d' = d ∨
      ∃ tx e w now rest, m = .go tx e ∧ c.parties.find? tx = some ⟨.cycle w now, rest⟩ ∧
        w.machine.Moves now d d') := by
  show ∃ d', (c.shared.run (c.stroke? m).toList).store.get id = some d' ∧ _
  cases hk : c.stroke? m with
  | none => exact ⟨d, hd, .inl rfl⟩
  | some k =>
    show ∃ d', (c.shared.step k).store.get id = some d' ∧ _
    cases k with
    | create d₀ devices =>
      have known := Store.contains_of_get hd
      exact ⟨d, (Store.get_create_of_contains known d₀ devices).trans hd, .inl rfl⟩
    | act tx a =>
      by_cases ha : a = .publish
      · subst ha
        obtain ⟨e, rfl⟩ := go_of_publish hk
        rw [hc.shared.get_publish]
        cases hwrites : c.shared.writes tx id with
        | none => exact ⟨d, hd, .inl rfl⟩
        | some d' =>
          obtain ⟨d₀, w, now, rest, stored, hp, moves⟩ := hc.moves_of_writes hwrites
          obtain rfl := Option.some.inj (hd.symm.trans stored)
          exact ⟨d', rfl, .inr ⟨tx, e, w, now, rest, rfl, hp, moves⟩⟩
      · exact ⟨d, (hc.shared.get_step_act a ha).trans hd, .inl rfl⟩

/-- However long the parties work, they only move a rollout on. -/
theorem follows_after (h h' : List Turn) (hd : (after h).shared.store.get id = some d) :
    ∃ d', (after (h' ++ h)).shared.store.get id = some d' ∧ d.Follows d' := by
  induction h' with
  | nil => exact ⟨d, hd, .refl d⟩
  | cons m h' ih =>
    obtain ⟨d', hd', follows⟩ := ih
    obtain ⟨d'', hd'', change⟩ := (sound_after (h' ++ h)).get_step m hd'
    refine ⟨d'', hd'', ?_⟩
    rcases change with rfl | ⟨_, _, _, _, _, _, _, moves⟩
    · exact follows
    · exact follows.trans moves.follows

/-- **Rollouts change by transitions.** In every history and at every turn, the record of a rollout
stays as it is, or a worker's cycle puts in its place what one transition at the time of that cycle
makes of it: another attempt at the same stage, the next stage, or the end. Whatever comes after,
the rollout keeps what it is about, does not go back in stage or time, and does not change any more
when it is over. -/
theorem change_by_transitions (h : List Turn) (id : DeploymentId) (d : Deployment)
    (hd : (after h).shared.store.get id = some d) :
    (∀ m, ∃ d', (after (m :: h)).shared.store.get id = some d' ∧ (d' = d ∨
      (∃ tx e w now rest, m = .go tx e ∧ (after h).parties.find? tx = some ⟨.cycle w now, rest⟩ ∧
        w.machine.Moves now d d') ∧ d.progress.Moves d'.progress)) ∧
    ∀ h', ∃ d', (after (h' ++ h)).shared.store.get id = some d' ∧ d.Follows d' := by
  refine ⟨fun m => ?_, fun h' => follows_after h h' hd⟩
  obtain ⟨d', hd', change⟩ := (sound_after h).get_step m hd
  refine ⟨d', hd', change.imp_right fun worked => ⟨worked, ?_⟩⟩
  obtain ⟨_, _, _, _, _, _, _, moves⟩ := worked
  exact moves.progress

/-- A history in which a worker has claimed a rollout, the bridge has refused its step for good, and
all is written but not committed. -/
def refusal : List Turn :=
  List.replicate 5 (.go 1 (.carry .epoch none)) ++
    .go 1 (.answer ⟨.fatal "no session", []⟩) :: List.replicate 4 (.go 1 (.carry .epoch none)) ++
    [.start 1 (.cycle ⟨⟨⟨3, .zero, .zero⟩, ⟨.zero, .zero⟩⟩, 10⟩ .epoch),
      .create .sample [⟨⟨Vector.replicate 8 0⟩, "meter"⟩]]

/-- What is stored when the refusal is committed. -/
def refused : Deployment := { Deployment.sample with progress := ⟨.done, .epoch, 0⟩ }

theorem get_refused : (after (.go 1 (.carry .epoch none) :: refusal)).shared.store.get
    Deployment.sample.id = some refused := by
  decide +kernel

theorem moves_of_refusal :
    (after refusal).shared.store.get Deployment.sample.id = some .sample ∧
      (∃ d', (after (.go 1 (.carry .epoch none) :: refusal)).shared.store.get Deployment.sample.id =
        some d' ∧ d' ≠ .sample ∧ Deployment.sample.progress.Moves d'.progress) := by
  have stored : (after refusal).shared.store.get Deployment.sample.id = some .sample := by
    decide +kernel
  obtain ⟨d', hd', change⟩ := (change_by_transitions refusal _ _ stored).1 (.go 1 (.carry .epoch none))
  have changed : d' ≠ .sample := by
    rw [← Option.some.inj (get_refused.symm.trans hd')]
    decide
  exact ⟨stored, d', hd', changed, (change.resolve_left changed).2⟩

/-! ### Devices -/

theorem Sound.complete_publish (hc : c.Sound) (h : c.shared.store.Complete) {t : Transaction}
    (ht : c.shared.sessions.find? tx = some (.working t)) : (t.publish c.shared.store).Complete := by
  have confined := hc.shared.confined t ht
  obtain ⟨p, -, obeys⟩ := hc.obeys ht
  intro id d' hd' finished eui p' hp'
  rw [Transaction.get_publish] at hd'
  obtain ⟨d, stored, hd'⟩ := Option.map_eq_some_iff.1 hd'
  cases hwritten : t.staging.deployments.find? id with
  | some d₀ =>
    rw [hwritten] at hd'
    obtain rfl : d₀ = d' := hd'
    obtain ⟨_, _, _, covers⟩ := obeys id d₀ hwritten
    exact Transaction.state_ne_pending_of_publish confined (covers finished) hp'
  | none =>
    rw [hwritten] at hd'
    obtain rfl : d = d' := hd'
    -- the rollout was over before, and no outcome is taken back
    have onward : c.shared.store.Onward (fun _ => False) (t.publish c.shared.store) :=
      Transaction.onward_publish confined nofun
    obtain ⟨p, hp, moved⟩ := onward.participant? (Store.contains_of_get stored) hp'
    have settled := h id d stored finished eui p hp
    rcases moved.moved with rfl | final
    · exact settled
    · intro pending
      rw [pending] at final
      cases final

theorem complete_create {s : Store} (h : s.Complete) {d : Deployment}
    (open_ : d.progress.stage ≠ .done) (devices : List EnrolledDevice) :
    (s.create d devices).2.Complete := by
  rcases s.create_cases d devices with ⟨error, same⟩ | ⟨-, table, -, created⟩
  · rwa [same]
  · rw [created]
    intro id d' hd' finished eui p hp
    by_cases hid : d.id = id
    · subst hid
      have : d' = d := by simpa [Store.get] using hd'.symm
      subst this
      exact absurd (of_decide_eq_true finished) open_
    · refine h id d' ?_ finished eui p ?_
      · simpa [Store.get, hid] using hd'
      · simpa [Store.participant?, hid] using hp

theorem Sound.complete_step (hc : c.Sound) (h : c.shared.store.Complete) (m : Turn)
    (open_ : ∀ d devices, m = .create d devices → d.progress.stage ≠ .done) :
    (c.step m).shared.store.Complete := by
  show (c.shared.run (c.stroke? m).toList).store.Complete
  cases hk : c.stroke? m with
  | none => exact h
  | some k =>
    show (c.shared.step k).store.Complete
    cases k with
    | create d devices => exact complete_create h (open_ d devices (create_of_create hk)) devices
    | act tx a =>
      obtain ⟨x', s', hstep, change⟩ := hc.shared.step_act tx a
      rw [hstep, Shared.store_put]
      cases change with
      | publish t working => exact hc.complete_publish h working
      | work c t t' working call effect => exact h.of_entries effect.entries
      | _ => exact h.of_entries rfl

theorem complete_after (h : List Turn)
    (open_ : ∀ d devices, .create d devices ∈ h → d.progress.stage ≠ .done) :
    (after h).shared.store.Complete := by
  induction h with
  | nil =>
    intro id d hd
    cases hd
  | cons m h ih =>
    refine (sound_after h).complete_step
      (ih fun d devices hd => open_ d devices (List.mem_cons_of_mem _ hd)) m ?_
    rintro d devices rfl
    exact open_ d devices List.mem_cons_self

/-- **When a rollout is over, every device has its outcome.** In every history in which no rollout
is created as one that is over, a stored rollout that is over has no pending devices: each of its
devices ended in success or in error. -/
theorem settled_when_done (h : List Turn)
    (open_ : ∀ d devices, .create d devices ∈ h → d.progress.stage ≠ .done) (id : DeploymentId)
    (d : Deployment) (hd : (after h).shared.store.get id = some d)
    (done : d.progress.stage = .done) :
    (after h).shared.store.pendingCount id = 0 ∧
      ∀ p ∈ (after h).shared.store.participants id, p.state = .success ∨ p.state = .error := by
  have settled : ∀ p ∈ (after h).shared.store.participants id, p.state ≠ .pending := by
    intro p hp
    obtain ⟨e, eui, he, heui⟩ := Store.mem_participants_iff.1 hp
    refine complete_after h open_ id d hd ?_ eui p (Store.participant?_eq_some_iff.2 ⟨e, he, heui⟩)
    rw [done]
    rfl
  refine ⟨?_, fun p hp => ?_⟩
  · rw [Store.pendingCount, List.length_eq_zero_iff, List.filter_eq_nil_iff]
    exact fun p hp pending => settled p hp (of_decide_eq_true pending)
  · cases hstate : p.state with
    | pending => exact absurd hstate (settled p hp)
    | success => exact .inl rfl
    | error => exact .inr rfl

theorem settled_after_refusal :
    (after (.go 1 (.carry .epoch none) :: refusal)).shared.store.get Deployment.sample.id =
      some refused ∧ refused.progress.stage = .done ∧
    (after (.go 1 (.carry .epoch none) :: refusal)).shared.store.deviceCount Deployment.sample.id = 1 ∧
    (after (.go 1 (.carry .epoch none) :: refusal)).shared.store.pendingCount
      Deployment.sample.id = 0 := by
  have unfinished : ∀ d devices, Turn.create d devices ∈ .go 1 (.carry .epoch none) :: refusal →
      d.progress.stage ≠ .done := by
    intro d devices created
    have : d = .sample := by simp [refusal] at created; exact created.1
    rw [this]
    decide
  exact ⟨get_refused, rfl, by decide +kernel,
    (settled_when_done _ unfinished _ refused get_refused rfl).1⟩

end Crew

end FirmwareRollout
