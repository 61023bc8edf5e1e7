import FirmwareRollout.Proofs.Store.Exclusion

/-!
What a transaction can count on while others are at work. `Store.Onward` relates two moments of a
store: no rollout is lost, the records of those that are kept locked stay as they are, and a device
keeps its outcome. It is a preorder, and every stroke that is not the transaction's own moves the
store onward (`Shared.Sound.onward_step`); where nothing is locked every stroke does
(`Shared.onward_after`).

`Staging.Covers` says that a transaction leaves no device of a rollout pending; this too is not
undone by others.
-/

namespace FirmwareRollout

variable {s s' s'' : Store} {id : DeploymentId} {eui : DevEui} {p p' : Participant}

/-! ### What publishing and creating do to a record -/

theorem Transaction.get_publish (t : Transaction) (s : Store) (id : DeploymentId) :
    (t.publish s).get id = (s.get id).map fun d => (t.staging.deployments.find? id).getD d := by
  unfold publish Store.get
  rw [Table.find?_map]
  cases s.entries.find? id <;> rfl

theorem Store.get_create_of_contains (hid : s.entries.contains id) (d : Deployment)
    (devices : List EnrolledDevice) : (s.create d devices).2.get id = s.get id := by
  unfold get
  rw [find?_create_of_contains hid]

/-! ### Devices -/

/-- What can become of a device: it stays, or it gets the outcome that it has from then on. -/
structure Participant.Onward (p p' : Participant) : Prop where
  deployment : p'.deployment = p.deployment
  eui : p'.eui = p.eui
  name : p'.name = p.name
  createdAt : p'.createdAt = p.createdAt
  settled : p.state.isTerminal → p' = p
  moved : p' = p ∨ p'.state.isTerminal

theorem Participant.Onward.refl (p : Participant) : p.Onward p :=
  ⟨rfl, rfl, rfl, rfl, fun _ => rfl, .inl rfl⟩

theorem related_refl (p? : Option Participant) : Option.Rel Participant.Onward p? p? := by
  cases p? with
  | none => exact .none
  | some p => exact .some (.refl p)

theorem Participant.Onward.trans {p'' : Participant} (h : p.Onward p') (h' : p'.Onward p'') :
    p.Onward p'' where
  deployment := h'.deployment.trans h.deployment
  eui := h'.eui.trans h.eui
  name := h'.name.trans h.name
  createdAt := h'.createdAt.trans h.createdAt
  settled final := by
    obtain rfl := h.settled final
    exact h'.settled final
  moved := by
    rcases h.moved with rfl | final
    · exact h'.moved
    · exact .inr (h'.settled final ▸ final)

theorem Transaction.onward_settle (p : Participant) {outcome : StagedOutcome}
    (terminal : outcome.state.isTerminal) : p.Onward (settle p outcome) := by
  unfold settle
  split
  · exact .refl p
  · next open_ => exact ⟨rfl, rfl, rfl, rfl, fun final => absurd final open_, .inr terminal⟩

/-! ### Stores -/

/-- What can become of a store while the rollouts `kept` are locked. -/
structure Store.Onward (kept : DeploymentId → Prop) (s s' : Store) : Prop where
  known : ∀ {id}, s.entries.contains id → s'.entries.contains id
  get_eq : ∀ {id}, kept id → s'.get id = s.get id
  devices : ∀ {id}, s.entries.contains id → ∀ eui,
    Option.Rel Participant.Onward (s.participant? id eui) (s'.participant? id eui)

namespace Store

variable {kept kept' : DeploymentId → Prop}

theorem Onward.of_entries (h : s'.entries = s.entries) : s.Onward kept s' where
  known hid := h ▸ hid
  get_eq _ := get_congr h _
  devices _ eui := by
    rw [participant?_congr h]
    exact related_refl _

theorem Onward.refl (s : Store) : s.Onward kept s := .of_entries rfl

theorem Onward.trans (h : s.Onward kept s') (h' : s'.Onward kept s'') : s.Onward kept s'' where
  known hid := h'.known (h.known hid)
  get_eq hid := (h'.get_eq hid).trans (h.get_eq hid)
  devices {id} hid eui := by
    have first := h.devices hid eui
    have second := h'.devices (h.known hid) eui
    generalize s.participant? id eui = p at first
    generalize s'.participant? id eui = p' at first second
    generalize s''.participant? id eui = p'' at second
    cases first with
    | none => exact second
    | some onward =>
      cases second with
      | some onward' => exact .some (onward.trans onward')

theorem Onward.mono (h : s.Onward kept s') (fewer : ∀ id, kept' id → kept id) :
    s.Onward kept' s' where
  known := h.known
  get_eq hid := h.get_eq (fewer _ hid)
  devices := h.devices

theorem Onward.participant? (h : s.Onward kept s') (hid : s.entries.contains id)
    (hp : s'.participant? id eui = some p') : ∃ p, s.participant? id eui = some p ∧ p.Onward p' := by
  have related := h.devices hid eui
  rw [hp] at related
  generalize s.participant? id eui = p at related
  cases related with
  | some onward => exact ⟨_, rfl, onward⟩

theorem contains_of_get {d : Deployment} (h : s.get id = some d) : s.entries.contains id := by
  obtain ⟨e, he, -⟩ := get_eq_some_iff.1 h
  exact Table.contains_of_find? he

end Store

/-! ### Publishing -/

namespace Transaction

theorem participant?_publish (t : Transaction) (s : Store) (id : DeploymentId) (eui : DevEui) :
    (t.publish s).participant? id eui = (s.participant? id eui).map fun p =>
      ((t.staging.outcomes.find? (id, eui)).map (settle p)).getD p := by
  unfold publish Store.participant?
  rw [Table.find?_map]
  cases s.entries.find? id with
  | none => rfl
  | some e => exact find?_settleEntry t id e eui

theorem contains_publish (t : Transaction) (s : Store) (id : DeploymentId) :
    (t.publish s).entries.contains id = s.entries.contains id := by
  unfold publish Table.contains
  rw [Table.find?_map, Option.isSome_map]

theorem onward_publish {t : Transaction} (ht : t.Confined) {kept : DeploymentId → Prop}
    (others : ∀ id, kept id → t.staging.deployments.find? id = none) :
    s.Onward kept (t.publish s) where
  known hid := by rwa [contains_publish]
  get_eq hid := by
    rw [get_publish, others _ hid]
    exact Option.map_id'
  devices {id} _ eui := by
    rw [participant?_publish]
    cases s.participant? id eui with
    | none => exact .none
    | some p =>
      refine .some ?_
      cases houtcome : t.staging.outcomes.find? (id, eui) with
      | none => exact .refl p
      | some outcome => exact onward_settle p (ht.staging.terminal houtcome)

end Transaction

/-! ### The strokes of others -/

namespace Shared

variable {w : Shared} {tx : TxId}

/-- A transaction has not written what another one holds. -/
theorem Sound.unwritten (hw : w.Sound) {tx' : TxId} {t : Transaction}
    (ht : w.sessions.find? tx' = some (.working t)) (hid : w.Holds tx id) (hne : tx' ≠ tx) :
    t.staging.deployments.find? id = none := by
  cases hd : t.staging.deployments.find? id with
  | none => rfl
  | some d => exact absurd (hw.exclusive ⟨_, ht, (hw.confined t ht).staging.held hd⟩ hid) hne

theorem onward_create (hw : w.Sound) (tx : TxId) (d : Deployment) (devices : List EnrolledDevice) :
    w.store.Onward (w.Holds tx) (w.store.create d devices).2 where
  known hid := contains_create hid d devices
  get_eq hid := Store.get_create_of_contains (hw.known hid) d devices
  devices {id} hid eui := by
    unfold Store.participant?
    rw [Store.find?_create_of_contains hid]
    exact related_refl _

/-- **What others do moves the store onward** for a transaction and the rollouts that it holds. -/
theorem Sound.onward_step (hw : w.Sound) {m : Stroke} (other : ∀ a, m ≠ .act tx a) :
    w.store.Onward (w.Holds tx) (w.step m).store := by
  cases m with
  | create d devices => exact onward_create hw tx d devices
  | act tx' a =>
    have hne : tx' ≠ tx := fun h => other a (h ▸ rfl)
    obtain ⟨x', s', hstep, change⟩ := hw.step_act tx' a
    rw [hstep, store_put]
    cases change with
    | publish t working =>
      exact Transaction.onward_publish (hw.confined t working) fun id hid =>
        hw.unwritten working hid hne
    | work c t t' working call effect => exact .of_entries effect.entries
    | _ => exact .of_entries rfl

/-- Every stroke moves the store onward, also for the transaction that makes it. -/
theorem Sound.onward (hw : w.Sound) (m : Stroke) :
    w.store.Onward (fun _ => False) (w.step m).store := by
  obtain ⟨tx, other⟩ : ∃ tx, ∀ a, m ≠ .act tx a := by
    cases m with
    | create d devices => exact ⟨0, by simp⟩
    | act tx' a' => exact ⟨tx' + 1, by simp⟩
  exact (hw.onward_step other).mono nofun

theorem onward_after (h h' : List Stroke) :
    (after h).store.Onward (fun _ => False) (after (h' ++ h)).store := by
  induction h' with
  | nil => exact .refl _
  | cons m h' ih => exact ih.trans ((sound_after (h' ++ h)).onward m)

end Shared

/-! ### Leaving no device out -/

/-- With these writes no device of the rollout is pending. -/
def Staging.Covers (g : Staging) (s : Store) (id : DeploymentId) : Prop :=
  ∀ eui p, s.participant? id eui = some p → p.state = .pending → g.outcomes.contains (id, eui)

theorem Staging.Covers.onward {g : Staging} {kept : DeploymentId → Prop} (h : g.Covers s id)
    (onward : s.Onward kept s') (hid : s.entries.contains id) : g.Covers s' id := by
  intro eui p' hp' pending
  obtain ⟨p, hp, moved⟩ := onward.participant? hid hp'
  rcases moved.moved with rfl | final
  · exact h eui p' hp pending
  · rw [pending] at final
    cases final

theorem Staging.Covers.mono {g g' : Staging} (h : g.Covers s id)
    (more : ∀ k, g.outcomes.contains k → g'.outcomes.contains k) : g'.Covers s id :=
  fun eui p hp pending => more _ (h eui p hp pending)

namespace Transaction

variable {t : Transaction}

theorem pending_of_unstaged (hs : s.Keyed) (hp : s.participant? id eui = some p)
    (pending : p.state = .pending) (unstaged : t.staging.outcomes.contains (id, eui) = false) :
    eui ∈ t.pendingDevices s id := by
  refine (mem_pendingDevices_iff_participant? hs).2 ⟨p, hp, ?_⟩
  obtain ⟨rfl, rfl⟩ := hs.of_participant? hp
  rw [deviceState, Table.contains_eq_false_iff.1 unstaged]
  exact pending

theorem covers_of_pendingDevices (hs : s.Keyed) (h : t.pendingDevices s id = []) :
    t.staging.Covers s id := by
  intro eui p hp pending
  refine Bool.of_not_eq_false fun unstaged => ?_
  have := pending_of_unstaged hs hp pending unstaged
  rw [h] at this
  cases this

theorem contains_outcomes_stageAll {euis : List DevEui} {outcome : StagedOutcome}
    {k : DeploymentId × DevEui} : (t.stageAll id euis outcome).staging.outcomes.contains k ↔
      k.1 = id ∧ k.2 ∈ euis ∨ t.staging.outcomes.contains k := by
  unfold Table.contains
  rw [find?_outcomes_stageAll]
  split
  · next h => simp [h]
  · next h => simp [h]

theorem covers_stageAll_pendingDevices (hs : s.Keyed) (outcome : StagedOutcome) :
    (t.stageAll id (t.pendingDevices s id) outcome).staging.Covers s id := by
  intro eui p hp pending
  rw [contains_outcomes_stageAll]
  by_cases staged : t.staging.outcomes.contains (id, eui)
  · exact .inr staged
  · exact .inl ⟨rfl, pending_of_unstaged hs hp pending (Bool.eq_false_iff.2 staged)⟩

/-- What is published with no device left out has none pending. -/
theorem state_ne_pending_of_publish (ht : t.Confined) (covers : t.staging.Covers s id)
    (hp' : (t.publish s).participant? id eui = some p') : p'.state ≠ .pending := by
  rw [participant?_publish] at hp'
  obtain ⟨p, hp, rfl⟩ := Option.map_eq_some_iff.1 hp'
  intro pending
  cases houtcome : t.staging.outcomes.find? (id, eui) with
  | none =>
    rw [houtcome] at pending
    have staged := covers eui p hp pending
    rw [Table.contains_eq_false_iff.2 houtcome] at staged
    cases staged
  | some outcome =>
    have terminal := ht.staging.terminal houtcome
    rw [houtcome] at pending
    simp only [Option.map_some, Option.getD_some, settle] at pending
    split at pending
    · next final => rw [pending] at final; cases final
    · rw [show outcome.state = .pending from pending] at terminal; cases terminal

end Transaction

end FirmwareRollout
