import FirmwareRollout.Proofs.Rollout.Step
import FirmwareRollout.Proofs.Store.Exclusion

/-!
What a transaction writes for the step of one rollout, and what is stored of the rollout when that
is committed. `Transaction.persist` is what is written, call by call: the outcomes that were
reported, an outcome for the devices that are given up, and the record of the rollout. If nothing
else is written of that rollout, the commit makes of its entry what `Entry.step` says
(`settleEntry_persist`); of other rollouts nothing is written (`persist_sameOn`).
-/

namespace FirmwareRollout

namespace Transaction

variable {s : Store} {t t' : Transaction} {id id' : DeploymentId} {eui : DevEui} {e : Entry}
  {m : Machine} {now : Instant} {stamps : Stamps}

/-! ### Devices that a transaction sees pending -/

theorem deviceState_stage (t : Transaction) (id : DeploymentId) (eui : DevEui)
    (outcome : StagedOutcome) (p : Participant) : (t.stage id eui outcome).deviceState p =
      if (id, eui) = (p.deployment, p.eui) then outcome.state else t.deviceState p := by
  unfold deviceState stage
  simp only [Table.find?_insert, rank_eq_iff]
  by_cases h : (id, eui) = (p.deployment, p.eui)
  · simp [h]
  · simp [h]

theorem pendingDevices_stage (hs : s.Keyed) (t : Transaction) (id : DeploymentId) (eui : DevEui)
    {outcome : StagedOutcome} (terminal : outcome.state.isTerminal) :
    (t.stage id eui outcome).pendingDevices s id = (t.pendingDevices s id).filter (· ≠ eui) := by
  unfold pendingDevices
  rw [List.filter_map, List.filter_filter]
  congr 1
  refine List.filter_congr fun p hp => ?_
  obtain ⟨e, eui', he, heui⟩ := Store.mem_participants_iff.1 hp
  obtain ⟨rfl, rfl⟩ := hs.participant he heui
  have final : outcome.state ≠ .pending := by simpa [DeviceState.isTerminal] using terminal
  rw [deviceState_stage]
  by_cases h : eui = p.eui
  · simp [h, final]
  · simp [h, Ne.symm h]

/-- The devices of a rollout come in the order of their EUIs. -/
theorem pairwise_participants (hs : s.Keyed) (id : DeploymentId) :
    (s.participants id).Pairwise fun p q => rank p.eui < rank q.eui := by
  unfold Store.participants
  split
  · next e he =>
    have own : ∀ row ∈ e.participants.rows, row.2.eui = row.1 := fun row hrow =>
      (hs.participant he (Table.mem_rows_iff.1 hrow)).2
    unfold Table.values
    rw [List.pairwise_map]
    refine e.participants.sorted.imp_of_mem fun {a b} ha hb before => ?_
    rwa [own a ha, own b hb]
  · exact .nil

theorem pairwise_pendingDevices (hs : s.Keyed) (t : Transaction) (id : DeploymentId) :
    (t.pendingDevices s id).Pairwise fun a b => rank a < rank b := by
  unfold pendingDevices
  rw [List.pairwise_map]
  exact (pairwise_participants hs id).filter _

theorem nodup_pendingDevices (hs : s.Keyed) (t : Transaction) (id : DeploymentId) :
    (t.pendingDevices s id).Nodup :=
  (pairwise_pendingDevices hs t id).imp fun before same => Nat.ne_of_lt before (congrArg rank same)

/-! ### Reports -/

/-- The outcomes that are written for a list of reports: for each pending device the first one. -/
def hear (s : Store) (stamps : Stamps) (id : DeploymentId) :
    List DeviceReport → Transaction → Transaction
  | [], t => t
  | r :: rest, t => hear s stamps id rest
      (if r.eui ∈ t.pendingDevices s id then
        t.stage id r.eui ⟨r.outcome.state, r.message, stamps.heard r⟩
      else t)

theorem recordOutcome_of_mem (hs : s.Keyed) (pending : eui ∈ t.pendingDevices s id) (clock : Instant)
    (outcome : Outcome) (message : String) : recordOutcome s t clock id eui outcome message =
      (.ok (), t.stage id eui ⟨outcome.state, message, clock⟩) := by
  obtain ⟨p, hp, state⟩ := (mem_pendingDevices_iff_participant? hs).1 pending
  rw [recordOutcome, hp]
  simp only [state]
  rfl

theorem recordOutcome_of_not_mem (hs : s.Keyed) (settled : eui ∉ t.pendingDevices s id)
    (clock : Instant) (outcome : Outcome) (message : String) :
    ∃ error, recordOutcome s t clock id eui outcome message = (.error error, t) ∧
      (error.isAlreadyTerminal || error.isNotFound) := by
  unfold recordOutcome
  cases hp : s.participant? id eui with
  | none => exact ⟨_, rfl, rfl⟩
  | some p =>
    have terminal : (t.deviceState p).isTerminal := by
      have open_ : t.deviceState p ≠ .pending := fun h =>
        settled ((mem_pendingDevices_iff_participant? hs).2 ⟨p, hp, h⟩)
      simpa [DeviceState.isTerminal] using open_
    simp only [terminal, if_true]
    exact ⟨_, rfl, rfl⟩

theorem pendingDevices_hear_cons (hs : s.Keyed) (r : DeviceReport) :
    (if r.eui ∈ t.pendingDevices s id then
      t.stage id r.eui ⟨r.outcome.state, r.message, stamps.heard r⟩ else t).pendingDevices s id =
      (t.pendingDevices s id).filter (· ≠ r.eui) := by
  split
  · exact pendingDevices_stage hs t id r.eui (DeviceState.isTerminal_outcome _)
  · next settled =>
    symm
    rw [List.filter_eq_self]
    intro eui heui
    have hne : eui ≠ r.eui := fun h => settled (h ▸ heui)
    simpa using hne

/-- The devices that are pending after reports are those that were not reported. -/
theorem pendingDevices_hear (hs : s.Keyed) (reports : List DeviceReport) (t : Transaction) :
    (t.hear s stamps id reports).pendingDevices s id =
      (t.pendingDevices s id).filter fun eui => eui ∉ reports.map (·.eui) := by
  induction reports generalizing t with
  | nil =>
    rw [hear]
    symm
    rw [List.filter_eq_self]
    intro eui _
    simp
  | cons r rest ih =>
    rw [hear, ih, pendingDevices_hear_cons hs, List.filter_filter]
    refine List.filter_congr fun eui _ => ?_
    by_cases h : eui = r.eui <;> simp [h]

/-- **The first report wins**, on a device that is pending. -/
theorem find?_outcomes_hear (hs : s.Keyed) (reports : List DeviceReport) (t : Transaction)
    (id' : DeploymentId) (eui : DevEui) :
    (t.hear s stamps id reports).staging.outcomes.find? (id', eui) =
      (if id' = id ∧ eui ∈ t.pendingDevices s id then
        (reports.find? fun r => r.eui = eui).map fun r =>
          ⟨r.outcome.state, r.message, stamps.heard r⟩
      else none).or (t.staging.outcomes.find? (id', eui)) := by
  induction reports generalizing t with
  | nil => simp [hear]
  | cons r rest ih =>
    rw [hear, ih, pendingDevices_hear_cons hs]
    by_cases hr : r.eui ∈ t.pendingDevices s id
    · rw [if_pos hr, stage]
      simp only [Table.find?_insert, rank_eq_iff, Prod.mk.injEq]
      by_cases hid : id' = id
      · subst hid
        by_cases heui : eui = r.eui
        · subst heui
          simp [hr]
        · simp [heui, Ne.symm heui]
      · simp [hid, Ne.symm hid]
    · rw [if_neg hr]
      by_cases heui : eui = r.eui
      · simp [heui, hr]
      · simp [heui, Ne.symm heui]

theorem hear_keeps (s : Store) (stamps : Stamps) (id : DeploymentId) (reports : List DeviceReport)
    (t : Transaction) :
    (t.hear s stamps id reports).held = t.held ∧ (t.hear s stamps id reports).saved = t.saved ∧
      (t.hear s stamps id reports).staging.deployments = t.staging.deployments := by
  induction reports generalizing t with
  | nil => exact ⟨rfl, rfl, rfl⟩
  | cons r rest ih =>
    rw [hear]
    split
    · exact ih _
    · exact ih t

/-! ### What is written for a step -/

/-- An outcome is written for the devices that are pending, if there is a message to give them up
with. -/
def giveUp (s : Store) (stamps : Stamps) (id : DeploymentId) (message? : Option String)
    (t : Transaction) : Transaction :=
  match message? with
  | none => t
  | some message => t.stageAll id (t.pendingDevices s id) ⟨.error, message, stamps.givenUp message⟩

/-- Where a step leads, as the transaction sees the devices after the reports. -/
def transition (m : Machine) (now : Instant) (s : Store) (stamps : Stamps) (d : Deployment)
    (result : StepResult) (t : Transaction) : Transition :=
  m.transition d.plan d.progress result.outcome now
    ((t.hear s stamps d.id result.devices).pendingDevices s d.id).length

/-- All that is written for the step of a rollout. -/
def persist (m : Machine) (now : Instant) (s : Store) (stamps : Stamps) (d : Deployment)
    (result : StepResult) (t : Transaction) : Transaction :=
  let step := t.transition m now s stamps d result
  ((t.hear s stamps d.id result.devices).giveUp s stamps d.id step.failOutstanding).write
    { step.apply d with updatedAt := stamps.written (step.apply d) }

theorem giveUp_keeps (s : Store) (stamps : Stamps) (id : DeploymentId) (message? : Option String)
    (t : Transaction) :
    (t.giveUp s stamps id message?).held = t.held ∧ (t.giveUp s stamps id message?).saved = t.saved ∧
      (t.giveUp s stamps id message?).staging.deployments = t.staging.deployments := by
  cases message? with
  | none => exact ⟨rfl, rfl, rfl⟩
  | some message =>
    rw [giveUp, stageAll_eq]
    exact ⟨rfl, rfl, rfl⟩

theorem find?_outcomes_giveUp (message? : Option String) (t : Transaction) (id' : DeploymentId)
    (eui : DevEui) : (t.giveUp s stamps id message?).staging.outcomes.find? (id', eui) =
      (if id' = id ∧ eui ∈ t.pendingDevices s id then
        message?.map fun message => ⟨.error, message, stamps.givenUp message⟩
      else none).or (t.staging.outcomes.find? (id', eui)) := by
  cases message? with
  | none => simp [giveUp]
  | some message =>
    rw [giveUp, find?_outcomes_stageAll]
    by_cases h : id' = id ∧ eui ∈ t.pendingDevices s id <;> simp [h]

theorem persist_keeps (m : Machine) (now : Instant) (s : Store) (stamps : Stamps) (d : Deployment)
    (result : StepResult) (t : Transaction) :
    (t.persist m now s stamps d result).held = t.held ∧
      (t.persist m now s stamps d result).saved = t.saved := by
  have heard := hear_keeps s stamps d.id result.devices t
  have given := giveUp_keeps s stamps d.id (t.transition m now s stamps d result).failOutstanding
    (t.hear s stamps d.id result.devices)
  exact ⟨given.1.trans heard.1, given.2.1.trans heard.2.1⟩

/-! ### Other rollouts -/

/-- Two transactions have written the same of a rollout. -/
structure SameOn (t t' : Transaction) (id : DeploymentId) : Prop where
  deployment : t'.staging.deployments.find? id = t.staging.deployments.find? id
  outcomes : ∀ eui, t'.staging.outcomes.find? (id, eui) = t.staging.outcomes.find? (id, eui)

/-- Nothing is written of a rollout. -/
structure Untouched (t : Transaction) (id : DeploymentId) : Prop where
  deployment : t.staging.deployments.find? id = none
  outcomes : ∀ eui, t.staging.outcomes.find? (id, eui) = none

theorem Untouched.sameOn (h : t.Untouched id) (same : SameOn t t' id) : t'.Untouched id where
  deployment := same.deployment.trans h.deployment
  outcomes eui := (same.outcomes eui).trans (h.outcomes eui)

theorem SameOn.settleEntry (same : SameOn t t' id) (e : Entry) :
    t'.settleEntry id e = t.settleEntry id e := by
  unfold Transaction.settleEntry
  rw [same.deployment]
  simp only [same.outcomes]

theorem Untouched.settleEntry (h : t.Untouched id) (e : Entry) : t.settleEntry id e = e := by
  unfold Transaction.settleEntry
  rw [h.deployment]
  simp only [h.outcomes]
  have same : (e.participants.map fun _ p => p) = e.participants := by
    apply Table.ext
    intro eui
    rw [Table.find?_map, Option.map_id']
  rw [same]
  rfl

/-- **Of other rollouts nothing is written.** -/
theorem persist_sameOn (hs : s.Keyed) (m : Machine) (now : Instant) (stamps : Stamps)
    (d : Deployment) (result : StepResult) (t : Transaction) (other : id ≠ d.id) :
    SameOn t (t.persist m now s stamps d result) id where
  deployment := by
    unfold persist
    show (Table.insert _ d.id _).find? id = _
    rw [Table.find?_insert_of_ne _ _ (Ne.symm other), (giveUp_keeps ..).2.2, (hear_keeps ..).2.2]
  outcomes eui := by
    unfold persist
    rw [write]
    simp only
    rw [find?_outcomes_giveUp, find?_outcomes_hear hs]
    simp [other]

/-! ### The step of a rollout -/

section Step

variable (hs : s.Keyed) (he : s.entries.find? e.id = some e)
include hs he

theorem pendingDevices_of_untouched (untouched : t.Untouched e.id) :
    t.pendingDevices s e.id = e.pendingDevices := by
  have known : s.participants e.id = e.participants.values := by
    unfold Store.participants
    rw [he]
  unfold pendingDevices Entry.pendingDevices
  rw [known]
  congr 1
  refine List.filter_congr fun p hp => ?_
  obtain ⟨eui, heui⟩ := Table.mem_values_iff.1 hp
  have own : p.deployment = e.id := (hs.participant he heui).1
  have unsaid : t.staging.outcomes.find? (p.deployment, p.eui) = none := by
    rw [own]
    exact untouched.outcomes p.eui
  rw [deviceState, unsaid]
  rfl

theorem mem_pendingDevices_of_untouched (untouched : t.Untouched e.id) {p : Participant}
    (hp : e.participants.find? eui = some p) : eui ∈ t.pendingDevices s e.id ↔ p.isPending := by
  have same : p.eui = eui := (hs.participant he hp).2
  rw [pendingDevices_of_untouched hs he untouched, Entry.pendingDevices]
  simp only [List.mem_map, List.mem_filter, Table.mem_values_iff]
  constructor
  · rintro ⟨q, ⟨⟨eui', hq⟩, pending⟩, rfl⟩
    obtain rfl := (hs.participant he hq).2
    obtain rfl := Option.some.inj (hq.symm.trans hp)
    exact pending
  · intro pending
    exact ⟨p, ⟨⟨eui, hp⟩, pending⟩, same⟩

theorem transition_of_untouched (untouched : t.Untouched e.id) (result : StepResult) :
    t.transition m now s stamps e.deployment result = e.transition m now stamps result := by
  have pending : (t.hear s stamps e.id result.devices).pendingDevices s e.id =
      (e.hear stamps result.devices).pendingDevices := by
    rw [pendingDevices_hear hs, pendingDevices_of_untouched hs he untouched, Entry.pendingDevices_hear]
  unfold transition Entry.transition
  show m.transition _ _ _ _ ((t.hear s stamps e.id result.devices).pendingDevices s e.id).length = _
  rw [pending]

/-- What is written for a device, taken over, is what the step makes of the device. -/
theorem settle_persist (untouched : t.Untouched e.id) (result : StepResult) {p : Participant}
    (hp : e.participants.find? eui = some p) :
    (((t.persist m now s stamps e.deployment result).staging.outcomes.find? (e.id, eui)).map
      (settle p)).getD p =
      (p.hear stamps result.devices).giveUp stamps
        (e.transition m now stamps result).failOutstanding := by
  have same : p.eui = eui := (hs.participant he hp).2
  have listed := mem_pendingDevices_of_untouched hs he untouched hp
  have left : eui ∈ (t.hear s stamps e.id result.devices).pendingDevices s e.id ↔
      p.isPending ∧ eui ∉ result.devices.map (·.eui) := by
    rw [pendingDevices_hear hs, List.mem_filter, listed]
    simp
  have found : (t.persist m now s stamps e.deployment result).staging.outcomes.find? (e.id, eui) =
      (if p.isPending ∧ eui ∉ result.devices.map (·.eui) then
        (e.transition m now stamps result).failOutstanding.map fun message =>
          ⟨.error, message, stamps.givenUp message⟩
      else none).or (if p.isPending then
        (result.devices.find? fun r => r.eui = eui).map fun r =>
          ⟨r.outcome.state, r.message, stamps.heard r⟩
      else none) := by
    unfold persist
    rw [transition_of_untouched hs he untouched]
    show (giveUp s stamps e.id _ (t.hear s stamps e.id result.devices)).staging.outcomes.find? _ = _
    rw [find?_outcomes_giveUp, find?_outcomes_hear hs, untouched.outcomes eui, Option.or_none]
    simp only [true_and, left, listed]
  rw [found]
  by_cases pending : p.isPending
  · have open_ : ¬ p.state.isTerminal := by
      have : p.state = .pending := by simpa [Participant.isPending] using pending
      simp [this, DeviceState.isTerminal]
    cases report : result.devices.find? fun r => r.eui = eui with
    | none =>
      -- nobody has reported the device, so that it is given up with the rollout
      have unheard : eui ∉ result.devices.map (·.eui) := by
        simpa [List.find?_eq_none] using report
      have silent : p.hear stamps result.devices = p := by
        rw [Participant.hear, same, report]
      rw [silent, if_pos ⟨pending, unheard⟩]
      cases (e.transition m now stamps result).failOutstanding with
      | none => simp [Participant.giveUp]
      | some message =>
        simp [Participant.giveUp, pending, settle, open_, Participant.close]
    | some r =>
      have heard : eui ∈ result.devices.map (·.eui) := by
        have hr := List.find?_some report
        exact List.mem_map.2 ⟨r, List.mem_of_find?_eq_some report, by simpa using hr⟩
      have spoken : p.hear stamps result.devices =
          p.close r.outcome.state r.message (stamps.heard r) := by
        rw [Participant.hear, same, report]
        simp [pending]
      have final : ((p.close r.outcome.state r.message (stamps.heard r)).isPending) = false := by
        cases r.outcome <;> simp [Participant.isPending, Participant.close, Outcome.state]
      rw [spoken, Participant.giveUp_of_settled _ _ final, if_neg fun h => h.2 heard, if_pos pending]
      simp [settle, open_, Participant.close]
  · have silent : p.hear stamps result.devices = p := by
      unfold Participant.hear
      split <;> simp [pending]
    rw [silent, Participant.giveUp_of_settled _ _ (by simpa using pending),
      if_neg fun h => pending h.1, if_neg pending]
    rfl

/-- **What is written for the step of a rollout**, taken over, is the step. -/
theorem settleEntry_persist (untouched : t.Untouched e.id) (result : StepResult) :
    (t.persist m now s stamps e.deployment result).settleEntry e.id e =
      e.step m now stamps result := by
  have record : (t.persist m now s stamps e.deployment result).staging.deployments.find? e.id =
      some (e.step m now stamps result).deployment := by
    unfold persist
    rw [transition_of_untouched hs he untouched]
    exact Table.find?_insert_self _ _ _
  have devices : ((t.persist m now s stamps e.deployment result).settleEntry e.id e).participants =
      (e.step m now stamps result).participants := by
    refine Table.ext fun eui => ?_
    rw [find?_settleEntry, Entry.find?_participants_step]
    cases hp : e.participants.find? eui with
    | none => rfl
    | some p => exact congrArg some (settle_persist hs he untouched result hp)
  unfold settleEntry at devices ⊢
  rw [record] at devices ⊢
  rw [Option.getD_some]
  exact congrArg (Entry.mk _) devices

end Step

end Transaction

end FirmwareRollout
