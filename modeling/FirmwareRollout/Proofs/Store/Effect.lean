import FirmwareRollout.Store.Transaction

/-!
What a call can do to a store and to the transaction that makes it. Locks are sets of rollouts, so
the facts on them are stated through `Table.contains`. `Effect` lists the ways in which a call that
leaves its transaction open can change both, and `perform_effect` says that there is no other.

The store is assumed to be `Keyed`: every record stands under the identifiers that it names.
Creating rollouts, publishing writes and giving locks back keep it so.
-/

namespace FirmwareRollout

/-! ### Records under their own identifiers -/

/-- Every record of the store stands under the identifiers that it names. -/
structure Store.Keyed (s : Store) : Prop where
  deployment : ∀ {id e}, s.entries.find? id = some e → e.deployment.id = id
  participant : ∀ {id e eui p}, s.entries.find? id = some e → e.participants.find? eui = some p →
    p.deployment = id ∧ p.eui = eui

namespace Store

theorem keyed_empty : empty.Keyed where
  deployment h := nomatch h
  participant h := nomatch h

theorem get_eq_some_iff {s : Store} {id : DeploymentId} {d : Deployment} :
    s.get id = some d ↔ ∃ e, s.entries.find? id = some e ∧ e.deployment = d :=
  Option.map_eq_some_iff

theorem get_of_find? {s : Store} {id : DeploymentId} {e : Entry}
    (h : s.entries.find? id = some e) : s.get id = some e.deployment :=
  get_eq_some_iff.2 ⟨e, h, rfl⟩

theorem get_congr {s s' : Store} (h : s'.entries = s.entries) (id : DeploymentId) :
    s'.get id = s.get id := by
  unfold get
  rw [h]

theorem participant?_congr {s s' : Store} (h : s'.entries = s.entries) (id : DeploymentId)
    (eui : DevEui) : s'.participant? id eui = s.participant? id eui := by
  unfold participant?
  rw [h]

theorem mem_participants_iff {s : Store} {id : DeploymentId} {p : Participant} :
    p ∈ s.participants id ↔
      ∃ e eui, s.entries.find? id = some e ∧ e.participants.find? eui = some p := by
  unfold participants
  split
  · next e he =>
    rw [Table.mem_values_iff]
    constructor
    · rintro ⟨eui, heui⟩
      exact ⟨e, eui, he, heui⟩
    · rintro ⟨e', eui, he', heui⟩
      obtain rfl := Option.some.inj (he.symm.trans he')
      exact ⟨eui, heui⟩
  · next he => simp [he]

theorem participant?_eq_some_iff {s : Store} {id : DeploymentId} {eui : DevEui} {p : Participant} :
    s.participant? id eui = some p ↔
      ∃ e, s.entries.find? id = some e ∧ e.participants.find? eui = some p :=
  Option.bind_eq_some_iff

theorem Keyed.of_participant? {s : Store} (hs : s.Keyed) {id : DeploymentId} {eui : DevEui}
    {p : Participant} (hp : s.participant? id eui = some p) : p.deployment = id ∧ p.eui = eui := by
  obtain ⟨e, he, heui⟩ := participant?_eq_some_iff.1 hp
  exact hs.participant he heui

end Store

/-! ### Locks -/

/-- A set of rollouts and those of a list. -/
def IdSet.addAll (set : IdSet) (ids : List DeploymentId) : IdSet :=
  ids.foldl (fun set id => set.insert id ()) set

theorem IdSet.contains_addAll (set : IdSet) (ids : List DeploymentId) (id : DeploymentId) :
    (set.addAll ids).contains id ↔ id ∈ ids ∨ set.contains id := by
  unfold addAll
  induction ids generalizing set with
  | nil => simp
  | cons id' ids ih =>
    rw [List.foldl_cons, ih, List.mem_cons, Table.contains_insert, or_left_comm, ← or_assoc,
      @eq_comm _ id' id]

namespace Transaction

variable {s s' : Store} {t t' : Transaction}

theorem foldl_lock (ids : List DeploymentId) (s : Store) (t : Transaction) :
    ids.foldl lock (s, t) =
      ({ s with locked := s.locked.addAll ids }, { t with held := t.held.addAll ids }) := by
  induction ids generalizing s t with
  | nil => rfl
  | cons id ids ih => exact ih _ _

/-- The lock on a rollout is the transaction's for the asking: the rollout exists, and nobody else
has locked it. -/
def Free (s : Store) (t : Transaction) (id : DeploymentId) : Prop :=
  s.entries.contains id ∧ (t.held.contains id ∨ s.locked.contains id = false)

theorem lockState_eq_taken_iff {id : DeploymentId} : lockState s t id = .taken ↔ Free s t id := by
  unfold lockState Free
  cases s.entries.contains id <;> cases t.held.contains id <;> cases s.locked.contains id <;> simp

/-! ### Writes -/

/-- Writes one outcome for several devices. -/
def stageAll (t : Transaction) (id : DeploymentId) (euis : List DevEui) (outcome : StagedOutcome) :
    Transaction :=
  euis.foldl (fun t eui => t.stage id eui outcome) t

theorem stageAll_eq (t : Transaction) (id : DeploymentId) (euis : List DevEui)
    (outcome : StagedOutcome) :
    t.stageAll id euis outcome = { t with staging := { t.staging with
      outcomes := euis.foldl (fun o eui => o.insert (id, eui) outcome) t.staging.outcomes } } := by
  unfold stageAll
  induction euis generalizing t with
  | nil => rfl
  | cons eui euis ih => exact ih _

theorem find?_outcomes_stageAll (t : Transaction) (id : DeploymentId) (euis : List DevEui)
    (outcome : StagedOutcome) (k : DeploymentId × DevEui) :
    (t.stageAll id euis outcome).staging.outcomes.find? k =
      if k.1 = id ∧ k.2 ∈ euis then some outcome else t.staging.outcomes.find? k := by
  rw [stageAll_eq]
  show (euis.foldl (fun o eui => o.insert (id, eui) outcome) t.staging.outcomes).find? k = _
  generalize t.staging.outcomes = outcomes
  induction euis generalizing outcomes with
  | nil => simp
  | cons eui euis ih =>
    rw [List.foldl_cons, ih]
    obtain ⟨id', eui'⟩ := k
    by_cases hid : id' = id <;> by_cases heui : eui' = eui <;>
      simp [hid, heui, eq_comm (a := id), eq_comm (a := eui)]

/-! ### What a call can do -/

/-- **What a call can do** that leaves its transaction open: the store and the transaction after
it, from those before it. -/
inductive Effect (s : Store) (t : Transaction) : Call → Store → Transaction → Prop where
  /-- Nothing: it reads, or is refused. -/
  | nothing {c : Call} : Effect s t c s t
  /-- It locks rollouts. -/
  | lock {c : Call} (ids : List DeploymentId) (free : ∀ id ∈ ids, Free s t id) :
    Effect s t c { s with locked := s.locked.addAll ids } { t with held := t.held.addAll ids }
  /-- It locks a rollout and writes it. -/
  | write (d : Deployment) (clock : Instant) (free : Free s t d.id) :
    Effect s t (.update d) { s with locked := s.locked.addAll [d.id] }
      ({ t with held := t.held.addAll [d.id] }.write { d with updatedAt := clock.floorMicros })
  /-- It writes an outcome for devices that it sees pending. -/
  | stage {c : Call} (id : DeploymentId) (euis : List DevEui) (outcome : StagedOutcome)
    (terminal : outcome.state.isTerminal)
    (pending : ∀ eui ∈ euis, ∃ p, s.participant? id eui = some p ∧ t.deviceState p = .pending) :
    Effect s t c s (t.stageAll id euis outcome)
  /-- It marks a point to go back to. -/
  | mark {c : Call} : Effect s t c s { t with saved := some t.staging }
  /-- It goes back to the marked point. -/
  | back {c : Call} (staging : Staging) (saved : t.saved = some staging) :
    Effect s t c s { t with staging, saved := none }
  /-- It forgets the marked point. -/
  | forget {c : Call} : Effect s t c s { t with saved := none }

end Transaction

/-- What a transaction keeps to itself: records under their own identifiers, of rollouts that it has
locked, and outcomes that are final. -/
structure Staging.Confined (g : Staging) (held : IdSet) : Prop where
  keyed : ∀ {id d}, g.deployments.find? id = some d → d.id = id
  held : ∀ {id d}, g.deployments.find? id = some d → held.contains id
  terminal : ∀ {k outcome}, g.outcomes.find? k = some outcome → outcome.state.isTerminal

theorem Staging.Confined.mono {g : Staging} {held held' : IdSet} (h : g.Confined held)
    (more : ∀ id, held.contains id → held'.contains id) : g.Confined held' where
  keyed := h.keyed
  held hd := more _ (h.held hd)
  terminal := h.terminal

namespace Transaction

/-- All that a transaction keeps to itself, what it has marked included. -/
structure Confined (t : Transaction) : Prop where
  staging : t.staging.Confined t.held
  saved : ∀ g, t.saved = some g → g.Confined t.held

variable {s s' : Store} {t t' : Transaction}

theorem confined_fresh : fresh.Confined where
  staging := { keyed := nofun, held := nofun, terminal := nofun }
  saved _ h := nomatch h

/-- What a transaction sees under an identifier is a record of that identifier. -/
theorem id_of_view (hs : s.Keyed) (ht : t.Confined) {id : DeploymentId} {d : Deployment}
    (h : t.view s id = some d) : d.id = id := by
  rcases Option.or_eq_some_iff.1 h with h | ⟨-, h⟩
  · exact ht.staging.keyed h
  · obtain ⟨e, he, rfl⟩ := Store.get_eq_some_iff.1 h
    exact hs.deployment he

theorem mem_due_iff {now : Instant} {d : Deployment} :
    d ∈ due s t now ↔ ∃ id, Free s t id ∧ t.view s id = some d ∧ d.isDue now := by
  unfold due Free
  simp only [List.mem_mergeSort, List.mem_filter, List.mem_filterMap, Table.mem_keys_iff,
    Bool.or_eq_true, Bool.not_eq_true']
  constructor
  · rintro ⟨⟨id, ⟨hid, hfree⟩, hview⟩, hdue⟩
    exact ⟨id, ⟨hid, hfree⟩, hview, hdue⟩
  · rintro ⟨id, ⟨hid, hfree⟩, hview, hdue⟩
    exact ⟨⟨id, ⟨hid, hfree⟩, hview⟩, hdue⟩

/-- What a claim hands out is free, due, and as the transaction sees it. -/
theorem of_mem_claimDue (hs : s.Keyed) (ht : t.Confined) {limit : UInt32} {now : Instant}
    {d : Deployment} (h : d ∈ (claimDue s t limit now).1) :
    Free s t d.id ∧ t.view s d.id = some d ∧ d.isDue now := by
  obtain ⟨id, hfree, hview, hdue⟩ := mem_due_iff.1 (List.mem_of_mem_take h)
  obtain rfl := id_of_view hs ht hview
  exact ⟨hfree, hview, hdue⟩

theorem mem_pendingDevices_iff {id : DeploymentId} {eui : DevEui} :
    eui ∈ t.pendingDevices s id ↔
      ∃ p ∈ s.participants id, t.deviceState p = .pending ∧ p.eui = eui := by
  simp [pendingDevices, and_assoc]

theorem mem_pendingDevices_iff_participant? (hs : s.Keyed) {id : DeploymentId} {eui : DevEui} :
    eui ∈ t.pendingDevices s id ↔
      ∃ p, s.participant? id eui = some p ∧ t.deviceState p = .pending := by
  rw [mem_pendingDevices_iff]
  constructor
  · rintro ⟨p, hp, pending, rfl⟩
    obtain ⟨e, eui, he, heui⟩ := Store.mem_participants_iff.1 hp
    obtain rfl := (hs.participant he heui).2
    exact ⟨p, Store.participant?_eq_some_iff.2 ⟨e, he, heui⟩, pending⟩
  · rintro ⟨p, hp, pending⟩
    obtain ⟨e, he, heui⟩ := Store.participant?_eq_some_iff.1 hp
    exact ⟨p, Store.mem_participants_iff.2 ⟨e, eui, he, heui⟩, pending, (hs.participant he heui).2⟩

/-- **What recording an outcome comes to**: an error that changes nothing and that a cycle passes
over, or the outcome is staged, of a device that is pending. -/
theorem perform_recordOutcome_cases {clock : Instant} {id : DeploymentId} {eui : DevEui}
    {outcome : Outcome} {message : String} {result : Except Error Unit} {left : Option Transaction}
    (h : t.perform s clock (.recordOutcome id eui outcome message) = some (result, s', left)) :
    s' = s ∧ ((∃ e, result = .error e ∧ (e.isAlreadyTerminal || e.isNotFound) ∧ left = some t) ∨
      ∃ p, s.participant? id eui = some p ∧ t.deviceState p = .pending ∧ result = .ok () ∧
        left = some (t.stage id eui ⟨outcome.state, message, clock.floorMicros⟩)) := by
  simp only [perform, recordOutcome] at h
  split at h
  · cases h
    exact ⟨rfl, .inl ⟨_, rfl, rfl, rfl⟩⟩
  · next p hp =>
    split at h
    · cases h
      exact ⟨rfl, .inl ⟨_, rfl, rfl, rfl⟩⟩
    · next hpending =>
      cases h
      exact ⟨rfl, .inr ⟨p, hp, by simpa [DeviceState.isTerminal] using hpending, rfl, rfl⟩⟩

/-- **There is no other way** for a call to change the store or its transaction. -/
theorem perform_effect (hs : s.Keyed) (ht : t.Confined) {clock : Instant} {c : Call}
    {r : c.Result} (h : t.perform s clock c = some (r, s', some t')) : Effect s t c s' t' := by
  cases c with
  | begin => cases h; exact .nothing
  | lockedGet id =>
    simp only [perform] at h
    split at h
    · cases h; exact .nothing
    · cases h
    · next htaken =>
      cases h
      exact .lock [id] fun id' hid' => by
        obtain rfl := List.mem_singleton.1 hid'
        exact lockState_eq_taken_iff.1 htaken
  | claimDue limit now =>
    simp only [perform, claimDue, foldl_lock] at h
    cases h
    refine .lock _ fun id hid => ?_
    obtain ⟨d, hd, rfl⟩ := List.mem_map.1 hid
    have claimed : d ∈ (claimDue s t limit now).1 := hd
    exact (of_mem_claimDue hs ht claimed).1
  | update d =>
    simp only [perform] at h
    split at h
    · cases h; exact .nothing
    · cases h
    · next htaken =>
      cases h
      exact .write d clock (lockState_eq_taken_iff.1 htaken)
  | recordOutcome id eui outcome message =>
    obtain ⟨rfl, ⟨_, -, -, left⟩ | ⟨p, known, pending, -, left⟩⟩ := perform_recordOutcome_cases h <;>
      obtain rfl := Option.some.inj left
    · exact .nothing
    · refine .stage id [eui] ⟨outcome.state, message, clock.floorMicros⟩
        (DeviceState.isTerminal_outcome _) fun eui' heui' => ?_
      obtain rfl := List.mem_singleton.1 heui'
      exact ⟨p, known, pending⟩
  | pendingDevices id => cases h; exact .nothing
  | failPending id message =>
    cases h
    exact .stage id _ ⟨.error, message, clock.floorMicros⟩ rfl
      fun eui heui => (mem_pendingDevices_iff_participant? hs).1 heui
  | savepoint => cases h; exact .mark
  | rollbackToSavepoint =>
    simp only [perform] at h
    split at h
    · cases h; exact .nothing
    · next g hg => cases h; exact .back g hg
  | releaseSavepoint =>
    simp only [perform] at h
    split at h
    · cases h; exact .nothing
    · cases h; exact .forget
  | commit => cases h
  | rollback => cases h

theorem ends_of_perform (t : Transaction) {clock : Instant} {c : Call} {r : c.Result}
    (h : t.perform s clock c = some (r, s', none)) : c = .commit ∨ c = .rollback := by
  cases c with
  | commit => exact .inl rfl
  | rollback => exact .inr rfl
  | lockedGet | update | rollbackToSavepoint | releaseSavepoint =>
    simp only [perform] at h
    split at h <;> cases h
  | _ => cases h

namespace Effect

variable {c : Call}

/-- No call changes what is committed. -/
theorem entries (h : Effect s t c s' t') : s'.entries = s.entries := by
  cases h <;> rfl

/-- A call adds the same rollouts, all of them free, to the locks of the store and to those of its
transaction. -/
theorem locks (h : Effect s t c s' t') : ∃ ids : List DeploymentId, (∀ id ∈ ids, Free s t id) ∧
    (∀ id, s'.locked.contains id ↔ id ∈ ids ∨ s.locked.contains id) ∧
    ∀ id, t'.held.contains id ↔ id ∈ ids ∨ t.held.contains id := by
  cases h with
  | lock ids free =>
    exact ⟨ids, free, IdSet.contains_addAll _ _, IdSet.contains_addAll _ _⟩
  | write d clock free =>
    refine ⟨[d.id], fun id hid => ?_, IdSet.contains_addAll _ _, IdSet.contains_addAll _ _⟩
    obtain rfl := List.mem_singleton.1 hid
    exact free
  | stage id euis outcome terminal pending =>
    exact ⟨[], by simp, by simp, by simp [stageAll_eq]⟩
  | _ => exact ⟨[], by simp, by simp, by simp⟩

theorem held_mono (h : Effect s t c s' t') {id : DeploymentId} (hid : t.held.contains id) :
    t'.held.contains id := by
  obtain ⟨ids, -, -, hheld⟩ := h.locks
  exact (hheld id).2 (.inr hid)

theorem confined (h : Effect s t c s' t') (ht : t.Confined) : t'.Confined := by
  have mono : ∀ {g : Staging}, g.Confined t.held → g.Confined t'.held :=
    fun hg => hg.mono fun _ hid => h.held_mono hid
  cases h with
  | nothing => exact ht
  | lock ids free => exact ⟨mono ht.staging, fun g hg => mono (ht.saved g hg)⟩
  | write d clock free =>
    have hd : (t.held.addAll [d.id]).contains d.id :=
      (IdSet.contains_addAll _ _ _).2 (.inl (List.mem_singleton.2 rfl))
    refine ⟨⟨fun {id d'} h => ?_, fun {id d'} h => ?_, (mono ht.staging).terminal⟩,
      fun g hg => mono (ht.saved g hg)⟩
    · rcases Table.find?_insert_eq_some_iff.1 h with ⟨rfl, rfl⟩ | ⟨-, h⟩
      · rfl
      · exact ht.staging.keyed h
    · rcases Table.find?_insert_eq_some_iff.1 h with ⟨rfl, -⟩ | ⟨-, h⟩
      · exact hd
      · exact (mono ht.staging).held h
  | stage id euis outcome terminal pending =>
    rw [stageAll_eq] at mono ⊢
    refine ⟨⟨ht.staging.keyed, ht.staging.held, fun {k o} h => ?_⟩, ht.saved⟩
    have find := find?_outcomes_stageAll t id euis outcome k
    rw [stageAll_eq] at find
    rw [find] at h
    split at h
    · cases h; exact terminal
    · exact ht.staging.terminal h
  | mark => exact ⟨ht.staging, fun g hg => Option.some.inj hg ▸ ht.staging⟩
  | back g hg => exact ⟨ht.saved g hg, nofun⟩
  | forget => exact ⟨ht.staging, nofun⟩

end Effect

end Transaction

theorem Store.Keyed.congr {s s' : Store} (hs : s.Keyed) (h : s'.entries = s.entries) : s'.Keyed where
  deployment he := hs.deployment (h ▸ he)
  participant he hp := hs.participant (h ▸ he) hp

end FirmwareRollout
