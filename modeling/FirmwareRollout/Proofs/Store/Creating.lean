import FirmwareRollout.Proofs.Store.TwoMaps

/-!
New rollouts. Creating one is all or nothing: devices are enrolled one after another, and one that
comes twice, wherever it stands among them, leaves the store as it was. Else the rollout is there
with all of its devices, which are pending. A rollout and its devices come together and stay:
`TwoMaps.Aligned` says this of two maps, one of the rollouts and one of their devices.

Main statement: `create_all_or_nothing`.
-/

namespace FirmwareRollout

/-! ### A row that is new -/

namespace Table

variable {κ ν : Type} [Ranked κ] {k : κ}

theorem perm_place {rows : List (κ × ν)} (new : ∀ row ∈ rows, row.1 ≠ k) (v : ν) :
    (place k v rows).Perm ((k, v) :: rows) := by
  induction rows with
  | nil => exact .refl _
  | cons row rows ih =>
    obtain ⟨first, others⟩ := List.forall_mem_cons.1 new
    unfold place
    split
    · exact .refl _
    · split
      · next same => exact absurd (rank_inj same).symm first
      · exact ((ih others).cons row).trans (.swap ..)

theorem values_insert_perm {t : Table κ ν} (new : t.contains k = false) (v : ν) :
    (t.insert k v).values.Perm (v :: t.values) := by
  have absent : ∀ row ∈ t.rows, row.1 ≠ k := by
    rintro ⟨k', v'⟩ hrow rfl
    rw [contains_of_find? (mem_rows_iff.1 hrow)] at new
    cases new
  exact (perm_place absent v).map (·.2)

end Table

/-! ### Devices that are enrolled together -/

namespace Store

variable {id : DeploymentId} {clock : Instant} {devices : List EnrolledDevice}
  {table table' : Table DevEui Participant}

/-- Devices can be enrolled if none of them comes twice or is enrolled already. -/
theorem enrolOnto_ok_iff : (∃ table', enrolOnto id clock table devices = .ok table') ↔
    (devices.map (·.eui)).Nodup ∧ ∀ device ∈ devices, table.contains device.eui = false := by
  induction devices generalizing table with
  | nil => simp [enrolOnto, pure, Except.pure]
  | cons device devices ih =>
    rw [enrolOnto_cons, List.map_cons, List.nodup_cons, List.forall_mem_cons]
    cases known : table.contains device.eui with
    | true => simp
    | false =>
      have others : (∀ other ∈ devices,
          (table.insert device.eui (.enrol id clock device)).contains other.eui = false) ↔
          device.eui ∉ devices.map (·.eui) ∧
            ∀ other ∈ devices, table.contains other.eui = false := by
        simp only [Bool.eq_false_iff, ne_eq, Table.contains_insert, not_or, List.mem_map,
          not_exists, not_and]
        constructor
        · intro all
          exact ⟨fun other mem same => (all other mem).1 same.symm,
            fun other mem => (all other mem).2⟩
        · rintro ⟨apart, new⟩ other mem
          exact ⟨fun same => apart other mem same.symm, new other mem⟩
      rw [if_neg (by simp), ih, others]
      constructor
      · rintro ⟨distinct, apart, new⟩
        exact ⟨⟨apart, distinct⟩, rfl, new⟩
      · rintro ⟨⟨apart, distinct⟩, -, new⟩
        exact ⟨distinct, apart, new⟩

/-- Each device that is enrolled has one record, and nothing else is added. -/
theorem values_enrolOnto (h : enrolOnto id clock table devices = .ok table') :
    table'.values.Perm (devices.map (.enrol id clock) ++ table.values) := by
  induction devices generalizing table with
  | nil =>
    obtain rfl : table = table' := Except.ok.inj h
    exact .refl _
  | cons device devices ih =>
    rw [enrolOnto_cons] at h
    split at h
    · cases h
    · next new =>
      have added := Table.values_insert_perm (Bool.eq_false_iff.2 new) (.enrol id clock device)
      exact (ih h).trans ((added.append_left _).trans List.perm_middle)

theorem enrolAll_ok_iff : (∃ table, enrolAll id clock devices = .ok table) ↔
    (devices.map (·.eui)).Nodup :=
  enrolOnto_ok_iff.trans (and_iff_left fun _ _ => rfl)

theorem values_enrolAll (h : enrolAll id clock devices = .ok table) :
    table.values.Perm (devices.map (.enrol id clock)) := by
  have added := values_enrolOnto h
  rwa [show (Table.empty : Table DevEui Participant).values = [] from rfl, List.append_nil] at added

/-! ### All or nothing -/

/-- What a store has become when a rollout was created with its devices. -/
structure Created (s : Store) (d : Deployment) (devices : List EnrolledDevice) (s' : Store) :
    Prop where
  get : s'.get d.id = some d
  deviceCount : s'.deviceCount d.id = devices.length
  pendingCount : s'.pendingCount d.id = devices.length
  /-- The pages of the listing are cut from one list, in which each device has one record. -/
  listing : ∃ records : List Participant,
    records.Perm (devices.map fun device =>
      { deployment := d.id, eui := device.eui, name := device.name, state := .pending,
        errorMessage := "", createdAt := d.createdAt, updatedAt := d.createdAt }) ∧
    ∀ limit offset, s'.listDevices d.id limit offset =
      (records.drop offset.toNat).take limit.toNat
  others : ∀ id, id ≠ d.id → s'.entries.find? id = s.entries.find? id
  locked : s'.locked = s.locked

variable {s : Store} {d : Deployment}

theorem get_eq_none_iff : s.get id = none ↔ s.entries.contains id = false := by
  unfold get
  rw [Option.map_eq_none_iff, Table.contains_eq_false_iff]

theorem create_ok_iff : (s.create d devices).1 = .ok () ↔
    s.get d.id = none ∧ (devices.map (·.eui)).Nodup := by
  have enrols : (∃ table, enrolAll d.id d.createdAt devices = .ok table) ↔
      (devices.map (·.eui)).Nodup := enrolAll_ok_iff
  rw [get_eq_none_iff, ← enrols]
  unfold create
  cases s.entries.contains d.id with
  | true => simp
  | false => cases enrolAll d.id d.createdAt devices <;> simp

theorem eq_of_create_error {error : Error} (h : (s.create d devices).1 = .error error) :
    (s.create d devices).2 = s := by
  rcases s.create_cases d devices with ⟨_, same⟩ | ⟨-, table, -, created⟩
  · rw [same]
  · rw [created] at h
    cases h

theorem created_of_create (h : (s.create d devices).1 = .ok ()) :
    s.Created d devices (s.create d devices).2 := by
  rcases s.create_cases d devices with ⟨error, same⟩ | ⟨-, table, enrolled, created⟩
  · rw [same] at h
    cases h
  rw [created]
  let s' : Store := { s with entries := s.entries.insert d.id ⟨d, table⟩ }
  have found : s'.entries.find? d.id = some ⟨d, table⟩ := Table.find?_insert_self ..
  have members : s'.participants d.id = table.values := by
    rw [participants, found]
  have records := values_enrolAll enrolled
  have pending : (s'.participants d.id).filter Participant.isPending = s'.participants d.id := by
    rw [List.filter_eq_self, members]
    intro p hp
    obtain ⟨device, -, rfl⟩ := List.mem_map.1 (records.mem_iff.1 hp)
    rfl
  have count : (s'.participants d.id).length = devices.length := by
    rw [members, records.length_eq, List.length_map]
  refine ⟨get_of_find? found, count, ?_, ?_, fun id hne => ?_, rfl⟩
  · show ((s'.participants d.id).filter Participant.isPending).length = _
    rw [pending, count]
  · refine ⟨_, ?_, fun limit offset => rfl⟩
    show ((s'.participants d.id).mergeSort _).Perm _
    rw [members]
    exact (List.mergeSort_perm _ _).trans records
  · exact Table.find?_insert_of_ne _ _ (Ne.symm hne)

end Store

/-! ### Rollouts and devices stay together -/

namespace TwoMaps

/-- The same rollouts are in both maps, and every record stands under the identifiers that it
names. -/
structure Aligned (m : TwoMaps) : Prop where
  keys : m.deployments.keys = m.participants.keys
  deployment : ∀ id d, m.deployments.find? id = some d → d.id = id
  participant : ∀ id eui p, m.participant? id eui = some p → p.deployment = id ∧ p.eui = eui

theorem aligned_ofStore {s : Store} (hs : s.Keyed) : (ofStore s).Aligned where
  keys := (keys_ofStore s).1.trans (keys_ofStore s).2.symm
  deployment id d hd := by
    rw [find?_deployments_ofStore] at hd
    obtain ⟨e, he, rfl⟩ := Store.get_eq_some_iff.1 hd
    exact hs.deployment he
  participant id eui p hp := by
    rw [participant?_ofStore] at hp
    exact hs.of_participant? hp

end TwoMaps

namespace Store

/-- All rollouts and devices of the store `s` are in the store `s'` too. -/
structure KeptIn (s s' : Store) : Prop where
  get : ∀ id, (s.get id).isSome → (s'.get id).isSome
  participant? : ∀ id eui, (s.participant? id eui).isSome → (s'.participant? id eui).isSome

theorem Onward.keptIn {s s' : Store} {kept : DeploymentId → Prop} (h : s.Onward kept s') :
    s.KeptIn s' where
  get id known := by
    unfold Store.get at known ⊢
    rw [Option.isSome_map] at known ⊢
    exact h.known known
  participant? id eui known := by
    obtain ⟨p, hp⟩ := Option.isSome_iff_exists.1 known
    obtain ⟨e, he, -⟩ := participant?_eq_some_iff.1 hp
    have related := h.devices (Table.contains_of_find? he) eui
    rw [hp] at related
    generalize s'.participant? id eui = p' at related
    cases related
    rfl

end Store

namespace Shared

/-- **Creating is all or nothing.** After every history a rollout is created exactly if there is
none with its identifier and no device comes twice; then it is there with its devices and all else
is as before, and otherwise nothing has changed. If rollouts and their devices are kept in two maps
through that history, creation comes to the same on them, they are found there as in the store, the
maps have the same rollouts, and every record stands under its own identifiers. Nothing that comes
later takes a rollout or a device away. -/
theorem create_all_or_nothing (h : List Stroke) (d : Deployment) (devices : List EnrolledDevice) :
    let s := (after h).store
    let created := s.create d devices
    (created.1 = .ok () ↔ s.get d.id = none ∧ (devices.map (·.eui)).Nodup) ∧
    (created.1 = .ok () → s.Created d devices created.2) ∧
    (∀ error, created.1 = .error error → created.2 = s) ∧
    after (.create d devices :: h) = { after h with store := created.2 } ∧
    (∃ m, TwoMaps.After h m) ∧
    (∀ m, TwoMaps.After h m → m.Aligned ∧ (m.create d devices).1 = created.1 ∧
      ∀ id, m.deployments.find? id = s.get id ∧
        ∀ eui, m.participant? id eui = s.participant? id eui) ∧
    ∀ later, s.KeptIn (after (later ++ h)).store := by
  refine ⟨Store.create_ok_iff, Store.created_of_create, fun _ => Store.eq_of_create_error, rfl,
    ⟨_, TwoMaps.after_iff.2 rfl⟩, ?_, fun later => (onward_after h later).keptIn⟩
  intro m kept
  obtain rfl := TwoMaps.after_iff.1 kept
  refine ⟨TwoMaps.aligned_ofStore (sound_after h).keyed, ?_, fun id => ⟨?_, fun eui => ?_⟩⟩
  · rw [TwoMaps.create_ofStore]
  · exact TwoMaps.find?_deployments_ofStore _ id
  · exact TwoMaps.participant?_ofStore _ id eui

end Shared

end FirmwareRollout
