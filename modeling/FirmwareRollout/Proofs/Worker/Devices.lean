import FirmwareRollout.Proofs.Worker.Crew

/-!
Devices settle once. `records` lists what was ever stored of a device, and `Lifetime` says what such
a list can be: nothing, the record with which the device was enrolled, or that one and the record of
its outcome. Every stroke moves the store onward (`Sound.onward`), so that an outcome is never taken
back, whatever a transaction had written before it was published.

Main statement: `devices_settle_once`.
-/

namespace FirmwareRollout

variable {s s' : Store} {id : DeploymentId} {eui : DevEui} {p p' : Participant}

/-! ### What a device keeps -/

/-- What is known of a device from the start. -/
def Participant.identity (p : Participant) : DeploymentId × DevEui × String × Instant :=
  (p.deployment, p.eui, p.name, p.createdAt)

theorem Participant.Onward.identity (h : p.Onward p') : p'.identity = p.identity := by
  unfold Participant.identity
  rw [h.deployment, h.eui, h.name, h.createdAt]

theorem Participant.isTerminal_iff : p.state.isTerminal ↔ p.state = .success ∨ p.state = .error := by
  cases h : p.state <;> simp [DeviceState.isTerminal]

/-- The devices of a rollout are the same ones from the time when it is stored. -/
theorem Store.Onward.identities {kept : DeploymentId → Prop} (h : s.Onward kept s')
    (hid : s.entries.contains id) : (s'.participants id).map Participant.identity =
      (s.participants id).map Participant.identity := by
  obtain ⟨e, he⟩ := Table.contains_iff.1 hid
  obtain ⟨e', he'⟩ := Table.contains_iff.1 (h.known hid)
  have same : (e'.participants.map fun _ p => p.identity) =
      e.participants.map fun _ p => p.identity := by
    apply Table.ext
    intro eui
    have related := h.devices hid eui
    rw [Store.participant?, Store.participant?, he, he', Option.bind_some, Option.bind_some] at related
    rw [Table.find?_map, Table.find?_map]
    generalize e.participants.find? eui = p at related
    generalize e'.participants.find? eui = p' at related
    cases related with
    | none => rfl
    | some onward => exact congrArg some onward.identity
  rw [participants, participants, he, he', ← Table.values_map, ← Table.values_map, same]

theorem Store.Onward.settled {kept : DeploymentId → Prop} (h : s.Onward kept s')
    (hp : s.participant? id eui = some p) (final : p.state.isTerminal) :
    s'.participant? id eui = some p := by
  obtain ⟨e, he, -⟩ := participant?_eq_some_iff.1 hp
  have related := h.devices (Table.contains_of_find? he) eui
  rw [hp] at related
  generalize s'.participant? id eui = p' at related
  cases related with
  | some onward => rw [onward.settled final]

/-! ### How devices come -/

theorem Change.contains_eq {x x' : Option Session} {a : Act} (h : Change x s a x' s') :
    s'.entries.contains id = s.entries.contains id := by
  cases h with
  | publish t working => exact Transaction.contains_publish t s id
  | work c t t' working call effect => rw [effect.entries]
  | _ => rfl

namespace Shared

variable {w : Shared}

/-- **A rollout comes with its devices**, all of them pending. -/
theorem Sound.created (hw : w.Sound) {m : Stroke} (unknown : w.store.entries.contains id = false)
    (known : (w.step m).store.entries.contains id) : ∃ d devices, m = .create d devices ∧ d.id = id ∧
      ∀ eui p, (w.step m).store.participant? id eui = some p →
        ∃ device ∈ devices, device.eui = eui ∧ p = .enrol id d.createdAt device := by
  cases m with
  | act tx a =>
    obtain ⟨x', s', hstep, change⟩ := hw.step_act tx a
    rw [hstep, store_put, change.contains_eq, unknown] at known
    cases known
  | create d devices =>
    have known : (w.store.create d devices).2.entries.contains id := known
    show ∃ d' devices', _ ∧ _ ∧ ∀ eui p, (w.store.create d devices).2.participant? id eui = some p → _
    rcases w.store.create_cases d devices with ⟨error, same⟩ | ⟨-, table, enrolled, created⟩
    · rw [same, unknown] at known
      cases known
    · rw [created] at known ⊢
      have hid : d.id = id := by
        rcases Table.contains_insert.1 known with hid | known
        · exact hid
        · rw [unknown] at known
          cases known
      refine ⟨d, devices, rfl, hid, fun eui p hp => ?_⟩
      obtain ⟨e, he, hp⟩ := Store.participant?_eq_some_iff.1 hp
      rcases Table.find?_insert_eq_some_iff.1 he with ⟨-, rfl⟩ | ⟨hne, -⟩
      · exact hid ▸ Store.of_enrolAll enrolled hp
      · exact absurd hid hne

/-! ### All that was stored of a device -/

/-- The records that were stored of a device, the latest first. -/
def records (id : DeploymentId) (eui : DevEui) : List Stroke → List Participant
  | [] => []
  | m :: h =>
    match (after (m :: h)).store.participant? id eui with
    | some p => if (records id eui h).head? = some p then records id eui h else p :: records id eui h
    | none => records id eui h

end Shared

/-- What the records of a device can be, the latest first. -/
inductive Participant.Lifetime : List Participant → Prop where
  | unknown : Lifetime []
  | enrolled (p : Participant) (pending : p.state = .pending) : Lifetime [p]
  | settled (p p' : Participant) (pending : p.state = .pending) (onward : p.Onward p')
    (final : p'.state = .success ∨ p'.state = .error) : Lifetime [p', p]

/-- A lifetime goes on by a record that has changed; that is the first one, or has the outcome. -/
theorem Participant.Lifetime.next {ps : List Participant} {p? : Option Participant}
    (h : Lifetime ps) (related : Option.Rel Participant.Onward ps.head? p?) (changed : p? ≠ ps.head?) :
    ∃ p, p? = some p ∧ Lifetime (p :: ps) := by
  cases h with
  | unknown =>
    cases related with
    | none => exact absurd rfl changed
  | enrolled p pending =>
    cases related with
    | @some _ p' onward =>
      have moved : p' ≠ p := fun h => changed (congrArg some h)
      have final := onward.moved.resolve_left moved
      exact ⟨p', rfl, .settled p p' pending onward (isTerminal_iff.1 final)⟩
  | settled p₀ p pending onward final =>
    cases related with
    | @some _ p' onward' =>
      have kept : p' = p := onward'.settled (isTerminal_iff.2 final)
      exact absurd (congrArg some kept) changed

namespace Shared

theorem records_cons_of_eq {h : List Stroke} {m : Stroke}
    (same : (after (m :: h)).store.participant? id eui = (after h).store.participant? id eui)
    (latest : (records id eui h).head? = (after h).store.participant? id eui) :
    records id eui (m :: h) = records id eui h := by
  rw [records, same, ← latest]
  cases hp : (records id eui h).head? with
  | none => rfl
  | some p => exact if_pos rfl

theorem records_cons_of_ne {h : List Stroke} {m : Stroke}
    (hp : (after (m :: h)).store.participant? id eui = some p)
    (changed : (records id eui h).head? ≠ some p) :
    records id eui (m :: h) = p :: records id eui h := by
  rw [records, hp]
  exact if_neg changed

/-- **The records of a device** are those of a lifetime, and the latest is the one that is stored. -/
theorem lifetime_records (id : DeploymentId) (eui : DevEui) (h : List Stroke) :
    Participant.Lifetime (records id eui h) ∧
      (records id eui h).head? = (after h).store.participant? id eui := by
  induction h with
  | nil => exact ⟨.unknown, rfl⟩
  | cons m h ih =>
    obtain ⟨life, latest⟩ := ih
    have sound := sound_after h
    by_cases same : (after (m :: h)).store.participant? id eui = (after h).store.participant? id eui
    · rw [records_cons_of_eq same latest, same]
      exact ⟨life, latest⟩
    · rw [← latest] at same
      have next : ∃ p, (after (m :: h)).store.participant? id eui = some p ∧
          Participant.Lifetime (p :: records id eui h) := by
        by_cases known : (after h).store.entries.contains id
        · have related := (sound.onward m).devices known eui
          rw [← latest] at related
          exact life.next related same
        · -- there was no such device, so that this is its enrolment
          have unknown := Bool.eq_false_iff.2 known
          have absent : (after h).store.participant? id eui = none := by
            rw [Store.participant?, Table.contains_eq_false_iff.1 unknown]
            rfl
          have none_yet := latest.trans absent
          rw [none_yet] at same
          obtain ⟨p, hp⟩ := Option.ne_none_iff_exists'.1 same
          obtain ⟨e, he, -⟩ := Store.participant?_eq_some_iff.1 hp
          obtain ⟨d, devices, -, -, enrolled⟩ := sound.created unknown (Table.contains_of_find? he)
          obtain ⟨device, -, -, rfl⟩ := enrolled eui p hp
          rw [List.head?_eq_none_iff.1 none_yet]
          exact ⟨_, hp, .enrolled _ rfl⟩
      obtain ⟨p, hp, life'⟩ := next
      rw [hp] at same
      rw [records_cons_of_ne hp (Ne.symm same), hp]
      exact ⟨life', rfl⟩

/-- **Devices settle once.** In every history, and whatever comes after it: all that was ever stored
of a device is the record with which it was enrolled, pending, and at most one record more, that of
its outcome; a rollout comes with its devices, all of them pending; from then on it has the same
devices, and a device with an outcome keeps its record as it is. What workers and trackers do to a
store in any order is such a history. -/
theorem devices_settle_once (h : List Stroke) (id : DeploymentId) :
    (∀ eui, Participant.Lifetime (records id eui h) ∧
      (records id eui h).head? = (after h).store.participant? id eui) ∧
    (∀ m, (after h).store.entries.contains id = false →
      (after (m :: h)).store.entries.contains id →
        ∃ d devices, m = .create d devices ∧ d.id = id ∧
          ∀ eui p, (after (m :: h)).store.participant? id eui = some p → p.state = .pending ∧
            ∃ device ∈ devices, device.eui = eui ∧ p = .enrol id d.createdAt device) ∧
    (∀ h', (after h).store.entries.contains id →
      ((after (h' ++ h)).store.participants id).map Participant.identity =
        ((after h).store.participants id).map Participant.identity ∧
      ∀ eui p, (after h).store.participant? id eui = some p → p.state = .success ∨ p.state = .error →
        (after (h' ++ h)).store.participant? id eui = some p) ∧
    ∀ turns, (Crew.after turns).shared = after (Crew.strokes turns) := by
  refine ⟨fun eui => lifetime_records id eui h, ?_, ?_, Crew.shared_after⟩
  · intro m unknown known
    obtain ⟨d, devices, hm, hid, enrolled⟩ := (sound_after h).created unknown known
    refine ⟨d, devices, hm, hid, fun eui p hp => ?_⟩
    obtain ⟨device, mem, heui, rfl⟩ := enrolled eui p hp
    exact ⟨rfl, device, mem, heui, rfl⟩
  · intro h' known
    have onward := onward_after h h'
    constructor
    · exact onward.identities known
    · intro eui p hp final
      exact onward.settled hp (Participant.isTerminal_iff.2 final)

end Shared

end FirmwareRollout
