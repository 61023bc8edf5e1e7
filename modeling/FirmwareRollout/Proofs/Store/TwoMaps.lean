import FirmwareRollout.Proofs.Store.Onward

/-!
Rollouts and their devices in two maps. A store keeps a rollout and its devices in one entry, so
that none is there without the other. `TwoMaps` keeps them apart: creating writes to both maps, and
a publication goes through what its transaction has written, row by row in any order, and passes
over every row whose rollout or device is not there. No row is met twice, so all orders come to the
same (`foldl_of_mem`), and after every history the two maps are those of the store: each rollout
still has its devices.

Main statement: `TwoMaps.after_iff`.
-/

namespace FirmwareRollout

/-! ### A loop that meets no key twice -/

section Loop

variable {σ κ μ ν : Type} [DecidableEq κ] {step : σ → κ × μ → σ} {cell : σ → Option ν}
  {change : μ → ν → ν} {rows : List (κ × μ)} {k : κ}

/-- Each row changes the cell of its key, if there is something in it, and no other cell. -/
def ChangesCell (step : σ → κ × μ → σ) (k : κ) (cell : σ → Option ν) (change : μ → ν → ν) : Prop :=
  ∀ s row, cell (step s row) = if row.1 = k then (cell s).map (change row.2) else cell s

theorem foldl_of_not_mem (h : ChangesCell step k cell change) (absent : k ∉ rows.map (·.1))
    (s : σ) : cell (rows.foldl step s) = cell s := by
  induction rows generalizing s with
  | nil => rfl
  | cons row rows ih =>
    rw [List.map_cons, List.mem_cons, not_or] at absent
    rw [List.foldl_cons, ih absent.2, h, if_neg (Ne.symm absent.1)]

theorem foldl_of_mem (h : ChangesCell step k cell change) (distinct : (rows.map (·.1)).Nodup)
    {m : μ} (mem : (k, m) ∈ rows) (s : σ) :
    cell (rows.foldl step s) = (cell s).map (change m) := by
  induction rows generalizing s with
  | nil => cases mem
  | cons row rows ih =>
    obtain ⟨first, others⟩ := List.nodup_cons.1 distinct
    rw [List.foldl_cons]
    rcases List.mem_cons.1 mem with rfl | mem
    · rw [foldl_of_not_mem h first, h, if_pos rfl]
    · have key : k ∈ rows.map (·.1) := List.mem_map.2 ⟨_, mem, rfl⟩
      have hne : row.1 ≠ k := by
        rintro rfl
        exact first key
      rw [ih others mem, h, if_neg hne]

/-- The rows of a table, in any order. -/
theorem foldl_rows [Ranked κ] (h : ChangesCell step k cell change) {staged : Table κ μ}
    (order : rows.Perm staged.rows) (s : σ) : cell (rows.foldl step s) =
      (cell s).map fun v => ((staged.find? k).map fun m => change m v).getD v := by
  have keys : (rows.map (·.1)).Perm staged.keys := order.map _
  cases hk : staged.find? k with
  | none =>
    have absent : k ∉ rows.map (·.1) := by
      rw [keys.mem_iff, Table.mem_keys_iff, Table.contains_eq_false_iff.2 hk]
      simp
    rw [foldl_of_not_mem h absent]
    exact Option.map_id'.symm
  | some m =>
    have mem : (k, m) ∈ rows := order.mem_iff.2 (Table.mem_rows_iff.2 hk)
    exact foldl_of_mem h (keys.nodup_iff.2 staged.nodup_keys) mem s

end Loop

/-! ### What strokes publish -/

namespace Shared

variable {h : List Stroke} {tx : TxId} {t : Transaction} {a : Act}

theorem store_publish (live : (after h).sessions.find? tx = some (.working t)) :
    (after (.act tx .publish :: h)).store = t.publish (after h).store := by
  show ((after h).step (.act tx .publish)).store = _
  rw [step, live]
  exact store_put ..

/-- A stroke that does not publish leaves rollouts and devices as they are. -/
theorem entries_of_quiet
    (quiet : ∀ t, (after h).sessions.find? tx = some (.working t) → a ≠ .publish) :
    (after (.act tx a :: h)).store.entries = (after h).store.entries := by
  obtain ⟨x', s', hstep, change⟩ := (sound_after h).step_act tx a
  show ((after h).step (.act tx a)).store.entries = _
  rw [hstep, store_put]
  cases change with
  | publish t working => exact absurd rfl (quiet t working)
  | work c t t' working call effect => exact effect.entries
  | _ => rfl

end Shared

/-! ### The two maps -/

/-- Rollouts and their devices, each in a map of its own. -/
structure TwoMaps where
  deployments : Table DeploymentId Deployment
  participants : Table DeploymentId (Table DevEui Participant)

namespace TwoMaps

def empty : TwoMaps := ⟨.empty, .empty⟩

/-- The two maps of a store. -/
def ofStore (s : Store) : TwoMaps where
  deployments := s.entries.map fun _ e => e.deployment
  participants := s.entries.map fun _ e => e.participants

def participant? (m : TwoMaps) (id : DeploymentId) (eui : DevEui) : Option Participant :=
  (m.participants.find? id).bind (·.find? eui)

/-- Stores a new rollout in one map and its devices in the other. -/
def create (m : TwoMaps) (d : Deployment) (devices : List EnrolledDevice) :
    Except Error Unit × TwoMaps :=
  if m.deployments.contains d.id then
    (.error (.internal ("deployment " ++ toString d.id ++ " already exists")), m)
  else
    match Store.enrolAll d.id d.createdAt devices with
    | .error eui => (.error (.internal ("device " ++ toString eui ++ " enrolled twice")), m)
    | .ok table => (.ok (), ⟨m.deployments.insert d.id d, m.participants.insert d.id table⟩)

/-- Takes over the record of a rollout, if there is that rollout. -/
def putRecord (m : TwoMaps) (row : DeploymentId × Deployment) : TwoMaps :=
  { m with deployments := m.deployments.modify row.1 fun _ => row.2 }

/-- Takes over the outcome of a device, if there is that device and it has none. -/
def putOutcome (m : TwoMaps) (row : (DeploymentId × DevEui) × StagedOutcome) : TwoMaps :=
  { m with participants := m.participants.modify row.1.1 fun devices =>
      devices.modify row.1.2 fun p => Transaction.settle p row.2 }

/-- Takes over records and then outcomes, row by row. -/
def publish (m : TwoMaps) (records : List (DeploymentId × Deployment))
    (outcomes : List ((DeploymentId × DevEui) × StagedOutcome)) : TwoMaps :=
  outcomes.foldl putOutcome (records.foldl putRecord m)

/-- What becomes of the two maps in a history. -/
inductive After : List Stroke → TwoMaps → Prop where
  | nothing : After [] empty
  | create {h : List Stroke} {m : TwoMaps} (d : Deployment) (devices : List EnrolledDevice)
    (before : After h m) : After (.create d devices :: h) (m.create d devices).2
  /-- What a transaction has written is gone through in any order. -/
  | publish {h : List Stroke} {m : TwoMaps} {tx : TxId} {t : Transaction}
    {records : List (DeploymentId × Deployment)}
    {outcomes : List ((DeploymentId × DevEui) × StagedOutcome)} (before : After h m)
    (live : (Shared.after h).sessions.find? tx = some (.working t))
    (allRecords : records.Perm t.staging.deployments.rows)
    (allOutcomes : outcomes.Perm t.staging.outcomes.rows) :
    After (.act tx .publish :: h) (m.publish records outcomes)
  | other {h : List Stroke} {m : TwoMaps} {tx : TxId} {a : Act} (before : After h m)
    (quiet : ∀ t, (Shared.after h).sessions.find? tx = some (.working t) → a ≠ .publish) :
    After (.act tx a :: h) m

/-! ### The maps of a store -/

variable {m m' : TwoMaps} {s : Store} {id : DeploymentId} {eui : DevEui}

/-- Two maps are known by what is found in them, and of devices also by the rollouts. -/
theorem ext (deployments : ∀ id, m.deployments.find? id = m'.deployments.find? id)
    (known : ∀ id, m.participants.contains id = m'.participants.contains id)
    (participant : ∀ id eui, m.participant? id eui = m'.participant? id eui) : m = m' := by
  have participants : m.participants = m'.participants := by
    refine Table.ext fun id => ?_
    have known := known id
    have participant := participant id
    unfold Table.contains at known
    unfold participant? at participant
    generalize m.participants.find? id = x at known participant
    generalize m'.participants.find? id = x' at known participant
    cases x <;> cases x'
    · rfl
    · cases known
    · cases known
    · exact congrArg some (Table.ext participant)
  cases m
  cases m'
  exact congr (congrArg TwoMaps.mk (Table.ext deployments)) participants

theorem find?_deployments_ofStore (s : Store) (id : DeploymentId) :
    (ofStore s).deployments.find? id = s.get id :=
  Table.find?_map ..

theorem participant?_ofStore (s : Store) (id : DeploymentId) (eui : DevEui) :
    (ofStore s).participant? id eui = s.participant? id eui := by
  unfold participant? Store.participant? ofStore
  rw [Table.find?_map, Option.bind_map]
  rfl

theorem contains_ofStore (s : Store) (id : DeploymentId) :
    (ofStore s).deployments.contains id = s.entries.contains id ∧
      (ofStore s).participants.contains id = s.entries.contains id := by
  unfold ofStore Table.contains
  rw [Table.find?_map, Table.find?_map, Option.isSome_map, Option.isSome_map]
  exact ⟨rfl, rfl⟩

/-- **The same rollouts are in both maps of a store.** -/
theorem keys_ofStore (s : Store) : (ofStore s).deployments.keys = s.entries.keys ∧
    (ofStore s).participants.keys = s.entries.keys := by
  unfold ofStore Table.keys Table.map
  simp

theorem ofStore_congr {s' : Store} (h : s'.entries = s.entries) : ofStore s' = ofStore s := by
  unfold ofStore
  rw [h]

theorem create_ofStore (s : Store) (d : Deployment) (devices : List EnrolledDevice) :
    (ofStore s).create d devices =
      ((s.create d devices).1, ofStore (s.create d devices).2) := by
  unfold create Store.create
  rw [(contains_ofStore s d.id).1]
  split
  · rfl
  · cases Store.enrolAll d.id d.createdAt devices with
    | error eui => rfl
    | ok table =>
      unfold ofStore
      rw [Table.map_insert, Table.map_insert]

/-! ### Publishing row by row -/

theorem changes_deployment (id : DeploymentId) :
    ChangesCell putRecord id (fun m => m.deployments.find? id) fun d _ => d := by
  intro m row
  simp only [putRecord, Table.find?_modify, rank_eq_iff, eq_comm]

theorem changes_participant (id : DeploymentId) (eui : DevEui) :
    ChangesCell putOutcome (id, eui) (fun m => m.participant? id eui)
      fun o p => Transaction.settle p o := by
  rintro m ⟨⟨id', eui'⟩, o⟩
  unfold participant? putOutcome
  simp only [Table.find?_modify, rank_eq_iff, Prod.mk.injEq]
  by_cases hid : id' = id
  · subst hid
    cases m.participants.find? id' with
    | none => simp
    | some devices => simp [Table.find?_modify, rank_eq_iff, eq_comm]
  · simp [hid, Ne.symm hid]

theorem deployments_foldl_putOutcome (rows : List ((DeploymentId × DevEui) × StagedOutcome))
    (m : TwoMaps) : (rows.foldl putOutcome m).deployments = m.deployments := by
  induction rows generalizing m with
  | nil => rfl
  | cons row rows ih => exact ih _

theorem participants_foldl_putRecord (rows : List (DeploymentId × Deployment)) (m : TwoMaps) :
    (rows.foldl putRecord m).participants = m.participants := by
  induction rows generalizing m with
  | nil => rfl
  | cons row rows ih => exact ih _

theorem contains_foldl_putOutcome (rows : List ((DeploymentId × DevEui) × StagedOutcome))
    (m : TwoMaps) (id : DeploymentId) :
    (rows.foldl putOutcome m).participants.contains id = m.participants.contains id := by
  induction rows generalizing m with
  | nil => rfl
  | cons row rows ih =>
    rw [List.foldl_cons, ih]
    unfold putOutcome Table.contains
    rw [Table.find?_modify]
    split
    · exact Option.isSome_map
    · rfl

/-- **The loops of a publication**, in any order of their rows, publish what was written. -/
theorem publish_ofStore (s : Store) (t : Transaction) {records : List (DeploymentId × Deployment)}
    {outcomes : List ((DeploymentId × DevEui) × StagedOutcome)}
    (allRecords : records.Perm t.staging.deployments.rows)
    (allOutcomes : outcomes.Perm t.staging.outcomes.rows) :
    (ofStore s).publish records outcomes = ofStore (t.publish s) := by
  refine ext (fun id => ?_) (fun id => ?_) fun id eui => ?_
  · calc ((ofStore s).publish records outcomes).deployments.find? id
      _ = (records.foldl putRecord (ofStore s)).deployments.find? id := by
        rw [publish, deployments_foldl_putOutcome]
      _ = (s.get id).map fun d => (t.staging.deployments.find? id).getD d := by
        rw [foldl_rows (changes_deployment id) allRecords, find?_deployments_ofStore]
        cases t.staging.deployments.find? id <;> rfl
      _ = (ofStore (t.publish s)).deployments.find? id := by
        rw [find?_deployments_ofStore, Transaction.get_publish]
  · rw [publish, contains_foldl_putOutcome, participants_foldl_putRecord, (contains_ofStore _ id).2,
      (contains_ofStore _ id).2, Transaction.contains_publish]
  · have still : (records.foldl putRecord (ofStore s)).participant? id eui =
        s.participant? id eui := by
      rw [participant?, participants_foldl_putRecord]
      exact participant?_ofStore s id eui
    rw [publish, foldl_rows (changes_participant id eui) allOutcomes, still, participant?_ofStore,
      Transaction.participant?_publish]

/-! ### Histories -/

variable {h : List Stroke}

/-- **The two maps after a history** are those of the store. -/
theorem after_iff : After h m ↔ m = ofStore (Shared.after h).store := by
  constructor
  · intro kept
    induction kept with
    | nothing => rfl
    | create d devices before ih =>
      rw [ih, create_ofStore]
      rfl
    | publish before live allRecords allOutcomes ih =>
      rw [ih, publish_ofStore _ _ allRecords allOutcomes, Shared.store_publish live]
    | other before quiet ih => rw [ih, ofStore_congr (Shared.entries_of_quiet quiet)]
  · rintro rfl
    induction h with
    | nil => exact .nothing
    | cons stroke h ih =>
      cases stroke with
      | create d devices =>
        have created : ofStore (Shared.after (.create d devices :: h)).store =
            ((ofStore (Shared.after h).store).create d devices).2 := by
          rw [create_ofStore]
          rfl
        rw [created]
        exact .create d devices ih
      | act tx a =>
        by_cases publishes :
            ∃ t, (Shared.after h).sessions.find? tx = some (.working t) ∧ a = .publish
        · obtain ⟨t, live, rfl⟩ := publishes
          rw [Shared.store_publish live, ← publish_ofStore _ t (.refl _) (.refl _)]
          exact .publish ih live (.refl _) (.refl _)
        · have quiet : ∀ t, (Shared.after h).sessions.find? tx = some (.working t) → a ≠ .publish :=
            fun t live same => publishes ⟨t, live, same⟩
          rw [ofStore_congr (Shared.entries_of_quiet quiet)]
          exact .other ih quiet

end TwoMaps

end FirmwareRollout
