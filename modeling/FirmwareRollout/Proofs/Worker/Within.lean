import FirmwareRollout.Proofs.Store.Twin
import FirmwareRollout.Proofs.Worker.Settling

/-!
Tasks that keep to some rollouts. `Within ids task` says that the task makes no calls but on the
rollouts `ids` and on its savepoint, and that no stamp has a say in how it goes on. Such calls are
all that a cycle makes between its claim and its commit, the bridge aside. For a transaction that
has locked these rollouts they never wait, they lock nothing, and what they come to is in what is
stored of these rollouts and in what the transaction has written (`Alike.perform`).

Main statements: `Alike.perform`, `within_readPending`, `within_settleAll`.
-/

namespace FirmwareRollout

/-! ### Calls on some rollouts -/

/-- The call is on one of the rollouts, or on the savepoint. -/
def Call.On (ids : List DeploymentId) : Call → Prop
  | recordOutcome id .. | pendingDevices id | failPending id _ => id ∈ ids
  | update d => d.id ∈ ids
  | savepoint | rollbackToSavepoint | releaseSavepoint => True
  | _ => False

namespace Transaction

/-- Two transactions with the same locks that have written the same, stamps aside. -/
structure Alike (t t' : Transaction) : Prop where
  held : t'.held = t.held
  staging : t'.staging.unstamped = t.staging.unstamped
  saved : t'.saved.map Staging.unstamped = t.saved.map Staging.unstamped

namespace Alike

variable {s s' : Store} {t t' : Transaction} {id : DeploymentId}

theorem refl (t : Transaction) : Alike t t := ⟨rfl, rfl, rfl⟩

theorem write (h : Alike t t') {d d' : Deployment} (key : d'.id = d.id)
    (same : d'.unstamped = d.unstamped) : Alike (t.write d) (t'.write d') where
  held := h.held
  saved := h.saved
  staging := by rw [unstamped_write, unstamped_write, h.staging, key, same]

theorem stage (h : Alike t t') (id : DeploymentId) (eui : DevEui) {o o' : StagedOutcome}
    (same : o'.unstamped = o.unstamped) : Alike (t.stage id eui o) (t'.stage id eui o') where
  held := h.held
  saved := h.saved
  staging := by rw [unstamped_stage, unstamped_stage, h.staging, same]

theorem stageAll (h : Alike t t') (id : DeploymentId) (euis : List DevEui) {o o' : StagedOutcome}
    (same : o'.unstamped = o.unstamped) : Alike (t.stageAll id euis o) (t'.stageAll id euis o') := by
  unfold Transaction.stageAll
  induction euis generalizing t t' with
  | nil => exact h
  | cons eui euis ih => exact ih (h.stage id eui same)

theorem pendingDevices (h : Alike t t') (same : s'.entries.find? id = s.entries.find? id) :
    t'.pendingDevices s' id = t.pendingDevices s id := by
  have known : s'.participants id = s.participants id := by
    unfold Store.participants
    rw [same]
  unfold Transaction.pendingDevices
  rw [known]
  simp only [deviceState_of_unstamped h.staging]

/-- Both have a savepoint or neither has one. -/
theorem saved_cases (h : Alike t t') : (t.saved = none ∧ t'.saved = none) ∨
    ∃ mark mark', t.saved = some mark ∧ t'.saved = some mark' ∧
      mark'.unstamped = mark.unstamped := by
  have marks := h.saved
  cases saved : t.saved <;> cases saved' : t'.saved <;> rw [saved, saved'] at marks
  · exact .inl ⟨rfl, rfl⟩
  · cases marks
  · cases marks
  · exact .inr ⟨_, _, rfl, rfl, Option.some.inj marks⟩

/-- Both carry the call out without waiting and come to the same without stamps. They have the
locks `held` then and are alike, and the stores are as they were. -/
def Agree (held : IdSet) (s s' : Store) (c : Call)
    (a b : Option (c.Result × Store × Option Transaction)) : Prop :=
  ∃ r t r' t', a = some (r, s, some t) ∧ b = some (r', s', some t') ∧
    c.unstamped r' = c.unstamped r ∧ t.held = held ∧ Alike t t'

/-- **On rollouts that both have locked, alike transactions agree**, whatever else is stored and
whatever the clock reads. -/
theorem perform (h : Alike t t') {ids : List DeploymentId} {c : Call} (on : c.On ids)
    (same : ∀ id ∈ ids, s'.entries.find? id = s.entries.find? id)
    (held : ∀ id ∈ ids, t.held.contains id) (locked : ∀ id ∈ ids, s.locked.contains id)
    (locked' : ∀ id ∈ ids, s'.locked.contains id) (clock clock' : Instant) :
    Agree t.held s s' c (t.perform s clock c) (t'.perform s' clock' c) := by
  cases c with
  | update d =>
    have known : s'.entries.contains d.id = s.entries.contains d.id := by
      rw [Table.contains, Table.contains, same _ on]
    by_cases hd : s.entries.contains d.id
    · rw [perform_update hd (locked _ on) (held _ on), perform_update (known.trans hd)
        (locked' _ on) (h.held ▸ held _ on)]
      exact ⟨_, _, _, _, rfl, rfl, rfl, rfl, h.write rfl rfl⟩
    · have absent : ∀ {s : Store} {t : Transaction} {clock : Instant},
          ¬ s.entries.contains d.id → t.perform s clock (.update d) =
            some (.error (.deploymentNotFound (toString d.id)), s, some t) := by
        intro s t clock hd
        simp [Transaction.perform, lockState, hd]
      rw [absent hd, absent (known ▸ hd)]
      exact ⟨_, _, _, _, rfl, rfl, rfl, rfl, h⟩
  | recordOutcome id eui outcome message =>
    have known : s'.participant? id eui = s.participant? id eui := by
      rw [Store.participant?, Store.participant?, same _ on]
    simp only [Transaction.perform, Transaction.recordOutcome, known]
    cases s.participant? id eui with
    | none => exact ⟨_, _, _, _, rfl, rfl, rfl, rfl, h⟩
    | some p =>
      simp only [deviceState_of_unstamped h.staging]
      split
      · exact ⟨_, _, _, _, rfl, rfl, rfl, rfl, h⟩
      · exact ⟨_, _, _, _, rfl, rfl, rfl, rfl, h.stage id eui rfl⟩
  | pendingDevices id =>
    exact ⟨_, _, _, _, rfl, rfl, congrArg Except.ok (h.pendingDevices (same _ on)), rfl, h⟩
  | failPending id message =>
    simp only [Transaction.perform, Transaction.failPending, h.pendingDevices (same _ on)]
    refine ⟨_, _, _, _, rfl, rfl, rfl, ?_, h.stageAll id _ rfl⟩
    show (t.stageAll id _ _).held = t.held
    rw [stageAll_eq]
  | savepoint =>
    exact ⟨_, _, _, _, rfl, rfl, rfl, rfl, h.held, h.staging, congrArg some h.staging⟩
  | rollbackToSavepoint =>
    simp only [Transaction.perform]
    rcases h.saved_cases with ⟨saved, saved'⟩ | ⟨mark, mark', saved, saved', marked⟩
    · rw [saved, saved']
      exact ⟨_, _, _, _, rfl, rfl, rfl, rfl, h⟩
    · rw [saved, saved']
      exact ⟨_, _, _, _, rfl, rfl, rfl, rfl, h.held, marked, rfl⟩
  | releaseSavepoint =>
    simp only [Transaction.perform]
    rcases h.saved_cases with ⟨saved, saved'⟩ | ⟨mark, mark', saved, saved', -⟩
    · rw [saved, saved']
      exact ⟨_, _, _, _, rfl, rfl, rfl, rfl, h⟩
    · rw [saved, saved']
      exact ⟨_, _, _, _, rfl, rfl, rfl, rfl, h.held, h.staging, rfl⟩
  | _ => exact on.elim

end Alike

end Transaction

/-! ### Tasks on some rollouts -/

/-- The task makes no calls but on the rollouts and on its savepoint, and goes on after each
whatever the stamps in its result are. -/
def Within {α : Type} (ids : List DeploymentId) : Task α → Prop
  | .done _ => True
  | .step (.store c) resume => c.On ids ∧
    (∀ r r', c.unstamped r' = c.unstamped r → resume r' = resume r) ∧ ∀ r, Within ids (resume r)
  | .step _ _ => False

section Within

variable {α β : Type} {ids : List DeploymentId} {c : Call}

theorem Within.bind {task : Task α} {f : α → Task β} (h : Within ids task)
    (next : ∀ a, Within ids (f a)) : Within ids (Program.bind task f) := by
  induction task with
  | done a => exact next a
  | step op resume ih =>
    cases op with
    | store c =>
      obtain ⟨on, blind, rest⟩ := h
      exact ⟨on, fun r r' same => congrArg (Program.bind · f) (blind r r' same),
        fun r => ih r (rest r)⟩
    | _ => exact h.elim

theorem Within.pure (a : α) : Within ids (Pure.pure a : Fallible α).run := trivial

theorem Within.throw (e : Error) : Within ids (throw e : Fallible α).run := trivial

/-- One task after another, where the second is left out if the first fails. -/
theorem Within.andThen {task : Fallible α} {f : α → Fallible β} (h : Within ids task.run)
    (next : ∀ a, Within ids (f a).run) : Within ids (task >>= f).run := by
  refine Within.bind h fun r => ?_
  cases r with
  | ok a => exact next a
  | error e => exact trivial

theorem Within.outcome {task : Fallible α} (h : Within ids task.run) :
    Within ids (Task.outcome task).run := Within.bind h fun _ => trivial

/-- A call whose result bears no stamp. -/
theorem Within.store (on : c.On ids) (plain : ∀ d, c ≠ .update d) :
    Within ids (Task.store c).run := by
  refine ⟨on, fun r r' same => ?_, fun _ => trivial⟩
  have equal : r' = r := by
    cases c with
    | update d => exact absurd rfl (plain d)
    | recordOutcome | pendingDevices | failPending => exact same
    | savepoint | rollbackToSavepoint | releaseSavepoint => exact same
    | _ => exact on.elim
  rw [equal]

/-- A rollout is written, and its record is not looked at then. -/
theorem Within.update {d : Deployment} (hd : d.id ∈ ids) (b : β) :
    Within ids (do let _ ← Task.store (.update d); return b : Fallible β).run := by
  refine ⟨hd, fun r r' same => ?_, fun r => ?_⟩
  · cases r with
    | ok => cases r' with
      | ok => rfl
      | error => cases same
    | error e => cases r' with
      | ok => cases same
      | error e' =>
        obtain rfl : e' = e := Except.error.inj same
        rfl
  · cases r <;> trivial

end Within

namespace Worker

variable {ids : List DeploymentId}

theorem within_recordReports {id : DeploymentId} (hid : id ∈ ids) (reports : List DeviceReport) :
    Within ids (recordReports id reports).run := by
  induction reports with
  | nil => exact .pure 0
  | cons r rest ih =>
    refine .andThen (.outcome (.store hid (by simp))) fun result => ?_
    cases result with
    | ok => exact .andThen ih fun n => .pure (n + 1)
    | error e =>
      show Within ids (ExceptT.run (if _ then _ else _))
      split
      · exact ih
      · exact .throw e

theorem within_failOutstanding {id : DeploymentId} (hid : id ∈ ids) (message? : Option String) :
    Within ids (failOutstanding id message?).run := by
  cases message? with
  | none => exact .pure ()
  | some message => exact .andThen (.store hid (by simp)) fun _ => .pure ()

theorem within_persist (w : Worker) (now : Instant) {d : Deployment} (hd : d.id ∈ ids)
    (result : StepResult) : Within ids (w.persist now d result).run := by
  refine .andThen (within_recordReports hd _) fun recorded => ?_
  refine .andThen (.store hd (by simp)) fun pending => ?_
  exact .andThen (within_failOutstanding hd _) fun _ => .update hd _

theorem within_settle (w : Worker) (now : Instant) {d : Deployment} (hd : d.id ∈ ids)
    (result : StepResult) : Within ids (w.settle now d result).run := by
  refine .andThen (.store trivial (by simp)) fun _ => ?_
  refine .andThen (.outcome (within_persist w now hd result)) fun r => ?_
  cases r with
  | ok summary => exact .andThen (.store trivial (by simp)) fun _ => .pure summary
  | error e => exact .andThen (.store trivial (by simp)) fun _ => .pure _

/-- **What came of the steps of a batch is written within the batch.** -/
theorem within_settleAll (w : Worker) (now : Instant) {work : List (Deployment × StepResult)}
    (among : ∀ p ∈ work, p.1.id ∈ ids) : Within ids (w.settleAll now work).run := by
  induction work with
  | nil => exact .pure _
  | cons p rest ih =>
    obtain ⟨first, others⟩ := List.forall_mem_cons.1 among
    exact .andThen (within_settle w now first p.2) fun summary =>
      .andThen (ih others) fun other => .pure (summary.add other)

/-- The devices of a batch are read within the batch. -/
theorem within_readPending {claimed : List Deployment} (among : ∀ d ∈ claimed, d.id ∈ ids) :
    Within ids (readPending claimed) := by
  induction claimed with
  | nil => exact trivial
  | cons d rest ih =>
    obtain ⟨first, others⟩ := List.forall_mem_cons.1 among
    refine Within.bind (Within.store (c := .pendingDevices d.id) first (by simp)) fun pending => ?_
    refine Within.bind (ih others) fun more => ?_
    cases pending <;> exact trivial

/-! ### The tasks of a batch -/

theorem within_readPending_batch (es : List Entry) :
    Within (es.map Entry.id) (readPending (es.map (·.deployment))) := by
  refine within_readPending fun d hd => ?_
  obtain ⟨e, he, rfl⟩ := List.mem_map.1 hd
  exact List.mem_map_of_mem he

theorem within_settleAll_batch (w : Worker) (now : Instant) (es : List Entry)
    (reply : StepRequest → StepResult) : Within (es.map Entry.id)
      (w.settleAll now (es.map fun e => (e.deployment, reply e.request))).run := by
  refine within_settleAll w now fun p hp => ?_
  obtain ⟨e, he, rfl⟩ := List.mem_map.1 hp
  exact List.mem_map_of_mem he

/-- The requests for a batch whose devices have been read. -/
theorem requests_batch (es : List Entry) :
    ((es.map fun e => (e.deployment, e.pendingDevices)).map fun w =>
      StepRequest.ofDeployment w.1 w.2) = es.map Entry.request := List.map_map

/-- What comes of the requests for a batch, beside the rollouts. -/
theorem zip_replies (es : List Entry) (reply : StepRequest → StepResult) :
    ((es.map fun e => (e.deployment, e.pendingDevices)).map (·.1)).zip
      ((es.map Entry.request).map reply) = es.map fun e => (e.deployment, reply e.request) := by
  rw [List.map_map, List.map_map, List.zip_map']
  rfl

end Worker

end FirmwareRollout
