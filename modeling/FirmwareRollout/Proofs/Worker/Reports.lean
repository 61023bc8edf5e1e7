import FirmwareRollout.Proofs.Worker.Crew
import FirmwareRollout.Proofs.Worker.Settling

/-!
Reports on devices, taken over one after another in a transaction that is at work. What the
transaction sees of a device is `Transaction.seen`: an outcome that it has recorded lies over the
record that is stored, and both layers count when a report is judged. So the first report on a
device that the transaction sees pending is recorded, and every later one finds it settled; reports
on strangers and on devices with an outcome are refused, and the loop goes on.

Main statement: `first_report_wins`.
-/

namespace FirmwareRollout

/-! ### What a transaction sees of a device -/

namespace Transaction

variable {s : Store} {t : Transaction} {id : DeploymentId} {eui : DevEui} {p : Participant}

/-- A device as the transaction sees it: with the outcome that it has recorded, if there is one. -/
def seen (t : Transaction) (p : Participant) : Participant :=
  match t.staging.outcomes.find? (p.deployment, p.eui) with
  | some o => p.close o.state o.message o.stamp
  | none => p

theorem state_seen (t : Transaction) (p : Participant) : (t.seen p).state = t.deviceState p := by
  unfold seen deviceState
  cases t.staging.outcomes.find? (p.deployment, p.eui) <;> rfl

/-- The device is enrolled in the rollout, and the transaction sees it pending. -/
def Awaits (t : Transaction) (s : Store) (id : DeploymentId) (eui : DevEui) : Prop :=
  ∃ p, s.participant? id eui = some p ∧ (t.seen p).state = .pending

theorem mem_pendingDevices_iff_awaits (hs : s.Keyed) :
    eui ∈ t.pendingDevices s id ↔ t.Awaits s id eui := by
  unfold Awaits
  simp only [state_seen]
  exact mem_pendingDevices_iff_participant? hs

/-- Only the stamps of reports on pending devices count. -/
theorem hear_congr (hs : s.Keyed) {stamps stamps' : Stamps} {reports : List DeviceReport}
    (same : ∀ r ∈ reports, r.eui ∈ t.pendingDevices s id → stamps.heard r = stamps'.heard r) :
    t.hear s stamps id reports = t.hear s stamps' id reports := by
  induction reports generalizing t with
  | nil => rfl
  | cons r rest ih =>
    obtain ⟨first, others⟩ := List.forall_mem_cons.1 same
    rw [hear, hear]
    by_cases pending : r.eui ∈ t.pendingDevices s id
    · rw [if_pos pending, if_pos pending, first pending]
      refine ih fun q hq later => others q hq ?_
      rw [pendingDevices_stage hs t id r.eui (DeviceState.isTerminal_outcome _)] at later
      exact (List.mem_filter.1 later).1
    · rw [if_neg pending, if_neg pending]
      exact ih others

/-! ### What reports come to -/

/-- What a transaction `t` has come to when it has taken over reports on a rollout: it has recorded
an outcome for the devices `heard`. -/
structure HearsFirst (s : Store) (id : DeploymentId) (reports : List DeviceReport)
    (t t' : Transaction) (heard : List DevEui) : Prop where
  nodup : heard.Nodup
  mem_iff : ∀ eui, eui ∈ heard ↔ eui ∈ reports.map (·.eui) ∧ t.Awaits s id eui
  /-- A device is seen as its first report says. -/
  first : ∀ eui ∈ heard, ∀ p, s.participant? id eui = some p →
    ∃ before r rest, reports = before ++ r :: rest ∧ r.eui = eui ∧ eui ∉ before.map (·.eui) ∧
      (t'.seen p).state = r.outcome.state ∧ (t'.seen p).errorMessage = r.message
  other : ∀ id' eui p, s.participant? id' eui = some p → ¬(id' = id ∧ eui ∈ heard) →
    t'.seen p = t.seen p
  pending : t'.pendingDevices s id = (t.pendingDevices s id).filter (· ∉ heard)
  ascending : (t'.pendingDevices s id).Pairwise fun a b => rank a < rank b
  deployments : t'.staging.deployments = t.staging.deployments
  held : t'.held = t.held
  saved : t'.saved = t.saved

theorem hearsFirst_hear (hs : s.Keyed) (stamps : Stamps) (id : DeploymentId)
    (reports : List DeviceReport) (t : Transaction) :
    HearsFirst s id reports t (t.hear s stamps id reports)
      ((t.pendingDevices s id).filter fun eui => eui ∈ reports.map (·.eui)) where
  nodup := (nodup_pendingDevices hs t id).filter _
  mem_iff eui := by
    rw [List.mem_filter, mem_pendingDevices_iff_awaits hs, decide_eq_true_eq, and_comm]
  first eui listed p hp := by
    obtain ⟨pending, reported⟩ := List.mem_filter.1 listed
    obtain ⟨q, hq, same⟩ := List.mem_map.1 (of_decide_eq_true reported)
    have some_report : (reports.find? fun r => r.eui = eui).isSome :=
      List.find?_isSome.2 ⟨q, hq, decide_eq_true same⟩
    obtain ⟨r, found⟩ := Option.isSome_iff_exists.1 some_report
    obtain ⟨own, before, rest, parts, unreported⟩ := List.find?_eq_some_iff_append.1 found
    refine ⟨before, r, rest, parts, of_decide_eq_true own, ?_, ?_⟩
    · intro earlier
      obtain ⟨b, hb, same⟩ := List.mem_map.1 earlier
      simpa [same] using unreported b hb
    · obtain ⟨hid, heui⟩ := hs.of_participant? hp
      unfold seen
      rw [hid, heui, find?_outcomes_hear hs, if_pos ⟨rfl, pending⟩, found]
      exact ⟨rfl, rfl⟩
  other id' eui p hp unheard := by
    obtain ⟨hid, heui⟩ := hs.of_participant? hp
    unfold seen
    rw [hid, heui, find?_outcomes_hear hs]
    by_cases pending : id' = id ∧ eui ∈ t.pendingDevices s id
    · have unreported : reports.find? (fun r => r.eui = eui) = none := by
        refine List.find?_eq_none.2 fun r hr same => unheard ⟨pending.1, ?_⟩
        exact List.mem_filter.2 ⟨pending.2, decide_eq_true
          (List.mem_map.2 ⟨r, hr, of_decide_eq_true same⟩)⟩
      rw [if_pos pending, unreported]
      rfl
    · rw [if_neg pending]
      rfl
  pending := by
    rw [pendingDevices_hear hs]
    refine List.filter_congr fun eui listed => ?_
    simp [List.mem_filter, listed]
  ascending := pairwise_pendingDevices hs _ id
  deployments := (hear_keeps s stamps id reports t).2.2
  held := (hear_keeps s stamps id reports t).1
  saved := (hear_keeps s stamps id reports t).2.1

end Transaction

/-! ### Calls of a transaction that is alone at work -/

namespace Task

variable {σ α : Type} {answer : (op : WorkerOp) → σ → Option (op.Reply × σ)} {s s' : σ}

theorem eval_store {c : Call} {r : c.Result} (replied : answer (.store c) s = some (r, s')) :
    (Task.store c).run.eval answer s = some (r, s') := by
  show (answer (.store c) s).bind _ = _
  rw [replied]
  rfl

theorem eval_outcome {task : Fallible α} {r : Except Error α}
    (ended : task.run.eval answer s = some (r, s')) :
    (Task.outcome task).run.eval answer s = some (.ok r, s') :=
  Program.eval_bind_of_eval ended

end Task

namespace Shared

/-- Replies to a call of the transaction `tx` after a history, if it is carried out at one stroke,
and adds the stroke to the history. What the clock reads may be anything at every stroke. -/
def reply (tx : TxId) (clock : List Stroke → Instant) :
    (op : WorkerOp) → List Stroke → Option (op.Reply × List Stroke)
  | .store c, h =>
    match Session.request ((after h).sessions.find? tx) (after h).store (clock h) c with
    | (some a, some r) => some (r, .act tx a :: h)
    | _ => none
  | .send _, h => some ((), h)
  | .receive _, _ => none

variable {h : List Stroke} {tx : TxId} {t : Transaction} {id : DeploymentId} {eui : DevEui}

theorem reply_recordOutcome (live : (after h).sessions.find? tx = some (.working t))
    (clock : List Stroke → Instant) (id : DeploymentId) (r : DeviceReport) :
    let recorded := Transaction.recordOutcome (after h).store t (clock h).floorMicros id r.eui
      r.outcome r.message
    ∃ h', reply tx clock (.store (.recordOutcome id r.eui r.outcome r.message)) h =
        some (recorded.1, h') ∧
      after h' = (after h).put tx (some (.working recorded.2), (after h).store) := by
  refine ⟨.act tx (.call (clock h) (.recordOutcome id r.eui r.outcome r.message)) :: h, ?_, ?_⟩
  · simp only [reply, live, Session.request, Session.answer, Transaction.perform, Option.map_some]
    rfl
  · show (after h).step (.act tx (.call (clock h) _)) = _
    simp only [step, live, Session.act, Transaction.perform]

/-- **Reports are taken over as `Transaction.hear` has it**, and as many are recorded as pending
devices are reported. -/
theorem eval_recordReports (live : (after h).sessions.find? tx = some (.working t))
    (clock : List Stroke → Instant) (id : DeploymentId) (reports : List DeviceReport) :
    ∃ h' stamps, (Worker.recordReports id reports).run.eval (reply tx clock) h =
        some (.ok (countReported reports (t.pendingDevices (after h).store id)), h') ∧
      after h' = (after h).put tx
        (some (.working (t.hear (after h).store stamps id reports)), (after h).store) := by
  induction reports generalizing h t with
  | nil =>
    refine ⟨h, ⟨fun _ => .epoch, fun _ => .epoch, fun _ => .epoch⟩, ?_, ?_⟩
    · have none : countReported [] (t.pendingDevices (after h).store id) = 0 := by
        simp [countReported]
      rw [none]
      rfl
    · rw [Transaction.hear, ← live]
      exact ((after h).put_self tx).symm
  | cons r rest ih =>
    have hs : (after h).store.Keyed := (sound_after h).keyed
    obtain ⟨h₁, replied, first⟩ := reply_recordOutcome live clock id r
    have called := Task.eval_outcome (Task.eval_store replied)
    rw [Worker.recordReports]
    by_cases pending : r.eui ∈ t.pendingDevices (after h).store id
    · let t₁ := t.stage id r.eui ⟨r.outcome.state, r.message, (clock h).floorMicros⟩
      rw [Transaction.recordOutcome_of_mem hs pending] at called first
      have live₁ : (after h₁).sessions.find? tx = some (.working t₁) := by
        rw [first, find?_put_self]
      have store₁ : (after h₁).store = (after h).store := by
        rw [first, store_put]
      obtain ⟨h', stamps, others, last⟩ := ih live₁
      rw [store₁] at others last
      let stamps' : Stamps :=
        { stamps with heard q := if q.eui = r.eui then (clock h).floorMicros else stamps.heard q }
      have less : t₁.pendingDevices (after h).store id =
          (t.pendingDevices (after h).store id).filter (· ≠ r.eui) :=
        Transaction.pendingDevices_stage hs t id r.eui (DeviceState.isTerminal_outcome _)
      -- A later report on this device finds it settled, so its stamp does not count.
      have heard : t.hear (after h).store stamps' id (r :: rest) =
          t₁.hear (after h).store stamps id rest := by
        have own : stamps'.heard r = (clock h).floorMicros := if_pos rfl
        rw [Transaction.hear, if_pos pending, own]
        refine Transaction.hear_congr hs fun q _ later => if_neg ?_
        rw [less] at later
        simpa using (List.mem_filter.1 later).2
      refine ⟨h', stamps', ?_, ?_⟩
      · rw [Program.eval_bind_ok called,
          countReported_cons_of_mem (Transaction.nodup_pendingDevices hs t id) pending, ← less]
        exact Program.eval_bind_ok others
      · rw [heard, last, first, put_put]
    · obtain ⟨error, refused, passed⟩ := Transaction.recordOutcome_of_not_mem hs pending
        (clock h).floorMicros r.outcome r.message
      rw [refused] at called first
      rw [← live, put_self] at first
      have live₁ : (after h₁).sessions.find? tx = some (.working t) := by
        rw [first, live]
      obtain ⟨h', stamps, others, last⟩ := ih live₁
      rw [first] at others last
      refine ⟨h', stamps, ?_, ?_⟩
      · rw [Program.eval_bind_ok called, countReported_cons_of_not_mem pending]
        show Program.eval _ (ExceptT.run (if _ then _ else _)) _ = _
        rw [if_pos passed]
        exact others
      · rw [last, Transaction.hear, if_neg pending]

/-! ### The first report -/

/-- **The first report wins.** Whatever reports on whatever rollout a transaction takes over, it
records one outcome for each device that is reported and that it sees pending, as the first report
on the device has it, and tells how many these were. All other devices are seen as before. -/
theorem first_report_wins (h : List Stroke) (tx : TxId) (t : Transaction)
    (live : (after h).sessions.find? tx = some (.working t)) (clock : List Stroke → Instant)
    (id : DeploymentId) (reports : List DeviceReport) :
    ∃ h' t' heard,
      (Worker.recordReports id reports).run.eval (reply tx clock) h =
        some (.ok heard.length, h') ∧
      after h' = (after h).put tx (some (.working t'), (after h).store) ∧
      Transaction.HearsFirst (after h).store id reports t t' heard := by
  obtain ⟨h', stamps, ended, last⟩ := eval_recordReports live clock id reports
  have hs : (after h).store.Keyed := (sound_after h).keyed
  exact ⟨h', _, _, ended, last, Transaction.hearsFirst_hear hs stamps id reports t⟩

/-- Three devices, the first of which has an outcome that is not committed. -/
def partlyHeard : List Stroke :=
  [.act 1 (.call .epoch (.recordOutcome Deployment.sample.id ⟨Vector.replicate 8 0⟩ .success "")),
    .act 1 .begin,
    .create .sample [⟨⟨Vector.replicate 8 2⟩, "c"⟩, ⟨⟨Vector.replicate 8 0⟩, "a"⟩,
      ⟨⟨Vector.replicate 8 1⟩, "b"⟩]]

/-- Reports on a device twice, on one that has an outcome, on a stranger and on another device. -/
def mixedReports : List DeviceReport :=
  [⟨⟨Vector.replicate 8 1⟩, .error, "lost"⟩, ⟨⟨Vector.replicate 8 1⟩, .success, ""⟩,
    ⟨⟨Vector.replicate 8 0⟩, .error, "late"⟩, ⟨⟨Vector.replicate 8 9⟩, .success, ""⟩,
    ⟨⟨Vector.replicate 8 2⟩, .success, ""⟩]

theorem two_heard_of_partlyHeard :
    let t := Transaction.fresh.stage Deployment.sample.id ⟨Vector.replicate 8 0⟩
      ⟨.success, "", .epoch⟩
    (after partlyHeard).sessions.find? 1 = some (.working t) ∧ ∃ h' t' heard,
      (Worker.recordReports Deployment.sample.id mixedReports).run.eval (reply 1 fun _ => .epoch)
        partlyHeard = some (.ok 2, h') ∧
      heard.Perm [⟨Vector.replicate 8 1⟩, ⟨Vector.replicate 8 2⟩] ∧
      Transaction.HearsFirst (after partlyHeard).store Deployment.sample.id mixedReports t t'
        heard := by
  intro t
  have live : (after partlyHeard).sessions.find? 1 = some (.working t) := by decide +kernel
  have pending : t.pendingDevices (after partlyHeard).store Deployment.sample.id =
      [⟨Vector.replicate 8 1⟩, ⟨Vector.replicate 8 2⟩] := by decide +kernel
  obtain ⟨h', t', heard, ended, -, hears⟩ :=
    first_report_wins partlyHeard 1 t live (fun _ => .epoch) Deployment.sample.id mixedReports
  have listed : heard.Perm [⟨Vector.replicate 8 1⟩, ⟨Vector.replicate 8 2⟩] := by
    refine (List.perm_ext_iff_of_nodup hears.nodup (by decide)).2 fun eui => ?_
    rw [hears.mem_iff, ← Transaction.mem_pendingDevices_iff_awaits (sound_after _).keyed, pending]
    refine and_iff_right_of_imp fun one => ?_
    have reported : [⟨Vector.replicate 8 1⟩, ⟨Vector.replicate 8 2⟩] ⊆
        mixedReports.map (·.eui) := by decide
    exact reported one
  refine ⟨live, h', t', heard, ?_, listed, hears⟩
  rw [ended, listed.length_eq]
  rfl

end Shared

end FirmwareRollout
