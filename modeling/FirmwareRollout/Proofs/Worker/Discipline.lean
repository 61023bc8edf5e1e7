import FirmwareRollout.Proofs.Program.Transcript
import FirmwareRollout.Worker.Cycle

/-!
The calls of a cycle in their order, whatever the store and the bridge reply to each of them. The
transcripts of a cycle are described by a grammar, with one production for each way in which a part
can go: `Recorded` for the reports of one rollout, `Written` for what is written under a savepoint,
`Settled` for the brackets of all rollouts and `Cycled` for the whole. Of some calls a failure ends
the cycle (`Call.endsCycle`); a failure of any other call of a bracket stays inside of it.

Main statement: `cycle_keeps_discipline`.
-/

namespace FirmwareRollout

open Program

/-- A call of a worker with the reply. -/
abbrev WorkerLine : Type := Line WorkerOp WorkerOp.Reply

/-- A call on the store and what it came to. -/
def stored (c : Call) (r : c.Result) : WorkerLine := ⟨.store c, r⟩

/-- Does a failure of the call end the cycle? -/
def Call.endsCycle : Call → Bool
  | .begin | .claimDue .. | .savepoint | .releaseSavepoint | .rollbackToSavepoint => true
  | _ => false

namespace Program.Line

/-- The line is a failure that ends the cycle. -/
def Breaks (l : WorkerLine) : Prop := ∃ c e, c.endsCycle ∧ l = stored c (.error e)

def IsCommit (l : WorkerLine) : Prop := ∃ r, l = stored .commit r

end Program.Line

/-- The error of a result, if it is one. -/
def failure? {α : Type} : Except Error α → Option Error
  | .ok _ => none
  | .error e => some e

namespace Worker

/-! ### The grammar of a cycle -/

/-- The call by which a report is recorded. -/
def recording (id : DeploymentId) (r : DeviceReport) : Call :=
  .recordOutcome id r.eui r.outcome r.message

/-- A report is done with: it was recorded, or is passed over. -/
def Heard : Except Error Unit → Prop
  | .ok _ => True
  | .error e => e.isAlreadyTerminal ∨ e.isNotFound

/-- Recording reports in their order, up to the first error that is not passed over, and whether
all were done with. -/
inductive Recorded (id : DeploymentId) : List DeviceReport → List WorkerLine → Bool → Prop where
  | nil : Recorded id [] [] true
  | heard {r : DeviceReport} {rest : List DeviceReport} {log : List WorkerLine} {whole : Bool}
    (reply : Except Error Unit) (heard : Heard reply) (later : Recorded id rest log whole) :
    Recorded id (r :: rest) (stored (recording id r) reply :: log) whole
  | stopped {r : DeviceReport} {rest : List DeviceReport} (reply : Except Error Unit)
    (unheard : ¬ Heard reply) : Recorded id (r :: rest) [stored (recording id r) reply] false

/-- What is written of one rollout under its savepoint, up to the first call that fails, and whether
all was written. -/
inductive Written (w : Worker) (now : Instant) (d : Deployment) (result : StepResult) :
    List WorkerLine → Bool → Prop where
  | unrecorded {log : List WorkerLine} (records : Recorded d.id result.devices log false) :
    Written w now d result log false
  | unread {log : List WorkerLine} (records : Recorded d.id result.devices log true) (e : Error) :
    Written w now d result (log ++ [stored (.pendingDevices d.id) (.error e)]) false
  | unfailed {log : List WorkerLine} (records : Recorded d.id result.devices log true)
    (euis : List DevEui) (message : String) (e : Error)
    (outstanding : (w.machine.transition d.plan d.progress result.outcome now
      euis.length).failOutstanding = some message) :
    Written w now d result (log ++ [stored (.pendingDevices d.id) (.ok euis),
      stored (.failPending d.id message) (.error e)]) false
  | updated {log : List WorkerLine} (records : Recorded d.id result.devices log true)
    (euis : List DevEui) {t : Transition}
    (ht : t = w.machine.transition d.plan d.progress result.outcome now euis.length)
    (failed : Nat) (reply : Except Error Deployment) :
    Written w now d result
      (log ++ stored (.pendingDevices d.id) (.ok euis) ::
        ((t.failOutstanding.toList.map fun message =>
            stored (.failPending d.id message) (.ok failed)) ++
          [stored (.update (t.apply d)) reply]))
      (failure? reply).isNone

/-- The call that closes a bracket. -/
def closing : Bool → Except Error Unit → WorkerLine
  | true, reply => stored .releaseSavepoint reply
  | false, reply => stored .rollbackToSavepoint reply

/-- The brackets of rollouts with the results of their steps, one after another, and the error that
ended them. -/
inductive Settled (w : Worker) (now : Instant) :
    List (Deployment × StepResult) → List WorkerLine → Option Error → Prop where
  | nil : Settled w now [] [] none
  | unopened {d : Deployment} {result : StepResult} {rest : List (Deployment × StepResult)}
    (e : Error) : Settled w now ((d, result) :: rest) [stored .savepoint (.error e)] (some e)
  | unclosed {d : Deployment} {result : StepResult} {rest : List (Deployment × StepResult)}
    {log : List WorkerLine} {whole : Bool} (written : w.Written now d result log whole)
    (e : Error) : Settled w now ((d, result) :: rest)
      (stored .savepoint (.ok ()) :: log ++ [closing whole (.error e)]) (some e)
  | closed {d : Deployment} {result : StepResult} {rest : List (Deployment × StepResult)}
    {log later : List WorkerLine} {whole : Bool} {stop : Option Error}
    (written : w.Written now d result log whole) (others : Settled w now rest later stop) :
    Settled w now ((d, result) :: rest)
      (stored .savepoint (.ok ()) :: log ++ closing whole (.ok ()) :: later) stop

/-- What was claimed, with what came of reading the devices. -/
abbrev Reads : Type := List (Deployment × Except Error (List DevEui))

/-- The rollouts whose devices could be read, with these devices. -/
def readable (reads : Reads) : List (Deployment × List DevEui) :=
  reads.filterMap fun p => p.2.toOption.map fun euis => (p.1, euis)

/-- A cycle up to the last answer of the bridge: every claimed rollout is read once, and all that
was read is asked for before the first answer is awaited. -/
def asked (w : Worker) (now : Instant) (reads : Reads) (results : List StepResult) :
    List WorkerLine :=
  let requests := (readable reads).map fun p => StepRequest.ofDeployment p.1 p.2
  stored .begin (.ok ()) :: stored (.claimDue w.batchSize now) (.ok (reads.map (·.1))) ::
    reads.map (fun p => stored (.pendingDevices p.1.id) p.2) ++
    requests.map (fun q => ⟨.send q, ()⟩) ++
    (requests.zip results).map (fun p => ⟨.receive p.1, p.2⟩)

/-- **A cycle**, call by call, and the error in which it ended. -/
inductive Cycled (w : Worker) (now : Instant) : List WorkerLine → Option Error → Prop where
  | unopened (e : Error) : Cycled w now [stored .begin (.error e)] (some e)
  | unclaimed (e : Error) : Cycled w now
      [stored .begin (.ok ()), stored (.claimDue w.batchSize now) (.error e)] (some e)
  | cut {reads : Reads} {results : List StepResult} {log : List WorkerLine} {e : Error}
    (all : results.length = (readable reads).length)
    (settled : w.Settled now (((readable reads).map (·.1)).zip results) log (some e)) :
    Cycled w now (asked w now reads results ++ log) (some e)
  | finished {reads : Reads} {results : List StepResult} {log : List WorkerLine}
    (all : results.length = (readable reads).length)
    (settled : w.Settled now (((readable reads).map (·.1)).zip results) log none)
    (reply : Except Error Unit) :
    Cycled w now (asked w now reads results ++ log ++ [stored .commit reply]) (failure? reply)

variable {w : Worker} {now : Instant}

/-! ### Every transcript is of that form -/

/-- A call on the store is one line; what follows is left out if it failed. -/
theorem transcript_store {α : Type} {c : Call} {f : c.Answer → Fallible α}
    {log : List WorkerLine} {b : Except Error α}
    (h : (Task.store c >>= f).run.Transcript log b) :
    (∃ e, b = .error e ∧ log = [stored c (.error e)]) ∨
      ∃ a rest, log = stored c (.ok a) :: rest ∧ (f a).run.Transcript rest b := by
  rcases h.andThen with ⟨e, rfl, failed⟩ | ⟨_, rest, a, rfl, one, hrest⟩
  · cases failed with
    | step rest => cases rest; exact .inl ⟨e, rfl, rfl⟩
  · cases one with
    | step more => cases more; exact .inr ⟨a, rest, rfl, hrest⟩

theorem transcript_pure {α : Type} {a : α} {log : List WorkerLine} {b : Except Error α}
    (h : (pure a : Fallible α).run.Transcript log b) : log = [] ∧ b = .ok a := by
  cases h
  exact ⟨rfl, rfl⟩

theorem transcript_throw {α : Type} {e : Error} {log : List WorkerLine} {b : Except Error α}
    (h : (throw e : Fallible α).run.Transcript log b) : log = [] ∧ b = .error e := by
  cases h
  exact ⟨rfl, rfl⟩

/-- What goes on with the outcome of a task gets whatever the task came to. -/
theorem transcript_outcome {α β : Type} {task : Fallible α} {f : Except Error α → Fallible β}
    {log : List WorkerLine} {b : Except Error β}
    (h : (Task.outcome task >>= f).run.Transcript log b) :
    ∃ first rest r, log = first ++ rest ∧ task.run.Transcript first r ∧
      (f r).run.Transcript rest b := by
  have told : ∀ {first : List WorkerLine} {r : Except Error (Except Error α)},
      (Task.outcome task).run.Transcript first r → ∃ o, r = .ok o ∧ task.run.Transcript first o := by
    intro first r hr
    obtain ⟨begun, ended, o, rfl, ho, hend⟩ := Transcript.bind hr
    cases hend
    exact ⟨_, rfl, (List.append_nil begun).symm ▸ ho⟩
  rcases h.andThen with ⟨e, -, failed⟩ | ⟨first, rest, r, rfl, hfirst, hrest⟩
  · obtain ⟨_, heq, -⟩ := told failed
    cases heq
  · obtain ⟨o, heq, ho⟩ := told hfirst
    cases heq
    exact ⟨first, rest, r, rfl, ho, hrest⟩

theorem recorded_of_transcript {id : DeploymentId} {reports : List DeviceReport}
    {log : List WorkerLine} {b : Except Error Nat}
    (h : (recordReports id reports).run.Transcript log b) :
    Recorded id reports log (failure? b).isNone := by
  induction reports generalizing log b with
  | nil =>
    obtain ⟨rfl, rfl⟩ := transcript_pure h
    exact .nil
  | cons r rest ih =>
    rw [recordReports] at h
    obtain ⟨first, later, reply, rfl, hone, hlater⟩ := transcript_outcome h
    cases hone with | step hend =>
    cases hend
    cases reply with
    | ok a =>
      rcases hlater.andThen with ⟨e, rfl, failed⟩ | ⟨more, last, n, rfl, hmore, hlast⟩
      · exact .heard _ trivial (ih failed)
      · obtain ⟨rfl, rfl⟩ := transcript_pure hlast
        rw [List.append_nil]
        have others := ih hmore
        exact .heard _ trivial others
    | error e =>
      simp only at hlater
      split at hlater
      · next skipped => exact .heard _ (by simpa [Heard] using skipped) (ih hlater)
      · next fatal =>
        obtain ⟨rfl, rfl⟩ := transcript_throw hlater
        exact .stopped _ (by simpa [Heard] using fatal)

/-- The last call on the store decides over the result. -/
theorem transcript_last {α : Type} {c : Call} {a : c.Answer → α} {log : List WorkerLine}
    {b : Except Error α}
    (h : (do let r ← Task.store c; pure (a r) : Fallible α).run.Transcript log b) :
    ∃ reply, log = [stored c reply] ∧ failure? b = failure? reply := by
  rcases transcript_store h with ⟨e, rfl, rfl⟩ | ⟨r, rest, rfl, hend⟩
  · exact ⟨_, rfl, rfl⟩
  · obtain ⟨rfl, rfl⟩ := transcript_pure hend
    exact ⟨_, rfl, rfl⟩

theorem written_of_transcript {d : Deployment} {result : StepResult} {log : List WorkerLine}
    {b : Except Error Summary} (h : (w.persist now d result).run.Transcript log b) :
    w.Written now d result log (failure? b).isNone := by
  rcases h.andThen with ⟨e, rfl, failed⟩ | ⟨first, log, n, rfl, hfirst, hread⟩
  · exact .unrecorded (recorded_of_transcript failed)
  have records : Recorded d.id result.devices first true := recorded_of_transcript hfirst
  rcases transcript_store hread with ⟨e, rfl, rfl⟩ | ⟨euis, log, rfl, hrest⟩
  · exact .unread records e
  have updated := @Written.updated w now d result _ records euis _ rfl
  have unfailed := @Written.unfailed w now d result _ records euis
  generalize w.machine.transition d.plan d.progress result.outcome now (List.length euis) = t
    at hrest updated unfailed
  cases hmessage : t.failOutstanding with
  | none =>
    simp only [hmessage] at hrest updated
    obtain ⟨reply, rfl, hreply⟩ := transcript_last hrest
    rw [hreply]
    exact updated 0 reply
  | some message =>
    simp only [hmessage] at hrest updated
    rcases hrest.andThen with ⟨e, rfl, failed⟩ | ⟨more, last, _, rfl, hmore, hlast⟩
    · obtain ⟨reply, rfl, hreply⟩ := transcript_last failed
      cases reply with
      | ok failed => cases hreply
      | error e => exact unfailed message e hmessage
    · obtain ⟨told, rfl, htold⟩ := transcript_last hmore
      obtain ⟨reply, rfl, hreply⟩ := transcript_last hlast
      cases told with
      | error e => cases htold
      | ok failed =>
        rw [hreply]
        exact updated failed reply

/-- The bracket of one rollout. -/
theorem settled_one {d : Deployment} {result : StepResult} {log : List WorkerLine}
    {b : Except Error Summary} (h : (w.settle now d result).run.Transcript log b) :
    (∃ e, b = .error e ∧ log = [stored .savepoint (.error e)]) ∨
      ∃ inner whole reply, w.Written now d result inner whole ∧
        log = stored .savepoint (.ok ()) :: inner ++ [closing whole reply] ∧
        failure? b = failure? reply := by
  rcases transcript_store h with ⟨e, rfl, rfl⟩ | ⟨_, log, rfl, hopen⟩
  · exact .inl ⟨e, rfl, rfl⟩
  obtain ⟨inner, last, r, rfl, hinner, hclose⟩ := transcript_outcome hopen
  have written := written_of_transcript hinner
  cases r with
  | ok summary =>
    obtain ⟨reply, rfl, hreply⟩ := transcript_last hclose
    exact .inr ⟨inner, true, reply, written, rfl, hreply⟩
  | error e =>
    obtain ⟨reply, rfl, hreply⟩ := transcript_last hclose
    exact .inr ⟨inner, false, reply, written, rfl, hreply⟩

theorem settled_of_transcript {work : List (Deployment × StepResult)} {log : List WorkerLine}
    {b : Except Error Summary} (h : (w.settleAll now work).run.Transcript log b) :
    w.Settled now work log (failure? b) := by
  induction work generalizing log b with
  | nil =>
    obtain ⟨rfl, rfl⟩ := transcript_pure h
    exact .nil
  | cons p rest ih =>
    obtain ⟨d, result⟩ := p
    rcases h.andThen with ⟨e, rfl, failed⟩ | ⟨first, last, summary, rfl, hfirst, hrest⟩
    · rcases settled_one failed with ⟨e, he, rfl⟩ | ⟨inner, whole, reply, written, rfl, hreply⟩
      · cases he
        exact .unopened e
      · cases reply with
        | ok _ => cases hreply
        | error e' =>
          cases hreply
          exact .unclosed written e
    · rcases settled_one hfirst with ⟨_, he, -⟩ | ⟨inner, whole, reply, written, rfl, hreply⟩
      · cases he
      cases reply with
      | error e' => cases hreply
      | ok _ =>
        have others : w.Settled now rest last (failure? b) := by
          rcases hrest.andThen with ⟨e, rfl, failed⟩ | ⟨others, last, _, rfl, hothers, hlast⟩
          · exact ih failed
          · obtain ⟨rfl, rfl⟩ := transcript_pure hlast
            rw [List.append_nil]
            have others := ih hothers
            exact others
        simpa using Settled.closed written others

theorem transcript_readPending {ds : List Deployment} {log : List WorkerLine}
    {work : List (Deployment × List DevEui)} (h : (readPending ds).Transcript log work) :
    ∃ reads : Reads, reads.map (·.1) = ds ∧ readable reads = work ∧
      log = reads.map fun p => stored (.pendingDevices p.1.id) p.2 := by
  induction ds generalizing log work with
  | nil =>
    cases h
    exact ⟨[], rfl, rfl, rfl⟩
  | cons d rest ih =>
    obtain ⟨first, later, reply, rfl, hone, hlater⟩ := Transcript.bind h
    cases hone with | step hend =>
    cases hend
    obtain ⟨others, last, work', rfl, hothers, hlast⟩ := Transcript.bind hlater
    obtain ⟨reads, rfl, rfl, rfl⟩ := ih hothers
    cases reply with
    | ok euis =>
      cases hlast
      exact ⟨(d, .ok euis) :: reads, rfl, rfl, by rw [List.append_nil]; rfl⟩
    | error e =>
      cases hlast
      exact ⟨(d, .error e) :: reads, rfl, rfl, by rw [List.append_nil]; rfl⟩

theorem transcript_sends {requests : List StepRequest} {log : List WorkerLine} {u : Unit}
    (h : Transcript (requests.forM Task.send) log u) :
    log = requests.map fun q => (⟨.send q, ()⟩ : WorkerLine) := by
  induction requests generalizing log with
  | nil => cases h; rfl
  | cons q rest ih =>
    rw [List.forM] at h
    obtain ⟨first, later, _, rfl, hone, hlater⟩ := Transcript.bind h
    cases hone with | step hend =>
    cases hend
    rw [ih hlater]
    rfl

theorem transcript_receives {requests : List StepRequest} {log : List WorkerLine}
    {results : List StepResult} (h : Transcript (requests.mapM Task.receive) log results) :
    results.length = requests.length ∧
      log = (requests.zip results).map fun p => (⟨.receive p.1, p.2⟩ : WorkerLine) := by
  induction requests generalizing log results with
  | nil => cases h; exact ⟨rfl, rfl⟩
  | cons q rest ih =>
    rw [List.mapM_cons] at h
    obtain ⟨first, later, result, rfl, hone, hlater⟩ := Transcript.bind h
    cases hone with | step hend =>
    cases hend
    obtain ⟨others, last, results', rfl, hothers, hlast⟩ := Transcript.bind hlater
    cases hlast
    obtain ⟨hlength, rfl⟩ := ih hothers
    exact ⟨congrArg (· + 1) hlength, by rw [List.append_nil]; rfl⟩

theorem cycled_of_transcript {log : List WorkerLine} {b : Except Error Summary}
    (h : (w.cycle now).run.Transcript log b) : w.Cycled now log (failure? b) := by
  rcases transcript_store h with ⟨e, rfl, rfl⟩ | ⟨⟨⟩, log, rfl, hclaim⟩
  · exact .unopened e
  rcases transcript_store hclaim with ⟨e, rfl, rfl⟩ | ⟨claimed, log, rfl, hwork⟩
  · exact .unclaimed e
  split at hwork
  · next none_due =>
    obtain ⟨reply, rfl, hreply⟩ := transcript_last hwork
    rw [hreply, List.isEmpty_iff.mp none_due]
    exact @Cycled.finished w now [] [] [] rfl .nil reply
  · obtain ⟨read, log, work, rfl, hread, hasked⟩ := hwork.liftThen
    obtain ⟨asks, log, results, rfl, hasks, hsettle⟩ := hasked.liftThen
    obtain ⟨reads, rfl, rfl, rfl⟩ := transcript_readPending hread
    obtain ⟨sends, receives, _, rfl, hsends, hreceives⟩ := Transcript.bind hasks
    obtain ⟨all, rfl⟩ := transcript_receives hreceives
    rw [transcript_sends hsends]
    rw [List.length_map] at all
    rcases hsettle.andThen with ⟨e, rfl, failed⟩ | ⟨brackets, last, summary, rfl, hbrackets, hend⟩
    · have cut := Cycled.cut all (settled_of_transcript failed)
      simp only [asked, List.cons_append, List.append_assoc] at cut ⊢
      exact cut
    · obtain ⟨reply, rfl, hreply⟩ := transcript_last hend
      have finished := Cycled.finished all (settled_of_transcript hbrackets) reply
      rw [hreply]
      simp only [asked, List.cons_append, List.append_assoc] at finished ⊢
      exact finished

/-! ### Where a cycle ends -/

/-- The line neither ends a cycle by its failure nor is a commit. -/
def Inner (l : WorkerLine) : Prop := ¬ l.Breaks ∧ ¬ l.IsCommit

theorem inner_stored {c : Call} (r : c.Result) (ends : c.endsCycle = false) (commit : c ≠ .commit) :
    Inner (stored c r) := by
  constructor
  · rintro ⟨c', e, h, heq⟩
    cases heq
    rw [ends] at h
    cases h
  · rintro ⟨r', heq⟩
    cases heq
    exact commit rfl

theorem inner_ok {c : Call} (a : c.Answer) (commit : c ≠ .commit) : Inner (stored c (.ok a)) := by
  constructor
  · rintro ⟨c', e, -, heq⟩
    cases heq
  · rintro ⟨r', heq⟩
    cases heq
    exact commit rfl

/-- What passes between a cycle and the bridge is no call on the store. -/
theorem inner_bridge {l : WorkerLine} (h : ∀ c r, l ≠ stored c r) : Inner l := by
  constructor
  · rintro ⟨c, e, -, heq⟩
    exact h _ _ heq
  · rintro ⟨r, heq⟩
    exact h _ _ heq

theorem inner_recorded {id : DeploymentId} {reports : List DeviceReport} {log : List WorkerLine}
    {whole : Bool} (h : Recorded id reports log whole) : ∀ l ∈ log, Inner l := by
  induction h with
  | nil => simp
  | heard reply _ _ ih => exact List.forall_mem_cons.mpr ⟨inner_stored _ rfl (by simp [recording]), ih⟩
  | stopped reply => exact List.forall_mem_singleton.mpr (inner_stored _ rfl (by simp [recording]))

theorem inner_written {d : Deployment} {result : StepResult} {log : List WorkerLine} {whole : Bool}
    (h : w.Written now d result log whole) : ∀ l ∈ log, Inner l := by
  have pending : ∀ r, Inner (stored (.pendingDevices d.id) r) := fun r =>
    inner_stored r rfl (by simp)
  cases h with
  | unrecorded records => exact inner_recorded records
  | unread records e =>
    exact List.forall_mem_append.mpr
      ⟨inner_recorded records, List.forall_mem_singleton.mpr (pending _)⟩
  | unfailed records euis message e =>
    refine List.forall_mem_append.mpr ⟨inner_recorded records, List.forall_mem_cons.mpr
      ⟨pending _, List.forall_mem_singleton.mpr (inner_stored _ rfl (by simp))⟩⟩
  | updated records euis ht failed reply =>
    refine List.forall_mem_append.mpr ⟨inner_recorded records, List.forall_mem_cons.mpr
      ⟨pending _, List.forall_mem_append.mpr ⟨?_,
        List.forall_mem_singleton.mpr (inner_stored _ rfl (by simp))⟩⟩⟩
    intro l hl
    obtain ⟨message, -, rfl⟩ := List.mem_map.mp hl
    exact inner_stored _ rfl (by simp)

theorem inner_closed (whole : Bool) : Inner (closing whole (.ok ())) := by
  cases whole
  · exact inner_ok (c := .rollbackToSavepoint) () (by simp)
  · exact inner_ok (c := .releaseSavepoint) () (by simp)

theorem breaks_closing (whole : Bool) (e : Error) : (closing whole (.error e)).Breaks := by
  cases whole
  · exact ⟨.rollbackToSavepoint, e, rfl, rfl⟩
  · exact ⟨.releaseSavepoint, e, rfl, rfl⟩

/-- The brackets are cut off where a call breaks the cycle, and only there. -/
theorem settled_ends {work : List (Deployment × StepResult)} {log : List WorkerLine}
    {stop : Option Error} (h : w.Settled now work log stop) :
    (stop = none ∧ ∀ l ∈ log, Inner l) ∨
      (stop ≠ none ∧ ∃ inner last, log = inner ++ [last] ∧ (∀ l ∈ inner, Inner l) ∧
        last.Breaks) := by
  have opened : Inner (stored .savepoint (.ok ())) := inner_ok (c := .savepoint) () (by simp)
  induction h with
  | nil => exact .inl ⟨rfl, by simp⟩
  | unopened e => exact .inr ⟨by simp, [], _, rfl, by simp, ⟨.savepoint, e, rfl, rfl⟩⟩
  | @unclosed d result rest log whole written e =>
    exact .inr ⟨by simp, stored .savepoint (.ok ()) :: log, _, rfl,
      List.forall_mem_cons.mpr ⟨opened, inner_written written⟩, breaks_closing whole e⟩
  | @closed d result rest log later whole stop written others ih =>
    have bracket : ∀ l ∈ stored .savepoint (.ok ()) :: log ++ [closing whole (.ok ())], Inner l :=
      List.forall_mem_append.mpr ⟨List.forall_mem_cons.mpr ⟨opened, inner_written written⟩,
        List.forall_mem_singleton.mpr (inner_closed whole)⟩
    rw [List.append_cons]
    rcases ih with ⟨rfl, quiet⟩ | ⟨stopped, inner, last, rfl, quiet, breaks⟩
    · exact .inl ⟨rfl, List.forall_mem_append.mpr ⟨bracket, quiet⟩⟩
    · exact .inr ⟨stopped, _, last, (List.append_assoc ..).symm,
        List.forall_mem_append.mpr ⟨bracket, quiet⟩, breaks⟩

theorem inner_asked (reads : Reads) (results : List StepResult) :
    ∀ l ∈ w.asked now reads results, Inner l := by
  have begun : Inner (stored .begin (.ok ())) := inner_ok (c := .begin) () (by simp)
  have claimed : Inner (stored (.claimDue w.batchSize now) (.ok (reads.map (·.1)))) :=
    inner_ok (c := .claimDue ..) _ (by simp)
  have read : ∀ l ∈ reads.map (fun p => stored (.pendingDevices p.1.id) p.2), Inner l := by
    intro l hl
    obtain ⟨p, -, rfl⟩ := List.mem_map.mp hl
    exact inner_stored _ rfl (by simp)
  have opening := List.forall_mem_cons.mpr ⟨begun, List.forall_mem_cons.mpr ⟨claimed, read⟩⟩
  intro l hl
  rcases List.mem_append.mp hl with hl | hl
  · rcases List.mem_append.mp hl with hl | hl
    · exact opening l hl
    · obtain ⟨q, -, rfl⟩ := List.mem_map.mp hl
      exact inner_bridge fun _ _ heq => by cases heq
  · obtain ⟨p, -, rfl⟩ := List.mem_map.mp hl
    exact inner_bridge fun _ _ heq => by cases heq

/-- The last call of a cycle is the one that commits or breaks it; none before it does either. -/
theorem cycled_ends {log : List WorkerLine} {stop : Option Error} (h : w.Cycled now log stop) :
    ∃ inner last, log = inner ++ [last] ∧ (∀ l ∈ inner, Inner l) ∧
      (last.Breaks ∨ last.IsCommit) := by
  cases h with
  | unopened e => exact ⟨[], _, rfl, by simp, .inl ⟨.begin, e, rfl, rfl⟩⟩
  | unclaimed e =>
    exact ⟨[_], _, rfl, List.forall_mem_singleton.mpr (inner_ok (c := .begin) () (by simp)),
      .inl ⟨.claimDue .., e, rfl, rfl⟩⟩
  | @cut reads results log e all settled =>
    rcases settled_ends settled with ⟨h, -⟩ | ⟨-, inner, last, rfl, quiet, breaks⟩
    · cases h
    · exact ⟨_, last, (List.append_assoc ..).symm,
        List.forall_mem_append.mpr ⟨inner_asked reads results, quiet⟩, .inl breaks⟩
  | @finished reads results log all settled reply =>
    rcases settled_ends settled with ⟨-, quiet⟩ | ⟨h, -⟩
    · exact ⟨_, _, rfl, List.forall_mem_append.mpr ⟨inner_asked reads results, quiet⟩,
        .inr ⟨reply, rfl⟩⟩
    · exact absurd rfl h

theorem not_breaks_of_isCommit {l : WorkerLine} (h : l.IsCommit) : ¬ l.Breaks := by
  rintro ⟨c, e, ends, rfl⟩
  obtain ⟨r, heq⟩ := h
  cases heq
  cases ends

/-- **The discipline of a cycle.** Whatever the store and the bridge reply, the calls of a cycle come
in the order of the grammar; it commits if and only if no call has broken it, and the call that
breaks it is its last. -/
theorem cycle_keeps_discipline {σ : Type} (answer : (op : WorkerOp) → σ → op.Reply × σ) (w : Worker)
    (now : Instant) (s : σ) :
    let ran := (w.cycle now).run.record answer s
    w.Cycled now ran.1 (failure? ran.2.1) ∧
      ((∃ l ∈ ran.1, l.IsCommit) ↔ ∀ l ∈ ran.1, ¬ l.Breaks) ∧
      ∀ before l after, ran.1 = before ++ l :: after → l.Breaks → after = [] := by
  intro ran
  have cycled : w.Cycled now ran.1 (failure? ran.2.1) :=
    cycled_of_transcript (transcript_record answer _ s)
  obtain ⟨inner, last, hlog, quiet, ends⟩ := cycled_ends cycled
  have atEnd : last ∈ ran.1 := by simp [hlog]
  have only : ∀ l ∈ ran.1, l.Breaks ∨ l.IsCommit → l = last := by
    intro l hl h
    rw [hlog, List.mem_append, List.mem_singleton] at hl
    exact hl.resolve_left fun hl => h.elim (quiet l hl).1 (quiet l hl).2
  refine ⟨cycled, ⟨?_, fun unbroken => ?_⟩, ?_⟩
  · rintro ⟨l, hl, commit⟩ l' hl' breaks
    obtain rfl := only l hl (.inr commit)
    obtain rfl := only l' hl' (.inl breaks)
    exact not_breaks_of_isCommit commit breaks
  · exact ⟨last, atEnd, ends.resolve_left (unbroken last atEnd)⟩
  · intro before l after heq breaks
    rcases List.eq_nil_or_concat after with rfl | ⟨more, x, rfl⟩
    · rfl
    · have split : inner ++ [last] = (before ++ l :: more) ++ [x] := by simpa [hlog] using heq
      have cut : inner = before ++ l :: more := List.append_inj_left' split rfl
      exact absurd breaks (quiet l (by simp [cut])).1

end Worker

end FirmwareRollout
