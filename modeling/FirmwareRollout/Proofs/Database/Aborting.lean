import FirmwareRollout.Database.Session
import FirmwareRollout.Proofs.Program.Reaches
import FirmwareRollout.Worker.Cycle

/-!
A database on which a statement that fails aborts its transaction. From then on every statement
fails, until the transaction goes back to a savepoint from before the failure; the commit of an
aborted transaction keeps nothing. What statements that work do to the data is left open (`Engine`),
and so is which statements fail (`Strikes`).

`Follows` compares a task on such a database with the task on the bare data: it comes to the same,
or one of its statements is struck, and then it ends in that error with the transaction aborted.
`Unhindered` is said of operations of which nothing is ever struck.

Main statements: the rules `Follows.bind`, `Follows.catching`, `follows_execute`, and
`follows_persist`, `unhindered_claimDue`.
-/

namespace FirmwareRollout.Database

/-- What statements that work answer and do to the data. -/
abbrev Engine (σ : Type) : Type := (s : Statement) → σ → s.Answer × σ

/-- A connection with a transaction: the data that is committed, the data that the transaction sees,
and that at its savepoints, the latest first. -/
structure Connection (σ : Type) where
  committed : σ
  current : σ
  savepoints : List σ
  aborted : Bool
  /-- The rollouts on which a statement was struck. -/
  struck : List DeploymentId
deriving DecidableEq

/-- Which statements fail, by what they are and what they meet. Where the data counts statements,
this can be any one of them. -/
abbrev Strikes (σ : Type) : Type := Connection σ → Statement → Bool

/-- The rollout that a statement reads or writes, if it is about one. -/
def Statement.deployment? : Statement → Option DeploymentId
  | selectPendingDevices id | selectDeviceState id _ | updateDevice id .. | failDevices id .. => some id
  | updateDeployment row => row.id
  | _ => none

/-- Is the statement about transactions and savepoints and not about data? -/
def Statement.isControl : Statement → Bool
  | begin | commit | rollback | savepoint | rollbackToSavepoint | releaseSavepoint => true
  | _ => false

theorem Statement.isControl_of_about {s : Statement} {id : DeploymentId}
    (about : s.deployment? = some id) : s.isControl = false := by
  cases s with
  | begin | commit | rollback | savepoint | rollbackToSavepoint | releaseSavepoint => cases about
  | _ => rfl

variable {σ : Type}

namespace Connection

/-- A connection whose transaction has just begun. -/
def opened (x : σ) : Connection σ := ⟨x, x, [], false, []⟩

/-- The error that a statement fails with. -/
def failure : Error := .database "statement failed"

/-- A statement that is accepted. -/
def accept (exec : Engine σ) (c : Connection σ) : (s : Statement) → s.Result × Connection σ
  | .savepoint => (.ok (), { c with savepoints := c.current :: c.savepoints })
  | .releaseSavepoint =>
    match c.savepoints with
    | _ :: rest => (.ok (), { c with savepoints := rest })
    | [] => (.error failure, { c with aborted := true })
  | s => (.ok (exec s c.current).1, { c with current := (exec s c.current).2 })

/-- What becomes of a statement. -/
def handle (exec : Engine σ) (strikes : Strikes σ) (c : Connection σ) :
    (s : Statement) → s.Result × Connection σ
  | .begin | .rollback => (.ok (), { opened c.committed with struck := c.struck })
  | .commit =>
    (.ok (), { opened (if c.aborted then c.committed else c.current) with struck := c.struck })
  | .rollbackToSavepoint =>
    match c.savepoints with
    | x :: _ => (.ok (), { c with current := x, aborted := false })
    | [] => (.error failure, { c with aborted := true })
  | s =>
    if c.aborted then (.error failure, c)
    else if strikes c s then
      (.error failure, { c with aborted := true, struck := c.struck ++ s.deployment?.toList })
    else c.accept exec s

end Connection

/-- Carries out the moves of an operation. -/
def serve {τ : Type} (answer : (s : Statement) → τ → s.Result × τ) :
    (m : Move) → τ → Option (m.Reply × τ)
  | .execute s, t => some (answer s t)
  | .outOfTime, _ => none

/-- What a worker meets: what the clock reads at each of its calls, and what it learns from a
request. -/
structure Setting where
  clock : Call → Instant
  reply : StepRequest → StepResult

/-- Replies to a worker whose store is a database. -/
def attend {τ : Type} (env : Setting) (answer : (s : Statement) → τ → s.Result × τ) :
    (op : WorkerOp) → τ → Option (op.Reply × τ)
  | .store c, t => (perform (env.clock c) c).run.eval (serve answer) t
  | .send _, t => some ((), t)
  | .receive q, t => some (env.reply q, t)

/-- Statements on the bare data. -/
def plainly (exec : Engine σ) (s : Statement) (x : σ) : s.Result × σ := (.ok (exec s x).1, (exec s x).2)

/-- Statements on a connection. -/
def guarded (exec : Engine σ) (strikes : Strikes σ) (s : Statement) (c : Connection σ) :
    s.Result × Connection σ := c.handle exec strikes s

/-! ### Tasks on a connection and on the bare data -/

section Follows

variable {Op : Type} {Reply : Op → Type} {α β : Type} {exec : Engine σ} {strikes : Strikes σ}
  {upon : (op : Op) → Connection σ → Option (Reply op × Connection σ)}
  {bare : (op : Op) → σ → Option (Reply op × σ)} {id : DeploymentId} {env : Setting}

/-- How a task on a connection ends, beside what it comes to on the bare data. -/
inductive Tracks (strikes : Strikes σ) (id : DeploymentId) (c : Connection σ)
    (run : Option (Except Error α × Connection σ)) (plain : Option (Except Error α × σ)) : Prop
  | along (r : Except Error α) (y : σ) (same : plain = some (r, y))
    (ends : run = some (r, { c with current := y }))
  | struck (y : σ) (s : Statement) (strike : strikes { c with current := y } s)
    (about : s.deployment? = some id)
    (ends : run = some (.error Connection.failure,
      { c with current := y, aborted := true, struck := c.struck ++ [id] }))

/-- **A task follows** what it does on the bare data, unless one of its statements is struck, which
are all about one rollout. -/
def Follows (strikes : Strikes σ) (upon : (op : Op) → Connection σ → Option (Reply op × Connection σ))
    (bare : (op : Op) → σ → Option (Reply op × σ)) (id : DeploymentId)
    (task : ExceptT Error (Program Op Reply) α) : Prop :=
  ∀ c : Connection σ, c.aborted = false →
    Tracks strikes id c (task.run.eval upon c) (task.run.eval bare c.current)

theorem Follows.result (r : Except Error α) :
    Follows strikes upon bare id (.mk (.done r)) :=
  fun c _ => .along r c.current rfl rfl

theorem Follows.pure (a : α) : Follows strikes upon bare id (Pure.pure a) := .result (.ok a)

theorem Follows.throw (e : Error) : Follows (α := α) strikes upon bare id (MonadExcept.throw e) :=
  .result (.error e)

/-- A task after whose struck statements nothing happens, and whose other results are gone on
with. -/
theorem Follows.catching {task : ExceptT Error (Program Op Reply) α}
    {f : Except Error α → Program Op Reply (Except Error β)} (h : Follows strikes upon bare id task)
    (next : ∀ r, Follows strikes upon bare id (.mk (f r)))
    (rethrow : f (.error Connection.failure) = .done (.error Connection.failure)) :
    Follows strikes upon bare id (.mk (task.run.bind f)) := by
  intro c healthy
  show Tracks strikes id c (Program.eval upon (task.run.bind f) c)
    (Program.eval bare (task.run.bind f) c.current)
  rw [Program.eval_bind, Program.eval_bind]
  cases h c healthy with
  | along r y same ends =>
    rw [same, ends]
    cases next r { c with current := y } healthy with
    | along r' y' same' ends' => exact .along r' y' same' ends'
    | struck y' s strike about ends' => exact .struck y' s strike about ends'
  | struck y s strike about ends =>
    refine .struck y s strike about ?_
    rw [ends]
    show Program.eval upon (f (.error Connection.failure)) _ = _
    rw [rethrow]
    rfl

theorem Follows.bind {task : ExceptT Error (Program Op Reply) α}
    {f : α → ExceptT Error (Program Op Reply) β} (h : Follows strikes upon bare id task)
    (next : ∀ a, Follows strikes upon bare id (f a)) :
    Follows strikes upon bare id (task >>= f) := by
  refine h.catching (fun r => ?_) rfl
  cases r with
  | ok a => exact next a
  | error e => exact .result (.error e)

/-! ### Operations -/

theorem Connection.handle_data (c : Connection σ) {s : Statement} (data : s.isControl = false) :
    c.handle exec strikes s =
      if c.aborted then (.error failure, c)
      else if strikes c s then
        (.error failure, { c with aborted := true, struck := c.struck ++ s.deployment?.toList })
      else (.ok (exec s c.current).1, { c with current := (exec s c.current).2 }) := by
  cases s with
  | begin | commit | rollback | savepoint | rollbackToSavepoint | releaseSavepoint => cases data
  | _ => rfl

theorem follows_execute {s : Statement} (about : s.deployment? = some id) :
    Follows strikes (serve (guarded exec strikes)) (serve (plainly exec)) id (execute s) := by
  intro c healthy
  have working : ¬c.aborted = true := by simp [healthy]
  have handled : c.handle exec strikes s = _ := c.handle_data (Statement.isControl_of_about about)
  rw [about, if_neg working] at handled
  cases strike : strikes c s with
  | true =>
    rw [if_pos strike] at handled
    exact .struck c.current s strike about (congrArg some handled)
  | false =>
    rw [strike, if_neg Bool.false_ne_true] at handled
    exact .along (.ok (exec s c.current).1) (exec s c.current).2 rfl (congrArg some handled)

/-- What is read from rows is gone on with, if it can be read. -/
theorem follows_reading {r : Except Error α} {f : α → Operation β}
    (next : ∀ a, r = .ok a →
      Follows strikes (serve (guarded exec strikes)) (serve (plainly exec)) id (f a)) :
    Follows strikes (serve (guarded exec strikes)) (serve (plainly exec)) id (reading r >>= f) := by
  cases r with
  | ok a => exact next a rfl
  | error e => exact .result (.error e)

theorem follows_pendingDevices (id : DeploymentId) :
    Follows strikes (serve (guarded exec strikes)) (serve (plainly exec)) id (pendingDevices id) := by
  refine (follows_execute rfl).bind fun rows => ?_
  exact follows_reading fun euis _ => .result _

theorem follows_recordOutcome (clock : Instant) (id : DeploymentId) (eui : DevEui) (outcome : Outcome)
    (message : String) : Follows strikes (serve (guarded exec strikes)) (serve (plainly exec)) id
      (recordOutcome clock id eui outcome message) := by
  refine (follows_execute rfl).bind fun rows => follows_reading fun state _ => ?_
  show Follows _ _ _ _ (if _ then _ else _)
  split
  · exact (Follows.throw _).bind fun _ => (follows_execute rfl).bind fun _ => .pure ()
  · exact (follows_execute rfl).bind fun _ => .pure ()

theorem DeploymentRow.id_encode {d : Deployment} {row : DeploymentRow} (h : encode d = .ok row) :
    row.id = some d.id := by
  unfold encode at h
  cases nanos : timeoutNanos d with
  | error e =>
    rw [nanos] at h
    cases h
  | ok n =>
    rw [nanos] at h
    cases h
    rfl

theorem follows_update (clock : Instant) {d : Deployment} (own : d.id = id) :
    Follows strikes (serve (guarded exec strikes)) (serve (plainly exec)) id (update clock d) := by
  subst own
  refine follows_reading fun row encoded => ?_
  have known := DeploymentRow.id_encode encoded
  have about : (Statement.updateDeployment row).deployment? = some d.id := known
  refine (follows_execute about).bind fun (changed : Nat) => ?_
  show Follows _ _ _ _ (if changed = 0 then _ else _)
  split
  · exact (Follows.throw _).bind fun _ => .pure _
  · exact .pure _

/-! ### The part of a rollout -/

theorem eval_store {τ : Type} (env : Setting) (answer : (s : Statement) → τ → s.Result × τ) (c : Call)
    (t : τ) : (Task.store c).run.eval (attend env answer) t =
      (perform (env.clock c) c).run.eval (serve answer) t :=
  Option.bind_fun_some _

/-- A call of a worker follows if its operation does. -/
theorem follows_store {c : Call} (h : Follows strikes (serve (guarded exec strikes))
    (serve (plainly exec)) id (perform (env.clock c) c)) :
    Follows strikes (attend env (guarded exec strikes)) (attend env (plainly exec)) id
      (Task.store c) := by
  intro conn healthy
  rw [eval_store, eval_store]
  exact h conn healthy

variable {worker : Worker} {now : Instant}

theorem follows_recordReports (id : DeploymentId) (reports : List DeviceReport) :
    Follows strikes (attend env (guarded exec strikes)) (attend env (plainly exec)) id
      (Worker.recordReports id reports) := by
  induction reports with
  | nil => exact .pure 0
  | cons r rest ih =>
    refine (follows_store (follows_recordOutcome _ id r.eui r.outcome r.message)).catching
      (fun result => ?_) rfl
    cases result with
    | ok _ => exact ih.bind fun n => .pure (n + 1)
    | error e =>
      show Follows _ _ _ _ (if _ then _ else _)
      split
      · exact ih
      · exact .throw e

theorem follows_failOutstanding (id : DeploymentId) (message? : Option String) :
    Follows strikes (attend env (guarded exec strikes)) (attend env (plainly exec)) id
      (Worker.failOutstanding id message?) := by
  cases message? with
  | none => exact .pure ()
  | some message => exact (follows_store (follows_execute rfl)).bind fun _ => .pure ()

/-- **The part of a rollout follows** what it does on the bare data. -/
theorem follows_persist (d : Deployment) (result : StepResult) :
    Follows strikes (attend env (guarded exec strikes)) (attend env (plainly exec)) d.id
      (worker.persist now d result) := by
  refine (follows_recordReports d.id result.devices).bind fun recorded => ?_
  refine (follows_store (follows_pendingDevices d.id)).bind fun pending => ?_
  refine (follows_failOutstanding d.id _).bind fun _ => ?_
  refine Follows.bind (follows_store ?_) fun _ => .pure _
  exact follows_update _ rfl

end Follows

/-! ### What is never struck -/

/-- Faults that strike statements on single rollouts only. -/
def Spares (strikes : Strikes σ) : Prop := ∀ c s, strikes c s → s.deployment?.isSome

/-- Is there a statement on that rollout that is struck? -/
def Hits (strikes : Strikes σ) (id : DeploymentId) : Prop :=
  ∃ c s, strikes c s ∧ s.deployment? = some id

theorem Spares.eq_false (spares : Spares strikes) (c : Connection σ) {s : Statement}
    (general : s.deployment? = none) : strikes c s = false := by
  cases strike : strikes c s with
  | false => rfl
  | true =>
    have about := spares c s strike
    rw [general] at about
    cases about

section Unhindered

variable {α β : Type} {exec : Engine σ} {strikes : Strikes σ}

/-- An operation that does on a connection what it does on the bare data. -/
def Unhindered (exec : Engine σ) (strikes : Strikes σ) (op : Operation α) : Prop :=
  ∀ c r y, c.aborted = false → op.run.eval (serve (plainly exec)) c.current = some (r, y) →
    op.run.eval (serve (guarded exec strikes)) c = some (r, { c with current := y })

theorem Unhindered.result (r : Except Error α) : Unhindered exec strikes (.mk (.done r)) := by
  intro c r' y healthy plain
  obtain ⟨rfl, rfl⟩ := Prod.mk.inj (Option.some.inj plain)
  rfl

theorem Unhindered.bind {op : Operation α} {f : α → Operation β} (h : Unhindered exec strikes op)
    (next : ∀ a, Unhindered exec strikes (f a)) : Unhindered exec strikes (op >>= f) := by
  intro c r y healthy plain
  have split := (Program.eval_bind op.run _ c.current).symm.trans plain
  obtain ⟨⟨first, y₁⟩, ends, rest⟩ := Option.bind_eq_some_iff.1 split
  have upon := h c first y₁ healthy ends
  cases first with
  | ok a => exact (Program.eval_bind_ok upon).trans (next a _ r y healthy rest)
  | error e =>
    obtain ⟨rfl, rfl⟩ := Prod.mk.inj (Option.some.inj rest)
    exact Program.eval_bind_error upon

theorem unhindered_execute (spares : Spares strikes) {s : Statement} (data : s.isControl = false)
    (general : s.deployment? = none) : Unhindered exec strikes (execute s) := by
  intro c r y healthy plain
  obtain ⟨rfl, rfl⟩ := Prod.mk.inj (Option.some.inj plain)
  have working : ¬c.aborted = true := by simp [healthy]
  have handled : c.handle exec strikes s = _ := c.handle_data data
  rw [if_neg working, spares.eq_false c general, if_neg Bool.false_ne_true] at handled
  exact congrArg some handled

theorem unhindered_quarantine (spares : Spares strikes) (ids : List Uuid) (now : Instant) :
    Unhindered exec strikes (quarantine ids now) := by
  unfold quarantine
  split
  · exact .result (.ok ())
  · split
    · exact (unhindered_execute spares rfl rfl).bind fun _ => .result (.ok ())
    · exact nofun

/-- **A claim** is the same on a connection as on the bare data. -/
theorem unhindered_claimDue (spares : Spares strikes) (limit : UInt32) (now : Instant) :
    Unhindered exec strikes (claimDue limit now) := by
  refine (unhindered_execute spares rfl rfl).bind fun rows => ?_
  refine Unhindered.bind (.result (sortClaim rows)) fun sorted => ?_
  exact (unhindered_quarantine spares sorted.2 now).bind fun _ => .result (.ok sorted.1)

end Unhindered

end FirmwareRollout.Database
