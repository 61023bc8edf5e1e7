import FirmwareRollout.Bridge.Message
import FirmwareRollout.Program
import FirmwareRollout.Store.Call
import FirmwareRollout.Rollout.Transition

/-!
A worker's cycle, as a program of three kinds of calls: a call on its store transaction, sending a
request to the bridge, and waiting for what came of a request that was sent. In one transaction it
claims the rollouts that are due, asks the bridge to do the step of each, and writes where each one
goes from there. Every rollout is written under a savepoint: if that fails, its writes alone are
taken back and it stays due. An error outside of these parts ends the cycle.
-/

namespace FirmwareRollout

/-! ### Calls -/

/-- A call of a worker. -/
inductive WorkerOp where
  | store (call : Call)
  | send (request : StepRequest)
  | receive (request : StepRequest)
deriving DecidableEq

/-- The type of what a call of a worker comes to. -/
def WorkerOp.Reply : WorkerOp → Type
  | store call => call.Result
  | send _ => Unit
  | receive _ => StepResult

abbrev Task (α : Type) : Type := Program WorkerOp WorkerOp.Reply α

/-- What a worker does, up to a result or the first error that it does not handle. -/
abbrev Fallible (α : Type) : Type := ExceptT Error (Program WorkerOp WorkerOp.Reply) α

namespace Task

/-- Makes a call on the store transaction; its error is the task's. -/
def store (call : Call) : Fallible call.Answer := .mk (.step (.store call) .done : Task call.Result)

def send (request : StepRequest) : Task Unit := .step (.send request) .done

def receive (request : StepRequest) : Task StepResult := .step (.receive request) .done

/-- What a task comes to, its error included; this goes on either way. -/
def outcome {α : Type} (task : Fallible α) : Fallible (Except Error α) := .mk (.ok <$> task.run)

end Task

/-! ### Counts and settings -/

/-- What a cycle did, in numbers. -/
structure Summary where
  claimed : Nat := 0
  advanced : Nat := 0
  retried : Nat := 0
  finished : Nat := 0
  deviceOutcomes : Nat := 0
  /-- Rollouts that could not be read or written. -/
  failed : Nat := 0
deriving DecidableEq, Repr

namespace Summary

/-- The counts of two parts of a cycle together. -/
def add (a b : Summary) : Summary where
  claimed := a.claimed + b.claimed
  advanced := a.advanced + b.advanced
  retried := a.retried + b.retried
  finished := a.finished + b.finished
  deviceOutcomes := a.deviceOutcomes + b.deviceOutcomes
  failed := a.failed + b.failed

/-- The counts of one rollout that went from the stage `before` by a transition. -/
def ofTransition (before : Stage) (t : Transition) (outcomes : Nat) : Summary :=
  if t.isDone then { finished := 1, deviceOutcomes := outcomes }
  else if t.next.stage = before then { retried := 1, deviceOutcomes := outcomes }
  else { advanced := 1, deviceOutcomes := outcomes }

end Summary

/-- A worker's settings. -/
structure Worker where
  machine : Machine
  /-- How many rollouts a cycle claims at most. -/
  batchSize : UInt32
deriving DecidableEq

namespace Worker

/-! ### Writing what came of a step -/

/-- Records what devices have reported, and counts what was recorded. Reports of devices that are
unknown or have an outcome are passed over. -/
def recordReports (id : DeploymentId) : List DeviceReport → Fallible Nat
  | [] => pure 0
  | r :: rest => do
    match ← Task.outcome (Task.store (.recordOutcome id r.eui r.outcome r.message)) with
    | .ok _ => return (← recordReports id rest) + 1
    | .error e =>
      if e.isAlreadyTerminal || e.isNotFound then recordReports id rest else throw e

/-- Fails the devices that are pending, where a transition says so. -/
def failOutstanding (id : DeploymentId) : Option String → Fallible Unit
  | none => pure ()
  | some message => do
    let _ ← Task.store (.failPending id message)

def persist (w : Worker) (now : Instant) (d : Deployment) (result : StepResult) :
    Fallible Summary := do
  let recorded ← recordReports d.id result.devices
  let pending ← Task.store (.pendingDevices d.id)
  let t := w.machine.transition d.plan d.progress result.outcome now (List.length pending)
  failOutstanding d.id t.failOutstanding
  let _ ← Task.store (.update (t.apply d))
  return .ofTransition d.progress.stage t recorded

/-- Writes what came of a rollout's step, all of it or nothing. -/
def settle (w : Worker) (now : Instant) (d : Deployment) (result : StepResult) :
    Fallible Summary := do
  let _ ← Task.store .savepoint
  match ← Task.outcome (w.persist now d result) with
  | .ok summary =>
    let _ ← Task.store .releaseSavepoint
    return summary
  | .error _ =>
    let _ ← Task.store .rollbackToSavepoint
    return { failed := 1 }

/-- Writes what came of all steps, in the order of the claim. -/
def settleAll (w : Worker) (now : Instant) : List (Deployment × StepResult) → Fallible Summary
  | [] => pure {}
  | (d, result) :: rest => do
    let summary ← w.settle now d result
    return summary.add (← w.settleAll now rest)

/-! ### Asking the bridge -/

/-- Adds to each claimed rollout the devices that are pending. A rollout whose devices cannot be
read is left out. -/
def readPending : List Deployment → Task (List (Deployment × List DevEui))
  | [] => pure []
  | d :: rest => do
    let pending ← (Task.store (.pendingDevices d.id)).run
    let others ← readPending rest
    match pending with
    | .ok euis => return (d, euis) :: others
    | .error _ => return others

/-- Sends all requests, then waits for all answers. -/
def consult (requests : List StepRequest) : Task (List StepResult) := do
  requests.forM Task.send
  requests.mapM Task.receive

/-! ### The cycle -/

/-- One cycle, at the time `now`. -/
def cycle (w : Worker) (now : Instant) : Fallible Summary := do
  let _ ← Task.store .begin
  let claimed : List Deployment ← Task.store (.claimDue w.batchSize now)
  if claimed.isEmpty then
    let _ ← Task.store .commit
    return {}
  else
    let work ← (readPending claimed : Task _)
    let results ← (consult (work.map fun (d, euis) => .ofDeployment d euis) : Task _)
    let summary ← w.settleAll now ((work.map (·.1)).zip results)
    let _ ← Task.store .commit
    return summary.add
      { claimed := claimed.length, failed := claimed.length - work.length }

/-- Records the outcome of one device, in a transaction of its own. -/
def recordOutcome (id : DeploymentId) (eui : DevEui) (outcome : Outcome) (message : String) :
    Fallible Unit := do
  let _ ← Task.store .begin
  let _ ← Task.store (.recordOutcome id eui outcome message)
  let _ ← Task.store .commit

end Worker

end FirmwareRollout
