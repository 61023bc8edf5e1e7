import FirmwareRollout.Bridge.Message
import FirmwareRollout.Store.Call

/-!
What a test rig is set up with: a scripted bridge, and faults that are planted in its store. The
bridge has for each deployment and stage a queue of acts, each an answer and the time it takes. A
request takes the first act of its queue; the last act stays and repeats. Each fault names the calls
that it makes fail and how many of them it lets pass first.
-/

namespace FirmwareRollout.Bench

/-! ### A scripted bridge -/

/-- What a scripted bridge answers. -/
inductive Reply where
  | report (report : ActionReport)
  | fail (error : Error)
  /-- It never answers. -/
  | silence
deriving DecidableEq

/-- An answer and the milliseconds until it comes. -/
structure Act where
  reply : Reply
  delayMillis : Nat
deriving DecidableEq

namespace Act

/-- The act of a bridge that has no script: the step is done at once. -/
def complete : Act := ⟨.report ⟨.completed, none, []⟩, 0⟩

/-- Does the answer come in time? An answer that takes no time always does. -/
def inTime (act : Act) (timeout : Duration) : Bool :=
  act.reply ≠ .silence && (act.delayMillis = 0 || act.delayMillis * 1000000 < timeout.nanos)

/-- How a request ends that meets this act. -/
def attempt (act : Act) (timeout : Duration) : Attempt :=
  if act.inTime timeout then
    match act.reply with
    | .report report => .reported report
    | .fail error => .failed error
    | .silence => .timedOut
  else .timedOut

/-- The nanoseconds until the request ends. -/
def elapsed (act : Act) (timeout : Duration) : Nat :=
  if act.inTime timeout then act.delayMillis * 1000000 else timeout.nanos

end Act

abbrev Script := List ((DeploymentId × Stage) × List Act)

namespace Script

def extend (script : Script) (key : DeploymentId × Stage) (acts : List Act) : Script :=
  match script with
  | [] => [(key, acts)]
  | (key', queue) :: rest =>
    if key' = key then (key', queue ++ acts) :: rest else (key', queue) :: extend rest key acts

/-- The act that a request meets, and the script after it. -/
def take (script : Script) (key : DeploymentId × Stage) : Act × Script :=
  match script with
  | [] => (.complete, [])
  | (key', queue) :: rest =>
    if key' = key then
      match queue with
      | [] => (.complete, (key', []) :: rest)
      | [act] => (act, (key', [act]) :: rest)
      | act :: queue => (act, (key', queue) :: rest)
    else
      let (act, rest) := take rest key
      (act, (key', queue) :: rest)

end Script

/-! ### Planted faults -/

/-- A kind of call that can be made to fail. -/
inductive Point where
  | begin
  | lockedGet
  | claimDue
  | update
  | recordOutcome
  | pendingDevices
  | failPending
  | savepoint
  | rollbackToSavepoint
  | releaseSavepoint
  | commit
deriving DecidableEq, Repr

/-- The kind of a call. Taking a transaction back never fails. -/
def Point.of? : Call → Option Point
  | .begin => some .begin
  | .lockedGet _ => some .lockedGet
  | .claimDue .. => some .claimDue
  | .update _ => some .update
  | .recordOutcome .. => some .recordOutcome
  | .pendingDevices _ => some .pendingDevices
  | .failPending .. => some .failPending
  | .savepoint => some .savepoint
  | .rollbackToSavepoint => some .rollbackToSavepoint
  | .releaseSavepoint => some .releaseSavepoint
  | .commit => some .commit
  | .rollback => none

/-- A planted fault. -/
structure Fault where
  point : Point
  /-- The rollout that a call has to be about, if that matters. -/
  deployment : Option DeploymentId
  /-- How many matching calls it lets pass. -/
  skip : Nat
  /-- What the calls after those fail with. -/
  error : Error
deriving DecidableEq

namespace Fault

/-- Is the call one of those that the fault is meant for? -/
def concerns (f : Fault) (c : Call) : Bool :=
  Point.of? c = some f.point && (f.deployment = none || f.deployment = c.deployment?)

/-- The error that a call runs into, and the faults after it: the first fault that lets no more
calls pass strikes, and those before it let one less pass. -/
def strike (c : Call) : List Fault → Option Error × List Fault
  | [] => (none, [])
  | f :: rest =>
    if !f.concerns c then
      let (error, rest) := strike c rest
      (error, f :: rest)
    else if f.skip = 0 then (some f.error, f :: rest)
    else
      let (error, rest) := strike c rest
      (error, { f with skip := f.skip - 1 } :: rest)

end Fault

end FirmwareRollout.Bench
