import FirmwareRollout.Database.Statement
import FirmwareRollout.Program
import FirmwareRollout.Store.Call

/-!
The operations of a store as statements to a database: for each operation which statements it sends,
in which order, and how their answers are read. The first statement that fails ends an operation.
-/

namespace FirmwareRollout.Database

/-- A move of an operation. -/
inductive Move where
  | execute (statement : Statement)
  /-- The operation needs a time beyond the last instant; nothing can follow. -/
  | outOfTime
deriving DecidableEq

def Move.Reply : Move → Type
  | execute statement => statement.Result
  | outOfTime => Empty

/-- An operation on a database, up to a result or its first error. -/
abbrev Operation (α : Type) : Type := ExceptT Error (Program Move Move.Reply) α

def execute (s : Statement) : Operation s.Answer :=
  .mk (.step (.execute s) .done : Program Move Move.Reply s.Result)

/-- Breaks off: no instant is late enough. -/
def outOfTime {α : Type} : Operation α := .mk (.step .outOfTime Empty.elim)

/-- Goes on with what was read, or fails with the reason that it could not be. -/
def reading {α : Type} (result : Except Error α) : Operation α := .mk (.done result)

/-! ### Outside of transactions -/

/-- Connects to a database that is at hand or not, and lays out its tables. -/
def connect (reachable : Bool) : Operation Unit :=
  if reachable then
    (List.finRange 4).forM fun part => do
      let _ ← execute (.schema part)
  else throw (.database "cannot connect")

/-- Stores a new rollout with its devices, all of them pending. -/
def create (d : Deployment) (devices : List EnrolledDevice) : Operation Unit := do
  let row ← reading (DeploymentRow.encode d)
  let _ ← execute .begin
  let _ ← execute (.insertDeployment row)
  devices.forM fun device => do
    let _ ← execute (.insertDevice d.id device d.createdAt.cutToward2000)
  let _ ← execute .commit

/-- The rollout in the first row, if there is a row. -/
def firstDeployment : List DeploymentRow → Operation (Option Deployment)
  | [] => pure none
  | row :: _ => some <$> reading row.decode

def get (id : DeploymentId) : Operation (Option Deployment) := do
  firstDeployment (← execute (.selectDeployment id false))

/-- The first `limit` rollouts that are not over. -/
def listPending (limit : UInt32) : Operation (List Deployment) := do
  let rows : List DeploymentRow ← execute (.selectPending limit)
  reading (rows.mapM DeploymentRow.decode)

/-- The number in the first row of a count. -/
def countOf : List (Option Int64) → Operation Nat
  | [] => throw (.database "no rows returned by a query that expected to return at least one row")
  | n :: _ => (fun n : Int64 => n.toInt.toNat) <$> reading (required "count" n)

def deviceCount (id : DeploymentId) : Operation Nat := do countOf (← execute (.countDevices id))

/-- The number of devices of a rollout without an outcome. -/
def pendingCount (id : DeploymentId) : Operation Nat := do countOf (← execute (.countPending id))

def listDevices (id : DeploymentId) (limit offset : UInt32) : Operation (List Participant) := do
  let rows : List DeviceRow ← execute (.selectDevices id limit offset)
  reading (rows.mapM DeviceRow.decode)

/-! ### In a transaction -/

/-- Parts claimed rows into the rollouts that can be read and the identifiers of the others. -/
def sortClaim : List DeploymentRow → Except Error (List Deployment × List Uuid)
  | [] => .ok ([], [])
  | row :: rest => do
    match row.decode with
    | .ok d =>
      let (ds, ids) ← sortClaim rest
      return (d :: ds, ids)
    | .error _ =>
      let id ← required "id" row.id
      let (ds, ids) ← sortClaim rest
      return (ds, id :: ids)

/-- Puts rollouts that cannot be read off for an hour. -/
def quarantine (ids : List Uuid) (now : Instant) : Operation Unit :=
  if ids.isEmpty then pure ()
  else
    match now.anHourLater? with
    | some t => do
      let _ ← execute (.quarantine ids t.cutToward2000)
    | none => outOfTime

def claimDue (limit : UInt32) (now : Instant) : Operation (List Deployment) := do
  let rows : List DeploymentRow ← execute (.selectDue now.cutToward2000 limit)
  let (claimed, unreadable) ← reading (sortClaim rows)
  quarantine unreadable now
  return claimed

/-- Stores a rollout in place of the one with its identifier. -/
def update (clock : Instant) (d : Deployment) : Operation Deployment := do
  let d := { d with updatedAt := clock.floorMicros }
  let row ← reading (DeploymentRow.encode d)
  let changed : Nat ← execute (.updateDeployment row)
  if changed = 0 then throw (.deploymentNotFound (toString d.id))
  return d

/-- The state in the first row, if there is a row. -/
def deviceState (id : DeploymentId) (eui : DevEui) : List (Option String) → Except Error DeviceState
  | [] => .error (.deviceNotFound (toString id) (toString eui))
  | tag :: _ => do
    let tag ← required "state" tag
    match DeviceState.ofTag? tag with
    | some state => return state
    | none => throw (.integrity ("device " ++ toString eui ++ ": " ++ DeviceState.unknownTag tag))

/-- Records the outcome of a device that has none. -/
def recordOutcome (clock : Instant) (id : DeploymentId) (eui : DevEui) (outcome : Outcome)
    (message : String) : Operation Unit := do
  let rows : List (Option String) ← execute (.selectDeviceState id eui)
  let state ← reading (deviceState id eui rows)
  if state.isTerminal then throw (.alreadyTerminal (toString id) (toString eui) state)
  let _ ← execute (.updateDevice id eui outcome.state message clock.floorMicros.cutToward2000)

/-- The devices of a rollout that have no outcome. -/
def pendingDevices (id : DeploymentId) : Operation (List DevEui) := do
  let rows : List (Option (List UInt8)) ← execute (.selectPendingDevices id)
  let euis ← reading (rows.mapM (required "dev_eui"))
  reading (euis.mapM deviceEui)

/-- Records an error for every device that has no outcome. -/
def failPending (clock : Instant) (id : DeploymentId) (message : String) : Operation Nat :=
  execute (.failDevices id message clock.floorMicros.cutToward2000)

/-- Carries out a call of a transaction. `clock` is what the wall clock reads. -/
def perform (clock : Instant) : (c : Call) → Operation c.Answer
  | .begin => execute .begin
  | .lockedGet id => do firstDeployment (← execute (.selectDeployment id true))
  | .claimDue limit now => claimDue limit now
  | .update d => update clock d
  | .recordOutcome id eui outcome message => recordOutcome clock id eui outcome message
  | .pendingDevices id => pendingDevices id
  | .failPending id message => failPending clock id message
  | .savepoint => execute .savepoint
  | .rollbackToSavepoint => execute .rollbackToSavepoint
  | .releaseSavepoint => execute .releaseSavepoint
  | .commit => execute .commit
  | .rollback => execute .rollback

end FirmwareRollout.Database
