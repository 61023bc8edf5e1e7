import FirmwareRollout.Database.Row

/-!
The statements that are sent to a database, as data: what each of them answers, and its name and
parameters as they are sent.
-/

namespace FirmwareRollout.Database

/-- A statement. -/
inductive Statement where
  | begin
  | commit
  | rollback
  | savepoint
  | rollbackToSavepoint
  | releaseSavepoint
  /-- One of the four parts of the schema. -/
  | schema (part : Fin 4)
  | insertDeployment (row : DeploymentRow)
  | insertDevice (deployment : DeploymentId) (device : EnrolledDevice) (clock : Instant)
  /-- A rollout by its identifier, locked if asked for. -/
  | selectDeployment (id : DeploymentId) (locked : Bool)
  /-- The first rollouts that are not over. -/
  | selectPending (limit : UInt32)
  /-- The first rollouts that are due and not locked, now locked. -/
  | selectDue (now : Instant) (limit : UInt32)
  /-- Writes all columns of a rollout but its identifier and the time of its creation. -/
  | updateDeployment (row : DeploymentRow)
  /-- Makes rollouts that cannot be read due at a later time. -/
  | quarantine (ids : List Uuid) (time : Instant)
  | countDevices (id : DeploymentId)
  | countPending (id : DeploymentId)
  | selectDevices (id : DeploymentId) (limit offset : UInt32)
  /-- The EUIs of the devices that have no outcome. -/
  | selectPendingDevices (id : DeploymentId)
  /-- The state of one device, whose row is locked. -/
  | selectDeviceState (id : DeploymentId) (eui : DevEui)
  | updateDevice (id : DeploymentId) (eui : DevEui) (state : DeviceState) (message : String)
    (clock : Instant)
  /-- Records an error for the devices that have no outcome. -/
  | failDevices (id : DeploymentId) (message : String) (clock : Instant)
deriving DecidableEq

namespace Statement

/-- The type of what a statement gives: rows, or how many rows it has changed. -/
def Answer : Statement → Type
  | selectDeployment .. | selectPending _ | selectDue .. => List DeploymentRow
  | selectDevices .. => List DeviceRow
  | countDevices _ | countPending _ => List (Option Int64)
  | selectPendingDevices _ => List (Option (List UInt8))
  | selectDeviceState .. => List (Option String)
  | updateDeployment _ | quarantine .. | updateDevice .. | failDevices .. => Nat
  | begin | commit | rollback | savepoint | rollbackToSavepoint | releaseSavepoint | schema _
  | insertDeployment _ | insertDevice .. => Unit

/-- What a statement comes to. -/
abbrev Result (s : Statement) : Type := Except Error s.Answer

/-- Does the statement only open or end a transaction? -/
def isBracket : Statement → Bool
  | begin | commit | rollback => true
  | _ => false

/-! ### As it is sent -/

/-- A parameter of a statement. -/
inductive Param where
  | uuid (id : Uuid)
  | uuids (ids : List Uuid)
  | time (t : Instant)
  | text (s : String)
  | bytes (b : List UInt8)
  | integer (n : Int)
  | null
deriving DecidableEq

def Param.orNull {α : Type} (f : α → Param) : Option α → Param
  | some a => f a
  | none => .null

/-- An integer column as a parameter. -/
def Param.word (n : Int64) : Param := .integer n.toInt

/-- The kind of a statement and the table that it is about. -/
def label : Statement → String
  | begin => "BEGIN"
  | commit => "COMMIT"
  | rollback => "ROLLBACK"
  | savepoint => "SAVEPOINT fuota_step"
  | rollbackToSavepoint => "ROLLBACK TO SAVEPOINT fuota_step"
  | releaseSavepoint => "RELEASE SAVEPOINT fuota_step"
  | schema _ => "SCHEMA"
  | insertDeployment _ => "INSERT fuota_deployment"
  | insertDevice .. => "INSERT fuota_deployment_device"
  | selectDeployment _ true => "SELECT fuota_deployment FOR UPDATE"
  | selectDeployment _ false | selectPending _ => "SELECT fuota_deployment"
  | selectDue .. => "SELECT fuota_deployment FOR UPDATE SKIP LOCKED"
  | updateDeployment _ | quarantine .. => "UPDATE fuota_deployment"
  | countDevices _ | countPending _ | selectDevices .. | selectPendingDevices _ =>
    "SELECT fuota_deployment_device"
  | selectDeviceState .. => "SELECT fuota_deployment_device FOR UPDATE"
  | updateDevice .. | failDevices .. => "UPDATE fuota_deployment_device"

/-- The columns of a rollout from its name on, as parameters. -/
def contents (row : DeploymentRow) : List Param :=
  [.orNull .text row.name, .orNull .uuid row.group, .orNull .bytes row.matrix,
    .orNull .bytes row.descriptor, .orNull .bytes row.payload, .orNull .text row.stage,
    .orNull .time row.nextStepAfter, .orNull .word row.fragSize, .orNull .word row.redundancy,
    .orNull .word row.blockAckDelay, .orNull .word row.multicastTimeout,
    .orNull .word row.unicastTimeoutNanos, .orNull .word row.retryCount]

/-- The parameters of a statement in their order. -/
def params : Statement → List Param
  | begin | commit | rollback | savepoint | rollbackToSavepoint | releaseSavepoint | schema _ => []
  | insertDeployment row =>
    .orNull .uuid row.id :: .orNull .time row.createdAt :: .orNull .time row.updatedAt ::
      contents row
  | insertDevice id device clock =>
    [.uuid id, .bytes device.eui.bytes.toList, .text device.name, .time clock,
      .text DeviceState.pending.tag]
  | selectDeployment id _ | countDevices id | countPending id | selectPendingDevices id =>
    [.uuid id]
  | selectPending limit => [.integer limit.toNat]
  | selectDue now limit => [.time now, .integer limit.toNat]
  | updateDeployment row => .orNull .uuid row.id :: .orNull .time row.updatedAt :: contents row
  | quarantine ids t => [.uuids ids, .time t]
  | selectDevices id limit offset => [.uuid id, .integer limit.toNat, .integer offset.toNat]
  | selectDeviceState id eui => [.uuid id, .bytes eui.bytes.toList]
  | updateDevice id eui state message clock =>
    [.uuid id, .bytes eui.bytes.toList, .text state.tag, .text message, .time clock]
  | failDevices id message clock => [.uuid id, .text message, .time clock]

end Statement

end FirmwareRollout.Database
