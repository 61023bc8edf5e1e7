import FirmwareRollout.Deployment.Basic
import FirmwareRollout.Device.Participant
import FirmwareRollout.Error

/-!
Rollouts and devices as rows of a database. A row is what its columns hold, any of which may be
missing a value; reading it checks every column in a fixed order, and the first that does not fit is
the error.
-/

namespace FirmwareRollout.Database

/-- The columns of a rollout. -/
structure DeploymentRow where
  id : Option Uuid
  createdAt : Option Instant
  updatedAt : Option Instant
  name : Option String
  group : Option Uuid
  matrix : Option (List UInt8)
  descriptor : Option (List UInt8)
  payload : Option (List UInt8)
  stage : Option String
  nextStepAfter : Option Instant
  fragSize : Option Int64
  redundancy : Option Int64
  blockAckDelay : Option Int64
  multicastTimeout : Option Int64
  unicastTimeoutNanos : Option Int64
  retryCount : Option Int64
deriving DecidableEq

/-- The columns of a device in a rollout. -/
structure DeviceRow where
  deployment : Option Uuid
  eui : Option (List UInt8)
  name : Option String
  state : Option String
  errorMessage : Option String
  createdAt : Option Instant
  updatedAt : Option Instant
deriving DecidableEq

/-! ### Reading columns -/

/-- The value of a column that must have one. -/
def required {α : Type} (column : String) : Option α → Except Error α
  | some a => .ok a
  | none => .error (.database ("column " ++ column ++ " has no value"))

/-- The value of a column that holds a 32-bit count. -/
def count32 (column : String) (value : Option Int64) : Except Error UInt32 := do
  let n := (← required column value).toInt
  if 0 ≤ n ∧ n < 4294967296 then return .ofNat n.toNat
  else throw (.integrity (column ++ " out of range: " ++ toString n))

def deviceEui (bytes : List UInt8) : Except Error DevEui :=
  match DevEui.ofBytes? bytes with
  | some eui => .ok eui
  | none =>
    .error (.integrity ("DevEUI must have length 8, got: " ++ toString bytes.length))

def matrixByte (id : Uuid) : List UInt8 → Except Error UInt8
  | [b] => .ok b
  | bytes =>
    .error (.integrity ("fragmentation_matrix of deployment " ++ toString id ++ " is " ++
      toString bytes.length ++ " bytes, expected 1"))

def descriptorBytes (id : Uuid) (bytes : List UInt8) : Except Error (Vector UInt8 4) :=
  match Identity.ofBytes? 4 bytes with
  | some descriptor => .ok descriptor
  | none =>
    .error (.integrity ("descriptor of deployment " ++ toString id ++ " is " ++
      toString bytes.length ++ " bytes, expected 4"))

def stageOf (id : Uuid) (tag : String) : Except Error Stage :=
  match Stage.ofTag? tag with
  | some stage => .ok stage
  | none =>
    .error (.integrity ("deployment " ++ toString id ++ " has invalid state: " ++
      Stage.unknownTag tag))

/-- The duration of that many nanoseconds, which must not be negative. -/
def timeoutOf (id : Uuid) (nanos : Int64) : Except Error Duration :=
  if 0 ≤ nanos.toInt then .ok (.ofNanos nanos.toInt.toNat)
  else
    .error (.integrity ("deployment " ++ toString id ++ " has negative unicast timeout " ++
      toString nanos.toInt))

/-! ### Rollouts -/

namespace DeploymentRow

def decode (row : DeploymentRow) : Except Error Deployment := do
  let id ← required "id" row.id
  let matrix ← required "fragmentation_matrix" row.matrix
  let descriptor ← required "descriptor" row.descriptor
  let stage ← required "state" row.stage
  let nanos ← required "unicast_timeout_ns" row.unicastTimeoutNanos
  let matrix ← matrixByte id matrix
  let descriptor ← descriptorBytes id descriptor
  let stage ← stageOf id stage
  let unicastTimeout ← timeoutOf id nanos
  let createdAt ← required "created_at" row.createdAt
  let updatedAt ← required "updated_at" row.updatedAt
  let name ← required "name" row.name
  let payload ← required "payload" row.payload
  let nextStepAfter ← required "next_step_after" row.nextStepAfter
  let fragSize ← count32 "frag_size" row.fragSize
  let redundancy ← count32 "redundancy" row.redundancy
  let blockAckDelay ← count32 "block_ack_delay" row.blockAckDelay
  let multicastTimeout ← count32 "multicast_timeout" row.multicastTimeout
  let retryCount ← count32 "retry_count" row.retryCount
  return {
    id, createdAt, updatedAt
    plan := {
      name, group := row.group, matrix, descriptor, payload, fragSize, redundancy, blockAckDelay,
      multicastTimeout, unicastTimeout }
    progress := ⟨stage, nextStepAfter, retryCount⟩ }

/-- The nanoseconds of a timeout, if a column can hold them. -/
def timeoutNanos (d : Deployment) : Except Error Int64 :=
  if d.plan.unicastTimeout.nanos < 9223372036854775808 then .ok (.ofNat d.plan.unicastTimeout.nanos)
  else
    .error (.internal ("unicast timeout " ++ d.plan.unicastTimeout.text ++ " of deployment " ++
      toString d.id ++ " does not fit in storage"))

def ofCount (n : UInt32) : Int64 := .ofNat n.toNat

/-- The row of a rollout, if its timeout fits. A database keeps whole microseconds. -/
def encode (d : Deployment) : Except Error DeploymentRow := do
  let nanos ← timeoutNanos d
  return {
    id := some d.id
    createdAt := some d.createdAt.cutToward2000
    updatedAt := some d.updatedAt.cutToward2000
    name := some d.plan.name
    group := d.plan.group
    matrix := some [d.plan.matrix]
    descriptor := some d.plan.descriptor.toList
    payload := some d.plan.payload
    stage := some d.progress.stage.tag
    nextStepAfter := some d.progress.nextStepAfter.cutToward2000
    fragSize := some (ofCount d.plan.fragSize)
    redundancy := some (ofCount d.plan.redundancy)
    blockAckDelay := some (ofCount d.plan.blockAckDelay)
    multicastTimeout := some (ofCount d.plan.multicastTimeout)
    unicastTimeoutNanos := some nanos
    retryCount := some (ofCount d.progress.retryCount) }

/-- A row after an update: the new one, but for the time of creation. -/
def overwrite (old new : DeploymentRow) : DeploymentRow := { new with createdAt := old.createdAt }

end DeploymentRow

/-! ### Devices -/

namespace DeviceRow

def decode (row : DeviceRow) : Except Error Participant := do
  let deployment ← required "fuota_deployment_id" row.deployment
  let eui ← required "dev_eui" row.eui
  let state ← required "state" row.state
  let eui ← deviceEui eui
  let name ← required "device_name" row.name
  let state ← match DeviceState.ofTag? state with
    | some state => pure state
    | none =>
      throw (.integrity ("device of deployment " ++ toString deployment ++ ": " ++
        DeviceState.unknownTag state))
  let errorMessage ← required "error_message" row.errorMessage
  let createdAt ← required "created_at" row.createdAt
  let updatedAt ← required "updated_at" row.updatedAt
  return { deployment, eui, name, state, errorMessage, createdAt, updatedAt }

end DeviceRow

end FirmwareRollout.Database
