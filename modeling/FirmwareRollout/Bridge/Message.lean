import FirmwareRollout.Deployment.Json
import FirmwareRollout.Error
import FirmwareRollout.Rollout.Transition

/-!
What is exchanged with the bridge to the network: the request to carry out the side effect of a
stage, and the report that answers it. A report decides the outcome of the step and hands on the
outcomes of devices; an error or silence decides it without any.
-/

namespace FirmwareRollout

open Json

/-- All that is needed to carry out the side effect of a stage. -/
structure StepRequest where
  stage : Stage
  deployment : DeploymentId
  group : Option GroupId
  payload : List UInt8
  matrix : UInt8
  descriptor : Vector UInt8 4
  fragSize : UInt32
  redundancy : UInt32
  blockAckDelay : UInt32
  multicastTimeout : UInt32
  /-- How long a single device may take to answer. -/
  unicastTimeoutMillis : UInt64
  /-- The devices whose outcome is still unknown. -/
  pending : List DevEui
deriving DecidableEq

/-- How far the bridge has come with a request. -/
inductive ActionStatus where
  | completed
  | pending
  | rejected
deriving DecidableEq, Repr

/-- The outcome that a device reported during a step. -/
structure DeviceReport where
  eui : DevEui
  outcome : Outcome
  message : String
deriving DecidableEq

/-- The answer of the bridge. -/
structure ActionReport where
  status : ActionStatus
  reason : Option String
  devices : List DeviceReport
deriving DecidableEq

namespace StepRequest

/-- The request for the step that a deployment stands at. -/
def ofDeployment (d : Deployment) (pending : List DevEui) : StepRequest where
  stage := d.progress.stage
  deployment := d.id
  group := d.plan.group
  payload := d.plan.payload
  matrix := d.plan.matrix
  descriptor := d.plan.descriptor
  fragSize := d.plan.fragSize
  redundancy := d.plan.redundancy
  blockAckDelay := d.plan.blockAckDelay
  multicastTimeout := d.plan.multicastTimeout
  unicastTimeoutMillis := .ofNat (min d.plan.unicastTimeout.millis 18446744073709551615)
  pending

/-- The names of the fields in their order. -/
def fields : List String :=
  ["state", "deployment_id", "multicast_group_id", "payload", "fragmentation_matrix", "descriptor",
    "frag_size", "redundancy", "block_ack_delay", "multicast_timeout", "unicast_timeout_ms",
    "pending_devices"]

def json (r : StepRequest) : Value :=
  .ofMembers [("state", r.stage.json), ("deployment_id", ofUuid r.deployment),
    ("multicast_group_id", ofOption ofUuid r.group), ("payload", ofHex r.payload),
    ("fragmentation_matrix", ofUInt8 r.matrix), ("descriptor", ofBytes r.descriptor.toList),
    ("frag_size", ofUInt32 r.fragSize), ("redundancy", ofUInt32 r.redundancy),
    ("block_ack_delay", ofUInt32 r.blockAckDelay),
    ("multicast_timeout", ofUInt32 r.multicastTimeout),
    ("unicast_timeout_ms", ofUInt64 r.unicastTimeoutMillis),
    ("pending_devices", .array (r.pending.map ofDevEui))]

def ofJson? (v : Value) : Option StepRequest := do
  let r ← Record.read? fields v
  return {
    stage := ← r.required "state" Stage.ofJson?
    deployment := ← r.required "deployment_id" uuid?
    group := ← r.optional "multicast_group_id" uuid?
    payload := ← r.required "payload" hex?
    matrix := ← r.required "fragmentation_matrix" uint8?
    descriptor := ← r.required "descriptor" fourBytes?
    fragSize := ← r.required "frag_size" uint32?
    redundancy := ← r.required "redundancy" uint32?
    blockAckDelay := ← r.required "block_ack_delay" uint32?
    multicastTimeout := ← r.required "multicast_timeout" uint32?
    unicastTimeoutMillis := ← r.required "unicast_timeout_ms" uint64?
    pending := ← r.required "pending_devices" (·.array? devEui?) }

end StepRequest

namespace ActionStatus

def tag : ActionStatus → String
  | completed => "completed"
  | pending => "pending"
  | rejected => "rejected"

def ofTag? (text : String) : Option ActionStatus :=
  [completed, pending, rejected].find? fun s => s.tag = text

def json (s : ActionStatus) : Value := .ofString s.tag

def ofJson? (v : Value) : Option ActionStatus := v.tag?.bind ofTag?

theorem ofTag?_tag (s : ActionStatus) : ofTag? s.tag = some s := by
  cases s <;> decide

end ActionStatus

namespace DeviceReport

def json (r : DeviceReport) : Value :=
  .ofMembers [("dev_eui", ofDevEui r.eui), ("outcome", r.outcome.json),
    ("message", .ofString r.message)]

/-- A missing message is an empty one. -/
def ofJson? (v : Value) : Option DeviceReport := do
  let r ← Record.read? ["dev_eui", "outcome", "message"] v
  return ⟨← r.required "dev_eui" devEui?, ← r.required "outcome" Outcome.ofJson?,
    ← r.orElse "message" "" (·.string?)⟩

end DeviceReport

namespace ActionReport

/-- A report that a step can never be done, for a reason. -/
def rejectedFor (reason : String) : ActionReport := ⟨.rejected, some reason, []⟩

/-- A missing reason is left out. -/
def json (r : ActionReport) : Value :=
  .ofMembers (("status", r.status.json) ::
    (r.reason.toList.map fun reason => ("reason", .ofString reason)) ++
    [("devices", .array (r.devices.map DeviceReport.json))])

/-- Reason and devices may be missing. -/
def ofJson? (v : Value) : Option ActionReport := do
  let r ← Record.read? ["status", "reason", "devices"] v
  return ⟨← r.required "status" ActionStatus.ofJson?,
    ← r.orElse "reason" none (·.nullable? (·.string?)),
    ← r.orElse "devices" [] (·.array? DeviceReport.ofJson?)⟩

end ActionReport

/-! ### What a request comes to -/

/-- How a request to the bridge ended. -/
inductive Attempt where
  | reported (report : ActionReport)
  | failed (error : Error)
  /-- There was no answer in time. -/
  | timedOut
deriving DecidableEq

/-- The outcome of a step and the device outcomes learnt from it. -/
structure StepResult where
  outcome : StepOutcome
  devices : List DeviceReport
deriving DecidableEq

namespace ActionReport

def outcome (r : ActionReport) : StepOutcome :=
  match r.status with
  | .completed => .advance
  | .pending => .retry (r.reason.getD "step pending")
  | .rejected => .fatal (r.reason.getD "rejected by collaborator")

end ActionReport

/-- What an attempt comes to, where `timeout` is the time that it was given. Errors that may pass
are worth another attempt, and so is silence; other errors are not. -/
def Attempt.result (timeout : Duration) : Attempt → StepResult
  | .reported report => ⟨report.outcome, report.devices⟩
  | .failed error =>
    ⟨if error.isTransient then .retry error.message else .fatal error.message, []⟩
  | .timedOut => ⟨.retry ("timed out after " ++ timeout.text), []⟩

end FirmwareRollout
