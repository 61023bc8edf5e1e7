import FirmwareRollout.Deployment.Basic
import FirmwareRollout.Device.Participant
import FirmwareRollout.Json.Record

/-!
The JSON forms of plans, deployments and their devices: records whose fields stand in a fixed order,
and names for stages, states of devices and outcomes.
-/

namespace FirmwareRollout

open Json

/-! ### Rollouts -/

def Stage.json (s : Stage) : Value := .ofString s.tag

def Stage.ofJson? (v : Value) : Option Stage := v.tag?.bind Stage.ofTag?

namespace Plan

/-- The fields of a plan in order. -/
def fields : List String :=
  ["name", "multicast_group_id", "fragmentation_matrix", "descriptor", "payload", "frag_size",
    "redundancy", "block_ack_delay", "multicast_timeout", "unicast_timeout"]

def members (p : Plan) : List (String × Value) :=
  [("name", .ofString p.name), ("multicast_group_id", ofOption ofUuid p.group),
    ("fragmentation_matrix", ofUInt8 p.matrix), ("descriptor", ofBytes p.descriptor.toList),
    ("payload", ofBytes p.payload), ("frag_size", ofUInt32 p.fragSize),
    ("redundancy", ofUInt32 p.redundancy), ("block_ack_delay", ofUInt32 p.blockAckDelay),
    ("multicast_timeout", ofUInt32 p.multicastTimeout),
    ("unicast_timeout", ofDuration p.unicastTimeout)]

/-- Reads the fields of a plan from a record that has them; how a missing group is taken, the
record's owner says. -/
def ofRecord? (r : Record) (group : Option (Option GroupId)) : Option Plan := do
  return {
    name := ← r.required "name" (·.string?)
    group := ← group
    matrix := ← r.required "fragmentation_matrix" uint8?
    descriptor := ← r.required "descriptor" fourBytes?
    payload := ← r.required "payload" bytes?
    fragSize := ← r.required "frag_size" uint32?
    redundancy := ← r.required "redundancy" uint32?
    blockAckDelay := ← r.required "block_ack_delay" uint32?
    multicastTimeout := ← r.required "multicast_timeout" uint32?
    unicastTimeout := ← r.required "unicast_timeout" duration? }

def json (p : Plan) : Value := .ofMembers p.members

def ofJson? (v : Value) : Option Plan := do
  let r ← Record.read? fields v
  ofRecord? r (r.orElse "multicast_group_id" none (·.nullable? uuid?))

end Plan

namespace Deployment

/-- The fields of a deployment in order. -/
def fields : List String :=
  ["id", "created_at", "updated_at"] ++ Plan.fields ++ ["state", "next_step_after", "retry_count"]

def json (d : Deployment) : Value :=
  .ofMembers ([("id", ofUuid d.id), ("created_at", ofInstant d.createdAt),
    ("updated_at", ofInstant d.updatedAt)] ++ d.plan.members ++
    [("state", d.progress.stage.json), ("next_step_after", ofInstant d.progress.nextStepAfter),
      ("retry_count", ofUInt32 d.progress.retryCount)])

def ofJson? (v : Value) : Option Deployment := do
  let r ← Record.read? fields v
  return {
    id := ← r.required "id" uuid?
    createdAt := ← r.required "created_at" instant?
    updatedAt := ← r.required "updated_at" instant?
    plan := ← Plan.ofRecord? r (r.optional "multicast_group_id" uuid?)
    progress := {
      stage := ← r.required "state" Stage.ofJson?
      nextStepAfter := ← r.required "next_step_after" instant?
      retryCount := ← r.required "retry_count" uint32? } }

end Deployment

/-! ### Devices -/

def DeviceState.json (s : DeviceState) : Value := .ofString s.tag

def DeviceState.ofJson? (v : Value) : Option DeviceState := v.tag?.bind DeviceState.ofTag?

namespace Outcome

def tag : Outcome → String
  | success => "success"
  | error => "error"

def ofTag? (text : String) : Option Outcome := [success, error].find? fun o => o.tag = text

def json (o : Outcome) : Value := .ofString o.tag

def ofJson? (v : Value) : Option Outcome := v.tag?.bind ofTag?

theorem ofTag?_tag (o : Outcome) : ofTag? o.tag = some o := by
  cases o <;> decide

end Outcome

namespace EnrolledDevice

def json (d : EnrolledDevice) : Value :=
  .ofMembers [("dev_eui", ofDevEui d.eui), ("name", .ofString d.name)]

def ofJson? (v : Value) : Option EnrolledDevice := do
  let r ← Record.read? ["dev_eui", "name"] v
  return ⟨← r.required "dev_eui" devEui?, ← r.required "name" (·.string?)⟩

end EnrolledDevice

namespace Participant

/-- The names of the fields in their order. -/
def fields : List String :=
  ["deployment_id", "dev_eui", "device_name", "state", "error_message", "created_at", "updated_at"]

def json (p : Participant) : Value :=
  .ofMembers [("deployment_id", ofUuid p.deployment), ("dev_eui", ofDevEui p.eui),
    ("device_name", .ofString p.name), ("state", p.state.json),
    ("error_message", .ofString p.errorMessage), ("created_at", ofInstant p.createdAt),
    ("updated_at", ofInstant p.updatedAt)]

def ofJson? (v : Value) : Option Participant := do
  let r ← Record.read? fields v
  return {
    deployment := ← r.required "deployment_id" uuid?
    eui := ← r.required "dev_eui" devEui?
    name := ← r.required "device_name" (·.string?)
    state := ← r.required "state" DeviceState.ofJson?
    errorMessage := ← r.required "error_message" (·.string?)
    createdAt := ← r.required "created_at" instant?
    updatedAt := ← r.required "updated_at" instant? }

end Participant

end FirmwareRollout
