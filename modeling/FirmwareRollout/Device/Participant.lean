import FirmwareRollout.Identity.DevEui
import FirmwareRollout.Identity.Uuid
import FirmwareRollout.Time.Instant

/-!
Devices in a rollout: as they are enrolled, and the record of each that the store keeps. A device is
pending until an outcome is recorded, then success or error for good.
-/

namespace FirmwareRollout

/-- The outcome of a rollout for one device. -/
inductive Outcome where
  | success
  | error
deriving DecidableEq, Repr, Inhabited

/-- What is known of a device. -/
inductive DeviceState where
  | pending
  | success
  | error
deriving DecidableEq, Repr, Inhabited

/-- The state that an outcome leaves a device in. -/
def Outcome.state : Outcome → DeviceState
  | success => .success
  | error => .error

namespace DeviceState

/-- All states. -/
def all : List DeviceState := [pending, success, error]

/-- The tag of a state in stored rows and messages. -/
def tag : DeviceState → String
  | pending => "PENDING"
  | success => "SUCCESS"
  | error => "ERROR"

instance : ToString DeviceState := ⟨tag⟩

def ofTag? (text : String) : Option DeviceState := all.find? fun s => s.tag = text

/-- The wording for a text that is no state's tag. -/
def unknownTag (text : String) : String := "unknown device state: " ++ text

/-- Is the outcome known? -/
def isTerminal (s : DeviceState) : Bool := s ≠ pending

theorem ofTag?_tag (s : DeviceState) : ofTag? s.tag = some s := by
  cases s <;> decide

theorem eq_tag_of_ofTag? {text : String} {s : DeviceState} (h : ofTag? text = some s) :
    text = s.tag := by
  have := List.find?_some h
  exact (of_decide_eq_true this).symm

theorem isTerminal_outcome (o : Outcome) : o.state.isTerminal = true := by
  cases o <;> rfl

end DeviceState

/-! ### Enrolment -/

/-- A device to be enrolled. -/
structure EnrolledDevice where
  eui : DevEui
  name : String
deriving DecidableEq

/-- The part of one device in a rollout. -/
structure Participant where
  deployment : DeploymentId
  eui : DevEui
  name : String
  state : DeviceState
  /-- What went wrong. -/
  errorMessage : String
  createdAt : Instant
  updatedAt : Instant
deriving DecidableEq

namespace Participant

/-- The record of a device that has just been enrolled. -/
def enrol (deployment : DeploymentId) (clock : Instant) (device : EnrolledDevice) :
    Participant where
  deployment
  eui := device.eui
  name := device.name
  state := .pending
  errorMessage := ""
  createdAt := clock
  updatedAt := clock

/-- Is the outcome still unknown? -/
def isPending (p : Participant) : Bool := p.state = .pending

/-- The names compared as byte strings, then the identifiers: the order of listings. -/
def listedBefore (a b : Participant) : Bool :=
  a.name < b.name || (a.name = b.name && rank a.eui ≤ rank b.eui)

end Participant

end FirmwareRollout
