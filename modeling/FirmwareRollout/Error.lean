import FirmwareRollout.Device.Participant

/-!
The errors that operations end in, their wording, and the two questions asked of them: does it say
that something is missing, and is trying again worth while?
-/

namespace FirmwareRollout

/-- Why an operation failed. -/
inductive Error where
  /-- The database refused a statement or gave an unreadable answer. -/
  | database (detail : String)
  | deploymentNotFound (deployment : String)
  | deviceNotFound (deployment device : String)
  /-- The device has an outcome already. -/
  | alreadyTerminal (deployment device : String) (state : DeviceState)
  /-- A stored row holds what no deployment or device can have. -/
  | integrity (detail : String)
  /-- The bridge to the network answered that the step did not work. -/
  | collaborator (detail : String)
  /-- The exchange with the bridge broke off. -/
  | http (detail : String)
  | config (detail : String)
  | serialisation (detail : String)
  | internal (detail : String)
deriving DecidableEq, Repr, Inhabited

namespace Error

def message : Error → String
  | database detail => "database error: " ++ detail
  | deploymentNotFound deployment => "deployment not found: " ++ deployment
  | deviceNotFound deployment device =>
    "device " ++ device ++ " not enrolled in deployment " ++ deployment
  | alreadyTerminal deployment device state =>
    "device " ++ device ++ " already " ++ state.tag ++ " in deployment " ++ deployment
  | integrity detail => "storage integrity error: " ++ detail
  | collaborator detail => "collaborator error: " ++ detail
  | http detail => "HTTP error: " ++ detail
  | config detail => "configuration error: " ++ detail
  | serialisation detail => "serialisation error: " ++ detail
  | internal detail => "internal error: " ++ detail

instance : ToString Error := ⟨message⟩

/-- Does the error say that a deployment or a device does not exist? -/
def isNotFound : Error → Bool
  | deploymentNotFound _ | deviceNotFound .. => true
  | _ => false

/-- Does the error say that a device has its outcome already? -/
def isAlreadyTerminal : Error → Bool
  | alreadyTerminal .. => true
  | _ => false

/-- Is the step worth another attempt? -/
def isTransient : Error → Bool
  | collaborator _ | http _ => true
  | _ => false

end Error

end FirmwareRollout
