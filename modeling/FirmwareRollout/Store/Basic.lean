import FirmwareRollout.Deployment.Basic
import FirmwareRollout.Device.Participant
import FirmwareRollout.Error
import FirmwareRollout.Table

/-!
A store of rollouts: what is committed, and which rollouts are locked by a transaction that has not
ended. Here are the operations outside of transactions: creating a rollout with its devices, and
reading.
-/

namespace FirmwareRollout

/-- A committed rollout and its devices. -/
structure Entry where
  deployment : Deployment
  participants : Table DevEui Participant
deriving DecidableEq

abbrev IdSet := Table DeploymentId Unit

/-- A store of rollouts. -/
structure Store where
  entries : Table DeploymentId Entry
  locked : IdSet
deriving DecidableEq

namespace Store

def empty : Store := ⟨.empty, .empty⟩

instance : Inhabited Store := ⟨empty⟩

def get (s : Store) (id : DeploymentId) : Option Deployment :=
  (s.entries.find? id).map (·.deployment)

/-- The devices of a rollout, in the order of their EUIs. -/
def participants (s : Store) (id : DeploymentId) : List Participant :=
  match s.entries.find? id with
  | some entry => entry.participants.values
  | none => []

def participant? (s : Store) (id : DeploymentId) (eui : DevEui) : Option Participant :=
  (s.entries.find? id).bind fun entry => entry.participants.find? eui

/-! ### Creating -/

/-- The records of devices that are enrolled together, if none comes twice; else the first that
does. -/
def enrolAll (id : DeploymentId) (clock : Instant) (devices : List EnrolledDevice) :
    Except DevEui (Table DevEui Participant) :=
  devices.foldlM (fun table device =>
    if table.contains device.eui then .error device.eui
    else .ok (table.insert device.eui (.enrol id clock device))) .empty

/-- Stores a new rollout with its devices, all of them pending. Fails and changes nothing if the
identifier is taken or a device comes twice. -/
def create (s : Store) (d : Deployment) (devices : List EnrolledDevice) :
    Except Error Unit × Store :=
  if s.entries.contains d.id then
    (.error (.internal ("deployment " ++ toString d.id ++ " already exists")), s)
  else
    match enrolAll d.id d.createdAt devices with
    | .error eui => (.error (.internal ("device " ++ toString eui ++ " enrolled twice")), s)
    | .ok participants => (.ok (), { s with entries := s.entries.insert d.id ⟨d, participants⟩ })

/-! ### Reading -/

/-- The first `limit` rollouts that are not over, in the order in which they are due. -/
def listPending (s : Store) (limit : UInt32) : List Deployment :=
  ((((s.entries.values.map (·.deployment)).filter fun d => !d.progress.stage.isTerminal).mergeSort
    Deployment.dueBefore).take limit.toNat)

def deviceCount (s : Store) (id : DeploymentId) : Nat := (s.participants id).length

/-- The number of devices of a rollout without an outcome. -/
def pendingCount (s : Store) (id : DeploymentId) : Nat :=
  ((s.participants id).filter Participant.isPending).length

/-- A page of the devices of a rollout, ordered by name and EUI. -/
def listDevices (s : Store) (id : DeploymentId) (limit offset : UInt32) : List Participant :=
  (((s.participants id).mergeSort Participant.listedBefore).drop offset.toNat).take limit.toNat

end Store

end FirmwareRollout
