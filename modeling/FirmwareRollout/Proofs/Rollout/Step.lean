import FirmwareRollout.Bridge.Message
import FirmwareRollout.Rollout.Transition
import FirmwareRollout.Store.Basic

/-!
The step of one rollout as a plain update of its entry, and of a store as the steps of some of its
rollouts, each on its own. The reports on devices are taken over first, then the transition is
computed from the number of devices that are still pending, and where it gives the rollout up these
devices are given up with it. No transaction, lock or savepoint has a part in this.
-/

namespace FirmwareRollout

/-- What the clock reads when the records that a step changes are written. -/
structure Stamps where
  heard : DeviceReport → Instant
  givenUp : String → Instant
  written : Deployment → Instant

/-! ### Devices -/

namespace Participant

/-- A device that is no longer pending. -/
def close (p : Participant) (state : DeviceState) (message : String) (stamp : Instant) : Participant :=
  { p with state, errorMessage := message, updatedAt := stamp }

/-- A pending device gets the outcome of the first report on it. -/
def hear (stamps : Stamps) (reports : List DeviceReport) (p : Participant) : Participant :=
  match reports.find? fun r => r.eui = p.eui with
  | some r => if p.isPending then p.close r.outcome.state r.message (stamps.heard r) else p
  | none => p

/-- A pending device is given up, if there is a message to give it up with. -/
def giveUp (stamps : Stamps) (message? : Option String) (p : Participant) : Participant :=
  match message? with
  | some message => if p.isPending then p.close .error message (stamps.givenUp message) else p
  | none => p

theorem eui_hear (stamps : Stamps) (reports : List DeviceReport) (p : Participant) :
    (p.hear stamps reports).eui = p.eui := by
  unfold hear
  split
  · split <;> rfl
  · rfl

/-- The devices that are still pending after reports are those that were not reported. -/
theorem isPending_hear (stamps : Stamps) (reports : List DeviceReport) (p : Participant) :
    (p.hear stamps reports).isPending = (p.isPending && decide (p.eui ∉ reports.map (·.eui))) := by
  unfold hear
  split
  · next r found =>
    have reported : p.eui ∈ reports.map (·.eui) := by
      have heui := List.find?_some found
      exact List.mem_map.2 ⟨r, List.mem_of_find?_eq_some found, by simpa using heui⟩
    split
    · cases r.outcome <;> simp [isPending, close, Outcome.state, reported]
    · next settled => simp [settled]
  · next none =>
    have silent : p.eui ∉ reports.map (·.eui) := by simpa [List.find?_eq_none] using none
    simp only [silent, not_false_eq_true, decide_true, Bool.and_true]

theorem giveUp_of_settled (stamps : Stamps) (message? : Option String) {p : Participant}
    (settled : p.isPending = false) : p.giveUp stamps message? = p := by
  cases message? with
  | none => rfl
  | some message => simp [giveUp, settled]

end Participant

/-! ### Rollouts -/

namespace Entry

def id (e : Entry) : DeploymentId := e.deployment.id

/-- The devices without an outcome, in the order of their EUIs. -/
def pendingDevices (e : Entry) : List DevEui :=
  (e.participants.values.filter Participant.isPending).map (·.eui)

/-- The request for the step that the rollout stands at. -/
def request (e : Entry) : StepRequest := .ofDeployment e.deployment e.pendingDevices

/-- The rollout after the reports on its devices. -/
def hear (stamps : Stamps) (reports : List DeviceReport) (e : Entry) : Entry :=
  { e with participants := e.participants.map fun _ p => p.hear stamps reports }

theorem pendingDevices_hear (stamps : Stamps) (reports : List DeviceReport) (e : Entry) :
    (e.hear stamps reports).pendingDevices =
      e.pendingDevices.filter fun eui => eui ∉ reports.map (·.eui) := by
  unfold pendingDevices hear
  rw [Table.values_map, List.filter_map, List.map_map, List.filter_map, List.filter_filter]
  have euis : (fun p : Participant => p.eui) ∘ Participant.hear stamps reports = fun p => p.eui :=
    funext fun p => p.eui_hear stamps reports
  rw [euis]
  congr 1
  refine List.filter_congr fun p _ => ?_
  show (p.hear stamps reports).isPending = _
  rw [Participant.isPending_hear, Bool.and_comm]
  rfl

/-- Where the step leads, with the devices that are pending after the reports. -/
def transition (m : Machine) (now : Instant) (stamps : Stamps) (result : StepResult) (e : Entry) :
    Transition :=
  m.transition e.deployment.plan e.deployment.progress result.outcome now
    (e.hear stamps result.devices).pendingDevices.length

/-- **The step of one rollout**, by what came of its request. -/
def step (m : Machine) (now : Instant) (stamps : Stamps) (result : StepResult) (e : Entry) : Entry :=
  let t := e.transition m now stamps result
  { deployment := { t.apply e.deployment with updatedAt := stamps.written (t.apply e.deployment) }
    participants := (e.hear stamps result.devices).participants.map fun _ p =>
      p.giveUp stamps t.failOutstanding }

theorem find?_participants_step (m : Machine) (now : Instant) (stamps : Stamps)
    (result : StepResult) (e : Entry) (eui : DevEui) :
    (e.step m now stamps result).participants.find? eui =
      (e.participants.find? eui).map fun p => (p.hear stamps result.devices).giveUp stamps
        (e.transition m now stamps result).failOutstanding := by
  unfold step hear
  rw [Table.find?_map, Table.find?_map, Option.map_map]
  rfl

end Entry

/-! ### Stores -/

namespace Store

/-- The rollouts that are due, in the order of their times and identifiers. -/
def dueAt (s : Store) (now : Instant) : List Deployment :=
  ((s.entries.values.map (·.deployment)).filter fun d => d.isDue now).mergeSort Deployment.dueBefore

/-- The rollouts of a list make a step, and all others stay. -/
def stepAll (s : Store) (ids : List DeploymentId) (step : Entry → Entry) : Store :=
  { s with entries := s.entries.map fun id e => if id ∈ ids then step e else e }

theorem find?_stepAll (s : Store) (ids : List DeploymentId) (step : Entry → Entry)
    (id : DeploymentId) : (s.stepAll ids step).entries.find? id =
      if id ∈ ids then (s.entries.find? id).map step else s.entries.find? id := by
  unfold stepAll
  rw [Table.find?_map]
  by_cases hid : id ∈ ids
  · simp only [if_pos hid]
  · simp only [if_neg hid, Option.map_id']

end Store

end FirmwareRollout
