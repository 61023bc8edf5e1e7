import FirmwareRollout.Identity.Uuid
import FirmwareRollout.Time.Instant

/-!
A deployment is one rollout of a firmware image to a fleet: a plan that never changes, and the
progress made on it, in stages that follow one another. Main statements: `Stage.ofTag?_tag`, and
`Stage.rank_next?`, which says that a stage leads to the one after it.
-/

namespace FirmwareRollout

/-! ### Stages -/

/-- Where a rollout stands. Every stage but the last asks for one side effect on the network. -/
inductive Stage where
  | multicastSetup
  | fragmentationSetup
  | multicastSessionSetup
  | enqueue
  | waitingTx
  | transmitted
  | statusRequested
  | done
deriving DecidableEq, Repr, Inhabited

namespace Stage

/-- The stages in rollout order. -/
def all : List Stage :=
  [multicastSetup, fragmentationSetup, multicastSessionSetup, enqueue, waitingTx, transmitted,
    statusRequested, done]

/-- The tag of a stage in stored rows, messages and requests. -/
def tag : Stage → String
  | multicastSetup => "MC_SETUP"
  | fragmentationSetup => "FRAG_SESS_SETUP"
  | multicastSessionSetup => "MC_SESS_C_SETUP"
  | enqueue => "ENQUEUE"
  | waitingTx => "WAITING_TX"
  | transmitted => "TRANSMITTED"
  | statusRequested => "STATUS_REQUESTED"
  | done => "DONE"

instance : ToString Stage := ⟨tag⟩

def ofTag? (text : String) : Option Stage := all.find? fun s => s.tag = text

/-- The wording for a text that is no stage's tag. -/
def unknownTag (text : String) : String := "unknown deployment state: " ++ text

/-- The place of a stage in rollout order, from 0. -/
def rank : Stage → Nat
  | multicastSetup => 0
  | fragmentationSetup => 1
  | multicastSessionSetup => 2
  | enqueue => 3
  | waitingTx => 4
  | transmitted => 5
  | statusRequested => 6
  | done => 7

/-- Is the rollout over? -/
def isTerminal (s : Stage) : Bool := s = done

/-- The stage that follows when the side effect of this one is done. -/
def next? : Stage → Option Stage
  | multicastSetup => some fragmentationSetup
  | fragmentationSetup => some multicastSessionSetup
  | multicastSessionSetup => some enqueue
  | enqueue => some waitingTx
  | waitingTx => some transmitted
  | transmitted => some statusRequested
  | statusRequested => some done
  | done => none

theorem mem_all (s : Stage) : s ∈ all := by
  cases s <;> decide

theorem ofTag?_tag (s : Stage) : ofTag? s.tag = some s := by
  cases s <;> decide

theorem eq_tag_of_ofTag? {text : String} {s : Stage} (h : ofTag? text = some s) : text = s.tag := by
  have := List.find?_some h
  exact (of_decide_eq_true this).symm

theorem rank_next? {s t : Stage} (h : s.next? = some t) : t.rank = s.rank + 1 := by
  cases s <;> cases h <;> rfl

theorem next?_eq_none_iff {s : Stage} : s.next? = none ↔ s.isTerminal = true := by
  cases s <;> decide

end Stage

/-! ### Plans and progress -/

/-- What is to be rolled out and how. -/
structure Plan where
  name : String
  /-- The multicast group that the image is sent to; without one the rollout does not start. -/
  group : Option GroupId
  /-- Selects the fragmentation matrix. -/
  matrix : UInt8
  /-- Four bytes that describe the image to the devices. -/
  descriptor : Vector UInt8 4
  /-- The firmware image. -/
  payload : List UInt8
  /-- The size of a fragment in bytes. -/
  fragSize : UInt32
  /-- The number of redundancy fragments. -/
  redundancy : UInt32
  /-- The exponent of the delay for block acknowledgements. -/
  blockAckDelay : UInt32
  /-- The exponent of the length of the multicast session in seconds. -/
  multicastTimeout : UInt32
  /-- How long a single device may take to answer. -/
  unicastTimeout : Duration
deriving DecidableEq

/-- How far a rollout has come. -/
structure Progress where
  stage : Stage
  /-- The earliest time at which the next step may run. -/
  nextStepAfter : Instant
  /-- The failed attempts at the step of this stage. -/
  retryCount : UInt32
deriving DecidableEq

/-- A rollout. -/
structure Deployment where
  id : DeploymentId
  createdAt : Instant
  updatedAt : Instant
  plan : Plan
  progress : Progress
deriving DecidableEq

namespace Deployment

/-- A new rollout of a plan, due at once. The random bytes give its identifier, and `clock` is cut
to the whole microseconds that a store keeps. -/
def start (plan : Plan) (random : Vector UInt8 16) (clock : Instant) : Deployment where
  id := .ofRandom random
  createdAt := clock.floorMicros
  updatedAt := clock.floorMicros
  plan
  progress := ⟨.multicastSetup, clock.floorMicros, 0⟩

/-- A rollout is due when it is not over, has a multicast group and its time has come. -/
def isDue (d : Deployment) (now : Instant) : Bool :=
  !d.progress.stage.isTerminal && d.plan.group.isSome && d.progress.nextStepAfter ≤ now

/-- The order in which due rollouts are taken: by time, then by identifier. -/
def dueBefore (a b : Deployment) : Bool :=
  a.progress.nextStepAfter ≤ b.progress.nextStepAfter &&
    (!decide (b.progress.nextStepAfter ≤ a.progress.nextStepAfter) || rank a.id ≤ rank b.id)

end Deployment

end FirmwareRollout
