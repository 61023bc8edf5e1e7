import FirmwareRollout.Deployment.Basic
import FirmwareRollout.Device.Participant
import FirmwareRollout.Error

/-!
The calls that a transaction on a store offers, as data, and the type of each call's answer. What is
written against these calls works with any store that answers them.
-/

namespace FirmwareRollout

/-- A call of a transaction. -/
inductive Call where
  /-- Opens the transaction. -/
  | begin
  /-- The rollout of that identifier, locked for the rest of the transaction. -/
  | lockedGet (id : DeploymentId)
  /-- At most `limit` rollouts that are due and that nobody else has locked, now locked. -/
  | claimDue (limit : UInt32) (now : Instant)
  /-- Stores a rollout in place of the one with its identifier. -/
  | update (deployment : Deployment)
  /-- Records the outcome of a device that has none. -/
  | recordOutcome (id : DeploymentId) (eui : DevEui) (outcome : Outcome) (message : String)
  /-- The devices of a rollout that have no outcome. -/
  | pendingDevices (id : DeploymentId)
  /-- Records an error for every device that has no outcome. -/
  | failPending (id : DeploymentId) (message : String)
  /-- Marks the point that writes can be taken back to. -/
  | savepoint
  /-- Takes back what was written since the savepoint. -/
  | rollbackToSavepoint
  /-- Forgets the savepoint. -/
  | releaseSavepoint
  /-- Makes what was written last, and ends the transaction. -/
  | commit
  /-- Takes back all that was written, and ends the transaction. -/
  | rollback
deriving DecidableEq

namespace Call

/-- The type of a call's answer when it succeeds. -/
def Answer : Call → Type
  | lockedGet _ => Option Deployment
  | claimDue .. => List Deployment
  | update _ => Deployment
  | pendingDevices _ => List DevEui
  | failPending .. => Nat
  | begin | recordOutcome .. | savepoint | rollbackToSavepoint | releaseSavepoint | commit
  | rollback => Unit

/-- What a call comes to. -/
abbrev Result (c : Call) : Type := Except Error c.Answer

/-- The rollout that a call is about, if it is about one. -/
def deployment? : Call → Option DeploymentId
  | lockedGet id | recordOutcome id .. | pendingDevices id | failPending id _ => some id
  | update d => some d.id
  | _ => none

end Call

end FirmwareRollout
