import FirmwareRollout.Store.Basic
import FirmwareRollout.Store.Call

/-!
Transactions on a store. A transaction locks the rollouts it claims or writes, keeps its writes to
itself until it commits, and sees them over what is committed. Each call is a function of the store
and the transaction; a call that would have to wait for another transaction's lock says so and
changes nothing. Several transactions are open on a store at once, each known by a number (`World`);
one of them may also be given up without a word.
-/

namespace FirmwareRollout

/-- Pairs of identifiers are ordered by the first, then by the second. -/
instance : Ranked (DeploymentId × DevEui) where
  rank k := rank k.1 * 18446744073709551616 + rank k.2
  rank_inj {a b} h := by
    have bound : ∀ e : DevEui, rank e < 18446744073709551616 := fun e => by
      have := Identity.bigEndian_lt e.bytes.toList
      rwa [Vector.length_toList] at this
    have ha := bound a.2
    have hb := bound b.2
    exact Prod.ext (rank_inj (by omega)) (rank_inj (by omega))

/-- An outcome that a transaction has recorded. -/
structure StagedOutcome where
  state : DeviceState
  message : String
  stamp : Instant
deriving DecidableEq

/-- What a transaction has written. -/
structure Staging where
  deployments : Table DeploymentId Deployment
  outcomes : Table (DeploymentId × DevEui) StagedOutcome
deriving DecidableEq

/-- A transaction that has not ended. -/
structure Transaction where
  /-- The rollouts that it has locked. -/
  held : IdSet
  staging : Staging
  /-- What it had written at its savepoint, if it has one. -/
  saved : Option Staging
deriving DecidableEq

namespace Transaction

def fresh : Transaction := ⟨.empty, ⟨.empty, .empty⟩, none⟩

/-! ### What a transaction sees -/

def view (t : Transaction) (s : Store) (id : DeploymentId) : Option Deployment :=
  (t.staging.deployments.find? id).or (s.get id)

/-- The state of a device as the transaction sees it. -/
def deviceState (t : Transaction) (p : Participant) : DeviceState :=
  match t.staging.outcomes.find? (p.deployment, p.eui) with
  | some staged => staged.state
  | none => p.state

/-- The devices of a rollout that have no outcome, in the order of their EUIs. -/
def pendingDevices (t : Transaction) (s : Store) (id : DeploymentId) : List DevEui :=
  ((s.participants id).filter fun p => t.deviceState p = .pending).map (·.eui)

/-! ### Locks -/

def lock (st : Store × Transaction) (id : DeploymentId) : Store × Transaction :=
  ({ st.1 with locked := st.1.locked.insert id () }, { st.2 with held := st.2.held.insert id () })

/-- How asking for a lock ends. -/
inductive Lock where
  | taken
  /-- There is no such rollout. -/
  | absent
  /-- Another transaction has it. -/
  | busy
deriving DecidableEq

/-- What asking for the lock on a rollout comes to. -/
def lockState (s : Store) (t : Transaction) (id : DeploymentId) : Lock :=
  if !s.entries.contains id then .absent
  else if t.held.contains id || !s.locked.contains id then .taken
  else .busy

def unlock (t : Transaction) (s : Store) : Store :=
  { s with locked := t.held.keys.foldl (·.erase ·) s.locked }

/-! ### Calls -/

/-- The rollouts that the transaction may take at a time, in the order in which they are due. -/
def due (s : Store) (t : Transaction) (now : Instant) : List Deployment :=
  ((((s.entries.keys.filter fun id => t.held.contains id || !s.locked.contains id).filterMap
    (t.view s)).filter fun d => d.isDue now).mergeSort Deployment.dueBefore)

/-- Takes and locks the first due rollouts. -/
def claimDue (s : Store) (t : Transaction) (limit : UInt32) (now : Instant) :
    List Deployment × Store × Transaction :=
  let claimed := (due s t now).take limit.toNat
  (claimed, (claimed.map (·.id)).foldl lock (s, t))

def stage (t : Transaction) (id : DeploymentId) (eui : DevEui) (outcome : StagedOutcome) :
    Transaction :=
  { t with staging := { t.staging with outcomes := t.staging.outcomes.insert (id, eui) outcome } }

def write (t : Transaction) (d : Deployment) : Transaction :=
  { t with staging := { t.staging with deployments := t.staging.deployments.insert d.id d } }

/-- Records an outcome, unless the device is unknown or has one. -/
def recordOutcome (s : Store) (t : Transaction) (clock : Instant) (id : DeploymentId)
    (eui : DevEui) (outcome : Outcome) (message : String) : Except Error Unit × Transaction :=
  match s.participant? id eui with
  | none => (.error (.deviceNotFound (toString id) (toString eui)), t)
  | some p =>
    if (t.deviceState p).isTerminal then
      (.error (.alreadyTerminal (toString id) (toString eui) (t.deviceState p)), t)
    else (.ok (), t.stage id eui ⟨outcome.state, message, clock⟩)

/-- Records an error for every device without an outcome, and counts them. -/
def failPending (s : Store) (t : Transaction) (clock : Instant) (id : DeploymentId)
    (message : String) : Nat × Transaction :=
  ((t.pendingDevices s id).length,
    (t.pendingDevices s id).foldl (fun t eui => t.stage id eui ⟨.error, message, clock⟩) t)

/-- A device with a committed outcome: the first one stays. -/
def settle (p : Participant) (staged : StagedOutcome) : Participant :=
  if p.state.isTerminal then p
  else { p with state := staged.state, errorMessage := staged.message, updatedAt := staged.stamp }

/-- What a rollout and its devices become when a transaction commits. -/
def settleEntry (t : Transaction) (id : DeploymentId) (e : Entry) : Entry where
  deployment := (t.staging.deployments.find? id).getD e.deployment
  participants := e.participants.map fun eui p =>
    match t.staging.outcomes.find? (id, eui) with
    | some staged => settle p staged
    | none => p

def commit (s : Store) (t : Transaction) : Store :=
  t.unlock { s with entries := s.entries.map (settleEntry t) }

/-- Carries out a call on a transaction: what it comes to, the store, and the transaction unless the
call ended it. There is none of that where the call has to wait for a lock. `clock` is what the wall
clock reads, which stamps what is written in whole microseconds. -/
def perform (t : Transaction) (s : Store) (clock : Instant) :
    (c : Call) → Option (c.Result × Store × Option Transaction)
  | .begin => some (.ok (), s, some t)
  | .lockedGet id =>
    match lockState s t id with
    | .absent => some (.ok (none : Option Deployment), s, some t)
    | .busy => none
    | .taken =>
      let (s, t) := lock (s, t) id
      some (.ok (t.view s id), s, some t)
  | .claimDue limit now =>
    let (claimed, s, t) := claimDue s t limit now
    some (.ok claimed, s, some t)
  | .update d =>
    match lockState s t d.id with
    | .absent => some (.error (.deploymentNotFound (toString d.id)), s, some t)
    | .busy => none
    | .taken =>
      let (s, t) := lock (s, t) d.id
      let d := { d with updatedAt := clock.floorMicros }
      some (.ok d, s, some (t.write d))
  | .recordOutcome id eui outcome message =>
    let (result, t) := recordOutcome s t clock.floorMicros id eui outcome message
    some (result, s, some t)
  | .pendingDevices id => some (.ok (t.pendingDevices s id), s, some t)
  | .failPending id message =>
    let (n, t) := failPending s t clock.floorMicros id message
    some (.ok n, s, some t)
  | .savepoint => some (.ok (), s, some { t with saved := some t.staging })
  | .rollbackToSavepoint =>
    match t.saved with
    | none => some (.error (.internal "no savepoint to roll back to"), s, some t)
    | some staging => some (.ok (), s, some { t with staging, saved := none })
  | .releaseSavepoint =>
    match t.saved with
    | none => some (.error (.internal "no savepoint to release"), s, some t)
    | some _ => some (.ok (), s, some { t with saved := none })
  | .commit => some (.ok (), commit s t, none)
  | .rollback => some (.ok (), t.unlock s, none)

end Transaction

/-! ### Several transactions -/

/-- What a transaction is known by. -/
abbrev TxId := Nat

instance : Ranked TxId := ⟨id, id⟩

/-- A store and the open transactions on it. -/
structure World where
  store : Store
  transactions : Table TxId Transaction
deriving DecidableEq

namespace World

def ofStore (s : Store) : World := ⟨s, .empty⟩

instance : Inhabited World := ⟨ofStore .empty⟩

/-- Takes over what a call has left of a transaction. -/
def put (w : World) (tx : TxId) (s : Store) : Option Transaction → World
  | some t => ⟨s, w.transactions.insert tx t⟩
  | none => ⟨s, w.transactions.erase tx⟩

/-- Gives up a transaction, if it is open: its writes are lost and its locks are free. -/
def abandon (w : World) (tx : TxId) : World :=
  match w.transactions.find? tx with
  | some t => w.put tx (t.unlock w.store) none
  | none => w

/-- Carries out a call of the transaction `tx`, unless it has to wait for a lock. `begin` opens the
transaction anew. -/
def perform (w : World) (tx : TxId) (clock : Instant) : (c : Call) → Option (c.Result × World)
  | .begin =>
    let w := w.abandon tx
    some (.ok (), w.put tx w.store (some .fresh))
  | c =>
    match w.transactions.find? tx with
    | none => some (.error (.internal "no transaction"), w)
    | some t => (t.perform w.store clock c).map fun (result, s, t) => (result, w.put tx s t)

end World

end FirmwareRollout
