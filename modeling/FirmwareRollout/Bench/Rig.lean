import FirmwareRollout.Bench.Script
import FirmwareRollout.Store.Transaction
import FirmwareRollout.Worker.Cycle

/-!
A rig to run workers in: a store in which faults are planted, a scripted bridge, and a record of
the requests that the bridge has seen. Waiting costs no time here, but decides the order in which
workers that run side by side go on.
-/

namespace FirmwareRollout.Bench

/-- The surroundings of a worker. -/
structure Rig where
  world : World
  faults : List Fault
  script : Script
  /-- The requests that were sent, the last one first. -/
  sent : List StepRequest
deriving DecidableEq

namespace Rig

def empty : Rig := ⟨default, [], [], []⟩

/-- Makes a call of a transaction. There is no result where the call has to wait for a lock. A
commit that fails gives its transaction up. -/
def attempt (rig : Rig) (tx : TxId) (clock : Instant) (c : Call) : Option c.Result × Rig :=
  match Fault.strike c rig.faults with
  | (some error, faults) =>
    (some (.error error), { rig with
      faults, world := if c = .commit then rig.world.abandon tx else rig.world })
  | (none, faults) =>
    match rig.world.perform tx clock c with
    | some (result, world) => (some result, { rig with faults, world })
    | none => (none, { rig with faults })

/-- How a transaction is brought to an end. -/
inductive Ending where
  | commit
  | rollback
  /-- It is given up without a word. -/
  | drop
deriving DecidableEq

def close (rig : Rig) (tx : TxId) (clock : Instant) : Ending → Except Error Unit × Rig
  | .commit =>
    let (result, rig) := rig.attempt tx clock .commit
    (result.getD (.ok ()), rig)
  | .rollback =>
    let (result, rig) := rig.attempt tx clock .rollback
    (result.getD (.ok ()), rig)
  | .drop => (.ok (), { rig with world := rig.world.abandon tx })

/-- Makes a call while another transaction comes to its end: first the call, and if it has to wait,
once more after that end. -/
def attemptBeside (rig : Rig) (tx : TxId) (clock : Instant) (c : Call) (other : TxId)
    (ending : Ending) : Option c.Result × Except Error Unit × Rig :=
  match rig.attempt tx clock c with
  | (some result, rig) =>
    let (closed, rig) := rig.close other clock ending
    (some result, closed, rig)
  | (none, rig) =>
    let (closed, rig) := rig.close other clock ending
    match rig.world.perform tx clock c with
    | some (result, world) => (some result, closed, { rig with world })
    | none => (none, closed, rig)

/-! ### One worker -/

/-- A worker's place in a rig: its transaction, what the clock reads, and the time that a request is
given. -/
structure Seat where
  tx : TxId
  clock : Instant
  timeout : Duration

/-- The requests under way and the act that each has met. -/
abbrev Flights := List (StepRequest × Act)

def Flights.act (flights : Flights) (r : StepRequest) : Act :=
  match flights.find? fun flight => flight.1 = r with
  | some flight => flight.2
  | none => .complete

/-- The nanoseconds until all requests under way have ended. -/
def Flights.length (flights : Flights) (timeout : Duration) : Nat :=
  flights.foldl (fun n flight => max n (flight.2.elapsed timeout)) 0

/-- Answers a call of a worker. A worker writes only what it has claimed, so that it does not wait
for locks; a call that would have to fails. -/
def answer (seat : Seat) : (op : WorkerOp) → Rig × Flights → op.Reply × (Rig × Flights)
  | .store c, (rig, flights) =>
    let (result, rig) := rig.attempt seat.tx seat.clock c
    (result.getD (.error (.internal "lock not free")), rig, flights)
  | .send r, (rig, flights) =>
    let (act, script) := rig.script.take (r.deployment, r.stage)
    ((), { rig with script, sent := r :: rig.sent }, (r, act) :: flights)
  | .receive r, (rig, flights) =>
    (((flights.act r).attempt seat.timeout).result seat.timeout, rig, flights)

/-- Answers a call of a worker, unless the answer takes time. -/
def answerAtOnce (seat : Seat) (op : WorkerOp) (state : Rig × Flights) :
    Option (op.Reply × (Rig × Flights)) :=
  match op with
  | .receive r =>
    if (state.2.act r).elapsed seat.timeout = 0 then some (answer seat _ state) else none
  | op => some (answer seat op state)

/-- Gives up what a worker has left open. -/
def leave (rig : Rig) (seat : Seat) : Rig := { rig with world := rig.world.abandon seat.tx }

/-- A number that no transaction has, nor any larger one. -/
def freeTx (rig : Rig) : TxId := rig.world.transactions.keys.foldl (fun n k => max n (k + 1)) 0

/-- Runs a task to its end: its result, the nanoseconds that it took, and the rig after it. -/
def runAlone {α : Type} (rig : Rig) (seat : Seat) (task : Task α) : α × Nat × Rig :=
  let (result, rig, flights) := task.run (answer seat) (rig, [])
  (result, flights.length seat.timeout, rig.leave seat)

/-- A clock reading a moment later: the next microsecond. -/
def tick (clock : Instant) : Instant := clock.later (.ofNanos 1000)

/-- Runs one cycle of a worker, at a clock that moves on a little with every cycle: the nanoseconds
that it took, the clock and the rig after it. An error ends the cycle and nothing else. -/
def runCycle (worker : Worker) (timeout : Duration) : Instant × Rig → Nat × Instant × Rig
  | (clock, rig) =>
    let (_, elapsed, rig) := rig.runAlone ⟨rig.freeTx, clock, timeout⟩ (worker.cycle clock).run
    (elapsed, tick clock, rig)

/-! ### Workers side by side -/

/-- A worker that may be waiting. -/
structure Running (α : Type) where
  seat : Seat
  task : Task α
  flights : Flights

/-- When a worker that waits goes on, in nanoseconds. -/
def Running.resumes {α : Type} (r : Running α) : Nat := r.flights.length r.seat.timeout

/-- Runs a worker until it has to wait. -/
def start {α : Type} (rig : Rig) (seat : Seat) (task : Task α) : Running α × Rig :=
  match task.advance (answerAtOnce seat) (rig, []) with
  | (.done a, rig, flights) => (⟨seat, .done a, flights⟩, rig.leave seat)
  | (task, rig, flights) => (⟨seat, task, flights⟩, rig)

/-- Runs a worker that has waited to its end. -/
def finish {α : Type} (rig : Rig) (r : Running α) : α × Rig :=
  let (result, rig, _) := r.task.run (answer r.seat) (rig, r.flights)
  (result, rig.leave r.seat)

/-- Starts workers one after the other, each when the one before it waits or has ended. -/
def startAll {α : Type} (rig : Rig) : List (Seat × Task α) → List (Running α) × Rig
  | [] => ([], rig)
  | (seat, task) :: rest =>
    let (running, rig) := rig.start seat task
    let (others, rig) := rig.startAll rest
    (running :: others, rig)

/-- Lets workers go on in the order of a list, each to its end; `place` tells results apart. -/
def finishAll {α : Type} (rig : Rig) : List (Nat × Running α) → List (Nat × α) × Rig
  | [] => ([], rig)
  | (place, running) :: rest =>
    let (result, rig) := rig.finish running
    let (others, rig) := rig.finishAll rest
    ((place, result) :: others, rig)

/-- Runs workers side by side. Those that wait go on in the order in which their waiting ends, at
one time in the order in which they were started. The results are in the order of the workers. -/
def runAbreast {α : Type} (rig : Rig) (tasks : List (Seat × Task α)) : List α × Rig :=
  let (running, rig) := rig.startAll tasks
  let order := ((List.range running.length).zip running).mergeSort
    fun a b => a.2.resumes ≤ b.2.resumes
  let (results, rig) := rig.finishAll order
  ((results.mergeSort fun a b => a.1 ≤ b.1).map (·.2), rig)

end Rig

end FirmwareRollout.Bench
