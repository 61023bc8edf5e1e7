import FirmwareRollout.Bridge.Http
import FirmwareRollout.Database.Session
import FirmwareRollout.Worker.Cycle

/-!
A database server that gives prepared answers, and a worker between such a server and a bridge that
gives every request the same reply.
-/

namespace FirmwareRollout.Bench

open Database

/-- A prepared row: its columns, whatever a statement takes of it. -/
structure Row where
  deployment : DeploymentRow
  device : DeviceRow
  count : Option Int64
deriving DecidableEq

/-- A server with what it is going to answer. -/
structure Server where
  /-- What the statements that ask for rows get, one after the other. -/
  rows : List (List Row)
  /-- How many rows every update says that it has changed. -/
  affected : Nat
  /-- The statement that fails, counted from zero without those that open or end transactions. -/
  failAt : Option Nat
  /-- How many statements have been counted. -/
  counted : Nat
  /-- The statements that were sent, the last one first. -/
  sent : List Statement
deriving DecidableEq

namespace Server

/-- The next prepared rows and the server after them. -/
def takeRows (server : Server) : List Row × Server :=
  (server.rows.headD [], { server with rows := server.rows.tail })

/-- The answer to a statement that does not fail. -/
def supply (server : Server) : (s : Statement) → s.Answer × Server
  | .selectDeployment .. | .selectPending _ | .selectDue .. =>
    let (rows, server) := server.takeRows
    (rows.map (·.deployment), server)
  | .selectDevices .. =>
    let (rows, server) := server.takeRows
    (rows.map (·.device), server)
  | .countDevices _ | .countPending _ =>
    let (rows, server) := server.takeRows
    (rows.map (·.count), server)
  | .selectPendingDevices _ =>
    let (rows, server) := server.takeRows
    (rows.map (·.device.eui), server)
  | .selectDeviceState .. =>
    let (rows, server) := server.takeRows
    (rows.map (·.device.state), server)
  | .updateDeployment _ | .quarantine .. | .updateDevice .. | .failDevices .. =>
    (server.affected, server)
  | .begin | .commit | .rollback | .savepoint | .rollbackToSavepoint | .releaseSavepoint
  | .schema _ | .insertDeployment _ | .insertDevice .. => ((), server)

def answer (server : Server) (s : Statement) : s.Result × Server :=
  let failing := !s.isBracket && server.failAt = some server.counted
  let server := { server with
    sent := s :: server.sent
    counted := if s.isBracket then server.counted else server.counted + 1 }
  if failing then (.error (.database "statement failed"), server)
  else
    let (rows, server) := server.supply s
    (.ok rows, server)

/-- Answers a move of an operation, unless nothing can follow. -/
def follow : (m : Move) → Server → Option (m.Reply × Server)
  | .execute s, server => some (server.answer s)
  | .outOfTime, _ => none

/-- Carries out an operation. There is no result where the operation has broken off. -/
def run {α : Type} (server : Server) (operation : Operation α) : Option (Except Error α) × Server :=
  let (rest, server) := operation.run.advance follow server
  (rest.result?, server)

end Server

/-! ### A worker -/

/-- A server, and the requests that have reached the bridge, the last one first. -/
structure Site where
  server : Server
  requests : List StepRequest
deriving DecidableEq

namespace Site

/-- Answers a call of a worker. `exchange` is what comes of every request. It takes some time, so
that a timeout of zero leaves no time even to send one. -/
def answer (clock : Instant) (timeout : Duration) (exchange : Http.Exchange) :
    (op : WorkerOp) → Site → Option (op.Reply × Site)
  | .store c, site =>
    let (result, server) := site.server.run (perform clock c)
    result.map fun result => (result, { site with server })
  | .send r, site =>
    some ((), if exchange = .refused ∨ timeout.nanos = 0 then site
      else { site with requests := r :: site.requests })
  | .receive r, site =>
    let bridge (_ : StepRequest) := if timeout.nanos = 0 then none else some exchange
    some (Http.execute timeout bridge r, site)

/-- Connects a worker and runs one cycle of it. An error of the cycle ends the cycle, not the
worker. -/
def serveOnce (worker : Worker) (clock : Instant) (timeout : Duration) (exchange : Http.Exchange)
    (reachable : Bool) (site : Site) : Except Error Unit × Site :=
  match site.server.run (connect reachable) with
  | (some (.error e), server) => (.error e, { site with server })
  | (_, server) =>
    (.ok (), ((worker.cycle clock).run.advance (answer clock timeout exchange)
      { site with server }).2)

end Site

end FirmwareRollout.Bench
