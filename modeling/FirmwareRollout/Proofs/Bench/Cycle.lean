import FirmwareRollout.Bench.Rig
import FirmwareRollout.Proofs.Store.Savepoint
import FirmwareRollout.Proofs.Worker.Messages
import FirmwareRollout.Proofs.Worker.Refinement
import FirmwareRollout.Proofs.Worker.Within
import FirmwareRollout.Worker.Serve

/-!
A worker's cycle in a rig, from its first call to its last. Where nothing is planted the cycle does
what it does alone (`Refinement`), with the answers that the script has for its requests: the
rollouts that it claims make their steps, their requests are sent, and nothing else changes.
`plainCycle` says this with no word about transactions, locks or programs. The clock may read
anything while a cycle runs: nothing here supposes that it goes forwards, or that it goes on at all.

Main statements: `Sound.wholeCycle_eq`, `Sound.foldr`.
-/

namespace FirmwareRollout

/-! ### Tasks that make calls of one kind -/

namespace Program

variable {Op : Type} {Reply : Op → Type} {α : Type} {kind kind' : Op → Prop}

/-- All calls that the program makes are of one kind, whatever comes of them. -/
abbrev Only (kind : Op → Prop) (p : Program Op Reply α) : Prop :=
  p.Abides kind (fun _ _ => True) fun _ => True

theorem Only.imp {p : Program Op Reply α} (h : p.Only kind) (wider : ∀ op, kind op → kind' op) :
    p.Only kind' := by
  induction p with
  | done a => exact trivial
  | step op resume ih => exact ⟨wider op h.1, fun r hr => ih r (h.2 r hr)⟩

end Program

/-- A call that has nothing to do with the bridge. -/
def WorkerOp.IsStore : WorkerOp → Prop
  | store _ => True
  | _ => False

/-- The task makes calls on the store only. -/
abbrev Offline {α : Type} (task : Task α) : Prop := task.Only WorkerOp.IsStore

theorem offline_store (c : Call) : Offline (Task.store c).run := ⟨trivial, fun _ _ => trivial⟩

theorem Within.offline {α : Type} {ids : List DeploymentId} {task : Task α} (h : Within ids task) :
    Offline task := by
  induction task with
  | done a => exact trivial
  | step op resume ih =>
    cases op with
    | store c => exact ⟨trivial, fun r _ => ih r (h.2.2 r)⟩
    | _ => exact h.elim

namespace Bench.Rig

/-! ### Cycles while the clock goes on -/

/-- What the clock reads during a cycle: at its start, and at each call. No call that reads it is
made twice in a cycle. -/
structure Clock where
  now : Instant
  stamp : Call → Instant

/-- A clock that stands still during a cycle. -/
def Clock.still (now : Instant) : Clock := ⟨now, fun _ => now⟩

/-- A worker's place in a rig in which the clock goes on. -/
structure Desk where
  tx : TxId
  clock : Clock
  timeout : Duration

/-- The seat in which the cycle begins. -/
def Desk.home (desk : Desk) : Seat := ⟨desk.tx, desk.clock.now, desk.timeout⟩

/-- The seat in which a call is made. -/
def Desk.seat (desk : Desk) : WorkerOp → Seat
  | .store c => { desk.home with clock := desk.clock.stamp c }
  | _ => desk.home

def Desk.answer (desk : Desk) (op : WorkerOp) (state : Rig × Flights) :
    op.Reply × (Rig × Flights) := Rig.answer (desk.seat op) op state

/-- The desk of the next cycle in a rig. -/
def desk (timeout : Duration) (clock : Clock) (rig : Rig) : Desk := ⟨rig.freeTx, clock, timeout⟩

/-- One cycle in one go: the nanoseconds that it takes and the rig after it. -/
def wholeCycle (worker : Worker) (timeout : Duration) (clock : Clock) (rig : Rig) : Nat × Rig :=
  let desk := rig.desk timeout clock
  let (_, rig, flights) := (worker.cycle clock.now).run.run desk.answer (rig, [])
  (flights.length timeout, rig.leave desk.home)

/-- With a clock that stands still it is a cycle as the loop runs it. -/
theorem runCycle_eq (worker : Worker) (timeout : Duration) (clock : Instant) (rig : Rig) :
    runCycle worker timeout (clock, rig) = ((wholeCycle worker timeout (.still clock) rig).1,
      tick clock, (wholeCycle worker timeout (.still clock) rig).2) := by
  have same : (rig.desk timeout (.still clock)).answer = answer ⟨rig.freeTx, clock, timeout⟩ := by
    funext op
    cases op <;> rfl
  rw [runCycle, wholeCycle, same]
  rfl

/-! ### Answers -/

/-- Answers every call of a worker. -/
def answers (desk : Desk) (op : WorkerOp) (state : Rig × Flights) :
    Option (op.Reply × (Rig × Flights)) := some (desk.answer op state)

/-- What a task reaches that gets all its answers is what its run leaves. -/
theorem run_of_reaches {α : Type} {desk : Desk} {post : α → Rig × Flights → Prop} {task : Task α}
    {state : Rig × Flights} (h : task.Reaches (answers desk) post state) :
    post (task.run desk.answer state).1 (task.run desk.answer state).2 := by
  induction task generalizing state with
  | done a => exact h
  | step op resume ih =>
    obtain ⟨r, state', reply, rest⟩ := h
    have same : desk.answer op state = (r, state') := Option.some.inj reply
    rw [Program.run, same]
    exact ih _ rest

section Offline

variable {α : Type} {env : Surroundings} {desk : Desk} {rig : Rig} {flights : Flights}
  {post : α → Scene → Prop} {task : Task α} {scene : Scene}

/-- A call on the store that is carried out. -/
theorem answer_of_attempt {c : Call} {r : c.Result} {rig' : Rig}
    (h : rig.attempt desk.tx (desk.clock.stamp c) c = (some r, rig')) :
    desk.answer (.store c) (rig, flights) = (r, rig', flights) := by
  simp only [Desk.answer, Desk.seat, Desk.home, answer, h, Option.getD_some]
  rfl

/-- The rig answers a call on the store as it is answered alone. -/
theorem answer_store (tx : desk.tx = env.tx) (clock : desk.clock.stamp = env.clock)
    (faults : rig.faults = []) {c : Call} {r : c.Result} {scene scene' : Scene}
    (world : rig.world = scene.world)
    (h : FirmwareRollout.answer env .none (.store c) scene = some (r, scene')) :
    scene'.struck = scene.struck ∧
      desk.answer (.store c) (rig, flights) = (r, { rig with world := scene'.world }, flights) := by
  obtain ⟨⟨r', w⟩, hperform, heq⟩ := Option.map_eq_some_iff.1 h
  cases heq
  refine ⟨rfl, answer_of_attempt ?_⟩
  rw [tx, clock]
  simp only [Rig.attempt, faults, Fault.strike]
  rw [world, hperform]

/-- **What a task without requests reaches alone, it reaches in a rig**, and the rest of the rig
stays as it is. -/
theorem reaches_offline (tx : desk.tx = env.tx) (clock : desk.clock.stamp = env.clock)
    (faults : rig.faults = []) (offline : Offline task) (world : rig.world = scene.world)
    (h : task.Reaches (FirmwareRollout.answer env .none) post scene) :
    task.Reaches (answers desk) (fun a state => ∃ scene', post a scene' ∧
      scene'.struck = scene.struck ∧ state = ({ rig with world := scene'.world }, flights))
      (rig, flights) := by
  induction task generalizing rig scene with
  | done a => exact ⟨scene, h, rfl, by rw [← world]⟩
  | step op resume ih =>
    cases op with
    | store c =>
      obtain ⟨r, scene', reply, rest⟩ := h
      obtain ⟨struck, same⟩ := answer_store tx clock faults world reply
      refine ⟨r, _, congrArg some same, ?_⟩
      rw [← struck]
      exact @ih r { rig with world := scene'.world } scene' faults (offline.2 r trivial) rfl rest
    | _ => exact offline.1.elim

/-- The same for a task that is run in a transaction. -/
theorem reaches_runs {w : World} {s : Store} {t : Transaction}
    {post : α → Transaction → List DeploymentId → Prop} (tx : desk.tx = env.tx)
    (clock : desk.clock.stamp = env.clock) (faults : rig.faults = []) (offline : Offline task)
    (h : Runs env .none w s post task t []) :
    task.Reaches (answers desk) (fun a state => ∃ t', post a t' [] ∧
      state = ({ rig with world := w.put env.tx s (some t') }, flights))
      ({ rig with world := w.put env.tx s (some t) }, flights) := by
  refine (reaches_offline tx clock (by exact faults) offline rfl (h 0)).imp fun a state ends => ?_
  obtain ⟨⟨world, made, struck⟩, ⟨t', hworld, hpost⟩, unstruck, rfl⟩ := ends
  cases hworld
  cases unstruck
  exact ⟨t', hpost, rfl⟩

end Offline

/-! ### Requests -/

/-- The rig and the requests under way when one more request is sent. -/
def dispatch (state : Rig × Flights) (q : StepRequest) : Rig × Flights :=
  ({ state.1 with
      script := (state.1.script.take (q.deployment, q.stage)).2, sent := q :: state.1.sent },
    (q, (state.1.script.take (q.deployment, q.stage)).1) :: state.2)

/-- What comes of each request when all are sent. -/
def bridge (flights : Flights) (timeout : Duration) (q : StepRequest) : Attempt :=
  (flights.act q).attempt timeout

/-- What a cycle at this desk meets when all of its requests are under way. -/
def surroundings (desk : Desk) (flights : Flights) : Surroundings :=
  ⟨desk.tx, desk.clock.stamp, desk.timeout, bridge flights desk.timeout⟩

/-- **All requests are sent, then all are answered**, each with the act that it has met. -/
theorem reaches_consult (desk : Desk) (requests : List StepRequest) (state : Rig × Flights) :
    (Worker.consult requests).Reaches (answers desk) (fun results state' =>
      state' = requests.foldl dispatch state ∧
        results = requests.map (surroundings desk state'.2).reply) state := by
  have sent : ∀ (requests : List StepRequest) (state : Rig × Flights),
      (requests.forM Task.send : Task Unit).Reaches (answers desk)
        (fun _ state' => state' = requests.foldl dispatch state) state := by
    intro requests
    induction requests with
    | nil => exact fun state => rfl
    | cons q requests ih => exact fun state => ⟨(), _, rfl, ih _⟩
  refine Program.Reaches.bind (sent requests state) fun _ state' h => ?_
  have received : ∀ requests : List StepRequest,
      (requests.mapM Task.receive : Task (List StepResult)).Reaches (answers desk)
        (fun results state'' => state'' = state' ∧
          results = requests.map (surroundings desk state'.2).reply) state' := by
    intro requests
    induction requests with
    | nil => exact ⟨rfl, rfl⟩
    | cons q requests ih =>
      rw [List.mapM_cons]
      refine ⟨_, _, rfl, ?_⟩
      show Program.Reaches _ _ (Program.bind (requests.mapM Task.receive) _) _
      refine ih.bind fun results state'' hresults => ?_
      obtain ⟨rfl, rfl⟩ := hresults
      exact ⟨rfl, rfl⟩
  refine (received requests).imp fun results state'' hresults => ?_
  obtain ⟨rfl, rfl⟩ := hresults
  exact ⟨h, rfl⟩

/-- Sending has nothing to do with what is stored. -/
theorem foldl_dispatch_world (requests : List StepRequest) (rig : Rig) (flights : Flights)
    (w : World) : requests.foldl dispatch ({ rig with world := w }, flights) =
      ({ (requests.foldl dispatch (rig, flights)).1 with world := w },
        (requests.foldl dispatch (rig, flights)).2) := by
  induction requests generalizing rig flights with
  | nil => rfl
  | cons q requests ih => exact ih (dispatch (rig, flights) q).1 (dispatch (rig, flights) q).2

theorem faults_foldl_dispatch (requests : List StepRequest) (state : Rig × Flights) :
    (requests.foldl dispatch state).1.faults = state.1.faults := by
  induction requests generalizing state with
  | nil => rfl
  | cons q requests ih => exact ih _

/-! ### The cycle -/

/-- Nothing is planted in the rig, and its store is one that can come about. Others may have
transactions open in it. -/
structure Sound (rig : Rig) : Prop where
  faults : rig.faults = []
  reached : rig.world.Reached

/-- The entries of the rollouts that a cycle claims. -/
def claimedEntries (worker : Worker) (now : Instant) (s : Store) : List Entry :=
  (worker.claims s now).filterMap fun d => s.entries.find? d.id

/-- What a cycle leaves: the rollouts that it claims make their steps, with the answers that their
requests meet. -/
def plainCycle (worker : Worker) (timeout : Duration) (clock : Clock) (rig : Rig) : Rig :=
  let es := claimedEntries worker clock.now rig.world.store
  let sent := (es.map Entry.request).foldl dispatch (rig, [])
  let step := worker.stepEntry clock.now (surroundings (rig.desk timeout clock) sent.2)
  { sent.1 with world := ⟨rig.world.store.stepAll (es.map Entry.id) step, rig.world.transactions⟩ }

section Cycle

variable {rig : Rig} {flights : Flights} {desk : Desk} {w : World} {s s' : Store} {t : Transaction}
  {t' : Option Transaction} {c : Call} {worker : Worker} {es : List Entry}

theorem find?_freeTx (rig : Rig) : rig.world.transactions.find? rig.freeTx = none := by
  have bound : ∀ (keys : List TxId) (n : Nat), n ≤ keys.foldl (fun n k => max n (k + 1)) n ∧
      ∀ k ∈ keys, k < keys.foldl (fun n k => max n (k + 1)) n := by
    intro keys
    induction keys with
    | nil => exact fun n => ⟨Nat.le_refl n, nofun⟩
    | cons k keys ih =>
      intro n
      obtain ⟨least, later⟩ := ih (max n (k + 1))
      refine ⟨Nat.le_trans (Nat.le_max_left ..) least, List.forall_mem_cons.2 ⟨?_, later⟩⟩
      exact Nat.lt_of_lt_of_le (Nat.lt_of_succ_le (Nat.le_max_right ..)) least
  cases found : rig.world.transactions.find? rig.freeTx with
  | none => rfl
  | some t =>
    have member : rig.freeTx ∈ rig.world.transactions.keys := by
      rw [Table.mem_keys_iff, Table.contains, found]
      rfl
    exact absurd ((bound rig.world.transactions.keys 0).2 _ member) (Nat.lt_irrefl _)

/-- What a cycle claims is a batch. -/
theorem batch_claimedEntries (keyed : s.Keyed) (worker : Worker) (now : Instant) :
    Batch worker s now (claimedEntries worker now s) := by
  obtain ⟨es, batch⟩ := exists_batch keyed worker now
  have entries : claimedEntries worker now s = es := by
    rw [claimedEntries, ← batch.claims]
    have stored : ∀ e ∈ es, s.entries.find? e.deployment.id = some e := batch.stored
    clear batch
    induction es with
    | nil => rfl
    | cons e es ih =>
      obtain ⟨first, rest⟩ := List.forall_mem_cons.1 stored
      rw [List.map_cons, List.filterMap_cons_some (by exact first), ih rest]
  exact entries ▸ batch

theorem reaches_begin (faults : rig.faults = [])
    (absent : rig.world.transactions.find? desk.tx = none) :
    (Task.store .begin).run.Reaches (answers desk) (fun r state => r = .ok () ∧
      state = ({ rig with world := rig.world.put desk.tx rig.world.store (some .fresh) }, flights))
      (rig, flights) := by
  refine ⟨.ok (), _, congrArg some (answer_of_attempt ?_), rfl, rfl⟩
  simp only [Rig.attempt, faults, Fault.strike, World.perform, World.abandon, absent]

theorem reaches_call {a : c.Answer} (begun : c ≠ .begin) (faults : rig.faults = [])
    (world : rig.world = w.put desk.tx s (some t))
    (perform : t.perform s (desk.clock.stamp c) c = some (.ok a, s', t')) :
    (Task.store c).run.Reaches (answers desk) (fun r state => r = .ok a ∧
      state = ({ rig with world := w.put desk.tx s' t' }, flights)) (rig, flights) := by
  refine ⟨.ok a, _, congrArg some (answer_of_attempt ?_), rfl, rfl⟩
  simp only [Rig.attempt, faults, Fault.strike]
  rw [world, World.perform_put w begun, perform]
  rfl

/-- The rig between the claim and the commit of a cycle that began in the world `w` and has come to
the transaction `t`: the batch is locked, and nothing is stored yet. The rest is as in `rig`. -/
def during (w : World) (tx : TxId) (es : List Entry) (t : Transaction) (rig : Rig) : Rig :=
  { rig with world := w.put tx (w.store.lockAll (es.map Entry.id)) (some t) }

/-- A task of the cycle that has nothing to do with the bridge, and is known to run alone. -/
theorem reaches_during {α : Type} {task : Task α}
    {post : α → Transaction → List DeploymentId → Prop} (sent : Flights)
    (faults : rig.faults = []) (offline : Offline task)
    (runs : Runs (surroundings desk sent) .none w (w.store.lockAll (es.map Entry.id)) post task
      t []) :
    task.Reaches (answers desk) (fun a state => ∃ t', post a t' [] ∧
      state = (during w desk.tx es t' rig, flights)) (during w desk.tx es t rig, flights) :=
  reaches_runs rfl rfl faults offline runs

variable (desk) (batch : Batch worker w.store desk.clock.now es)
include batch

theorem reaches_readPending (keyed : w.store.Keyed) (faults : rig.faults = []) :
    (Worker.readPending (es.map (·.deployment))).Reaches (answers desk) (fun work state =>
      work = es.map (fun e => (e.deployment, e.pendingDevices)) ∧
      state = (during w desk.tx es (.holding (es.map Entry.id)) rig, flights))
      (during w desk.tx es (.holding (es.map Entry.id)) rig, flights) := by
  refine (reaches_during [] faults (Worker.within_readPending_batch es).offline
    (runs_readPending (keyed.congr rfl) (fun _ he => batch.claimed he) batch.nodup)).imp
    fun work state h => ?_
  obtain ⟨t', ⟨hit, -, unstruck, rfl, rfl⟩, rfl⟩ := h
  obtain rfl : hit = [] := by simpa using unstruck.symm
  exact ⟨by rw [List.filter_eq_self.2 (by simp)], rfl⟩

theorem reaches_settleAll (keyed : w.store.Keyed) (faults : rig.faults = []) (sent : Flights) :
    (worker.settleAll desk.clock.now
      (es.map fun e => (e.deployment, (surroundings desk sent).reply e.request))).run.Reaches
      (answers desk) (fun r state => ∃ summary t, r = .ok summary ∧
        Carried (worker.stepEntry desk.clock.now (surroundings desk sent)) es []
          (.holding (es.map Entry.id)) t ∧ state = (during w desk.tx es t rig, flights))
      (during w desk.tx es (.holding (es.map Entry.id)) rig, flights) := by
  have runs : Runs (surroundings desk sent) .none w (w.store.lockAll (es.map Entry.id)) _
      (worker.settleAll desk.clock.now
        (es.map fun e => (e.deployment, (surroundings desk sent).reply e.request))).run
      (.holding (es.map Entry.id)) [] :=
    runs_settleAll (s := w.store.lockAll (es.map Entry.id)) (keyed.congr rfl) worker desk.clock.now
      (fun _ he => batch.claimed he) batch.nodup rfl
  refine (reaches_during sent faults
    (Worker.within_settleAll_batch worker desk.clock.now es _).offline runs).imp fun r state h => ?_
  obtain ⟨t', hpost, rfl⟩ := h
  cases r with
  | error e => exact hpost.elim
  | ok summary =>
    obtain ⟨hit, -, unstruck, carried⟩ := hpost
    obtain rfl : hit = [] := by simpa using unstruck.symm
    exact ⟨summary, t', rfl, carried, rfl⟩

/-- The batch is committed, and the transaction is over. -/
theorem reaches_commit (absent : w.transactions.find? desk.tx = none) (faults : rig.faults = [])
    (step : Entry → Entry) (carried : Carried step es [] (.holding (es.map Entry.id)) t)
    (summary : Summary) :
    (do let _ ← Task.store .commit; return summary : Fallible Summary).run.Reaches (answers desk)
      (fun _ state => state = ({ rig with
        world := ⟨w.store.stepAll (es.map Entry.id) step, w.transactions⟩ }, flights))
      (during w desk.tx es t rig, flights) := by
  refine Program.Reaches.andThen (reaches_call (by simp) faults rfl rfl) (fun _ state h => ?_)
    fun _ _ h => by cases h.1
  obtain ⟨-, rfl⟩ := h
  have all : spared [] (es.map Entry.id) = es.map Entry.id := List.filter_eq_self.2 (by simp)
  have committed := batch.commit carried.held carried.own fun id hid =>
    (Transaction.untouched_holding _ id).sameOn (carried.others id hid)
  rw [all] at committed
  show _ = _
  rw [World.put_none _ absent, committed]
  rfl

end Cycle

/-- **What a cycle reaches**: the update that needs no transaction. -/
theorem Sound.reaches_cycle {rig : Rig} (sound : rig.Sound) (worker : Worker) (timeout : Duration)
    (clock : Clock) :
    (worker.cycle clock.now).run.Reaches (answers (rig.desk timeout clock)) (fun _ state =>
      state.1 = plainCycle worker timeout clock rig) (rig, []) := by
  have keyed : rig.world.store.Keyed := sound.reached.keyed
  have batch := batch_claimedEntries keyed worker clock.now
  have absent := rig.find?_freeTx
  simp only [plainCycle]
  generalize claimedEntries worker clock.now rig.world.store = es at batch
  generalize hdesk : rig.desk timeout clock = desk
  replace absent : rig.world.transactions.find? desk.tx = none := hdesk ▸ absent
  replace batch : Batch worker rig.world.store desk.clock.now es := hdesk ▸ batch
  obtain rfl : desk.clock = clock := hdesk ▸ rfl
  clear hdesk
  refine Program.Reaches.andThen (reaches_begin sound.faults absent)
    (fun _ state h => ?_) fun _ _ h => by cases h.1
  obtain ⟨-, rfl⟩ := h
  refine Program.Reaches.andThen (reaches_call (by simp) sound.faults rfl
    (perform_claimDue worker rig.world.store _ _)) (fun claimed state h => ?_)
    fun _ _ h => by cases h.1
  obtain ⟨hclaimed, rfl⟩ := h
  obtain rfl := Except.ok.inj hclaimed
  rw [← batch.ids, ← batch.claims]
  show Program.Reaches _ _ (ExceptT.run (if _ then _ else _))
    (during rig.world desk.tx es (.holding (es.map Entry.id)) rig, [])
  split
  · next empty =>
    obtain rfl : es = [] := by simpa using empty
    refine (reaches_commit desk batch absent sound.faults
      (worker.stepEntry desk.clock.now (surroundings desk [])) (.nil rfl) {}).imp
      fun r state h => ?_
    rw [h]
    rfl
  · refine Program.Reaches.liftThen (reaches_readPending desk batch keyed sound.faults)
      fun work state h => ?_
    obtain ⟨rfl, rfl⟩ := h
    refine Program.Reaches.liftThen (reaches_consult _ _ _) fun results state h => ?_
    rw [Worker.requests_batch] at h
    obtain ⟨hstate, rfl⟩ := h
    have faults := faults_foldl_dispatch (es.map Entry.request) (rig, [])
    rw [during, foldl_dispatch_world] at hstate
    generalize (es.map Entry.request).foldl dispatch (rig, []) = sent at hstate faults ⊢
    subst hstate
    show Program.Reaches _ _ (ExceptT.run (worker.settleAll desk.clock.now _ >>= _))
      (during rig.world desk.tx es (.holding (es.map Entry.id)) sent.1, sent.2)
    rw [Worker.zip_replies]
    refine Program.Reaches.andThen (reaches_settleAll desk batch keyed (faults.trans sound.faults) _)
      (fun summary state h => ?_) fun _ _ h => ?_
    · obtain ⟨_, t, -, carried, rfl⟩ := h
      refine (reaches_commit desk batch absent (faults.trans sound.faults) _ carried _).imp
        fun r state h => ?_
      rw [h]
    · obtain ⟨_, _, h, -⟩ := h
      cases h

theorem leave_of_absent {rig : Rig} {seat : Seat}
    (absent : rig.world.transactions.find? seat.tx = none) : rig.leave seat = rig := by
  rw [leave, World.abandon, absent]

/-- **A cycle of a rig is the plain update.** -/
theorem Sound.wholeCycle_eq {rig : Rig} (sound : rig.Sound) (worker : Worker) (timeout : Duration)
    (clock : Clock) :
    (wholeCycle worker timeout clock rig).2 = plainCycle worker timeout clock rig := by
  have done := run_of_reaches (sound.reaches_cycle worker timeout clock)
  have absent : ((worker.cycle clock.now).run.run (rig.desk timeout clock).answer
      (rig, [])).2.1.world.transactions.find? rig.freeTx = none := by
    rw [done]
    exact rig.find?_freeTx
  exact (leave_of_absent absent).trans done

/-! ### What a cycle keeps -/

theorem Sound.answer {rig : Rig} (sound : rig.Sound) (desk : Desk) (op : WorkerOp)
    (flights : Flights) : (desk.answer op (rig, flights)).2.1.Sound := by
  cases op with
  | store c =>
    unfold Desk.answer Rig.answer attempt
    simp only [sound.faults, Fault.strike]
    cases performed : rig.world.perform (desk.seat (.store c)).tx (desk.seat (.store c)).clock c with
    | none => exact ⟨rfl, sound.reached⟩
    | some result => exact ⟨rfl, sound.reached.perform performed⟩
  | send q => exact ⟨sound.faults, sound.reached⟩
  | receive q => exact sound

theorem Sound.run {α : Type} {rig : Rig} (sound : rig.Sound) (desk : Desk) (task : Task α)
    (flights : Flights) : (task.run desk.answer (rig, flights)).2.1.Sound := by
  induction task generalizing rig flights with
  | done a => exact sound
  | step op resume ih => exact ih _ (sound.answer desk op flights) _

theorem Sound.wholeCycle {rig : Rig} (sound : rig.Sound) (worker : Worker) (timeout : Duration)
    (clock : Clock) : (wholeCycle worker timeout clock rig).2.Sound := by
  have after := sound.run (rig.desk timeout clock) (worker.cycle clock.now).run []
  exact ⟨after.faults, after.reached.abandon _⟩

/-- **Cycles one after the other** come to as many plain updates. The last one stands first. -/
theorem Sound.foldr {rig : Rig} (sound : rig.Sound) (worker : Worker) (timeout : Duration)
    (clocks : List Clock) :
    (clocks.foldr (fun clock rig => (Rig.wholeCycle worker timeout clock rig).2) rig).Sound ∧
      clocks.foldr (fun clock rig => (Rig.wholeCycle worker timeout clock rig).2) rig =
        clocks.foldr (plainCycle worker timeout) rig := by
  induction clocks with
  | nil => exact ⟨sound, rfl⟩
  | cons clock clocks ih =>
    obtain ⟨before, same⟩ := ih
    rw [List.foldr_cons, List.foldr_cons, ← same]
    exact ⟨before.wholeCycle worker timeout clock, before.wholeCycle_eq worker timeout clock⟩

/-- Plain updates have nothing to do with locks and transactions. -/
theorem foldr_plainCycle_kept (worker : Worker) (timeout : Duration) (rig : Rig)
    (clocks : List Clock) :
    (clocks.foldr (plainCycle worker timeout) rig).world.transactions = rig.world.transactions ∧
      (clocks.foldr (plainCycle worker timeout) rig).world.store.locked =
        rig.world.store.locked := by
  induction clocks with
  | nil => exact ⟨rfl, rfl⟩
  | cons clock clocks ih => exact ih

end Bench.Rig

end FirmwareRollout
