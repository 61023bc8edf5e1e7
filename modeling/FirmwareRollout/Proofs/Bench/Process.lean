import FirmwareRollout.Proofs.Bench.Cycle
import FirmwareRollout.Settings.Basic

/-!
A worker process moment by moment, against the loop that runs whole cycles. Time goes on, the
process is asked to stop, a tick begins a cycle, the cycle makes its calls one by one and waits for
each answer, it ends, and the loop sees that it was asked to stop and returns. These moments come in
any order that the process allows, so that the request to stop may fall anywhere: before the first
tick, between two, or while a cycle waits for several answers at once.

What is known of a cycle on its way is that it will end as it would have ended without a break
(`Whole`). One moment keeps this (`Whole.step`), so that a process that has returned leaves the work
of as many whole cycles as it has begun. The other way round, all that the loop can come to is the
outcome of some moments (`leads_loop`).

Main statement: `returns_after_whole_cycles`.
-/

namespace FirmwareRollout

/-! ### All requests before the first answer -/

/-- A call that sends a request. -/
def WorkerOp.IsSend : WorkerOp → Prop
  | send _ => True
  | _ => False

/-- A call that waits for an answer. -/
def WorkerOp.IsReceive : WorkerOp → Prop
  | receive _ => True
  | _ => False

/-- The task sends all of its requests before it waits for the first answer. -/
def SendsFirst {α : Type} : Task α → Prop
  | .done _ => True
  | .step (.receive _) resume => ∀ r, (resume r).Only fun op => ¬ op.IsSend
  | .step _ resume => ∀ r, SendsFirst (resume r)

section SendsFirst

variable {α β : Type}

theorem WorkerOp.IsStore.unsent {op : WorkerOp} (h : op.IsStore) : ¬ op.IsSend := by
  cases op with
  | store c => exact id
  | _ => exact h.elim

theorem WorkerOp.IsStore.unheard {op : WorkerOp} (h : op.IsStore) : ¬ op.IsReceive := by
  cases op with
  | store c => exact id
  | _ => exact h.elim

theorem WorkerOp.IsSend.unheard {op : WorkerOp} (h : op.IsSend) : ¬ op.IsReceive := by
  cases op with
  | send q => exact id
  | _ => exact h.elim

theorem WorkerOp.IsReceive.unsent {op : WorkerOp} (h : op.IsReceive) : ¬ op.IsSend := by
  cases op with
  | receive q => exact id
  | _ => exact h.elim

theorem Program.Only.andThen {kind : WorkerOp → Prop} {task : Fallible α} {f : α → Fallible β}
    (h : task.run.Only kind) (next : ∀ a, (f a).run.Only kind) : (task >>= f).run.Only kind := by
  refine Abides.bind h fun r _ => ?_
  cases r with
  | ok a => exact next a
  | error e => exact trivial

theorem SendsFirst.of_only {task : Task α} (h : task.Only fun op => ¬ op.IsSend) :
    SendsFirst task := by
  induction task with
  | done a => exact trivial
  | step op resume ih =>
    cases op with
    | store c => exact fun r => ih r (h.2 r trivial)
    | send q => exact absurd trivial h.1
    | receive q => exact fun r => h.2 r trivial

theorem SendsFirst.bind {task : Task α} {f : α → Task β}
    (h : task.Only fun op => ¬ op.IsReceive) (next : ∀ a, SendsFirst (f a)) :
    SendsFirst (task.bind f) := by
  induction task with
  | done a => exact next a
  | step op resume ih =>
    cases op with
    | receive q => exact absurd trivial h.1
    | _ => exact fun r => ih r (h.2 r trivial)

theorem SendsFirst.andThen {task : Fallible α} {f : α → Fallible β}
    (h : task.run.Only fun op => ¬ op.IsReceive) (next : ∀ a, SendsFirst (f a).run) :
    SendsFirst (task >>= f).run := by
  refine SendsFirst.bind h fun r => ?_
  cases r with
  | ok a => exact next a
  | error e => exact trivial

theorem SendsFirst.liftThen {task : Task α} {f : α → Fallible β}
    (h : SendsFirst (task.bind fun a => (f a).run)) : SendsFirst (liftM task >>= f).run := by
  have same : (liftM task >>= f).run = task.bind fun a => (f a).run :=
    Program.bind_assoc task _ _
  rwa [same]

theorem only_sends (requests : List StepRequest) :
    Program.Only WorkerOp.IsSend (requests.forM Task.send) := by
  induction requests with
  | nil => exact trivial
  | cons q requests ih => exact ⟨trivial, fun _ _ => ih⟩

theorem only_receives (requests : List StepRequest) :
    Program.Only WorkerOp.IsReceive (requests.mapM Task.receive) := by
  induction requests with
  | nil => exact trivial
  | cons q requests ih =>
    rw [List.mapM_cons]
    refine ⟨trivial, fun r _ => ?_⟩
    show Program.Only _ (Program.bind (requests.mapM Task.receive) _)
    exact ih.bind fun results _ => trivial

theorem offline_commit (summary : Summary) :
    Offline (do let _ ← Task.store .commit; return summary : Fallible Summary).run :=
  (offline_store .commit).andThen fun _ => trivial

/-- **A cycle sends all of its requests before it waits for the first answer.** -/
theorem sendsFirst_cycle (w : Worker) (now : Instant) : SendsFirst (w.cycle now).run := by
  have unheard : ∀ {γ : Type} {task : Task γ}, Offline task →
      task.Only fun op => ¬ op.IsReceive := fun h => h.imp fun _ store => store.unheard
  have unsent : ∀ {γ : Type} {task : Task γ}, Offline task →
      task.Only fun op => ¬ op.IsSend := fun h => h.imp fun _ store => store.unsent
  refine SendsFirst.andThen (unheard (offline_store _)) fun _ => ?_
  refine SendsFirst.andThen (unheard (offline_store _)) fun claimed => ?_
  split
  · exact SendsFirst.of_only (unsent (offline_commit _))
  · have read : Offline (Worker.readPending claimed) :=
      (Worker.within_readPending fun d hd => List.mem_map_of_mem hd).offline
    refine SendsFirst.liftThen (SendsFirst.bind (unheard read) fun work => ?_)
    refine SendsFirst.liftThen ?_
    show SendsFirst (Program.bind (Program.bind (List.forM _ Task.send) _) _)
    rw [Program.bind_assoc]
    refine SendsFirst.bind ((only_sends _).imp fun _ send => send.unheard) fun _ => ?_
    refine SendsFirst.of_only (Program.Abides.bind ((only_receives _).imp fun _ receive =>
      receive.unsent) fun results _ => ?_)
    have settled : Offline (w.settleAll now ((work.map (·.1)).zip results)).run :=
      (Worker.within_settleAll w now fun p hp => List.mem_map.2 ⟨p, hp, rfl⟩).offline
    exact unsent (settled.andThen fun summary => offline_commit _)

end SendsFirst

namespace Bench

/-- A cycle on its way. -/
structure Working where
  /-- The time that the tick after it is meant for. -/
  due : Nat
  desk : Rig.Desk
  /-- What is left of it. -/
  task : Task (Except Error Summary)
  flights : Rig.Flights
  /-- When each request that was sent ends. -/
  ends : List (StepRequest × Nat)

/-- Is the answer to a call there at this time? -/
def Working.atHand (w : Working) (now : Nat) : WorkerOp → Bool
  | .receive q => w.ends.all fun f => f.1 ≠ q || f.2 ≤ now
  | _ => true

/-- What a process is doing. -/
inductive Activity where
  /-- It waits for the tick that is meant for the time `due`. -/
  | waiting (due : Nat)
  | cycling (w : Working)
  | returned

/-- A process and what surrounds it. Times are nanoseconds since its start, on a clock of their own:
what cycles read is another one. -/
structure Process where
  now : Nat
  /-- When it was first asked to stop, by a call or a signal, if it was. -/
  asked : Option Nat
  /-- What the clock reads in the cycles that it has begun, the last one first. -/
  clocks : List Rig.Clock
  rig : Rig
  activity : Activity

/-- Something that happens to a process. -/
inductive Moment where
  | pass (nanos : Nat)
  | ask
  /-- A tick begins a cycle. -/
  | tick (clock : Rig.Clock)
  /-- The cycle makes its next call and gets the answer. -/
  | call
  /-- The cycle has ended. -/
  | finish
  /-- The loop sees that the process was asked to stop. -/
  | observe

namespace Process

/-- A process at its start: the first tick is at once. -/
def start (rig : Rig) : Process := ⟨0, none, [], rig, .waiting 0⟩

/-- What a cycle of a process with these settings leaves, run in one go. -/
def cycled (settings : Settings) (clock : Rig.Clock) (rig : Rig) : Rig :=
  (Rig.wholeCycle settings.worker settings.scheduler.stepTimeout clock rig).2

/-- The cycle of a tick, before its first call. -/
def fresh (settings : Settings) (clock : Rig.Clock) (rig : Rig) (due : Nat) : Working where
  due
  desk := rig.desk settings.scheduler.stepTimeout clock
  task := (settings.worker.cycle clock.now).run
  flights := []
  ends := []

/-- A call of the cycle is answered. -/
def answered (p : Process) (w : Working) (op : WorkerOp)
    (resume : op.Reply → Task (Except Error Summary)) : Process :=
  let (r, rig, flights) := w.desk.answer op (p.rig, w.flights)
  let ends := match op with
    | .send q => (q, p.now + (flights.act q).elapsed w.desk.timeout) :: w.ends
    | _ => w.ends
  { p with rig, activity := .cycling { w with task := resume r, flights, ends } }

/-- A moment later. A moment that cannot be changes nothing. -/
def step (settings : Settings) (p : Process) : Moment → Process
  | .pass nanos => { p with now := p.now + nanos }
  | .ask => { p with asked := some (p.asked.getD p.now) }
  | .tick clock =>
    match p.activity with
    | .waiting due =>
      if due ≤ p.now then
        let next := Serve.nextTick settings.scheduler.pollInterval.nanos due p.now
        { p with
          clocks := clock :: p.clocks, activity := .cycling (fresh settings clock p.rig next) }
      else p
    | _ => p
  | .call =>
    match p.activity with
    | .cycling w =>
      match w.task with
      | .step op resume => if w.atHand p.now op then p.answered w op resume else p
      | .done _ => p
    | _ => p
  | .finish =>
    match p.activity with
    | .cycling w =>
      match w.task with
      | .done _ => { p with rig := p.rig.leave w.desk.home, activity := .waiting w.due }
      | .step .. => p
    | _ => p
  | .observe =>
    match p.activity with
    | .waiting _ => if p.asked.isSome then { p with activity := .returned } else p
    | _ => p

/-- What a process comes to in the course of some moments, the latest first. -/
def after (settings : Settings) (p : Process) : List Moment → Process
  | [] => p
  | m :: h => (after settings p h).step settings m

variable {settings : Settings} {p p' q : Process} {rig : Rig}

theorem after_append (settings : Settings) (p : Process) (h later : List Moment) :
    p.after settings (later ++ h) = (p.after settings h).after settings later := by
  induction later with
  | nil => rfl
  | cons m later ih => exact congrArg (step settings · m) ih

/-! ### Cycles stay whole -/

/-- **A process runs whole cycles.** What it leaves between two cycles is the work of all that it
has begun; and a cycle on its way is going to end as it would have ended if nothing had come between
its calls. -/
def Whole (settings : Settings) (start : Rig) (p : Process) : Prop :=
  match p.activity with
  | .cycling w => ∃ clock clocks rig, p.clocks = clock :: clocks ∧
    clocks.foldr (cycled settings) start = rig ∧
    w.desk = rig.desk settings.scheduler.stepTimeout clock ∧
    w.task.run w.desk.answer (p.rig, w.flights) =
      (settings.worker.cycle clock.now).run.run w.desk.answer (rig, [])
  | _ => p.clocks.foldr (cycled settings) start = p.rig

theorem whole_start (settings : Settings) (rig : Rig) : (start rig).Whole settings rig := rfl

theorem Whole.step {s : Rig} (h : p.Whole settings s) (m : Moment) :
    (p.step settings m).Whole settings s := by
  obtain ⟨now, asked, clocks, rig, activity⟩ := p
  cases activity with
  | returned => cases m <;> exact h
  | waiting due =>
    cases m with
    | tick clock =>
      unfold Process.step
      dsimp only
      split
      · exact ⟨clock, clocks, rig, rfl, h, rfl, rfl⟩
      · exact h
    | observe =>
      unfold Process.step
      dsimp only
      split <;> exact h
    | _ => exact h
  | cycling w =>
    obtain ⟨due, desk, task, flights, ends⟩ := w
    obtain ⟨clock, earlier, before, hclocks, hbefore, hdesk, run⟩ := h
    cases task with
    | done r =>
      cases m with
      | finish =>
        show clocks.foldr (cycled settings) s = rig.leave desk.home
        obtain rfl : clocks = clock :: earlier := hclocks
        obtain rfl : desk = before.desk settings.scheduler.stepTimeout clock := hdesk
        rw [List.foldr_cons, hbefore, cycled, Rig.wholeCycle, ← run]
        rfl
      | _ => exact ⟨clock, earlier, before, hclocks, hbefore, hdesk, run⟩
    | step op resume =>
      cases m with
      | call =>
        unfold Process.step
        dsimp only
        split
        · exact ⟨clock, earlier, before, hclocks, hbefore, hdesk, run⟩
        · exact ⟨clock, earlier, before, hclocks, hbefore, hdesk, run⟩
      | _ => exact ⟨clock, earlier, before, hclocks, hbefore, hdesk, run⟩

theorem Whole.after {s : Rig} (h : p.Whole settings s) (moments : List Moment) :
    (p.after settings moments).Whole settings s := by
  induction moments with
  | nil => exact h
  | cons m moments ih => exact ih.step m

theorem Whole.of_returned {s : Rig} (h : p.Whole settings s) (returned : p.activity = .returned) :
    p.clocks.foldr (cycled settings) s = p.rig := by
  unfold Whole at h
  rw [returned] at h
  exact h

/-- The second process has returned, and has done nothing since the first. -/
structure Over (p p' : Process) : Prop where
  returned : p'.activity = .returned
  clocks : p'.clocks = p.clocks
  rig : p'.rig = p.rig

theorem over_step (returned : p.activity = .returned) (m : Moment) :
    p.Over (p.step settings m) := by
  cases m with
  | pass | ask => exact ⟨returned, rfl, rfl⟩
  | _ =>
    unfold Process.step
    rw [returned]
    exact ⟨returned, rfl, rfl⟩

/-- **A process that has returned does nothing more.** -/
theorem over_after (returned : p.activity = .returned) (later : List Moment) :
    p.Over (p.after settings later) := by
  induction later with
  | nil => exact ⟨returned, rfl, rfl⟩
  | cons m later ih =>
    have last : (p.after settings later).Over (p.after settings (m :: later)) :=
      over_step ih.returned m
    exact ⟨last.returned, last.clocks.trans ih.clocks, last.rig.trans ih.rig⟩

/-! ### The moments of a loop -/

/-- The second process is what some moments make of the first. -/
def Leads (settings : Settings) (p q : Process) : Prop := ∃ h, p.after settings h = q

theorem Leads.refl (settings : Settings) (p : Process) : Leads settings p p := ⟨[], rfl⟩

theorem Leads.trans (first : Leads settings p p') (rest : Leads settings p' q) :
    Leads settings p q := by
  obtain ⟨h, rfl⟩ := first
  obtain ⟨later, rfl⟩ := rest
  exact ⟨later ++ h, after_append settings p h later⟩

theorem Leads.then (first : Leads settings p p') (m : Moment) (same : p'.step settings m = q) :
    Leads settings p q := first.trans ⟨[m], same⟩

/-- A process at a time, if the request to stop comes at the time `stop`. -/
def timed (stop now : Nat) (p : Process) : Process :=
  { p with now, asked := if stop ≤ now then some stop else none }

/-- Time goes on, and on its way the request to stop comes. -/
theorem leads_timed (settings : Settings) (p : Process) {stop now later : Nat} (h : now ≤ later) :
    Leads settings (p.timed stop now) (p.timed stop later) := by
  have pass : ∀ {now later : Nat}, now ≤ later → (stop ≤ now ↔ stop ≤ later) →
      Leads settings (p.timed stop now) (p.timed stop later) := by
    intro now later h same
    refine (Leads.refl settings _).then (.pass (later - now)) ?_
    simp only [step, timed, same, Nat.add_sub_cancel' h]
  by_cases same : stop ≤ now ↔ stop ≤ later
  · exact pass h same
  have reached : stop ≤ later := by omega
  have asked : Leads settings { p with now := stop, asked := none } (p.timed stop stop) := by
    refine (Leads.refl settings _).then .ask ?_
    simp [step, timed]
  refine Leads.trans ?_ (asked.trans (pass reached (by omega)))
  refine (Leads.refl settings _).then (.pass (stop - now)) ?_
  have early : ¬ stop ≤ now := by omega
  simp only [step, timed, early, if_false]
  rw [Nat.add_sub_cancel' (by omega)]

/-! ### The calls of a cycle -/

/-- A process in a cycle. -/
def working (p : Process) (rig : Rig) (w : Working) : Process :=
  { p with rig, activity := .cycling w }

variable {w : Working}

theorem step_call {op : WorkerOp} {resume : op.Reply → Task (Except Error Summary)}
    (task : w.task = .step op resume) (atHand : w.atHand p.now op) :
    (p.working rig w).step settings .call = (p.working rig w).answered w op resume := by
  unfold step working
  simp only [task]
  rw [if_pos atHand]

/-- **From its first answer on**, with all requests ended, a cycle makes its calls without a
break. -/
theorem leads_quiet (quiet : w.task.Only fun op => ¬ op.IsSend)
    (ended : ∀ f ∈ w.ends, f.2 ≤ p.now) :
    (w.task.run w.desk.answer (rig, w.flights)).2.2 = w.flights ∧
    Leads settings (p.working rig w)
      (p.working (w.task.run w.desk.answer (rig, w.flights)).2.1
        { w with task := .done (w.task.run w.desk.answer (rig, w.flights)).1 }) := by
  obtain ⟨due, desk, task, flights, ends⟩ := w
  induction task generalizing rig with
  | done r => exact ⟨rfl, Leads.refl ..⟩
  | step op resume ih =>
    have called : (desk.answer op (rig, flights)).2.2 = flights ∧
        (p.working rig ⟨due, desk, .step op resume, flights, ends⟩).step settings .call =
          p.working (desk.answer op (rig, flights)).2.1
            ⟨due, desk, resume (desk.answer op (rig, flights)).1, flights, ends⟩ := by
      cases op with
      | store c => exact ⟨rfl, step_call rfl rfl⟩
      | send q => exact absurd trivial quiet.1
      | receive q =>
        refine ⟨rfl, step_call rfl (List.all_eq_true.2 fun f hf => ?_)⟩
        simp [ended f hf]
    obtain ⟨same, stepped⟩ := called
    generalize hout : desk.answer op (rig, flights) = out at same stepped
    obtain ⟨r, rig', flights'⟩ := out
    obtain rfl : flights' = flights := same
    obtain ⟨kept, rest⟩ := @ih r rig' (quiet.2 r trivial) ended
    simp only [Program.run, hout]
    exact ⟨kept, Leads.trans ⟨[.call], stepped⟩ rest⟩

theorem length_cons (flight : StepRequest × Act) (flights : Rig.Flights) (timeout : Duration) :
    Rig.Flights.length (flight :: flights) timeout =
      max (flight.2.elapsed timeout) (Rig.Flights.length flights timeout) := by
  have start : ∀ (flights : Rig.Flights) (n : Nat),
      flights.foldl (fun n flight => max n (flight.2.elapsed timeout)) n =
        max n (flights.foldl (fun n flight => max n (flight.2.elapsed timeout)) 0) := by
    intro flights
    induction flights with
    | nil => intro n; exact (Nat.max_zero n).symm
    | cons flight flights ih =>
      intro n
      rw [List.foldl_cons, List.foldl_cons, ih, ih (max 0 _), Nat.zero_max, Nat.max_assoc]
  unfold Rig.Flights.length
  rw [List.foldl_cons, start, Nat.zero_max]

theorem act_cons (q : StepRequest) (act : Act) (flights : Rig.Flights) :
    Rig.Flights.act ((q, act) :: flights) q = act := by
  simp [Rig.Flights.act]

/-- **Its requests a cycle sends all at once**, and then it has its answers when the last of them
has ended. -/
theorem leads_calls {stop fired : Nat} (first : SendsFirst w.task)
    (ended : ∀ f ∈ w.ends, f.2 ≤ fired + w.flights.length w.desk.timeout) :
    ∃ ends, Leads settings ((p.timed stop fired).working rig w)
      ((p.timed stop (fired + (w.task.run w.desk.answer (rig, w.flights)).2.2.length
        w.desk.timeout)).working (w.task.run w.desk.answer (rig, w.flights)).2.1
        { w with
          task := .done (w.task.run w.desk.answer (rig, w.flights)).1
          flights := (w.task.run w.desk.answer (rig, w.flights)).2.2
          ends }) := by
  obtain ⟨due, desk, task, flights, ends⟩ := w
  induction task generalizing rig flights ends with
  | done r => exact ⟨ends, leads_timed settings (p.working rig _) (Nat.le_add_right ..)⟩
  | step op resume ih =>
    cases op with
    | store c =>
      obtain ⟨ends', rest⟩ := @ih (desk.answer (.store c) (rig, flights)).1
        (desk.answer (.store c) (rig, flights)).2.1 flights ends (first _) ended
      exact ⟨ends', Leads.trans ⟨[.call], step_call rfl rfl⟩ rest⟩
    | send q =>
      let act := (rig.script.take (q.deployment, q.stage)).1
      have later : ∀ f ∈ (q, fired + act.elapsed desk.timeout) :: ends,
          f.2 ≤ fired + Rig.Flights.length ((q, act) :: flights) desk.timeout := by
        rw [length_cons]
        refine List.forall_mem_cons.2 ⟨Nat.add_le_add_left (Nat.le_max_left ..) _, fun f hf => ?_⟩
        exact Nat.le_trans (ended f hf) (Nat.add_le_add_left (Nat.le_max_right ..) _)
      obtain ⟨ends', rest⟩ := @ih () (desk.answer (.send q) (rig, flights)).2.1
        ((q, act) :: flights) ((q, fired + act.elapsed desk.timeout) :: ends) (first _) later
      refine ⟨ends', Leads.trans ⟨[.call], (step_call rfl rfl).trans ?_⟩ rest⟩
      simp only [answered, Rig.Desk.answer, Rig.answer, act_cons]
      rfl
    | receive q =>
      have quiet : Program.Only (fun op => ¬ WorkerOp.IsSend op)
          (.step (.receive q) resume : Task (Except Error Summary)) :=
        ⟨not_false, fun r _ => first r⟩
      obtain ⟨kept, rest⟩ := @leads_quiet settings
        (p.timed stop (fired + Rig.Flights.length flights desk.timeout)) rig
        ⟨due, desk, .step (.receive q) resume, flights, ends⟩ quiet ended
      rw [kept]
      exact ⟨ends, (leads_timed settings (p.working rig _) (Nat.le_add_right ..)).trans rest⟩

/-- The cycle that the loop runs at every tick. -/
def cycle (settings : Settings) : Instant × Rig → Nat × Instant × Rig :=
  Rig.runCycle settings.worker settings.scheduler.stepTimeout

/-- **A tick of the loop** is some moments: the cycle begins, runs as in `runCycle` and ends when
its last request has. -/
theorem leads_cycle (settings : Settings) (stop ready : Nat) {due : Nat} (clock : Instant)
    (waiting : p.activity = .waiting due) : ∃ q : Process,
      q.activity = .waiting
        (Serve.nextTick settings.scheduler.pollInterval.nanos due (max due ready)) ∧
      q.rig = (cycle settings (clock, p.rig)).2.2 ∧
      Leads settings (p.timed stop ready)
        (q.timed stop (max due ready + (cycle settings (clock, p.rig)).1)) := by
  let next := Serve.nextTick settings.scheduler.pollInterval.nanos due (max due ready)
  let begun : Process := { p with clocks := .still clock :: p.clocks }
  let w := fresh settings (.still clock) p.rig next
  have begin : (p.timed stop (max due ready)).step settings (.tick (.still clock)) =
      (begun.timed stop (max due ready)).working p.rig w := by
    unfold step timed
    simp only [waiting, if_pos (Nat.le_max_left due ready)]
    rfl
  obtain ⟨ends, calls⟩ := @leads_calls settings begun p.rig w stop (max due ready)
    (sendsFirst_cycle settings.worker clock) nofun
  have ticked := (leads_timed settings p (Nat.le_max_right due ready)).then _ begin
  rw [cycle, Rig.runCycle_eq]
  exact ⟨{ begun with
    rig := cycled settings (.still clock) p.rig, activity := .waiting next },
    rfl, rfl, (ticked.trans calls).then .finish rfl⟩

theorem leads_stop {stop ready now due : Nat} (waiting : p.activity = .waiting due)
    (later : ready ≤ now) (asked : stop ≤ now) :
    ∃ q : Process, Leads settings (p.timed stop ready) q ∧ q.activity = .returned ∧
      q.asked = some stop ∧ q.rig = p.rig := by
  refine ⟨{ p.timed stop now with activity := .returned },
    (leads_timed settings p later).then .observe ?_, rfl, if_pos asked, rfl⟩
  unfold step timed
  simp only [waiting, if_pos asked]
  rfl

/-- **All that the loop can come to** is the outcome of some moments. -/
theorem leads_loop (positive : 0 < settings.scheduler.pollInterval.nanos) (stop : Nat)
    (ties : List Bool) (due ready : Nat) (s : Instant × Rig) : ∀ p : Process,
      p.activity = .waiting due → p.rig = s.2 → ∃ q : Process,
        Leads settings (p.timed stop ready) q ∧ q.activity = .returned ∧ q.asked = some stop ∧
          q.rig = (Serve.loop settings.scheduler.pollInterval.nanos positive (cycle settings) stop
            ties due ready s).2 := by
  fun_induction Serve.loop settings.scheduler.pollInterval.nanos positive (cycle settings) stop ties
    due ready s with
  | case1 ties due ready s fired stopped _ ih =>
    intro p waiting same
    obtain ⟨p', waiting', same', cycled⟩ := leads_cycle settings stop ready s.1 waiting
    rw [same] at same' cycled
    obtain ⟨q, run, rest⟩ := ih p' waiting' same'
    exact ⟨q, cycled.trans run, rest⟩
  | case2 ties due ready s fired stopped =>
    intro p waiting same
    rw [← same]
    exact leads_stop waiting (Nat.le_max_right stop ready) (Nat.le_max_left stop ready)
  | case3 due ready s fired stopped _ _ ties ih =>
    intro p waiting same
    obtain ⟨p', waiting', same', cycled⟩ := leads_cycle settings stop ready s.1 waiting
    rw [same] at same' cycled
    obtain ⟨q, run, rest⟩ := ih p' waiting' same'
    exact ⟨q, cycled.trans run, rest⟩
  | case4 ties due ready s fired stopped =>
    intro p waiting same
    rw [← same]
    exact leads_stop waiting (Nat.le_max_right stop ready) (Nat.le_max_left stop ready)

/-! ### What a process leaves -/

/-- What a process has done that was started in some rig: all cycles that it has begun, one after
the other and none of them in part. -/
structure HasRun (settings : Settings) (rig : Rig) (p : Process) : Prop where
  whole : p.clocks.foldr (cycled settings) rig = p.rig
  /-- Each cycle has asked for all that it had claimed, has settled it and has stored it. -/
  plain : p.clocks.foldr (Rig.plainCycle settings.worker settings.scheduler.stepTimeout) rig = p.rig
  /-- No transaction is left open and no lock is left taken but by others. -/
  transactions : p.rig.world.transactions = rig.world.transactions
  locked : p.rig.world.store.locked = rig.world.store.locked
  /-- Where nobody else is at work, there is no lock at all. -/
  unlocked : rig.world.transactions = .empty → p.rig.world.store.locked = .empty

theorem hasRun_after (faults : rig.faults = []) (reached : rig.world.Reached) {h : List Moment}
    (returned : ((start rig).after settings h).activity = .returned) :
    HasRun settings rig ((start rig).after settings h) := by
  have sound : rig.Sound := ⟨faults, reached⟩
  have whole := ((whole_start settings rig).after h).of_returned returned
  generalize (start rig).after settings h = p at whole
  have plain := (sound.foldr settings.worker settings.scheduler.stepTimeout p.clocks).2.symm.trans
    whole
  obtain ⟨transactions, locked⟩ := Rig.foldr_plainCycle_kept settings.worker
    settings.scheduler.stepTimeout rig p.clocks
  rw [plain] at transactions locked
  refine ⟨whole, plain, transactions, locked, fun alone => locked.trans ?_⟩
  have shared := reached.sound
  unfold World.shared at shared
  rw [alone] at shared
  exact shared.unlocked

/-- **A process returns after whole cycles**, wherever the request to stop falls, whatever the
bridge answers or fails to answer and whatever the clock reads: when it has returned, its work is
that of all cycles that it has begun, and it begins no other. And all that the loop comes to is what
such a process leaves, for each time of the request and each way in which it can coincide with
ticks. -/
theorem returns_after_whole_cycles (polls : settings.scheduler.pollIntervalSecs ≠ 0)
    (faults : rig.faults = []) (reached : rig.world.Reached) :
    (∀ h, ((start rig).after settings h).activity = .returned →
      HasRun settings rig ((start rig).after settings h) ∧
      ∀ later, Over ((start rig).after settings h) ((start rig).after settings (later ++ h))) ∧
    ∀ clock stop ties, ∃ h clock', ((start rig).after settings h).activity = .returned ∧
      ((start rig).after settings h).asked = some stop ∧
      Serve.serve settings.scheduler.pollInterval (cycle settings) stop ties (clock, rig) =
        .ok (clock', ((start rig).after settings h).rig) := by
  refine ⟨fun h returned => ⟨hasRun_after faults reached returned, fun later => ?_⟩,
    fun clock stop ties => ?_⟩
  · rw [after_append]
    exact over_after returned later
  · have positive : 0 < settings.scheduler.pollInterval.nanos := by
      have seconds : 0 < settings.scheduler.pollIntervalSecs.toNat :=
        Nat.pos_of_ne_zero fun h => polls (UInt64.toNat_inj.1 h)
      exact Nat.mul_pos seconds (by decide)
    have started : Leads settings (start rig) ((start rig).timed stop 0) := by
      cases stop with
      | zero => exact ⟨[.ask], rfl⟩
      | succ stop => exact Leads.refl ..
    obtain ⟨q, run, returned, asked, same⟩ :=
      leads_loop positive stop ties 0 0 (clock, rig) (start rig) rfl rfl
    obtain ⟨h, rfl⟩ := started.trans run
    generalize hleft : Serve.loop settings.scheduler.pollInterval.nanos positive (cycle settings)
      stop ties 0 0 (clock, rig) = left at same
    refine ⟨h, left.1, returned, asked, ?_⟩
    rw [Serve.serve, dif_pos positive, hleft, same]

/-- One rollout with one device, and a bridge that never answers. -/
def silent : Rig where
  world := .ofStore (Store.empty.create .sample [⟨⟨Vector.replicate 8 0⟩, "meter"⟩]).2
  faults := []
  script := [((Deployment.sample.id, .multicastSetup), [⟨.silence, 0⟩])]
  sent := []

/-- A process is asked to stop while its first cycle waits for an answer. The cycle goes on when the
time for the answer is over, and the process returns when the cycle has ended. -/
def hanging : List Moment :=
  [.tick (.still .epoch), .call, .call, .call, .call, .pass 1000, .ask, .call, .observe,
    .pass 29999999000, .call, .call, .call, .call, .call, .call, .finish, .observe].reverse

instance (a : Activity) : Decidable (a = .returned) :=
  match a with
  | .waiting _ | .cycling _ => .isFalse nofun
  | .returned => .isTrue rfl

theorem returns_from_hanging_request :
    ({} : Settings).scheduler.pollIntervalSecs ≠ 0 ∧ silent.faults = [] ∧ silent.world.Reached ∧
    ((start silent).after {} hanging).activity = .returned ∧
    HasRun {} silent ((start silent).after {} hanging) ∧
    ((start silent).after {} hanging).clocks.length = 1 ∧
    ((start silent).after {} hanging).rig.world.store.get Deployment.sample.id ≠
      silent.world.store.get Deployment.sample.id ∧
    ∃ h clock', ((start silent).after {} h).asked = some 1000 ∧
      Serve.serve ({} : Settings).scheduler.pollInterval (cycle {}) 1000 [] (.epoch, silent) =
        .ok (clock', ((start silent).after {} h).rig) := by
  have polls : ({} : Settings).scheduler.pollIntervalSecs ≠ 0 := by decide
  have reached : silent.world.Reached := .create .empty _ _
  have returned : ((start silent).after {} hanging).activity = .returned := by
    decide +kernel
  obtain ⟨whole, loop⟩ := returns_after_whole_cycles polls rfl reached
  obtain ⟨h, clock', -, asked, same⟩ := loop .epoch 1000 []
  exact ⟨polls, rfl, reached, returned, (whole hanging returned).1, by decide +kernel,
    by decide +kernel, h, clock', asked, same⟩

end Process

end Bench

end FirmwareRollout
