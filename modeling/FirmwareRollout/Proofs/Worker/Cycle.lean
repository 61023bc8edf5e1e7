import FirmwareRollout.Proofs.Store.Versions
import FirmwareRollout.Proofs.Worker.Careful

/-!
What a worker's cycle writes. What it has claimed it holds until its transaction ends, so that the
records it reads are those that its writes replace (`Holding`); a rollout that it ends has had its
pending devices failed, or has none (`Covering`). No call has to succeed for this: every part of the
cycle keeps what was claimed, whatever comes of its calls.

Main statements: `careful_cycle`, `careful_recordOutcome`.
-/

namespace FirmwareRollout.Worker

variable {law : Deployment → Deployment → Prop} {x : Option Transaction} {s : Store}
  {ds : List Deployment} {d : Deployment} {w : Worker} {now : Instant}

/-! ### Writing what came of a step -/

theorem keeps_recordReports (id : DeploymentId) (reports : List DeviceReport) :
    Keeps law ds (recordReports id reports) := by
  induction reports with
  | nil => exact .pure 0
  | cons r rest ih =>
    refine .bind (.outcome (.store (by simp) (by simp))) fun result => ?_
    cases result with
    | ok => exact .bind ih fun n => .pure (n + 1)
    | error e =>
      show Keeps law ds (if _ then _ else _)
      split
      · exact ih
      · exact .throw e

/-- The pending devices as the task reads them: if there are none, none is left out. -/
theorem careful_pendingDevices (h : Holding ds x s) (id : DeploymentId) :
    Careful law (fun r x s => Holding ds x s ∧ (r = .ok [] → Covering id x s))
      (Task.store (.pendingDevices id)).run x s := by
  refine careful_store h (by simp) (fun _ _ => permits_of_ne (by simp)) ?_
  intro s' later holding r x' s'' response holding'
  refine ⟨holding', fun empty => ?_⟩
  cases response with
  | refused e => cases empty
  | carried working keyed confined perform honest =>
    cases perform
    rintro t ⟨⟩
    exact Transaction.covers_of_pendingDevices keyed (Except.ok.inj (honest _ empty))
  | ended r s' ends => simp at ends

theorem careful_failOutstanding (h : Holding ds x s) (id : DeploymentId) (message : String) :
    Careful law (fun r x s => Holding ds x s ∧ ∀ u, r = .ok u → Covering id x s)
      (failOutstanding id (some message)).run x s := by
  have failed : Careful law (fun r x s => Holding ds x s ∧ ∀ n, r = .ok n → Covering id x s)
      (Task.store (.failPending id message)).run x s := by
    refine careful_store h (by simp) (fun _ _ => permits_of_ne (by simp)) ?_
    intro s' later holding r x' s'' response holding'
    refine ⟨holding', fun n hn => ?_⟩
    cases response with
    | refused e => cases hn
    | carried working keyed confined perform honest =>
      cases perform
      rintro t ⟨⟩
      exact Transaction.covers_stageAll_pendingDevices keyed _
    | ended r s' ends => simp at ends
  exact Careful.andThen failed (fun n _ _ hn => ⟨hn.1, fun _ _ => hn.2 n rfl⟩)
    fun _ _ _ he => ⟨he.1, nofun⟩

/-- What a transition says of the devices that are pending is done before the rollout is written. -/
theorem careful_close (h : Holding ds x s) (unfinished : d.progress.stage.isTerminal = false)
    {outcome : StepOutcome} {pending : Nat} (empty : pending = 0 → Covering d.id x s) :
    let t := w.machine.transition d.plan d.progress outcome now pending
    Careful law (fun r x s => Holding ds x s ∧ ∀ u, r = .ok u → t.isDone → Covering d.id x s)
      (failOutstanding d.id t.failOutstanding).run x s := by
  intro t
  have closes : t.isDone → t.failOutstanding.isSome ∨ pending = 0 :=
    Machine.pending_of_isDone unfinished
  cases message : t.failOutstanding with
  | none =>
    refine ⟨h, fun _ _ done => empty ((closes done).resolve_left ?_)⟩
    show ¬ t.failOutstanding.isSome
    simp [message]
  | some text =>
    exact (careful_failOutstanding h d.id text).imp
      fun r x s hr => ⟨hr.1, fun u hu _ => hr.2 u hu⟩

/-- **What comes of a step is one transition** of the rollout as it is stored. -/
theorem keeps_persist (hd : d ∈ ds) (due : d.isDue now) (result : StepResult) :
    Keeps (w.machine.Moves now) ds (w.persist now d result) := by
  refine .bind (keeps_recordReports d.id result.devices) fun recorded x s holding => ?_
  refine Careful.andThen (careful_pendingDevices holding d.id) (fun euis x s hread => ?_)
    fun _ _ _ he => he.1
  obtain ⟨holding, hempty⟩ := hread
  have empty : euis.length = 0 → Covering d.id x s :=
    fun h => hempty (congrArg _ (List.eq_nil_of_length_eq_zero h))
  refine Careful.andThen (careful_close holding (Deployment.unfinished_of_isDue due) empty)
    (fun _ x s hclosed => ?_) fun _ _ _ he => he.1
  obtain ⟨holding, covered⟩ := hclosed
  have permits : ∀ s', Later x s s' → Permits (w.machine.Moves now) x s' (.update
      ((w.machine.transition d.plan d.progress result.outcome now euis.length).apply d)) := by
    intro s' later t d' hx hd'
    cases hd'
    -- the rollout is held since it was claimed, so that its record is still the one that was read
    have stored := (holding.later later).stored hd
    refine ⟨d, stored, fun clock => ⟨due, result.outcome, euis.length, clock, rfl⟩,
      fun finished => ?_⟩
    exact (covered () rfl finished).later (holding.stored hd) later t hx
  refine Careful.andThen (careful_store holding (by simp) permits
    fun _ _ _ _ _ _ holding => holding) (fun _ _ _ holding => holding) fun _ _ _ holding => holding

theorem keeps_settle (hd : d ∈ ds) (due : d.isDue now) (result : StepResult) :
    Keeps (w.machine.Moves now) ds (w.settle now d result) := by
  refine .bind (.store (by simp) (by simp)) fun _ => ?_
  refine .bind (.outcome (keeps_persist hd due result)) fun r => ?_
  cases r with
  | ok summary => exact .bind (.store (by simp) (by simp)) fun _ => .pure summary
  | error e => exact .bind (.store (by simp) (by simp)) fun _ => .pure _

theorem keeps_settleAll (due : ∀ d ∈ ds, d.isDue now) (work : List (Deployment × StepResult))
    (claimed : ∀ p ∈ work, p.1 ∈ ds) :
    Keeps (w.machine.Moves now) ds (w.settleAll now work) := by
  induction work with
  | nil => exact .pure _
  | cons p rest ih =>
    obtain ⟨hd, hrest⟩ := List.forall_mem_cons.1 claimed
    exact .bind (keeps_settle hd (due _ hd) p.2) fun summary =>
      .bind (ih hrest) fun others => .pure (summary.add others)

/-! ### Asking the bridge -/

theorem careful_readPending (h : Holding ds x s) (claimed : List Deployment) :
    Careful law (fun work x s => Holding ds x s ∧ ∀ p ∈ work, p.1 ∈ claimed)
      (readPending claimed) x s := by
  induction claimed generalizing x s with
  | nil => exact ⟨h, List.forall_mem_nil _⟩
  | cons d rest ih =>
    refine Careful.bind (Keeps.store (c := .pendingDevices d.id) (by simp) (by simp) x s h)
      fun pending x s holding => ?_
    refine Careful.bind (ih holding) fun others x s hothers => ?_
    obtain ⟨holding, among⟩ := hothers
    have behind : ∀ p ∈ others, p.1 ∈ d :: rest := fun p hp => List.mem_cons_of_mem _ (among p hp)
    cases pending with
    | ok euis => exact ⟨holding, List.forall_mem_cons.2 ⟨List.mem_cons_self, behind⟩⟩
    | error e => exact ⟨holding, behind⟩

/-- The bridge has no part in the store. -/
theorem careful_consult {P : Option Transaction → Store → Prop} (h : P x s)
    (requests : List StepRequest) : Careful law (fun _ x s => P x s) (consult requests) x s := by
  have sent : ∀ requests : List StepRequest,
      Careful law (fun _ x s => P x s) (requests.forM Task.send) x s := by
    intro requests
    induction requests with
    | nil => exact h
    | cons q requests ih => exact ih
  refine Careful.bind (sent requests) fun _ x s h => ?_
  induction requests with
  | nil => exact h
  | cons q requests ih =>
    rw [List.mapM_cons]
    intro r
    show Careful law _ (Program.bind (requests.mapM Task.receive) _) x s
    exact Careful.bind ih fun _ _ _ h => h

/-! ### The cycle -/

theorem careful_begin (s : Store) :
    Careful law (fun r x _ => ∀ u, r = .ok u → x = some .fresh) (Task.store .begin).run none s := by
  refine fun s' _ => ⟨permits_of_ne (by simp), fun r x' s'' response u hu => ?_⟩
  cases response with
  | refused e => cases hu
  | opened => rfl
  | carried working => cases working
  | ended r s' ends => simp at ends

/-- What is claimed in a fresh transaction is held and due, and is what is stored. -/
theorem careful_claim (limit : UInt32) (now : Instant) (s : Store) :
    Careful law (fun r x s => ∀ ds, r = .ok ds → Holding ds x s ∧ ∀ d ∈ ds, d.isDue now)
      (Task.store (.claimDue limit now)).run (some .fresh) s := by
  refine fun s' _ => ⟨permits_of_ne (by simp), fun r x' s'' response ds hds => ?_⟩
  cases response with
  | refused e => cases hds
  | carried working keyed confined perform honest =>
    cases working
    obtain rfl := honest ds hds
    have effect := Transaction.perform_effect keyed confined perform
    refine ⟨⟨_, rfl, fun d hd => ⟨?_, ?_⟩⟩, fun d hd => ?_⟩
    · have given : d.id ∈ Call.given (.claimDue limit now) (.ok ds) := List.mem_map_of_mem hd
      obtain ⟨t', ht', held⟩ := Transaction.held_of_given keyed confined perform given
      cases ht'
      exact held
    · have stored := Transaction.stored_of_rows keyed confined perform hd rfl
      exact (Store.get_congr effect.entries _).trans stored
    · cases perform
      exact (Transaction.of_mem_claimDue keyed confined hd).2.2
  | ended r s' ends => simp at ends

/-- **A cycle writes transitions**, at its own time, of the rollouts as they are stored. -/
theorem careful_cycle (w : Worker) (now : Instant) (s : Store) :
    Careful (w.machine.Moves now) (fun _ _ _ => True) (w.cycle now).run none s := by
  refine Careful.andThen (careful_begin s) (fun _ x s hbegun => ?_) fun _ _ _ _ => trivial
  obtain rfl := hbegun () rfl
  refine Careful.andThen (careful_claim w.batchSize now s) (fun claimed x s hclaimed => ?_)
    fun _ _ _ _ => trivial
  obtain ⟨holding, due⟩ := hclaimed claimed rfl
  have commit : ∀ (summary : Summary) x s, Careful (w.machine.Moves now) (fun _ _ _ => True)
      ((do let _ ← Task.store .commit; return summary : Fallible Summary)).run x s :=
    fun summary x s => Careful.andThen (careful_read x s (by simp)) (fun _ _ _ _ => trivial)
      fun _ _ _ _ => trivial
  show Careful _ _ (ExceptT.run (if _ then _ else _)) x s
  split
  · exact commit {} x s
  · refine Careful.liftThen (careful_readPending holding claimed) fun work x s hwork => ?_
    refine Careful.liftThen (careful_consult hwork.1 _) fun results x s holding => ?_
    have among : ∀ p ∈ (work.map (·.1)).zip results, p.1 ∈ claimed := by
      rintro ⟨d, result⟩ hp
      obtain ⟨p, mem, rfl⟩ := List.mem_map.1 (List.of_mem_zip hp).1
      exact hwork.2 p mem
    refine Careful.andThen (keeps_settleAll due _ among x s holding)
      (fun summary x s _ => ?_) fun _ _ _ _ => trivial
    exact commit _ x s

/-- Recording an outcome writes no rollout at all. -/
theorem careful_recordOutcome (id : DeploymentId) (eui : DevEui) (outcome : Outcome)
    (message : String) (x : Option Transaction) (s : Store) :
    Careful law (fun _ _ _ => True) (recordOutcome id eui outcome message).run x s := by
  refine Careful.andThen (careful_read x s (by simp)) (fun _ x s _ => ?_) fun _ _ _ _ => trivial
  refine Careful.andThen (careful_read x s (by simp)) (fun _ x s _ => ?_) fun _ _ _ _ => trivial
  refine Careful.andThen (careful_read x s (by simp)) (fun _ x s _ => trivial) fun _ _ _ _ => trivial

end FirmwareRollout.Worker
