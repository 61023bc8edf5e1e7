import FirmwareRollout.Proofs.Worker.Orderly

/-!
A worker's cycle deals with the bridge in order. What it has claimed it holds, so that every request
is for a rollout as it is stored. What is due is claimed once, so that no rollout is asked for
twice. And while nothing fails it writes each rollout that it has asked for, and commits.

Main statements: `achieves_cycle`, `orderly_recordOutcome`.
-/

namespace FirmwareRollout

/-! ### Calls about devices -/

/-- Is the call about the devices of a rollout? -/
def Call.isAboutDevices : Call → Bool
  | recordOutcome .. | pendingDevices _ | failPending .. => true
  | _ => false

/-- Such a call writes no record of a rollout, and leaves the savepoint as it is. -/
theorem Transaction.perform_devices {t t' : Transaction} {s s' : Store} {clock : Instant} {c : Call}
    {r : c.Result} (devices : c.isAboutDevices)
    (h : t.perform s clock c = some (r, s', some t')) :
    t'.staging.deployments = t.staging.deployments ∧ t'.saved = t.saved := by
  cases c with
  | recordOutcome id eui outcome message =>
    obtain ⟨-, ⟨_, -, -, left⟩ | ⟨_, -, -, -, left⟩⟩ := perform_recordOutcome_cases h <;>
      obtain rfl := Option.some.inj left <;> exact ⟨rfl, rfl⟩
  | pendingDevices id =>
    cases h
    exact ⟨rfl, rfl⟩
  | failPending id message =>
    cases h
    show (t.stageAll ..).staging.deployments = _ ∧ (t.stageAll ..).saved = _
    rw [stageAll_eq]
    exact ⟨rfl, rfl⟩
  | _ => cases devices

/-- An outcome that is not recorded is one that a cycle passes over. -/
theorem Transaction.passable_of_recordOutcome {t : Transaction} {s s' : Store} {clock : Instant}
    {id : DeploymentId} {eui : DevEui} {outcome : Outcome} {message : String} {e : Error}
    {left : Option Transaction}
    (h : t.perform s clock (.recordOutcome id eui outcome message) = some (.error e, s', left)) :
    e.isAlreadyTerminal || e.isNotFound := by
  obtain ⟨-, ⟨_, same, passable, -⟩ | ⟨_, -, -, recorded, -⟩⟩ := perform_recordOutcome_cases h
  · cases same
    exact passable
  · cases recorded

/-! ### Where a cycle stands -/

/-- The cycle holds what it has claimed, has written the rollouts of a list, and may have a
savepoint. -/
structure Standing (claimed : List Deployment) (written : List DeploymentId) (marked : Prop)
    (x : Option Transaction) (s : Store) : Prop where
  holding : Holding claimed x s
  written : ∀ t, x = some t → ∀ id, t.staging.deployments.contains id ↔ id ∈ written
  marked : ∀ t, x = some t → marked → t.saved.isSome

/-- The same, with the mail that the party has then. -/
def At (b : Mail) (claimed : List Deployment) (written : List DeploymentId) (marked : Prop)
    (b' : Mail) (x : Option Transaction) (s : Store) : Prop :=
  b' = b ∧ Standing claimed written marked x s

/-- A call of the cycle is carried out, with the result `r`, and leads to the transaction `t'` on the
store `s'`. -/
inductive Called (claimed : List Deployment) (written : List DeploymentId) (marked : Prop) (c : Call)
    (r : c.Result) (t' : Transaction) (s' : Store) : Prop where
  | intro {s : Store} {t : Transaction} {clock : Instant}
    (standing : Standing claimed written marked (some t) s) (keyed : s.Keyed) (confined : t.Confined)
    (perform : t.perform s clock c = some (r, s', some t'))
    (effect : Transaction.Effect s t c s' t') : Called claimed written marked c r t' s'

section Standing

variable {α : Type} {now? : Option Instant} {b : Mail} {claimed : List Deployment}
  {written written' : List DeploymentId} {marked marked' : Prop} {x : Option Transaction}
  {s s' : Store} {t t' : Transaction} {c : Call}

theorem Standing.later (h : Standing claimed written marked x s) (later : Later x s s') :
    Standing claimed written marked x s' :=
  ⟨h.holding.later later, h.written, h.marked⟩

theorem Standing.effect (h : Standing claimed written marked (some t) s)
    (effect : Transaction.Effect s t c s' t')
    (wrote : ∀ id, t'.staging.deployments.contains id ↔ id ∈ written')
    (marks : marked' → t'.saved.isSome) : Standing claimed written' marked' (some t') s' := by
  refine ⟨⟨t', rfl, fun d hd => ?_⟩, ?_, ?_⟩
  · obtain ⟨t₀, ht₀, holds⟩ := h.holding
    obtain rfl := Option.some.inj ht₀
    obtain ⟨held, stored⟩ := holds d hd
    exact ⟨effect.held_mono held, (Store.get_congr effect.entries _).trans stored⟩
  · rintro _ ⟨⟩
    exact wrote
  · rintro _ ⟨⟩
    exact marks

/-- A call in the midst of the transaction is carried out. -/
theorem orderly_call {post : c.Result → Mail → Option Transaction → Store → Prop}
    (h : Standing claimed written marked x s) (stays : c ≠ .begin ∧ c ≠ .commit ∧ c ≠ .rollback)
    (carried : ∀ r t' s', Called claimed written marked c r t' s' → post r b (some t') s') :
    Orderly now? post (Task.store c).run b x s := by
  intro s' later
  have standing := h.later later
  obtain ⟨t, rfl, -⟩ := h.holding
  refine ⟨?_, fun r x' s'' fulfilled => ?_⟩
  · cases c with
    | begin => exact (stays.1 rfl).elim
    | commit => exact (stays.2.1 rfl).elim
    | rollback => exact (stays.2.2 rfl).elim
    | _ => rfl
  · cases fulfilled with
    | opened absent => cases absent
    | carried working keyed confined perform =>
      obtain rfl := Option.some.inj working
      have effect := Transaction.perform_effect keyed confined perform
      exact carried _ _ _ ⟨standing, keyed, confined, perform, effect⟩
    | ended s'' => exact (stays.2.1 rfl).elim

/-- After a call about devices the cycle stands where it stood. -/
theorem Called.devices {r : c.Result} (h : Called claimed written marked c r t' s')
    (devices : c.isAboutDevices) : Standing claimed written marked (some t') s' := by
  obtain ⟨standing, -, -, perform, effect⟩ := h
  obtain ⟨deployments, saved⟩ := Transaction.perform_devices devices perform
  refine standing.effect effect (fun id => ?_) fun mark => ?_
  · rw [deployments]
    exact standing.written _ rfl id
  · rw [saved]
    exact standing.marked _ rfl mark

variable {Q : c.Result → Mail → Option Transaction → Store → Prop}

/-- A call that is looked at, whatever comes of it. -/
theorem achieves_attempt (stays : c ≠ .begin ∧ c ≠ .commit ∧ c ≠ .rollback)
    (carried : ∀ r t' s', Called claimed written marked c r t' s' → Q r b (some t') s') :
    Achieves now? (At b claimed written marked) (Task.outcome (Task.store c)) Q := by
  rintro b x s ⟨rfl, standing⟩
  exact Orderly.bind (orderly_call standing stays carried) fun r _ _ _ hr => ⟨r, rfl, hr⟩

/-- A call that does not fail. -/
theorem achieves_call {Q : c.Answer → Mail → Option Transaction → Store → Prop}
    (stays : c ≠ .begin ∧ c ≠ .commit ∧ c ≠ .rollback)
    (carried : ∀ r t' s', Called claimed written marked c r t' s' →
      ∃ a, r = .ok a ∧ Q a b (some t') s') :
    Achieves now? (At b claimed written marked) (Task.store c) Q := by
  rintro b x s ⟨rfl, standing⟩
  exact orderly_call standing stays carried

end Standing

namespace Worker

variable {now? : Option Instant} {b : Mail} {claimed : List Deployment}
  {written : List DeploymentId} {marked : Prop} {d : Deployment} {w : Worker} {now : Instant}

/-! ### Writing what came of a step -/

theorem achieves_pendingDevices (id : DeploymentId) : Achieves now? (At b claimed written marked)
    (Task.store (.pendingDevices id)) fun _ => At b claimed written marked := by
  refine achieves_call (by simp) fun r t' s' called => ?_
  have after := called.devices rfl
  obtain ⟨-, -, -, perform, -⟩ := called
  cases perform
  exact ⟨_, rfl, rfl, after⟩

theorem achieves_failOutstanding (id : DeploymentId) (message? : Option String) :
    Achieves now? (At b claimed written marked) (failOutstanding id message?)
      fun _ => At b claimed written marked := by
  cases message? with
  | none => exact .pure () fun _ _ _ h => h
  | some message =>
    refine Achieves.bind (Q := fun _ => At b claimed written marked) ?_
      fun _ => .pure () fun _ _ _ h => h
    refine achieves_call (by simp) fun r t' s' called => ?_
    have after := called.devices rfl
    obtain ⟨-, -, -, perform, -⟩ := called
    cases perform
    exact ⟨_, rfl, rfl, after⟩

theorem achieves_recordReports (id : DeploymentId) (reports : List DeviceReport) :
    Achieves now? (At b claimed written marked) (recordReports id reports)
      fun _ => At b claimed written marked := by
  induction reports with
  | nil => exact .pure 0 fun _ _ _ h => h
  | cons r rest ih =>
    refine Achieves.bind (Q := fun result b' x s => At b claimed written marked b' x s ∧
      ∀ e, result = .error e → e.isAlreadyTerminal || e.isNotFound) ?_ fun result => ?_
    · refine achieves_attempt (by simp) fun result t' s' called => ?_
      refine ⟨⟨rfl, called.devices rfl⟩, fun e he => ?_⟩
      subst he
      obtain ⟨-, -, -, perform, -⟩ := called
      exact Transaction.passable_of_recordOutcome perform
    · cases result with
      | ok _ =>
        refine fun b' x s h => ?_
        exact Achieves.bind ih (fun n => .pure (n + 1) fun _ _ _ h => h) b' x s h.1
      | error e =>
        rintro b' x s ⟨h, passable⟩
        show Orderly _ _ (ExceptT.run (if _ then _ else _)) b' x s
        rw [if_pos (passable e rfl)]
        exact ih b' x s h

/-- **A step is written**: nothing that it takes can fail. -/
theorem achieves_persist (hd : d ∈ claimed) (result : StepResult) :
    Achieves now? (At b claimed written marked) (w.persist now d result)
      fun _ => At b claimed (d.id :: written) marked := by
  refine .bind (achieves_recordReports d.id result.devices) fun recorded => ?_
  refine .bind (achieves_pendingDevices d.id) fun pending => ?_
  refine .bind (achieves_failOutstanding d.id _) fun _ => ?_
  refine .bind (Q := fun _ => At b claimed (d.id :: written) marked) ?_
    fun _ => .pure _ fun _ _ _ h => h
  refine achieves_call (by simp) fun r t' s' called => ?_
  obtain @⟨s, t, clock, standing, -, -, perform, effect⟩ := called
  obtain ⟨t₀, ht₀, holds⟩ := standing.holding
  obtain rfl := Option.some.inj ht₀
  obtain ⟨held, stored⟩ := holds d hd
  have taken : Transaction.lockState s t d.id = .taken :=
    Transaction.lockState_eq_taken_iff.2 ⟨Store.contains_of_get stored, .inl held⟩
  have taken : Transaction.lockState s t (Transition.apply
    (w.machine.transition d.plan d.progress result.outcome now (List.length pending)) d).id =
      .taken := taken
  simp only [Transaction.perform, taken] at perform
  cases perform
  refine ⟨_, rfl, rfl, standing.effect effect (fun id => ?_) (standing.marked t rfl)⟩
  show (t.staging.deployments.insert d.id _).contains id ↔ _
  rw [Table.contains_insert, List.mem_cons, standing.written t rfl, eq_comm]

theorem achieves_settle (hd : d ∈ claimed) (result : StepResult) :
    Achieves now? (At b claimed written False) (w.settle now d result)
      fun _ => At b claimed (d.id :: written) False := by
  refine .bind (Q := fun _ => At b claimed written True) ?_ fun _ => ?_
  · refine achieves_call (by simp) fun r t' s' called => ?_
    obtain ⟨standing, -, -, perform, effect⟩ := called
    have wrote := standing.written _ rfl
    cases perform
    exact ⟨_, rfl, rfl, standing.effect effect wrote fun _ => rfl⟩
  refine .bind (achieves_persist hd result).outcome fun r => ?_
  rintro b' x s ⟨summary, rfl, h⟩
  refine Achieves.bind (Q := fun _ => At b claimed (d.id :: written) False)
    (achieves_call (by simp) fun r t' s' called => ?_)
    (fun _ => .pure summary fun _ _ _ h => h) b' x s h
  obtain ⟨standing, -, -, perform, effect⟩ := called
  have wrote := standing.written _ rfl
  obtain ⟨g, saved⟩ := Option.isSome_iff_exists.1 (standing.marked _ rfl trivial)
  rw [perform_release saved] at perform
  cases perform
  exact ⟨_, rfl, rfl, standing.effect effect wrote nofun⟩

theorem achieves_settleAll (work : List (Deployment × StepResult))
    (among : ∀ p ∈ work, p.1 ∈ claimed) :
    Achieves now? (At b claimed written False) (w.settleAll now work)
      fun _ => At b claimed ((work.map (·.1.id)).reverse ++ written) False := by
  induction work generalizing written with
  | nil => exact .pure _ fun _ _ _ h => h
  | cons p rest ih =>
    obtain ⟨hd, hrest⟩ := List.forall_mem_cons.1 among
    refine .bind (achieves_settle hd p.2) fun summary => .bind (ih hrest) fun others => ?_
    rw [List.map_cons, List.reverse_cons, List.append_assoc]
    exact .pure _ fun _ _ _ h => h

/-! ### Asking the bridge -/

theorem orderly_readPending {x : Option Transaction} {s : Store} (ds : List Deployment)
    (h : Standing claimed written marked x s) :
    Orderly now? (fun work b' x s => At b claimed written marked b' x s ∧ work.map (·.1) = ds)
      (readPending ds) b x s := by
  induction ds generalizing x s with
  | nil => exact ⟨⟨rfl, h⟩, rfl⟩
  | cons d rest ih =>
    refine Orderly.bind (achieves_pendingDevices d.id b x s ⟨rfl, h⟩) fun pending b' x s hread => ?_
    obtain ⟨euis, rfl, rfl, standing⟩ := hread
    refine Orderly.bind (ih standing) fun others b' x s hothers => ?_
    exact ⟨hothers.1, congrArg (d :: ·) hothers.2⟩

/-- The requests are sent one after the other. -/
theorem orderly_send {x : Option Transaction} {s : Store} {requests : List StepRequest}
    (h : Standing claimed written marked x s)
    (apt : ∀ q ∈ requests, ∃ d ∈ claimed, d.isDue now ∧ ∃ pending, q = .ofDeployment d pending)
    (new : ∀ q ∈ requests, q.deployment ∉ b.asked)
    (distinct : (requests.map (·.deployment)).Nodup) :
    Orderly (some now) (fun _ b' x s => Standing claimed written marked x s ∧
      b' = ⟨requests.reverse ++ b.sent, b.unanswered ++ requests⟩)
      (requests.forM Task.send) b x s := by
  induction requests generalizing b with
  | nil =>
    refine ⟨h, ?_⟩
    rw [List.append_nil]
    rfl
  | cons q rest ih =>
    obtain ⟨⟨d, hd, due, pending, hq⟩, aptRest⟩ := List.forall_mem_cons.1 apt
    obtain ⟨newHead, newRest⟩ := List.forall_mem_cons.1 new
    obtain ⟨distinctHead, distinctRest⟩ := List.nodup_cons.1 distinct
    obtain ⟨t, rfl, holds⟩ := h.holding
    refine ⟨⟨t, d, now, pending, rfl, rfl, (holds d hd).1, (holds d hd).2, due, hq⟩, newHead, ?_⟩
    have later : ∀ q' ∈ rest, q'.deployment ∉ (b.send q).asked := by
      intro q' hq' asked
      rcases List.mem_cons.1 asked with same | before
      · exact distinctHead (same ▸ List.mem_map_of_mem hq')
      · exact newRest q' hq' before
    refine (ih aptRest later distinctRest).imp fun _ b' x s hsent => ⟨hsent.1, ?_⟩
    rw [hsent.2, List.reverse_cons, List.append_assoc, Mail.send, List.append_assoc]
    rfl

/-- The answers come one after the other, as many as there were requests. -/
theorem orderly_receive {x : Option Transaction} {s : Store} {sent requests : List StepRequest}
    (h : Standing claimed written marked x s) :
    Orderly now? (fun results b' x s => At ⟨sent, []⟩ claimed written marked b' x s ∧
      results.length = requests.length) (requests.mapM Task.receive) ⟨sent, requests⟩ x s := by
  induction requests with
  | nil => exact ⟨⟨rfl, h⟩, rfl⟩
  | cons q rest ih =>
    rw [List.mapM_cons]
    intro r
    have next : Mail.answer ⟨sent, q :: rest⟩ q = ⟨sent, rest⟩ := by
      rw [Mail.answer, List.erase_cons_head]
    show Orderly now? _ (Program.bind (rest.mapM Task.receive) _)
      (Mail.answer ⟨sent, q :: rest⟩ q) x s
    rw [next]
    exact Orderly.bind ih fun results b' x s hr => ⟨hr.1, congrArg (· + 1) hr.2⟩

/-! ### The cycle -/

theorem achieves_begin : Achieves now? (fun b x _ => b = .none ∧ x = none) (Task.store .begin)
    fun _ => At .none [] [] False := by
  rintro b x s ⟨rfl, rfl⟩ s' later
  refine ⟨rfl, fun r x' s'' fulfilled => ?_⟩
  cases fulfilled with
  | opened =>
    refine ⟨(), rfl, rfl, ⟨.fresh, rfl, List.forall_mem_nil _⟩, ?_, nofun⟩
    rintro t ⟨⟩ id
    exact ⟨nofun, nofun⟩
  | carried working => cases working

/-- What is claimed is held, due, and comes once. -/
theorem achieves_claim (limit : UInt32) (now : Instant) : Achieves now? (At b [] [] False)
    (Task.store (.claimDue limit now)) fun (ds : List Deployment) b' x s =>
      At b ds [] False b' x s ∧ (∀ d ∈ ds, d.isDue now) ∧ (ds.map (·.id)).Nodup := by
  refine achieves_call (by simp) fun r t' s' called => ?_
  obtain @⟨s, t, clock, standing, keyed, confined, perform, effect⟩ := called
  have unwritten : ∀ id, t.staging.deployments.find? id = none := by
    intro id
    refine Table.contains_eq_false_iff.1 (Bool.eq_false_iff.2 fun written => ?_)
    cases (standing.written t rfl id).1 written
  have claim : (r, s', some t') = (.ok (Transaction.claimDue s t limit now).1,
    (Transaction.claimDue s t limit now).2.1, some (Transaction.claimDue s t limit now).2.2) :=
      (Option.some.inj perform).symm
  obtain rfl : r = .ok (Transaction.claimDue s t limit now).1 := (Prod.mk.inj claim).1
  refine ⟨_, rfl, ⟨rfl, ⟨t', rfl, fun d hd => ⟨?_, ?_⟩⟩, ?_, nofun⟩, fun d hd => ?_, ?_⟩
  · have given : d.id ∈ Call.given (.claimDue limit now)
        (.ok (Transaction.claimDue s t limit now).1) := List.mem_map_of_mem hd
    obtain ⟨t'', ht'', held⟩ := Transaction.held_of_given keyed confined perform given
    cases ht''
    exact held
  · have stored := Transaction.stored_of_rows keyed confined perform hd (unwritten d.id)
    exact (Store.get_congr effect.entries _).trans stored
  · rintro _ ⟨⟩
    -- a claim takes locks and writes nothing
    have locked : t' = (Transaction.claimDue s t limit now).2.2 :=
      Option.some.inj (Prod.mk.inj (Prod.mk.inj claim).2).2
    rw [locked, Transaction.claimDue, Transaction.foldl_lock]
    exact standing.written t rfl
  · exact (Transaction.of_mem_claimDue keyed confined hd).2.2
  · exact (Transaction.nodup_due keyed confined now).sublist ((List.take_sublist _ _).map _)

/-- A commit that is made in time ends the transaction. -/
theorem achieves_commit : Achieves now? (fun b x _ => Timely b x .commit) (Task.store .commit)
    fun _ _ x _ => x = none := by
  intro b x s timely s' later
  refine ⟨timely, fun r x' s'' fulfilled => ?_⟩
  cases fulfilled with
  | carried working keyed confined perform => cases perform
  | ended => exact ⟨(), rfl, rfl⟩

/-- The requests of a cycle are for what it has claimed, each once. -/
theorem orderly_consult {x : Option Transaction} {s : Store}
    {work : List (Deployment × List DevEui)}
    (h : Standing claimed written marked x s) (among : work.map (·.1) = claimed)
    (due : ∀ d ∈ claimed, d.isDue now) (distinct : (claimed.map (·.id)).Nodup) :
    Orderly (some now) (fun results b x s => results.length = work.length ∧ b.unanswered = [] ∧
        b.asked = (claimed.map (·.id)).reverse ∧ Standing claimed written marked x s)
      (consult (work.map fun (d, euis) => .ofDeployment d euis)) .none x s := by
  have asked : (work.map fun (d, euis) => StepRequest.ofDeployment d euis).map (·.deployment) =
      claimed.map (·.id) := by
    rw [← among, List.map_map, List.map_map]
    rfl
  refine Orderly.bind (orderly_send h ?_ (fun _ _ => List.not_mem_nil) (asked ▸ distinct))
    fun _ b x s hsent => ?_
  · intro q hq
    obtain ⟨⟨d, euis⟩, hwork, rfl⟩ := List.mem_map.1 hq
    have hd : d ∈ claimed := among ▸ List.mem_map_of_mem hwork
    exact ⟨d, hd, due d hd, euis, rfl⟩
  · obtain ⟨standing, rfl⟩ := hsent
    refine (orderly_receive standing).imp fun results b' x s hreceived => ?_
    obtain ⟨⟨rfl, standing⟩, many⟩ := hreceived
    refine ⟨many.trans (List.length_map _), rfl, ?_, standing⟩
    rw [Mail.asked, ← asked, Mail.none, List.append_nil, List.map_reverse]

/-- **A cycle deals with the bridge in order**, and ends its transaction. -/
theorem achieves_cycle (w : Worker) (now : Instant) :
    Achieves (some now) (fun b x _ => b = .none ∧ x = none) (w.cycle now)
      fun _ _ x _ => x = none := by
  refine .bind achieves_begin fun _ => .bind (achieves_claim w.batchSize now) fun claimed => ?_
  rintro b x s ⟨⟨rfl, standing⟩, due, distinct⟩
  show Orderly _ _ (ExceptT.run (if _ then _ else _)) _ x s
  split
  · obtain ⟨t, rfl, -⟩ := standing.holding
    exact Achieves.bind achieves_commit (fun _ => .pure _ fun _ _ _ h => h) _ _ s
      ⟨t, rfl, rfl, standing.written t rfl⟩
  · refine Orderly.liftThen (orderly_readPending claimed standing) fun work _ x s hread => ?_
    obtain ⟨⟨rfl, standing⟩, among⟩ := hread
    refine Orderly.liftThen (orderly_consult standing among due distinct)
      fun results b x s hconsult => ?_
    obtain ⟨many, answered, asked, standing⟩ := hconsult
    have all : ((work.map (·.1)).zip results).map (·.1) = claimed := by
      rw [List.map_fst_zip (Nat.le_of_eq ((List.length_map _).trans many.symm)), among]
    refine Achieves.bind (achieves_settleAll ((work.map (·.1)).zip results) fun p hp =>
      all ▸ List.mem_map_of_mem hp) (fun summary => ?_) b x s ⟨rfl, standing⟩
    rintro b x s ⟨rfl, standing⟩
    obtain ⟨t, rfl, -⟩ := standing.holding
    refine Achieves.bind achieves_commit (fun _ => .pure _ fun _ _ _ h => h) b _ s
      ⟨t, rfl, answered, fun id => ?_⟩
    rw [standing.written t rfl, List.append_nil, asked, ← all, List.map_map]
    rfl

/-! ### Trackers -/

/-- **A tracker asks for nothing.** It ends its transaction, or leaves it empty behind an error. -/
theorem orderly_recordOutcome (id : DeploymentId) (eui : DevEui) (outcome : Outcome)
    (message : String) (s : Store) : Orderly now? (fun _ b x _ => x = none ∨ b.asked = [])
      (recordOutcome id eui outcome message).run .none none s := by
  refine Orderly.bind (achieves_begin .none none s ⟨rfl, rfl⟩) fun _ _ x s hbegin => ?_
  obtain ⟨_, rfl, rfl, standing⟩ := hbegin
  have recorded : Orderly now? (fun _ => At .none [] [] False)
      (Task.store (.recordOutcome id eui outcome message)).run .none x s :=
    orderly_call standing (by simp) fun _ _ _ called => ⟨rfl, called.devices rfl⟩
  refine Orderly.bind recorded fun r _ x s h => ?_
  obtain ⟨rfl, standing⟩ := h
  cases r with
  | error e => exact .inr rfl
  | ok _ =>
    obtain ⟨t, rfl, -⟩ := standing.holding
    refine Orderly.bind (achieves_commit .none (some t) s ⟨t, rfl, rfl, standing.written t rfl⟩)
      fun _ _ _ _ h => ?_
    obtain ⟨_, rfl, ended⟩ := h
    exact .inl ended

end Worker

end FirmwareRollout
