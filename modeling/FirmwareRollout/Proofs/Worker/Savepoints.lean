import FirmwareRollout.Proofs.Database.Aborting
import FirmwareRollout.Proofs.Worker.Refinement

/-!
A cycle on a database that aborts a transaction when a statement fails. The part of a rollout stands
under a savepoint: what is struck in it is taken back, and the parts of the others are as if that
rollout were not there (`eval_settleAll`). The devices that are pending are read before the first
savepoint, and there nothing brings the transaction back.

Main statements: `savepoints_isolate`, and `read_failure_spreads` on what is not isolated.
-/

namespace FirmwareRollout

open Database

variable {σ : Type} {exec : Engine σ} {strikes : Strikes σ} {env : Setting} {worker : Worker}
  {now : Instant}

/-- The part of a rollout on the bare data, if nothing in it fails. -/
def Worker.part (worker : Worker) (now : Instant) (exec : Engine σ) (env : Setting)
    (p : Deployment × StepResult) (x : σ) : Option (Summary × σ) :=
  match (worker.persist now p.1 p.2).run.eval (attend env (plainly exec)) x with
  | some (.ok summary, y) => some (summary, y)
  | _ => none

/-! ### Parts one after another -/

/-- Parts that fail are left out, and counted. -/
def settleEach (part : Deployment × StepResult → σ → Option (Summary × σ)) :
    List (Deployment × StepResult) → σ → Summary × σ
  | [], x => ({}, x)
  | p :: rest, x =>
    match part p x with
    | some (summary, y) => (summary.add (settleEach part rest y).1, (settleEach part rest y).2)
    | none =>
      (Summary.add { failed := 1 } (settleEach part rest x).1, (settleEach part rest x).2)

/-- The parts of all rollouts but those in `hit`, which are counted as failed. -/
def settleApart (part : Deployment × StepResult → σ → Option (Summary × σ)) (hit : List DeploymentId)
    (items : List (Deployment × StepResult)) (x : σ) : Summary × σ :=
  let others := settleEach part (items.filter fun p => p.1.id ∉ hit) x
  (others.1.add { failed := items.countP fun p => p.1.id ∈ hit }, others.2)

section Parts

variable {part : Deployment × StepResult → σ → Option (Summary × σ)} {hit : List DeploymentId}
  {p : Deployment × StepResult} {x y : σ} {summary : Summary}

theorem settleApart_congr {hit' : List DeploymentId} {items : List (Deployment × StepResult)}
    (same : ∀ p ∈ items, p.1.id ∈ hit ↔ p.1.id ∈ hit') (x : σ) :
    settleApart part hit items x = settleApart part hit' items x := by
  have kept : (items.filter fun p => p.1.id ∉ hit) = items.filter fun p => p.1.id ∉ hit' :=
    List.filter_congr fun p hp => by simp only [same p hp]
  have counted : (items.countP fun p => p.1.id ∈ hit) = items.countP fun p => p.1.id ∈ hit' :=
    List.countP_congr fun p hp => by simp only [same p hp, decide_eq_true_eq]
  unfold settleApart
  rw [kept, counted]

theorem settleApart_cons_of_hit (h : p.1.id ∈ hit) (rest : List (Deployment × StepResult)) (x : σ) :
    settleApart part hit (p :: rest) x =
      (Summary.add { failed := 1 } (settleApart part hit rest x).1,
        (settleApart part hit rest x).2) := by
  unfold settleApart
  rw [List.filter_cons_of_neg (by simpa using h), List.countP_cons_of_pos (by simpa using h)]
  refine Prod.ext ?_ rfl
  simp only [Summary.add, Summary.mk.injEq]
  omega

theorem settleApart_cons_of_part (h : p.1.id ∉ hit) (works : part p x = some (summary, y))
    (rest : List (Deployment × StepResult)) : settleApart part hit (p :: rest) x =
      (summary.add (settleApart part hit rest y).1, (settleApart part hit rest y).2) := by
  unfold settleApart
  rw [List.filter_cons_of_pos (by simpa using h), List.countP_cons_of_neg (by simpa using h),
    settleEach, works]
  refine Prod.ext ?_ rfl
  simp only [Summary.add, Summary.mk.injEq]
  omega

theorem settleApart_cons_of_none (h : p.1.id ∉ hit) (fails : part p x = none)
    (rest : List (Deployment × StepResult)) : settleApart part hit (p :: rest) x =
      (Summary.add { failed := 1 } (settleApart part hit rest x).1,
        (settleApart part hit rest x).2) := by
  unfold settleApart
  rw [List.filter_cons_of_pos (by simpa using h), List.countP_cons_of_neg (by simpa using h),
    settleEach, fails]
  refine Prod.ext ?_ rfl
  simp only [Summary.add, Summary.mk.injEq]
  omega

/-- One after another. -/
theorem settleApart_cons (p : Deployment × StepResult) (rest : List (Deployment × StepResult))
    (x : σ) : settleApart part hit (p :: rest) x =
      ((settleApart part hit [p] x).1.add
          (settleApart part hit rest (settleApart part hit [p] x).2).1,
        (settleApart part hit rest (settleApart part hit [p] x).2).2) := by
  by_cases h : p.1.id ∈ hit
  · rw [settleApart_cons_of_hit h, settleApart_cons_of_hit h []]
    rfl
  · cases works : part p x with
    | some r =>
      rw [settleApart_cons_of_part h works, settleApart_cons_of_part h works []]
      rfl
    | none =>
      rw [settleApart_cons_of_none h works, settleApart_cons_of_none h works []]
      rfl

end Parts

/-! ### Under a savepoint -/

section Brackets

variable {x y z : σ} {marks : List σ} {struck : List DeploymentId}

theorem eval_savepoint (spares : Spares strikes) :
    (Task.store .savepoint).run.eval (attend env (guarded exec strikes)) ⟨x, y, marks, false, struck⟩ =
      some (.ok (), ⟨x, y, y :: marks, false, struck⟩) := by
  have spared := spares.eq_false ⟨x, y, marks, false, struck⟩ (s := .savepoint) rfl
  show some (Connection.handle exec strikes ⟨x, y, marks, false, struck⟩ .savepoint) = _
  simp only [Connection.handle, Connection.accept, spared]
  rfl

theorem eval_release (spares : Spares strikes) :
    (Task.store .releaseSavepoint).run.eval (attend env (guarded exec strikes))
      ⟨x, y, z :: marks, false, struck⟩ = some (.ok (), ⟨x, y, marks, false, struck⟩) := by
  have spared := spares.eq_false ⟨x, y, z :: marks, false, struck⟩ (s := .releaseSavepoint) rfl
  show some (Connection.handle exec strikes ⟨x, y, z :: marks, false, struck⟩ .releaseSavepoint) = _
  simp only [Connection.handle, Connection.accept, spared]
  rfl

theorem eval_back (aborted : Bool) :
    (Task.store .rollbackToSavepoint).run.eval (attend env (guarded exec strikes))
      ⟨x, y, z :: marks, aborted, struck⟩ = some (.ok (), ⟨x, z, z :: marks, false, struck⟩) := rfl

/-- **What is struck in the part of a rollout** is taken back with that part. -/
theorem eval_settle (spares : Spares strikes) (exec : Engine σ) (env : Setting) (worker : Worker)
    (now : Instant) (x y : σ) (marks : List σ) (struck : List DeploymentId)
    (p : Deployment × StepResult) :
    ∃ hit marks', (∀ id ∈ hit, id = p.1.id ∧ Hits strikes id) ∧
      (worker.settle now p.1 p.2).run.eval (attend env (guarded exec strikes))
        ⟨x, y, marks, false, struck⟩ =
      some (.ok (settleApart (worker.part now exec env) hit [p] y).1,
        ⟨x, (settleApart (worker.part now exec env) hit [p] y).2, marks', false, struck ++ hit⟩) := by
  unfold Worker.settle
  rw [Program.eval_bind_ok (eval_savepoint spares)]
  have follows : Follows strikes (attend env (guarded exec strikes)) (attend env (plainly exec))
      p.1.id (worker.persist now p.1 p.2) := follows_persist p.1 p.2
  cases follows ⟨x, y, y :: marks, false, struck⟩ rfl with
  | along r y' same ends =>
    have outcome : (Task.outcome (worker.persist now p.1 p.2)).run.eval
        (attend env (guarded exec strikes)) ⟨x, y, y :: marks, false, struck⟩ =
        some (.ok r, ⟨x, y', y :: marks, false, struck⟩) := Program.eval_bind_of_eval ends
    rw [Program.eval_bind_ok outcome]
    cases r with
    | ok summary =>
      have part : worker.part now exec env p y = some (summary, y') := by
        unfold Worker.part
        rw [same]
      refine ⟨[], marks, by simp, (Program.eval_bind_ok (eval_release spares)).trans ?_⟩
      rw [settleApart_cons_of_part List.not_mem_nil part, List.append_nil]
      rfl
    | error e =>
      have part : worker.part now exec env p y = none := by
        unfold Worker.part
        rw [same]
      refine ⟨[], y :: marks, by simp, (Program.eval_bind_ok (eval_back false)).trans ?_⟩
      rw [settleApart_cons_of_none List.not_mem_nil part, List.append_nil]
      rfl
  | struck y' s strike about ends =>
    have outcome : (Task.outcome (worker.persist now p.1 p.2)).run.eval
        (attend env (guarded exec strikes)) ⟨x, y, y :: marks, false, struck⟩ =
        some (.ok (.error Connection.failure), ⟨x, y', y :: marks, true, struck ++ [p.1.id]⟩) :=
      Program.eval_bind_of_eval ends
    rw [Program.eval_bind_ok outcome]
    refine ⟨[p.1.id], y :: marks, fun id hid => ?_, (Program.eval_bind_ok (eval_back true)).trans ?_⟩
    · obtain rfl := List.mem_singleton.1 hid
      exact ⟨rfl, _, s, strike, about⟩
    · rw [settleApart_cons_of_hit List.mem_cons_self]
      rfl

theorem eval_settleAll (spares : Spares strikes) (exec : Engine σ) (env : Setting) (worker : Worker)
    (now : Instant) (x y : σ) (marks : List σ) (struck : List DeploymentId)
    {items : List (Deployment × StepResult)} (distinct : (items.map (·.1.id)).Nodup) :
    ∃ hit marks', (∀ id ∈ hit, id ∈ items.map (·.1.id) ∧ Hits strikes id) ∧
      (worker.settleAll now items).run.eval (attend env (guarded exec strikes))
        ⟨x, y, marks, false, struck⟩ =
      some (.ok (settleApart (worker.part now exec env) hit items y).1,
        ⟨x, (settleApart (worker.part now exec env) hit items y).2, marks', false, struck ++ hit⟩) := by
  induction items generalizing y marks struck with
  | nil => exact ⟨[], marks, by simp, by rw [List.append_nil]; rfl⟩
  | cons p rest ih =>
    obtain ⟨absent, distinct⟩ := List.nodup_cons.1 distinct
    obtain ⟨hit, marks₁, own, settles⟩ := eval_settle spares exec env worker now x y marks struck p
    obtain ⟨hit', marks₂, among, others⟩ := ih
      (settleApart (worker.part now exec env) hit [p] y).2 marks₁ (struck ++ hit) distinct
    -- what is hit in the parts after this one is of other rollouts, and so the other way round
    have first : settleApart (worker.part now exec env) (hit ++ hit') [p] y =
        settleApart (worker.part now exec env) hit [p] y := by
      refine settleApart_congr (fun q hq => ?_) y
      obtain rfl := List.mem_singleton.1 hq
      have unhit : q.1.id ∉ hit' := fun h => absent (among _ h).1
      simp [unhit]
    have later : ∀ z, settleApart (worker.part now exec env) (hit ++ hit') rest z =
        settleApart (worker.part now exec env) hit' rest z := by
      intro z
      refine settleApart_congr (fun q hq => ?_) z
      have unhit : q.1.id ∉ hit := by
        intro h
        have member : q.1.id ∈ rest.map (·.1.id) := List.mem_map_of_mem hq
        rw [(own _ h).1] at member
        exact absent member
      simp [unhit]
    refine ⟨hit ++ hit', marks₂, fun id hid => ?_, ?_⟩
    · rcases List.mem_append.1 hid with hid | hid
      · obtain ⟨rfl, hits⟩ := own id hid
        exact ⟨List.mem_cons_self, hits⟩
      · obtain ⟨member, hits⟩ := among id hid
        exact ⟨List.mem_cons_of_mem _ member, hits⟩
    · rw [settleApart_cons, first, later, ← List.append_assoc]
      exact (Program.eval_bind_ok settles).trans (Program.eval_bind_ok others)

/-! ### Before the first savepoint -/

/-- One read after another; rollouts that cannot be read are left out. -/
theorem eval_readPending_cons {τ : Type} {answer : (s : Statement) → τ → s.Result × τ} {t t' t'' : τ}
    {d : Deployment} {rest : List Deployment} {r : Except Error (List DevEui)}
    {work : List (Deployment × List DevEui)}
    (reads : (Task.store (.pendingDevices d.id)).run.eval (attend env answer) t = some (r, t'))
    (others : (Worker.readPending rest).eval (attend env answer) t' = some (work, t'')) :
    (Worker.readPending (d :: rest)).eval (attend env answer) t =
      some (r.toOption.toList.map (d, ·) ++ work, t'') := by
  refine (Program.eval_bind_of_eval reads).trans ((Program.eval_bind_of_eval others).trans ?_)
  cases r <;> rfl

theorem eval_readPending (under : ∀ c s, strikes c s → c.savepoints ≠ []) (exec : Engine σ)
    (env : Setting) (x y : σ) (struck : List DeploymentId) (ds : List Deployment) :
    ∃ work z, (work.map (·.1)).Sublist ds ∧
      (Worker.readPending ds).eval (attend env (plainly exec)) y = some (work, z) ∧
      (Worker.readPending ds).eval (attend env (guarded exec strikes)) ⟨x, y, [], false, struck⟩ =
        some (work, ⟨x, z, [], false, struck⟩) := by
  induction ds generalizing y with
  | nil => exact ⟨[], y, .slnil, rfl, rfl⟩
  | cons d rest ih =>
    have follows : Follows strikes (attend env (guarded exec strikes)) (attend env (plainly exec))
        d.id (Task.store (.pendingDevices d.id)) := follows_store (follows_pendingDevices d.id)
    cases follows ⟨x, y, [], false, struck⟩ rfl with
    | struck y' s strike about ends => exact absurd rfl (under _ _ strike)
    | along r y' same ends =>
      obtain ⟨work, z, among, plain, upon⟩ := ih y'
      refine ⟨_, z, ?_, eval_readPending_cons same plain, eval_readPending_cons ends upon⟩
      cases r with
      | ok euis => exact among.cons_cons d
      | error e => exact among.cons d

/-- In a transaction that is aborted no devices can be read. -/
theorem eval_readPending_aborted (exec : Engine σ) (strikes : Strikes σ) (env : Setting) (x y : σ)
    (struck : List DeploymentId) (ds : List Deployment) :
    (Worker.readPending ds).eval (attend env (guarded exec strikes)) ⟨x, y, [], true, struck⟩ =
      some ([], ⟨x, y, [], true, struck⟩) := by
  induction ds with
  | nil => rfl
  | cons d rest ih =>
    have fails : (Task.store (.pendingDevices d.id)).run.eval (attend env (guarded exec strikes))
        ⟨x, y, [], true, struck⟩ = some (.error Connection.failure, ⟨x, y, [], true, struck⟩) := rfl
    exact eval_readPending_cons fails ih

theorem eval_pendingDevices_struck {id : DeploymentId}
    (strike : strikes ⟨x, y, [], false, struck⟩ (.selectPendingDevices id)) (exec : Engine σ)
    (env : Setting) : (Task.store (.pendingDevices id)).run.eval (attend env (guarded exec strikes))
      ⟨x, y, [], false, struck⟩ =
        some (.error Connection.failure, ⟨x, y, [], true, struck ++ [id]⟩) := by
  have handled : (execute (.selectPendingDevices id)).run.eval (serve (guarded exec strikes))
      ⟨x, y, [], false, struck⟩ =
        some (.error Connection.failure, ⟨x, y, [], true, struck ++ [id]⟩) := by
    show some (Connection.handle exec strikes _ _) = _
    rw [Connection.handle_data _ rfl, if_neg Bool.false_ne_true, if_pos strike]
    rfl
  rw [eval_store]
  exact Program.eval_bind_error handled

theorem eval_readPending_struck {d : Deployment}
    (early : ∀ c, c.savepoints = [] → strikes c (.selectPendingDevices d.id)) (exec : Engine σ)
    (env : Setting) (x y : σ) (struck : List DeploymentId) {ds : List Deployment} (member : d ∈ ds) :
    ∃ work z struck', (Worker.readPending ds).eval (attend env (guarded exec strikes))
      ⟨x, y, [], false, struck⟩ = some (work, ⟨x, z, [], true, struck'⟩) := by
  induction ds generalizing y with
  | nil => cases member
  | cons d' rest ih =>
    rcases List.mem_cons.1 member with rfl | member
    · have reads := eval_pendingDevices_struck (early ⟨x, y, [], false, struck⟩ rfl) exec env
      exact ⟨_, y, _, eval_readPending_cons reads (eval_readPending_aborted exec strikes env ..)⟩
    · have follows : Follows strikes (attend env (guarded exec strikes)) (attend env (plainly exec))
          d'.id (Task.store (.pendingDevices d'.id)) := follows_store (follows_pendingDevices d'.id)
      cases follows ⟨x, y, [], false, struck⟩ rfl with
      | struck y' s strike about ends =>
        exact ⟨_, y', _, eval_readPending_cons ends (eval_readPending_aborted exec strikes env ..)⟩
      | along r y' same ends =>
        obtain ⟨work, z, struck', upon⟩ := ih y' member
        exact ⟨_, z, struck', eval_readPending_cons ends upon⟩

/-- In a transaction that is aborted no part of a rollout begins. -/
theorem eval_settleAll_aborted (exec : Engine σ) (strikes : Strikes σ) (env : Setting)
    (worker : Worker) (now : Instant) (x y : σ) (struck : List DeploymentId)
    (p : Deployment × StepResult) (rest : List (Deployment × StepResult)) :
    (worker.settleAll now (p :: rest)).run.eval (attend env (guarded exec strikes))
      ⟨x, y, [], true, struck⟩ = some (.error Connection.failure, ⟨x, y, [], true, struck⟩) := by
  have refused : (Task.store .savepoint).run.eval (attend env (guarded exec strikes))
      ⟨x, y, [], true, struck⟩ = some (.error Connection.failure, ⟨x, y, [], true, struck⟩) := rfl
  have settles : (worker.settle now p.1 p.2).run.eval (attend env (guarded exec strikes))
      ⟨x, y, [], true, struck⟩ = some (.error Connection.failure, ⟨x, y, [], true, struck⟩) :=
    Program.eval_bind_error refused
  exact Program.eval_bind_error settles

/-! ### The cycle -/

theorem eval_consult {τ : Type} (env : Setting) (answer : (s : Statement) → τ → s.Result × τ) (t : τ)
    (requests : List StepRequest) :
    (Worker.consult requests).eval (attend env answer) t = some (requests.map env.reply, t) := by
  have sent : (requests.forM Task.send).eval (attend env answer) t = some ((), t) := by
    induction requests with
    | nil => rfl
    | cons q rest ih => exact ih
  refine (Program.eval_bind_of_eval sent).trans ?_
  clear sent
  induction requests with
  | nil => rfl
  | cons q rest ih =>
    have received : (Task.receive q).eval (attend env answer) t = some (env.reply q, t) := rfl
    rw [List.mapM_cons]
    exact (Program.eval_bind_of_eval received).trans (Program.eval_bind_of_eval ih)

/-- What came of the steps of the rollouts whose devices were read. -/
def Database.Setting.items (env : Setting) (work : List (Deployment × List DevEui)) :
    List (Deployment × StepResult) :=
  work.map fun w => (w.1, env.reply (.ofDeployment w.1 w.2))

/-- A cycle is, after the reads, the parts of the rollouts and the commit. -/
theorem eval_cycle (spares : Spares strikes) {ds : List Deployment}
    (claimed : (Task.store (.claimDue worker.batchSize now)).run.eval (attend env (plainly exec)) x =
      some (.ok ds, y)) {work : List (Deployment × List DevEui)} {c : Connection σ}
    (reads : (Worker.readPending ds).eval (attend env (guarded exec strikes)) ⟨x, y, [], false, []⟩ =
      some (work, c)) :
    (worker.cycle now).run.eval (attend env (guarded exec strikes)) (.opened x) =
      (do
        let summary ← worker.settleAll now (env.items work)
        let _ ← Task.store .commit
        return summary.add { claimed := ds.length, failed := ds.length - work.length } :
          Fallible Summary).run.eval (attend env (guarded exec strikes)) c := by
  have begins : (Task.store .begin).run.eval (attend env (guarded exec strikes)) (.opened x) =
      some (.ok (), .opened x) := rfl
  have claimed' : (Task.store (.claimDue worker.batchSize now)).run.eval
      (attend env (guarded exec strikes)) (.opened x) = some (.ok ds, ⟨x, y, [], false, []⟩) := by
    rw [eval_store] at claimed ⊢
    exact unhindered_claimDue spares _ _ _ _ _ rfl claimed
  refine (Program.eval_bind_ok begins).trans ((Program.eval_bind_ok claimed').trans ?_)
  cases ds with
  | nil =>
    cases reads
    rfl
  | cons d rest =>
    have some_claimed : ¬(d :: rest).isEmpty = true := nofun
    have items : (work.map (·.1)).zip
        ((work.map fun w => StepRequest.ofDeployment w.1 w.2).map env.reply) = env.items work := by
      rw [List.map_map, List.zip_map']
      rfl
    rw [if_neg some_claimed, Program.eval_liftM_bind reads,
      Program.eval_liftM_bind (eval_consult env _ c _), ← items]

end Brackets

/-- **Savepoints isolate** rollouts from one another, if only statements on rollouts are struck. What
is struck after the first savepoint costs its rollout alone: the cycle commits the parts of all the
others, as if that rollout were not there. But if the devices of one rollout cannot be read before
that, nothing of the cycle is kept. -/
theorem savepoints_isolate {ds : List Deployment} {x₀ x₁ : σ}
    (claimed : (Task.store (.claimDue worker.batchSize now)).run.eval (attend env (plainly exec)) x₀ =
      some (.ok ds, x₁))
    (distinct : (ds.map (·.id)).Nodup) (spares : Spares strikes) :
    ((∀ c s, strikes c s → c.savepoints ≠ []) → ∃ work x₂ hit,
      (Worker.readPending ds).eval (attend env (plainly exec)) x₁ = some (work, x₂) ∧
      (∀ id ∈ hit, id ∈ ds.map (·.id) ∧ Hits strikes id) ∧
      let parts := settleApart (worker.part now exec env) hit (env.items work) x₂
      (worker.cycle now).run.eval (attend env (guarded exec strikes)) (.opened x₀) =
        some (.ok (parts.1.add { claimed := ds.length, failed := ds.length - work.length }),
          { Connection.opened parts.2 with struck := hit })) ∧
    (∀ d ∈ ds, (∀ c, c.savepoints = [] → strikes c (.selectPendingDevices d.id)) → ∃ r c,
      (worker.cycle now).run.eval (attend env (guarded exec strikes)) (.opened x₀) = some (r, c) ∧
      c.committed = x₀ ∧
      (r = .error Connection.failure ∨
        r = .ok { claimed := ds.length, failed := ds.length })) := by
  refine ⟨fun under => ?_, fun d member early => ?_⟩
  · obtain ⟨work, x₂, among, plain, reads⟩ := eval_readPending under exec env x₀ x₁ [] ds
    have ids : (env.items work).map (·.1.id) = (work.map (·.1)).map (·.id) := by
      rw [Setting.items, List.map_map, List.map_map]
      rfl
    have sub : ((env.items work).map (·.1.id)).Sublist (ds.map (·.id)) := by
      rw [ids]
      exact among.map _
    obtain ⟨hit, marks, own, settles⟩ := eval_settleAll spares exec env worker now x₀ x₂ [] []
      (sub.nodup distinct)
    refine ⟨work, x₂, hit, plain, fun id hid => ⟨sub.subset (own id hid).1, (own id hid).2⟩, ?_⟩
    rw [eval_cycle spares claimed reads]
    exact Program.eval_bind_ok settles
  · obtain ⟨work, z, struck, reads⟩ := eval_readPending_struck early exec env x₀ x₁ [] member
    rw [eval_cycle spares claimed reads]
    cases work with
    | nil => exact ⟨_, _, rfl, rfl, .inr (by simp [Summary.add])⟩
    | cons w rest =>
      have fails := eval_settleAll_aborted exec strikes env worker now x₀ z struck
        (w.1, env.reply (.ofDeployment w.1 w.2)) (env.items rest)
      exact ⟨_, _, Program.eval_bind_error fails, rfl, .inl rfl⟩

/-! ### Two rollouts -/

/-- A database of rollouts that are all due and have no devices. -/
def Database.Engine.rollouts : Engine (List DeploymentRow)
  | .selectDue _ limit, rows => (rows.take limit.toNat, rows)
  | .updateDeployment row, rows =>
    ((1 : Nat), rows.map fun old => if old.id = row.id then old.overwrite row else old)
  | .selectDeployment .., rows | .selectPending _, rows => (([] : List DeploymentRow), rows)
  | .selectDevices .., rows => (([] : List DeviceRow), rows)
  | .countDevices _, rows | .countPending _, rows => (([] : List (Option Int64)), rows)
  | .selectPendingDevices _, rows => (([] : List (Option (List UInt8))), rows)
  | .selectDeviceState .., rows => (([] : List (Option String)), rows)
  | .quarantine .., rows | .updateDevice .., rows | .failDevices .., rows => ((0 : Nat), rows)
  | .begin, rows | .commit, rows | .rollback, rows | .savepoint, rows | .rollbackToSavepoint, rows
  | .releaseSavepoint, rows | .schema _, rows | .insertDeployment _, rows | .insertDevice .., rows =>
    ((), rows)

/-- The devices of one rollout cannot be read, under a savepoint or else outside of all. -/
def readOf (id : DeploymentId) (under : Bool) : Strikes σ := fun c s =>
  decide (s = .selectPendingDevices id) && (c.savepoints.isEmpty != under)

theorem spares_readOf (id : DeploymentId) (under : Bool) : Spares (σ := σ) (readOf id under) := by
  intro c s strike
  have read : s = .selectPendingDevices id := of_decide_eq_true (Bool.and_eq_true_iff.1 strike).1
  rw [read]
  rfl

/-- Surroundings in which each step is done at once. -/
def Database.Setting.sample : Setting where
  clock _ := .epoch
  reply _ := ⟨.advance, []⟩

/-- Two rollouts of the same plan. -/
def Deployment.pair : List Deployment :=
  [.sample, { Deployment.sample with id := ⟨Vector.replicate 16 2⟩ }]

def Database.DeploymentRow.pair : List DeploymentRow :=
  Deployment.pair.filterMap fun d => (DeploymentRow.encode d).toOption

theorem claim_of_pair :
    (Task.store (.claimDue Worker.sample.batchSize .epoch)).run.eval
        (attend .sample (plainly .rollouts)) DeploymentRow.pair =
      some (.ok Deployment.pair, DeploymentRow.pair) := rfl

/-- The same statement is struck under the savepoint of its rollout, and before all savepoints. -/
theorem isolated_of_pair :
    let cycle := fun under => (Worker.sample.cycle .epoch).run.eval
      (attend .sample (guarded .rollouts (readOf Deployment.sample.id under)))
      (.opened DeploymentRow.pair)
    (Deployment.pair.map (·.id)).Nodup ∧
    (∃ work rows,
      (Worker.readPending Deployment.pair).eval (attend .sample (plainly .rollouts))
        DeploymentRow.pair = some (work, rows) ∧
      let parts := settleApart (Worker.sample.part .epoch .rollouts .sample) [Deployment.sample.id]
        (Setting.sample.items work) rows
      cycle true = some (.ok (parts.1.add { claimed := 2, failed := 2 - work.length }),
        { Connection.opened parts.2 with struck := [Deployment.sample.id] })) ∧
    ∃ r c, cycle false = some (r, c) ∧ c.committed = DeploymentRow.pair := by
  intro cycle
  have distinct : (Deployment.pair.map (·.id)).Nodup := by decide
  refine ⟨distinct, ?_, ?_⟩
  · have under : ∀ c s, readOf Deployment.sample.id true c s →
        (c : Connection (List DeploymentRow)).savepoints ≠ [] := by
      intro c s strike outside
      simp [readOf, outside] at strike
    obtain ⟨work, rows, hit, reads, -, run⟩ :=
      (savepoints_isolate claim_of_pair distinct (spares_readOf Deployment.sample.id true)).1 under
    have struck : (cycle true).map (·.2.struck) = some [Deployment.sample.id] := rfl
    have ends : cycle true = _ := run
    rw [ends] at struck
    obtain rfl : hit = [Deployment.sample.id] := Option.some.inj struck
    exact ⟨work, rows, reads, ends⟩
  · have early : ∀ c : Connection (List DeploymentRow), c.savepoints = [] →
        readOf Deployment.sample.id false c (.selectPendingDevices Deployment.sample.id) := by
      intro c outside
      simp [readOf, outside]
    obtain ⟨r, c, run, kept, -⟩ :=
      (savepoints_isolate claim_of_pair distinct (spares_readOf Deployment.sample.id false)).2
        .sample List.mem_cons_self early
    exact ⟨r, c, run, kept⟩

/-- **A read that fails costs all rollouts their steps**: no part of any is kept, and all are counted
as failed, though without the one rollout the step of the other would be done. -/
theorem read_failure_spreads :
    let apart := settleApart (Worker.sample.part .epoch .rollouts .sample) [Deployment.sample.id]
      (Setting.sample.items (Deployment.pair.map (·, []))) DeploymentRow.pair
    (Worker.sample.cycle .epoch).run.eval
        (attend .sample (guarded .rollouts (readOf Deployment.sample.id false)))
        (.opened DeploymentRow.pair) =
      some (.ok { claimed := 2, failed := 2 },
        { Connection.opened DeploymentRow.pair with struck := [Deployment.sample.id] }) ∧
    apart.1 = { advanced := 1, failed := 1 } ∧ apart.2 ≠ DeploymentRow.pair := by
  intro apart
  have differs : apart.2 ≠ DeploymentRow.pair := by decide +kernel
  exact ⟨rfl, rfl, differs⟩

end FirmwareRollout
