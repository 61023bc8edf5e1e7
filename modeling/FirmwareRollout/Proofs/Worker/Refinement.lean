import FirmwareRollout.Proofs.Store.Claiming
import FirmwareRollout.Proofs.Worker.Settling

/-!
A cycle with its transaction, savepoints and faults against the plain update of a store. What a
cycle leaves is what the steps of the rollouts that it has claimed make of the store, each on its
own, except for those on which a call has failed: they stay as they are (`reaches_cycle`).

Main statement: `cycle_is_plain_update`.
-/

namespace FirmwareRollout

section Cycle

variable {env : Surroundings} {faults : Faults} {w : World} {s : Store} {t : Transaction}
  {struck hit : List DeploymentId} {worker : Worker} {now : Instant} {es : List Entry}

/-! ### The claim -/

/-- The rollouts that a cycle claims. -/
def Worker.claims (worker : Worker) (s : Store) (now : Instant) : List Deployment :=
  (Transaction.due s .fresh now).take worker.batchSize.toNat

/-- The entries of what a cycle claims: each is there once, and nobody else has locked it. -/
structure Batch (worker : Worker) (s : Store) (now : Instant) (es : List Entry) : Prop where
  claims : es.map (·.deployment) = worker.claims s now
  stored : ∀ e ∈ es, s.entries.find? e.id = some e
  nodup : (es.map Entry.id).Nodup
  free : ∀ e ∈ es, s.locked.contains e.id = false

theorem Store.exists_entries (s : Store) {ds : List Deployment}
    (stored : ∀ d ∈ ds, s.get d.id = some d) :
    ∃ es : List Entry, es.map (·.deployment) = ds ∧ ∀ e ∈ es, s.entries.find? e.id = some e := by
  induction ds with
  | nil => exact ⟨[], rfl, by simp⟩
  | cons d ds ih =>
    obtain ⟨first, rest⟩ := List.forall_mem_cons.1 stored
    obtain ⟨es, rfl, hes⟩ := ih rest
    obtain ⟨e, he, rfl⟩ := get_eq_some_iff.1 first
    exact ⟨e :: es, rfl, List.forall_mem_cons.2 ⟨he, hes⟩⟩

theorem Batch.ids (batch : Batch worker s now es) :
    es.map Entry.id = (worker.claims s now).map (·.id) := by
  rw [← batch.claims, List.map_map]
  rfl

theorem exists_batch (hs : s.Keyed) (worker : Worker) (now : Instant) :
    ∃ es, Batch worker s now es := by
  have claimed : ∀ d ∈ worker.claims s now, Transaction.Free s .fresh d.id ∧
      s.get d.id = some d := by
    intro d hd
    obtain ⟨free, view, -⟩ := Transaction.of_mem_claimDue hs Transaction.confined_fresh hd
    exact ⟨free, view⟩
  obtain ⟨es, hes, stored⟩ := s.exists_entries fun d hd => (claimed d hd).2
  have ids : es.map Entry.id = (worker.claims s now).map (·.id) := by
    rw [← hes, List.map_map]
    rfl
  refine ⟨es, hes, stored, ?_, fun e he => ?_⟩
  · rw [ids]
    exact (Transaction.nodup_due hs Transaction.confined_fresh now).sublist
      ((List.take_sublist _ _).map _)
  · have hd : e.deployment ∈ worker.claims s now := hes ▸ List.mem_map_of_mem he
    exact (claimed e.deployment hd).1.2.resolve_left (by simp [Transaction.fresh])

/-- A transaction that has locked rollouts and has written nothing. -/
def Transaction.holding (ids : List DeploymentId) : Transaction :=
  { fresh with held := IdSet.addAll .empty ids }

/-- A store in which more rollouts are locked. -/
def Store.lockAll (s : Store) (ids : List DeploymentId) : Store :=
  { s with locked := s.locked.addAll ids }

theorem Transaction.untouched_holding (ids : List DeploymentId) (id : DeploymentId) :
    (holding ids).Untouched id := ⟨rfl, fun _ => rfl⟩

theorem perform_claimDue (worker : Worker) (s : Store) (now clock : Instant) :
    Transaction.fresh.perform s clock (.claimDue worker.batchSize now) =
      some (.ok (worker.claims s now), s.lockAll ((worker.claims s now).map (·.id)),
        some (.holding ((worker.claims s now).map (·.id)))) :=
  Transaction.perform_claim ..

theorem Batch.claimed (batch : Batch worker s now es) {e : Entry} (he : e ∈ es) :
    Claimed (s.lockAll (es.map Entry.id)) (.holding (es.map Entry.id)) e where
  stored := batch.stored e he
  locked := (IdSet.contains_addAll _ _ _).2 (.inl (List.mem_map_of_mem he))
  held := (IdSet.contains_addAll _ _ _).2 (.inl (List.mem_map_of_mem he))
  untouched := Transaction.untouched_holding _ _

/-! ### The commit -/

theorem IdSet.ext {a b : IdSet} (h : ∀ id, a.contains id ↔ b.contains id) : a = b := by
  refine Table.ext fun id => ?_
  have same := h id
  unfold Table.contains at same
  cases ha : a.find? id <;> cases hb : b.find? id <;> simp_all

/-- The rollouts of a list that are not hit. -/
def spared (hit ids : List DeploymentId) : List DeploymentId := ids.filter (· ∉ hit)

/-- **A commit makes the steps of the batch**, except for what was hit, and gives its locks back. -/
theorem Batch.commit (batch : Batch worker s now es) {step : Entry → Entry}
    (held : t.held = IdSet.addAll .empty (es.map Entry.id))
    (own : ∀ e ∈ es, t.settleEntry e.id e = if e.id ∈ hit then e else step e)
    (others : ∀ id, id ∉ es.map Entry.id → t.Untouched id) :
    Transaction.commit (s.lockAll (es.map Entry.id)) t =
      s.stepAll (spared hit (es.map Entry.id)) step := by
  have entries : s.entries.map t.settleEntry =
      (s.stepAll (spared hit (es.map Entry.id)) step).entries := by
    refine Table.ext fun id => ?_
    rw [Store.find?_stepAll, Table.find?_map]
    cases he : s.entries.find? id with
    | none => simp
    | some e =>
      by_cases hid : id ∈ es.map Entry.id
      · obtain ⟨e', he', rfl⟩ := List.mem_map.1 hid
        obtain rfl := Option.some.inj ((batch.stored e' he').symm.trans he)
        rw [Option.map_some, own e' he']
        by_cases hhit : e'.id ∈ hit
        · have absent : e'.id ∉ spared hit (es.map Entry.id) := by simp [spared, hhit]
          rw [if_pos hhit, if_neg absent]
        · have member : e'.id ∈ spared hit (es.map Entry.id) :=
            List.mem_filter.2 ⟨hid, by simpa using hhit⟩
          rw [if_neg hhit, if_pos member, Option.map_some]
      · rw [Option.map_some, (others id hid).settleEntry, if_neg]
        exact fun h => hid (List.mem_filter.1 h).1
  have locks : (t.held.keys.foldl (·.erase ·) (s.locked.addAll (es.map Entry.id))) = s.locked := by
    refine IdSet.ext fun id => ?_
    rw [Table.contains_foldl_erase, Table.mem_keys_iff, held, IdSet.contains_addAll,
      IdSet.contains_addAll]
    by_cases hid : id ∈ es.map Entry.id
    · obtain ⟨e, he, rfl⟩ := List.mem_map.1 hid
      simp [hid, batch.free e he]
    · simp [hid]
  unfold Transaction.commit Transaction.unlock Store.lockAll
  simp only
  rw [entries, locks]
  rfl

/-! ### Asking the bridge -/

theorem runs_readPending (hs : s.Keyed) (claimed : ∀ e ∈ es, Claimed s t e)
    (nodup : (es.map Entry.id).Nodup) :
    Runs env faults w s (fun work t' struck' => ∃ hit : List DeploymentId,
        hit.Sublist (es.map Entry.id) ∧ struck' = struck ++ hit ∧ t' = t ∧
        work = (es.filter fun e => e.id ∉ hit).map fun e => (e.deployment, e.pendingDevices))
      (Worker.readPending (es.map (·.deployment))) t struck := by
  induction es generalizing struck with
  | nil => exact Runs.done ⟨[], .slnil, by simp, rfl, rfl⟩
  | cons e es ih =>
    obtain ⟨distinct, nodup⟩ := List.nodup_cons.1 nodup
    obtain ⟨first, rest⟩ := List.forall_mem_cons.1 claimed
    have others : ∀ e' ∈ es, e'.id ≠ e.id := fun e' he' h => distinct (h ▸ List.mem_map_of_mem he')
    have perform : t.perform s (env.clock (.pendingDevices e.id)) (.pendingDevices e.id) =
        some (.ok e.pendingDevices, s, some t) := by
      rw [← Transaction.pendingDevices_of_untouched hs first.stored first.untouched]
      rfl
    refine Runs.bind (runs_store (by simp) perform) fun pending t₁ struck₁ => ?_
    rintro (⟨rfl, rfl, rfl⟩ | ⟨error, rfl, -, rfl, -, rfl⟩)
    · refine Runs.bind (ih rest nodup) fun work t₂ struck₂ => ?_
      rintro ⟨hit, among, rfl, rfl, rfl⟩
      have unhit : e.id ∉ hit := fun h => distinct (among.subset h)
      refine Runs.done ⟨hit, among.cons e.id, rfl, rfl, ?_⟩
      rw [List.filter_cons_of_pos (by simpa using unhit)]
      rfl
    · refine Runs.bind (ih rest nodup) fun work t₂ struck₂ => ?_
      rintro ⟨hit, among, rfl, rfl, rfl⟩
      refine Runs.done ⟨e.id :: hit, among.cons_cons e.id, ?_, rfl, ?_⟩
      · simp [Call.deployment?, Entry.id]
      rw [List.filter_cons_of_neg (by simp)]
      congr 1
      refine List.filter_congr fun e' he' => ?_
      simp [others e' he']

/-- All requests are answered, and nothing else happens meanwhile. -/
theorem runs_consult (requests : List StepRequest) :
    Runs env faults w s (fun results t' struck' =>
        results = requests.map env.reply ∧ t' = t ∧ struck' = struck)
      (Worker.consult requests) t struck := by
  have sent : ∀ requests : List StepRequest, Runs env faults w s
      (fun _ t' struck' => t' = t ∧ struck' = struck) (requests.forM Task.send) t struck := by
    intro requests
    induction requests with
    | nil => exact Runs.done ⟨rfl, rfl⟩
    | cons q requests ih => exact Runs.send ih
  refine Runs.bind (sent requests) fun _ t' struck' => ?_
  rintro ⟨rfl, rfl⟩
  induction requests with
  | nil => exact Runs.done ⟨rfl, rfl, rfl⟩
  | cons q requests ih =>
    rw [List.mapM_cons]
    refine Runs.receive ?_
    show Runs env faults w s _ (Program.bind (requests.mapM Task.receive) _) t' struck'
    refine Runs.bind ih fun results t₁ struck₁ => ?_
    rintro ⟨rfl, rfl, rfl⟩
    exact Runs.done ⟨rfl, rfl, rfl⟩

/-! ### The cycle -/

/-- The summary of a cycle. -/
def Worker.report (worker : Worker) (now : Instant) (env : Surroundings) (hit : List DeploymentId)
    (es : List Entry) : Summary :=
  (Summary.total (es.map (worker.tally now env hit))).add { claimed := es.length }

/-- What could not be read counts like what could not be written. -/
theorem Worker.report_of_kept (hit : List DeploymentId) {hit' : List DeploymentId} :
    (Summary.total ((es.filter fun e => e.id ∉ hit).map (worker.tally now env hit'))).add
        { claimed := es.length, failed := es.length - (es.filter fun e => e.id ∉ hit).length } =
      worker.report now env (hit ++ hit') es := by
  unfold report
  induction es with
  | nil => rfl
  | cons e es ih =>
    have fewer : (es.filter fun e => e.id ∉ hit).length ≤ es.length := List.length_filter_le _ _
    simp only [Summary.add, Summary.mk.injEq] at ih
    by_cases he : e.id ∈ hit
    · have struck : worker.tally now env (hit ++ hit') e = { failed := 1 } := by simp [tally, he]
      rw [List.filter_cons_of_neg (by simpa using he), List.map_cons, struck]
      simp only [Summary.total, Summary.add, Summary.mk.injEq, List.length_cons]
      omega
    · have spared : worker.tally now env (hit ++ hit') e = worker.tally now env hit' e := by
        simp [tally, he]
      rw [List.filter_cons_of_pos (by simpa using he), List.map_cons, List.map_cons, spared]
      simp only [Summary.total, Summary.add, Summary.mk.injEq, List.length_cons]
      omega

theorem reaches_begin (absent : w.transactions.find? env.tx = none) {made : Nat} :
    (Task.store .begin).run.Reaches (answer env faults)
      (fun r scene => r = .ok () ∧ scene.world = w.put env.tx w.store (some .fresh) ∧
        scene.struck = struck) ⟨w, made, struck⟩ := by
  refine ⟨.ok (), ⟨w.put env.tx w.store (some .fresh), made + 1, struck⟩, ?_, rfl, rfl, rfl⟩
  unfold answer
  cases fault : faults.at? made .begin with
  | none =>
    simp only [fault, World.perform, World.abandon, absent]
    rfl
  | some e => cases faults.concerns fault

theorem reaches_commit (batch : Batch worker w.store now es)
    (absent : w.transactions.find? env.tx = none) (hit : List DeploymentId) (step : Entry → Entry)
    (held : t.held = IdSet.addAll .empty (es.map Entry.id))
    (own : ∀ e ∈ es, t.settleEntry e.id e = if e.id ∈ hit then e else step e)
    (others : ∀ id, id ∉ es.map Entry.id → t.Untouched id) (summary : Summary) {made : Nat} :
    (do let _ ← Task.store .commit; return summary : Fallible Summary).run.Reaches
      (answer env faults) (fun r scene => r = .ok summary ∧ scene.struck = struck ∧
        scene.world = ⟨w.store.stepAll (spared hit (es.map Entry.id)) step, w.transactions⟩)
      ⟨w.put env.tx (w.store.lockAll (es.map Entry.id)) (some t), made, struck⟩ := by
  refine Program.Reaches.andThen (reaches_control (by simp) rfl rfl) (fun _ scene h => ?_)
    fun _ _ h => by cases h.1
  obtain ⟨-, hworld, hstruck⟩ := h
  refine ⟨rfl, hstruck, ?_⟩
  rw [hworld, World.put_none w absent, batch.commit held own others]

/-- What is kept of a batch when the devices of some rollouts cannot be read. -/
def keep (hit : List DeploymentId) (es : List Entry) : List Entry := es.filter fun e => e.id ∉ hit

theorem mem_keep {e : Entry} : e ∈ keep hit es ↔ e ∈ es ∧ e.id ∉ hit := by
  simp [keep]

theorem keep_sublist (hit : List DeploymentId) (es : List Entry) :
    ((keep hit es).map Entry.id).Sublist (es.map Entry.id) := List.filter_sublist.map _

/-- Rollouts that are left out stay as they are, like those that are hit. -/
theorem Carried.own_of_keep {step : Entry → Entry} {ids hit' : List DeploymentId}
    (h : Carried step (keep hit es) hit' (.holding ids) t) {e : Entry} (he : e ∈ es) :
    t.settleEntry e.id e = if e.id ∈ hit ++ hit' then e else step e := by
  by_cases hhit : e.id ∈ hit
  · have absent : e.id ∉ (keep hit es).map Entry.id := by
      intro hid
      obtain ⟨e', he', same⟩ := List.mem_map.1 hid
      exact (mem_keep.1 he').2 (same ▸ hhit)
    have untouched := Transaction.untouched_holding ids e.id
    rw [if_pos (List.mem_append_left _ hhit), (h.others e.id absent).settleEntry,
      untouched.settleEntry]
  · rw [h.own e (mem_keep.2 ⟨he, hhit⟩)]
    simp [hhit]

/-- **What a cycle leaves**: the steps of the rollouts that it has claimed, except for those that are
struck. -/
theorem reaches_cycle (sound : w.shared.Sound) (absent : w.transactions.find? env.tx = none)
    (faults : Faults) (worker : Worker) (now : Instant) (made : Nat) :
    (worker.cycle now).run.Reaches (answer env faults) (fun r scene => ∃ es,
        Batch worker w.store now es ∧ r = .ok (worker.report now env scene.struck es) ∧
        (∀ id ∈ scene.struck, id ∈ es.map Entry.id) ∧
        scene.world = ⟨w.store.stepAll (spared scene.struck (es.map Entry.id))
          (worker.stepEntry now env), w.transactions⟩)
      ⟨w, made, []⟩ := by
  have stored : w.store.Keyed := sound.keyed
  obtain ⟨es, batch⟩ := exists_batch stored worker now
  have keyed : (w.store.lockAll (es.map Entry.id)).Keyed := stored.congr rfl
  refine Program.Reaches.andThen (reaches_begin absent) (fun _ scene h => ?_)
    fun _ _ h => by cases h.1
  obtain ⟨world, made, struck⟩ := scene
  obtain ⟨-, rfl, rfl⟩ := h
  refine Program.Reaches.andThen (reaches_control (by simp) rfl
    (perform_claimDue worker w.store now _)) (fun claimed scene h => ?_) fun _ _ h => by cases h.1
  obtain ⟨world, made, struck⟩ := scene
  obtain ⟨hclaimed, rfl, rfl⟩ := h
  obtain rfl := Except.ok.inj hclaimed
  rw [← batch.ids, ← batch.claims]
  show Program.Reaches _ _ (ExceptT.run (if _ then _ else _)) _
  split
  · next empty =>
    obtain rfl : es = [] := by simpa using empty
    refine (reaches_commit batch absent [] (worker.stepEntry now env) rfl (by simp)
      (fun id _ => Transaction.untouched_holding _ id) {}).imp fun r scene h => ?_
    obtain ⟨rfl, hstruck, hworld⟩ := h
    rw [hstruck]
    exact ⟨[], batch, rfl, by simp, hworld⟩
  · refine Program.Reaches.liftThen (runs_readPending keyed (fun e he => batch.claimed he)
      batch.nodup _) fun work scene h => ?_
    obtain ⟨world, made, struck⟩ := scene
    obtain ⟨_, rfl, hit, among, hstruck, rfl, rfl⟩ := h
    obtain rfl : struck = hit := hstruck
    refine Program.Reaches.liftThen (runs_consult _ _) fun results scene h => ?_
    obtain ⟨world, made, struck'⟩ := scene
    obtain ⟨_, rfl, rfl, rfl, hstruck⟩ := h
    obtain rfl : struck' = struck := hstruck
    show Program.Reaches _ _ (ExceptT.run (worker.settleAll now _ >>= _)) _
    have work : (((keep struck' es).map fun e => (e.deployment, e.pendingDevices)).map (·.1)).zip
        ((((keep struck' es).map fun e => (e.deployment, e.pendingDevices)).map
          fun w => StepRequest.ofDeployment w.1 w.2).map env.reply) =
        (keep struck' es).map fun e => (e.deployment, env.reply e.request) := by
      rw [List.map_map, List.map_map, List.map_map, List.zip_map']
      rfl
    have settled : Runs env faults w _ _ _ _ struck' :=
      runs_settleAll keyed worker now
      (fun e he => batch.claimed (mem_keep.1 he).1) (batch.nodup.sublist (keep_sublist struck' es)) rfl
    rw [← work] at settled
    refine Program.Reaches.andThen (settled _) (fun summary scene h => ?_) fun _ _ h => ?_
    · obtain ⟨world, made, struck⟩ := scene
      obtain ⟨t, rfl, hit', rfl, rfl, carried⟩ := h
      refine (reaches_commit batch absent _ _ carried.held (fun e he => carried.own_of_keep he)
        (fun id hid => (Transaction.untouched_holding _ id).sameOn (carried.others id fun h =>
          hid ((keep_sublist _ _).subset h))) _).imp fun r scene h => ?_
      obtain ⟨rfl, hstruck, hworld⟩ := h
      rw [hstruck]
      refine ⟨es, batch, ?_, ?_, hworld⟩
      · rw [← Worker.report_of_kept]
        simp [keep]
      · intro id hid
        rcases List.mem_append.1 hid with hid | hid
        · exact among.subset hid
        · exact (keep_sublist _ _).subset (carried.among.subset hid)
    · obtain ⟨_, _, h⟩ := h
      exact h.elim

/-- The run of a cycle. -/
theorem advance_cycle (sound : w.shared.Sound) (absent : w.transactions.find? env.tx = none)
    (faults : Faults) (worker : Worker) (now : Instant) :
    ∃ es struck made, Batch worker w.store now es ∧ (∀ id ∈ struck, id ∈ es.map Entry.id) ∧
      (worker.cycle now).run.advance (answer env faults) ⟨w, 0, []⟩ =
        (.done (.ok (worker.report now env struck es)),
          ⟨⟨w.store.stepAll (spared struck (es.map Entry.id)) (worker.stepEntry now env),
            w.transactions⟩, made, struck⟩) := by
  obtain ⟨r, scene, run, es, batch, hr, among, hworld⟩ :=
    (reaches_cycle sound absent faults worker now 0).advance
  obtain ⟨world, made, struck⟩ := scene
  refine ⟨es, struck, made, batch, among, ?_⟩
  rw [run, hr]
  exact congrArg (fun world => (_, Scene.mk world made struck)) hworld

/-- The run of a cycle without faults. -/
theorem advance_cycle_none (sound : w.shared.Sound)
    (absent : w.transactions.find? env.tx = none) (worker : Worker) (now : Instant) :
    ∃ es made, Batch worker w.store now es ∧
      (worker.cycle now).run.advance (answer env .none) ⟨w, 0, []⟩ =
        (.done (.ok (worker.report now env [] es)), ⟨⟨w.store.stepAll (es.map Entry.id)
          (worker.stepEntry now env), w.transactions⟩, made, []⟩) := by
  obtain ⟨es, struck, made, batch, -, run⟩ := advance_cycle sound absent .none worker now
  have unstruck : struck = [] := by
    have := struck_advance env (worker.cycle now).run ⟨w, 0, []⟩
    rwa [run] at this
  subst unstruck
  have all : spared [] (es.map Entry.id) = es.map Entry.id := List.filter_eq_self.2 (by simp)
  rw [all] at run
  exact ⟨es, made, batch, run⟩

end Cycle

/-! ### A cycle without faults -/

theorem Store.filterMap_get (s : Store) :
    s.entries.keys.filterMap s.get = s.entries.values.map (·.deployment) := by
  have stored : ∀ row ∈ s.entries.rows, s.get row.1 = some row.2.deployment :=
    fun row hrow => get_of_find? (Table.mem_rows_iff.1 hrow)
  unfold Table.keys Table.values
  generalize s.entries.rows = rows at stored
  induction rows with
  | nil => rfl
  | cons row rows ih =>
    obtain ⟨first, rest⟩ := List.forall_mem_cons.1 stored
    rw [List.map_cons, List.filterMap_cons_some first, ih rest]
    rfl

/-- Where nothing is locked, what can be claimed is what is due. -/
theorem Transaction.due_of_unlocked {s : Store} (unlocked : s.locked = .empty) (now : Instant) :
    due s .fresh now = s.dueAt now := by
  have all : (s.entries.keys.filter fun id => fresh.held.contains id || !s.locked.contains id) =
      s.entries.keys := by
    rw [List.filter_eq_self]
    intro id _
    simp [unlocked]
  have seen : fresh.view s = s.get := funext fun id => Option.none_or
  unfold due Store.dueAt
  rw [all, seen, s.filterMap_get]

theorem Shared.Sound.unlocked {s : Store} (sound : Sound ⟨s, .empty⟩) : s.locked = .empty := by
  refine IdSet.ext fun id => ⟨fun hid => ?_, fun hid => by cases hid⟩
  obtain ⟨tx, x, hx, -⟩ := sound.locked_iff.1 hid
  cases hx

/-- **A cycle that nobody disturbs is a plain update**: whatever the bridge answers, it has a result,
and what is stored then is what the steps of the first rollouts that were due make of it, each on its
own. All others are as before, and nothing is locked. -/
theorem cycle_is_plain_update (h : List Stroke) (s : Store) (reached : Shared.after h = ⟨s, .empty⟩)
    (worker : Worker) (now : Instant) (env : Surroundings) :
    let ids := ((s.dueAt now).take worker.batchSize.toNat).map (·.id)
    let s' := s.stepAll ids (worker.stepEntry now env)
    (∃ summary made, (worker.cycle now).run.advance (answer env .none) ⟨.ofStore s, 0, []⟩ =
      (.done (.ok summary), ⟨.ofStore s', made, []⟩)) ∧
    (∀ id, id ∉ ids → s'.entries.find? id = s.entries.find? id) ∧ s'.locked = .empty := by
  intro ids s'
  have sound : Shared.Sound ⟨s, .empty⟩ := reached ▸ Shared.sound_after h
  have shared : (World.ofStore s).shared.Sound := sound
  have absent : (World.ofStore s).transactions.find? env.tx = none := rfl
  obtain ⟨es, made, batch, run⟩ := advance_cycle_none shared absent worker now
  have first : es.map Entry.id = ids := by
    rw [batch.ids, Worker.claims]
    show ((Transaction.due s .fresh now).take _).map _ = _
    rw [Transaction.due_of_unlocked sound.unlocked]
  rw [first] at run
  refine ⟨⟨_, made, run⟩, fun id hid => ?_, sound.unlocked⟩
  rw [Store.find?_stepAll, if_neg hid]

/-- A rollout that is due, like the sample, and waits for its devices. -/
def Deployment.awaiting : Deployment :=
  { Deployment.sample with
    id := ⟨Vector.replicate 16 1⟩, progress := ⟨.statusRequested, .epoch, 0⟩ }

/-- A rollout without a group, which is never due. -/
def Deployment.groupless : Deployment :=
  { Deployment.sample with
    id := ⟨Vector.replicate 16 2⟩, plan := { Deployment.sample.plan with group := none } }

/-- A pair of rollouts that are due and one that is not, with a device each. -/
def Shared.pair : List Stroke :=
  [.create .groupless [⟨⟨Vector.replicate 8 2⟩, "meter"⟩],
    .create .awaiting [⟨⟨Vector.replicate 8 1⟩, "meter"⟩],
    .create .sample [⟨⟨Vector.replicate 8 0⟩, "meter"⟩]]

theorem Shared.after_pair : after pair = ⟨(after pair).store, .empty⟩ := by decide +kernel

/-- Both are due at the same time, so that they are taken by their identifiers. -/
theorem Shared.due_pair :
    Transaction.due (after pair).store .fresh .epoch = [.sample, .awaiting] := by
  have selected : ((((after pair).store.entries.keys.filter fun id =>
      Transaction.fresh.held.contains id || !(after pair).store.locked.contains id).filterMap
      (Transaction.fresh.view (after pair).store)).filter fun d => d.isDue .epoch) =
      [.sample, .awaiting] := by decide +kernel
  rw [Transaction.due, selected]
  exact List.mergeSort_of_pairwise (by decide)

/-- A worker that gives a step three attempts. -/
def Worker.sample : Worker := ⟨⟨⟨3, .zero, .zero⟩, ⟨.zero, .zero⟩⟩, 10⟩

/-- Surroundings in which each step is done at once and all of its devices report success. -/
def Surroundings.sample : Surroundings where
  tx := 0
  clock _ := .epoch
  timeout := .zero
  bridge q := .reported ⟨.completed, none, q.pending.map fun eui => ⟨eui, .success, ""⟩⟩

theorem plain_update_of_pair :
    let s := (Shared.after Shared.pair).store
    let ids := [Deployment.sample.id, Deployment.awaiting.id]
    let s' := s.stepAll ids (Worker.sample.stepEntry .epoch .sample)
    Shared.after Shared.pair = ⟨s, .empty⟩ ∧
    (∃ summary made, (Worker.sample.cycle .epoch).run.advance (answer .sample .none)
      ⟨.ofStore s, 0, []⟩ = (.done (.ok summary), ⟨.ofStore s', made, []⟩)) ∧
    (∀ id ∈ ids, s'.get id ≠ s.get id) ∧
    s'.entries.find? Deployment.groupless.id = s.entries.find? Deployment.groupless.id := by
  intro s ids s'
  have due : s.dueAt .epoch = [.sample, .awaiting] :=
    (Transaction.due_of_unlocked (by decide +kernel) .epoch).symm.trans Shared.due_pair
  obtain ⟨run, others, -⟩ :=
    cycle_is_plain_update Shared.pair s Shared.after_pair .sample .epoch .sample
  rw [due] at run others
  exact ⟨Shared.after_pair, run, by decide +kernel, others _ (by decide)⟩

end FirmwareRollout
