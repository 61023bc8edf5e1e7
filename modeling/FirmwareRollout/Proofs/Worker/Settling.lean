import FirmwareRollout.Proofs.Store.Staged
import FirmwareRollout.Proofs.Worker.Solo

/-!
What a cycle writes in its transaction, rollout by rollout, whatever calls fail. The part for one
rollout ends with all that its step writes, or with a call that has failed (`runs_persist`); then its
savepoint takes back what was written of this rollout and nothing else. `Carried` says what the
transaction has come to when several rollouts are settled one after another.

Main statements: `runs_settle`, `runs_settleAll`.
-/

namespace FirmwareRollout

/-! ### What a step comes to -/

/-- How many of the devices are reported. -/
def countReported (reports : List DeviceReport) (euis : List DevEui) : Nat :=
  (euis.filter fun eui => eui ∈ reports.map (·.eui)).length

theorem countReported_cons_of_not_mem {r : DeviceReport} {euis : List DevEui}
    (unlisted : r.eui ∉ euis) (rest : List DeviceReport) :
    countReported (r :: rest) euis = countReported rest euis := by
  unfold countReported
  congr 1
  refine List.filter_congr fun eui heui => ?_
  have hne : eui ≠ r.eui := fun h => unlisted (h ▸ heui)
  simp [hne]

theorem countReported_cons_of_mem {r : DeviceReport} {euis : List DevEui} (nodup : euis.Nodup)
    (listed : r.eui ∈ euis) (rest : List DeviceReport) :
    countReported (r :: rest) euis =
      countReported rest (euis.filter (· ≠ r.eui)) + 1 := by
  unfold countReported
  have others : euis.erase r.eui = euis.filter (· ≠ r.eui) := by
    rw [nodup.erase_eq_filter]
    refine List.filter_congr fun eui _ => ?_
    by_cases h : eui = r.eui <;> simp [h]
  have front := ((List.perm_cons_erase listed).filter
    fun eui => eui ∈ (r :: rest).map (·.eui)).length_eq
  rw [front, others, List.filter_cons_of_pos (by simp), List.length_cons]
  congr 2
  refine List.filter_congr fun eui heui => ?_
  have hne : eui ≠ r.eui := by simpa using (List.mem_filter.1 heui).2
  simp [hne]

/-- What the clock reads when a cycle writes the records of a rollout. -/
def Surroundings.stamps (env : Surroundings) (id : DeploymentId) : Stamps where
  heard r := (env.clock (.recordOutcome id r.eui r.outcome r.message)).floorMicros
  givenUp message := (env.clock (.failPending id message)).floorMicros
  written d := (env.clock (.update d)).floorMicros

namespace Worker

/-- The step that a cycle makes of a rollout. -/
def stepEntry (worker : Worker) (now : Instant) (env : Surroundings) (e : Entry) : Entry :=
  e.step worker.machine now (env.stamps e.id) (env.reply e.request)

/-- The counts of the step. -/
def account (worker : Worker) (now : Instant) (env : Surroundings) (e : Entry) : Summary :=
  .ofTransition e.deployment.progress.stage
    (e.transition worker.machine now (env.stamps e.id) (env.reply e.request))
    (countReported (env.reply e.request).devices e.pendingDevices)

end Worker

section Settling

variable {env : Surroundings} {faults : Faults} {w : World} {s : Store} {t t₁ t₂ : Transaction}
  {struck hit hit' : List DeploymentId} {id : DeploymentId} {worker : Worker} {now : Instant}
  {e : Entry} {es : List Entry}

/-! ### The part of one rollout -/

theorem runs_recordReports (hs : s.Keyed) (id : DeploymentId) (reports : List DeviceReport)
    (t : Transaction) :
    Runs env faults w s (Ends id (countReported reports (t.pendingDevices s id)) t
      (t.hear s (env.stamps id) id reports) struck) (Worker.recordReports id reports).run t struck := by
  induction reports generalizing t with
  | nil =>
    have none : countReported [] (t.pendingDevices s id) = 0 := by simp [countReported]
    rw [none]
    exact Ends.pure 0
  | cons r rest ih =>
    rw [Worker.recordReports, Transaction.hear]
    by_cases pending : r.eui ∈ t.pendingDevices s id
    · let outcome : StagedOutcome := ⟨r.outcome.state, r.message, (env.stamps id).heard r⟩
      have perform : t.perform s (env.clock (.recordOutcome id r.eui r.outcome r.message))
          (.recordOutcome id r.eui r.outcome r.message) =
            some (.ok (), s, some (t.stage id r.eui outcome)) := by
        rw [Transaction.perform, Transaction.recordOutcome_of_mem hs pending]
        rfl
      have count : countReported (r :: rest) (t.pendingDevices s id) =
          countReported rest ((t.stage id r.eui outcome).pendingDevices s id) + 1 := by
        rw [countReported_cons_of_mem (Transaction.nodup_pendingDevices hs t id) pending,
          Transaction.pendingDevices_stage hs t id r.eui (DeviceState.isTerminal_outcome _)]
      rw [if_pos pending, count]
      refine Runs.outcomeThen (runs_store (by simp) perform) fun result t' struck' => ?_
      rintro (⟨rfl, rfl, rfl⟩ | ⟨error, rfl, plain, rfl, -, rfl⟩)
      · have keeps := Transaction.hear_keeps s (env.stamps id) id rest (t.stage id r.eui outcome)
        have after : Runs env faults w s _ (do return (← Worker.recordReports id rest) + 1).run
            (t.stage id r.eui outcome) struck' :=
          Ends.andThen (ih _) ⟨keeps.1, keeps.2.1⟩ (Ends.pure _)
        exact after.imp fun _ _ _ ends => ends.congr ⟨rfl, rfl⟩
      · show Runs env faults w s _ (ExceptT.run (if _ then _ else _)) _ _
        rw [if_neg (by simp [plain])]
        exact Runs.done (.error error t' rfl rfl)
    · obtain ⟨error, refused, passed⟩ := Transaction.recordOutcome_of_not_mem hs pending
        ((env.clock (.recordOutcome id r.eui r.outcome r.message)).floorMicros) r.outcome r.message
      have perform : t.perform s (env.clock (.recordOutcome id r.eui r.outcome r.message))
          (.recordOutcome id r.eui r.outcome r.message) = some (.error error, s, some t) := by
        rw [Transaction.perform, refused]
        rfl
      rw [if_neg pending, countReported_cons_of_not_mem pending]
      refine Runs.outcomeThen (runs_store (by simp) perform) fun result t' struck' => ?_
      rintro (⟨rfl, rfl, rfl⟩ | ⟨error', rfl, plain, rfl, -, rfl⟩)
      · show Runs env faults w s _ (ExceptT.run (if _ then _ else _)) _ _
        rw [if_pos passed]
        exact ih t'
      · show Runs env faults w s _ (ExceptT.run (if _ then _ else _)) _ _
        rw [if_neg (by simp [plain])]
        exact Runs.done (.error error' t' rfl rfl)

theorem runs_failOutstanding (id : DeploymentId) (message? : Option String) (t : Transaction) :
    Runs env faults w s (Ends id () t (t.giveUp s (env.stamps id) id message?) struck)
      (Worker.failOutstanding id message?).run t struck := by
  cases message? with
  | none => exact Ends.pure ()
  | some message =>
    have perform : t.perform s (env.clock (.failPending id message)) (.failPending id message) =
        some (.ok (t.pendingDevices s id).length, s,
          some (t.giveUp s (env.stamps id) id (some message))) := rfl
    have keeps := Transaction.giveUp_keeps s (env.stamps id) id (some message) t
    exact Ends.andThen (Ends.store (by simp) rfl perform) ⟨keeps.1, keeps.2.1⟩ (Ends.pure ())

/-- The transaction has claimed the rollout and has written nothing of it. -/
structure Claimed (s : Store) (t : Transaction) (e : Entry) : Prop where
  stored : s.entries.find? e.id = some e
  locked : s.locked.contains e.id
  held : t.held.contains e.id
  untouched : t.Untouched e.id

/-- What is held already need not be locked to be written. -/
theorem perform_update {d : Deployment} (known : s.entries.contains d.id)
    (locked : s.locked.contains d.id) (held : t.held.contains d.id) (clock : Instant) :
    t.perform s clock (.update d) =
      some (.ok { d with updatedAt := clock.floorMicros }, s,
        some (t.write { d with updatedAt := clock.floorMicros })) := by
  obtain ⟨⟨⟩, hlocked⟩ := Table.contains_iff.1 locked
  obtain ⟨⟨⟩, hheld⟩ := Table.contains_iff.1 held
  have taken : Transaction.lockState s t d.id = .taken :=
    Transaction.lockState_eq_taken_iff.2 ⟨known, .inl held⟩
  simp only [Transaction.perform, taken, Transaction.lock]
  rw [Table.insert_of_find? hlocked, Table.insert_of_find? hheld]

theorem perform_release {g : Staging} (marked : t.saved = some g) (clock : Instant) :
    t.perform s clock .releaseSavepoint = some (.ok (), s, some { t with saved := none }) := by
  simp only [Transaction.perform, marked]

theorem perform_back {g : Staging} (marked : t.saved = some g) (clock : Instant) :
    t.perform s clock .rollbackToSavepoint =
      some (.ok (), s, some { t with staging := g, saved := none }) := by
  simp only [Transaction.perform, marked]

/-- **The part of a rollout** writes all of its step, or a call on the rollout has failed. -/
theorem runs_persist (hs : s.Keyed) (stored : s.entries.find? e.id = some e)
    (locked : s.locked.contains e.id) (held : t.held.contains e.id) (untouched : t.Untouched e.id) :
    Runs env faults w s (Ends e.id (worker.account now env e) t
        (t.persist worker.machine now s (env.stamps e.id) e.deployment (env.reply e.request)) struck)
      (worker.persist now e.deployment (env.reply e.request)).run t struck := by
  have keeps := Transaction.hear_keeps s (env.stamps e.id) e.id (env.reply e.request).devices t
  have gives := Transaction.giveUp_keeps s (env.stamps e.id) e.id
    (t.transition worker.machine now s (env.stamps e.id) e.deployment
      (env.reply e.request)).failOutstanding
    (t.hear s (env.stamps e.id) e.id (env.reply e.request).devices)
  have account : worker.account now env e = .ofTransition e.deployment.progress.stage
      (t.transition worker.machine now s (env.stamps e.id) e.deployment (env.reply e.request))
      (countReported (env.reply e.request).devices (t.pendingDevices s e.id)) := by
    rw [Transaction.transition_of_untouched hs stored untouched,
      Transaction.pendingDevices_of_untouched hs stored untouched]
    rfl
  rw [account]
  refine Ends.andThen (runs_recordReports hs e.id (env.reply e.request).devices t)
    ⟨keeps.1, keeps.2.1⟩ ?_
  refine Ends.andThen (Ends.store (by simp) rfl rfl) ⟨rfl, rfl⟩ ?_
  refine Ends.andThen (runs_failOutstanding e.id _ _) ⟨gives.1, gives.2.1⟩ ?_
  refine Ends.andThen (Ends.store (by simp) rfl (perform_update ?_ ?_ ?_ _)) ⟨rfl, rfl⟩ (Ends.pure _)
  · exact Table.contains_of_find? stored
  · exact locked
  · exact (gives.1.trans keeps.1) ▸ held

/-! ### Several rollouts -/

/-- **What the transaction has come to** when rollouts are settled: those that are hit are as they
were before, the others have made their steps, and nothing is written of any other rollout. -/
structure Carried (step : Entry → Entry) (es : List Entry) (hit : List DeploymentId)
    (t t' : Transaction) : Prop where
  held : t'.held = t.held
  saved : t'.saved = none
  among : hit.Sublist (es.map Entry.id)
  own : ∀ e ∈ es, t'.settleEntry e.id e = if e.id ∈ hit then e else step e
  others : ∀ id, id ∉ es.map Entry.id → t.SameOn t' id

variable {step : Entry → Entry}

theorem Carried.nil (saved : t.saved = none) : Carried step [] [] t t where
  held := rfl
  saved := saved
  among := .slnil
  own _ h := by cases h
  others _ _ := ⟨rfl, fun _ => rfl⟩

theorem Transaction.SameOn.trans (h : t.SameOn t₁ id) (h' : t₁.SameOn t₂ id) : t.SameOn t₂ id where
  deployment := h'.deployment.trans h.deployment
  outcomes eui := (h'.outcomes eui).trans (h.outcomes eui)

theorem Carried.cons (head : Carried step [e] hit t t₁) (rest : Carried step es hit' t₁ t₂)
    (distinct : e.id ∉ es.map Entry.id) : Carried step (e :: es) (hit ++ hit') t t₂ where
  held := rest.held.trans head.held
  saved := rest.saved
  among := head.among.append rest.among
  own e' he' := by
    rcases List.mem_cons.1 he' with rfl | he'
    · -- the rollouts after it are others
      have unhit : e'.id ∉ hit' := fun h => distinct (rest.among.subset h)
      rw [(rest.others e'.id distinct).settleEntry, head.own e' List.mem_cons_self]
      simp [unhit]
    · have unhit : e'.id ∉ hit := by
        intro h
        have same : e'.id = e.id := by simpa using head.among.subset h
        exact distinct (same ▸ List.mem_map_of_mem he')
      rw [rest.own e' he']
      simp [unhit]
  others id hid := by
    obtain ⟨hne, hid⟩ := not_or.1 fun h => hid (List.mem_cons.2 h)
    exact (head.others id (by simpa using hne)).trans (rest.others id hid)

theorem Claimed.carried {e' : Entry} (h : Claimed s t e') (carried : Carried step es hit t t₁)
    (other : e'.id ∉ es.map Entry.id) : Claimed s t₁ e' where
  stored := h.stored
  locked := h.locked
  held := by
    rw [carried.held]
    exact h.held
  untouched := h.untouched.sameOn (carried.others e'.id other)

/-- The counts of a rollout that may have been hit. -/
def Worker.tally (worker : Worker) (now : Instant) (env : Surroundings) (hit : List DeploymentId)
    (e : Entry) : Summary :=
  if e.id ∈ hit then { failed := 1 } else worker.account now env e

/-- **A rollout is settled as a whole or not at all.** -/
theorem runs_settle (hs : s.Keyed) (claimed : Claimed s t e) (saved : t.saved = none) :
    Runs env faults w s (Succeeds fun summary t' struck' => ∃ hit,
        summary = worker.tally now env hit e ∧ struck' = struck ++ hit ∧
        Carried (worker.stepEntry now env) [e] hit t t')
      (worker.settle now e.deployment (env.reply e.request)).run t struck := by
  refine Runs.succeedsThen (runs_control (by simp) rfl rfl) fun _ t₁ struck₁ => ?_
  rintro ⟨-, rfl, rfl⟩
  have untouched : Transaction.Untouched { t with saved := some t.staging } e.id :=
    ⟨claimed.untouched.deployment, claimed.untouched.outcomes⟩
  refine Runs.outcomeThen (runs_persist hs claimed.stored claimed.locked claimed.held untouched)
    fun r t₂ struck₂ ends => ?_
  cases ends with
  | ok =>
    have keeps := Transaction.persist_keeps worker.machine now s (env.stamps e.id) e.deployment
      (env.reply e.request) { t with saved := some t.staging }
    refine Runs.succeedsThen (runs_control (by simp) rfl (perform_release keeps.2 _))
      fun _ t₃ struck₃ => ?_
    rintro ⟨-, rfl, rfl⟩
    refine Runs.done ⟨[], by simp [Worker.tally], by simp, keeps.1, rfl, List.nil_sublist _, ?_, ?_⟩
    · intro e' he'
      obtain rfl := List.mem_singleton.1 he'
      rw [if_neg (by simp)]
      exact Transaction.settleEntry_persist hs claimed.stored untouched (env.reply e'.request)
    · intro id hid
      have other : id ≠ e.deployment.id := by simpa [Entry.id] using hid
      have same := Transaction.persist_sameOn hs worker.machine now (env.stamps e.id)
        e.deployment (env.reply e.request) { t with saved := some t.staging } other
      exact ⟨same.deployment, same.outcomes⟩
  | error error _ held marked =>
    -- what is taken back is what was written since the mark, which is all of this rollout
    have back : { t₂ with staging := t.staging, saved := none } = t := by
      rw [held, ← saved]
    refine Runs.succeedsThen (runs_control (by simp) rfl (perform_back marked _))
      fun _ t₃ struck₃ => ?_
    rintro ⟨-, rfl, rfl⟩
    rw [back]
    refine Runs.done ⟨[e.id], by simp [Worker.tally], rfl, rfl, saved, .refl _, ?_, ?_⟩
    · intro e' he'
      obtain rfl := List.mem_singleton.1 he'
      rw [if_pos (by simp)]
      exact claimed.untouched.settleEntry e'
    · exact fun _ _ => ⟨rfl, fun _ => rfl⟩

/-- The counts of the parts of a cycle together. -/
def Summary.total : List Summary → Summary
  | [] => {}
  | a :: rest => a.add (total rest)

theorem runs_settleAll (hs : s.Keyed) (worker : Worker) (now : Instant)
    (claimed : ∀ e ∈ es, Claimed s t e) (nodup : (es.map Entry.id).Nodup) (saved : t.saved = none) :
    Runs env faults w s (Succeeds fun summary t' struck' => ∃ hit,
        summary = .total (es.map (worker.tally now env hit)) ∧ struck' = struck ++ hit ∧
        Carried (worker.stepEntry now env) es hit t t')
      (worker.settleAll now (es.map fun e => (e.deployment, env.reply e.request))).run t struck := by
  induction es generalizing t struck with
  | nil => exact Runs.done ⟨[], rfl, by simp, .nil saved⟩
  | cons e es ih =>
    obtain ⟨distinct, nodup⟩ := List.nodup_cons.1 nodup
    obtain ⟨first, rest⟩ := List.forall_mem_cons.1 claimed
    have others : ∀ e' ∈ es, e'.id ≠ e.id := fun e' he' h => distinct (h ▸ List.mem_map_of_mem he')
    refine Runs.succeedsThen (runs_settle hs first saved) fun summary t₁ struck₁ => ?_
    rintro ⟨hit, rfl, rfl, head⟩
    have still : ∀ e' ∈ es, Claimed s t₁ e' := fun e' he' =>
      (rest e' he').carried head (by simpa using others e' he')
    refine Runs.succeedsThen (ih still nodup head.saved) fun summary t₂ struck₂ => ?_
    rintro ⟨hit', rfl, rfl, carried⟩
    refine Runs.done ⟨hit ++ hit', ?_, by simp, head.cons carried distinct⟩
    have own : worker.tally now env (hit ++ hit') e = worker.tally now env hit e := by
      have unhit : e.id ∉ hit' := fun h => distinct (carried.among.subset h)
      simp [Worker.tally, unhit]
    have same : es.map (worker.tally now env (hit ++ hit')) =
        es.map (worker.tally now env hit') := by
      refine List.map_congr_left fun e' he' => ?_
      have unhit : e'.id ∉ hit := fun h => others e' he' (by simpa using head.among.subset h)
      simp [Worker.tally, unhit]
    rw [List.map_cons, Summary.total, own, same]

end Settling

end FirmwareRollout
