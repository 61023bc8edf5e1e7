import FirmwareRollout.Proofs.Rollout.Moves
import FirmwareRollout.Proofs.Worker.Discipline
import FirmwareRollout.Proofs.Worker.Refinement
import Mathlib.Data.List.Nodup

/-!
What the summary of a cycle says. Whatever the store and the bridge reply, each claimed rollout is
counted once: as advanced, retried, finished or failed (`Worker.balanced_of_transcript`). On a store
in memory the counts are those of the changes in the store: they are computed from the store before
and the store after (`Store.changed`, `Store.heard`), without the cycle.

Main statement: `summary_accounts`.
-/

namespace FirmwareRollout

open Program

/-! ### Every claim is counted -/

namespace Summary

/-- The summary of rollouts of which each is counted once, and none as claimed. -/
structure Settles (s : Summary) (rollouts : Nat) : Prop where
  claimed : s.claimed = 0
  each : s.advanced + s.retried + s.finished + s.failed = rollouts

theorem Settles.add {a b : Summary} {m n : Nat} (ha : a.Settles m) (hb : b.Settles n) :
    (a.add b).Settles (m + n) := by
  have := ha.each
  have := hb.each
  constructor <;> simp only [Summary.add]
  · rw [ha.claimed, hb.claimed]
  · omega

theorem settles_ofTransition (before : Stage) (t : Transition) (outcomes : Nat) :
    (ofTransition before t outcomes).Settles 1 := by
  unfold ofTransition
  split
  · exact ⟨rfl, rfl⟩
  · split <;> exact ⟨rfl, rfl⟩

theorem settles_failed : Settles { failed := 1 } 1 := ⟨rfl, rfl⟩

end Summary

namespace Worker

variable {w : Worker} {now : Instant} {log : List WorkerLine} {summary : Summary}

/-- A result without an error comes after a call that has succeeded. -/
theorem transcript_store_ok {α : Type} {c : Call} {f : c.Answer → Fallible α} {a : α}
    (h : (Task.store c >>= f).run.Transcript log (.ok a)) :
    ∃ r rest, (f r).run.Transcript rest (.ok a) := by
  rcases transcript_store h with ⟨e, heq, -⟩ | ⟨r, rest, -, h⟩
  · cases heq
  · exact ⟨r, rest, h⟩

/-- The result of a task that ends with a call, whatever the call gives. -/
theorem result_of_last {α : Type} {c : Call} {a b : α}
    (h : (do let _ ← Task.store c; pure b : Fallible α).run.Transcript log (.ok a)) : a = b := by
  obtain ⟨_, log, h⟩ := transcript_store_ok h
  exact Except.ok.inj (transcript_pure h).2

theorem settles_of_persist {d : Deployment} {result : StepResult}
    (h : (w.persist now d result).run.Transcript log (.ok summary)) : summary.Settles 1 := by
  obtain ⟨_, log, recorded, -, -, h⟩ := h.andThen_ok
  obtain ⟨_, log, h⟩ := transcript_store_ok h
  obtain ⟨_, log, _, -, -, h⟩ := h.andThen_ok
  obtain rfl := result_of_last h
  exact Summary.settles_ofTransition ..

theorem settles_of_settle {d : Deployment} {result : StepResult}
    (h : (w.settle now d result).run.Transcript log (.ok summary)) : summary.Settles 1 := by
  obtain ⟨_, log, h⟩ := transcript_store_ok h
  obtain ⟨inner, log, r, -, persisted, h⟩ := transcript_outcome h
  cases r with
  | ok written =>
    obtain rfl := result_of_last h
    exact settles_of_persist persisted
  | error e =>
    obtain rfl := result_of_last h
    exact Summary.settles_failed

theorem settles_of_settleAll {work : List (Deployment × StepResult)}
    (h : (w.settleAll now work).run.Transcript log (.ok summary)) :
    summary.Settles work.length := by
  induction work generalizing log summary with
  | nil =>
    obtain ⟨-, h⟩ := transcript_pure h
    cases h
    exact ⟨rfl, rfl⟩
  | cons p rest ih =>
    obtain ⟨_, log, first, -, settled, h⟩ := h.andThen_ok
    obtain ⟨_, log, others, -, hrest, h⟩ := h.andThen_ok
    obtain ⟨-, h⟩ := transcript_pure h
    cases h
    rw [List.length_cons, Nat.add_comm]
    exact (settles_of_settle settled).add (ih hrest)

/-- **Each claimed rollout is counted once**, in every transcript of a cycle that has a result. -/
theorem balanced_of_transcript (h : (w.cycle now).run.Transcript log (.ok summary)) :
    summary.claimed = summary.advanced + summary.retried + summary.finished + summary.failed := by
  obtain ⟨_, log, h⟩ := transcript_store_ok h
  obtain ⟨_, log, h⟩ := transcript_store_ok h
  split at h
  · obtain rfl := result_of_last h
    rfl
  · obtain ⟨_, log, work, -, hread, h⟩ := h.liftThen
    obtain ⟨_, log, results, -, hasked, h⟩ := h.liftThen
    obtain ⟨_, log, settled, -, hsettled, h⟩ := h.andThen_ok
    obtain rfl := result_of_last h
    obtain ⟨reads, rfl, rfl, -⟩ := transcript_readPending hread
    obtain ⟨_, _, _, -, -, hreceived⟩ := Transcript.bind hasked
    have answered := (transcript_receives hreceived).1
    have counts := settles_of_settleAll hsettled
    have fewer : (readable reads).length ≤ reads.length := List.length_filterMap_le _ _
    have each := counts.each
    have none := counts.claimed
    rw [List.length_zip, List.length_map, answered, List.length_map] at each
    simp only [Summary.add, List.length_map]
    omega

end Worker

/-! ### What changes in a store -/

namespace Progress

/-- From a stage before the last to the last one. -/
def Finishes (p p' : Progress) : Prop := p.stage ≠ .done ∧ p'.stage = .done

/-- To the next stage, which is not the last. -/
def Advances (p p' : Progress) : Prop := p.stage.next? = some p'.stage ∧ p'.stage ≠ .done

/-- To one more attempt at the same stage. -/
def Retries (p p' : Progress) : Prop :=
  p'.stage = p.stage ∧ p'.retryCount.toNat = p.retryCount.toNat + 1

instance : DecidableRel Finishes := fun p p' =>
  inferInstanceAs (Decidable (p.stage ≠ .done ∧ p'.stage = .done))

instance : DecidableRel Advances := fun p p' =>
  inferInstanceAs (Decidable (p.stage.next? = some p'.stage ∧ p'.stage ≠ .done))

instance : DecidableRel Retries := fun p p' =>
  inferInstanceAs (Decidable (p'.stage = p.stage ∧ _ = _))

theorem not_finishes_self (p : Progress) : ¬ p.Finishes p := fun h => h.1 h.2

theorem not_advances_self (p : Progress) : ¬ p.Advances p := fun h => by
  have := Stage.rank_next? h.1
  omega

theorem not_retries_self (p : Progress) : ¬ p.Retries p := fun h => by
  have := h.2
  omega

end Progress

/-- The counts of a transition are those of what it changes. -/
theorem Summary.ofTransition_eq {p : Progress} {t : Transition}
    (unfinished : p.stage.isTerminal = false) (moves : p.Moves t.next) (outcomes : Nat) :
    ofTransition p.stage t outcomes = {
      finished := if p.Finishes t.next then 1 else 0
      advanced := if p.Advances t.next then 1 else 0
      retried := if p.Retries t.next then 1 else 0
      deviceOutcomes := outcomes } := by
  have begun : p.stage ≠ .done := by
    intro done
    rw [done] at unfinished
    cases unfinished
  by_cases done : t.next.stage = .done
  · have ends : t.isDone := by rw [Transition.isDone, done]; rfl
    have advances : ¬ p.Advances t.next := fun h => h.2 done
    have retries : ¬ p.Retries t.next := fun h => begun (h.1.symm.trans done)
    simp [ofTransition, ends, Progress.Finishes, begun, done, advances, retries]
  · have goes : t.isDone = false := by
      cases h : t.next.stage <;> simp_all [Transition.isDone, Stage.isTerminal]
    have finishes : ¬ p.Finishes t.next := fun h => done h.2
    by_cases same : t.next.stage = p.stage
    · have advances : ¬ p.Advances t.next := fun h => by
        have := Stage.rank_next? h.1
        rw [same] at this
        omega
      have retries : p.Retries t.next := by
        cases moves with
        | again stage count => exact ⟨stage, count⟩
        | on stage =>
          have := Stage.rank_next? stage
          rw [same] at this
          omega
        | finished stage => exact absurd stage done
      simp [ofTransition, goes, same, finishes, advances, retries]
    · have retries : ¬ p.Retries t.next := fun h => same h.1
      have advances : p.Advances t.next := by
        cases moves with
        | again stage => exact absurd stage same
        | on stage => exact ⟨stage, done⟩
        | finished stage => exact absurd stage done
      simp [ofTransition, goes, same, finishes, advances, retries]

namespace Store

/-- The rollouts whose progress in the two stores is related so. -/
def changed (s s' : Store) (p : Progress → Progress → Prop) [DecidableRel p] : List DeploymentId :=
  s.entries.keys.filter fun id =>
    match s.get id, s'.get id with
    | some d, some d' => p d.progress d'.progress
    | _, _ => false

theorem mem_changed_iff {s s' : Store} {p : Progress → Progress → Prop} [DecidableRel p]
    {id : DeploymentId} : id ∈ s.changed s' p ↔
      ∃ d d', s.get id = some d ∧ s'.get id = some d' ∧ p d.progress d'.progress := by
  unfold changed
  rw [List.mem_filter, Table.mem_keys_iff]
  constructor
  · rintro ⟨-, h⟩
    split at h
    · next d d' hd hd' => exact ⟨d, d', hd, hd', of_decide_eq_true h⟩
    · cases h
  · rintro ⟨d, d', hd, hd', h⟩
    obtain ⟨e, he, -⟩ := get_eq_some_iff.1 hd
    refine ⟨Table.contains_of_find? he, ?_⟩
    simp only [hd, hd']
    exact decide_eq_true h

end Store

/-- The device was pending, and its record in the store `s'` has the outcome and the message of the
first report on it in the answer to the request for its rollout. -/
def Surroundings.heard (env : Surroundings) (e : Entry) (s' : Store) (eui : DevEui) : Bool :=
  match e.participants.find? eui, s'.participant? e.id eui,
    (env.reply e.request).devices.find? fun r => r.eui = eui with
  | some p, some p', some r =>
    p.isPending && p'.state = r.outcome.state && p'.errorMessage = r.message
  | _, _, _ => false

/-- The devices of a rollout that were settled by reports on them. -/
def Entry.heardDevices (e : Entry) (env : Surroundings) (s' : Store) : List DevEui :=
  e.participants.keys.filter (env.heard e s')

/-- The devices that were settled by reports on them, each with its rollout. -/
def Store.heard (s : Store) (env : Surroundings) (s' : Store) : List (DeploymentId × DevEui) :=
  s.entries.rows.flatMap fun row => (row.2.heardDevices env s').map fun eui => (row.1, eui)

section Heard

variable {env : Surroundings} {e : Entry} {s s' : Store} {eui : DevEui}

theorem Surroundings.heard_iff : env.heard e s' eui ↔ ∃ p p' r,
    e.participants.find? eui = some p ∧ s'.participant? e.id eui = some p' ∧
    ((env.reply e.request).devices.find? fun r => r.eui = eui) = some r ∧
    p.isPending ∧ p'.state = r.outcome.state ∧ p'.errorMessage = r.message := by
  unfold heard
  constructor
  · intro h
    split at h
    · next p p' r hp hp' hr =>
      simp only [Bool.and_eq_true, decide_eq_true_eq] at h
      exact ⟨p, p', r, hp, hp', hr, h.1.1, h.1.2, h.2⟩
    · cases h
  · rintro ⟨p, p', r, hp, hp', hr, pending, state, message⟩
    simp only [hp, hp', hr, pending, state, message, decide_true, Bool.and_self]

/-- A device whose record is as before was not settled. -/
theorem Surroundings.not_heard_of_same
    (same : s'.participant? e.id eui = e.participants.find? eui) : ¬ env.heard e s' eui := by
  intro h
  obtain ⟨p, p', r, hp, hp', -, pending, state, -⟩ := heard_iff.1 h
  obtain rfl : p = p' := Option.some.inj (hp.symm.trans (same.symm.trans hp'))
  rw [Participant.isPending, state] at pending
  cases houtcome : r.outcome <;> rw [houtcome] at pending <;> cases pending

theorem Entry.mem_heardDevices_iff : eui ∈ e.heardDevices env s' ↔ env.heard e s' eui := by
  unfold heardDevices
  rw [List.mem_filter, Table.mem_keys_iff]
  refine ⟨fun h => h.2, fun h => ⟨?_, h⟩⟩
  obtain ⟨p, -, -, hp, -⟩ := Surroundings.heard_iff.1 h
  exact Table.contains_of_find? hp

theorem Entry.nodup_heardDevices (e : Entry) (env : Surroundings) (s' : Store) :
    (e.heardDevices env s').Nodup :=
  (Table.nodup_keys _).sublist List.filter_sublist

theorem Store.mem_heard_iff {id : DeploymentId} : (id, eui) ∈ s.heard env s' ↔
    ∃ e, s.entries.find? id = some e ∧ env.heard e s' eui := by
  unfold heard
  rw [List.mem_flatMap]
  constructor
  · rintro ⟨⟨id', e⟩, hrow, hmem⟩
    obtain ⟨eui', heui, heq⟩ := List.mem_map.1 hmem
    cases heq
    exact ⟨e, Table.mem_rows_iff.1 hrow, Entry.mem_heardDevices_iff.1 heui⟩
  · rintro ⟨e, he, heui⟩
    exact ⟨(id, e), Table.mem_rows_iff.2 he,
      List.mem_map.2 ⟨eui, Entry.mem_heardDevices_iff.2 heui, rfl⟩⟩

/-- Lists that belong to different keys have nothing in common. -/
theorem nodup_flatMap_of_key {α β κ : Type} {l : List α} {f : α → List β} (key : α → κ)
    (owner : β → κ) (distinct : (l.map key).Nodup)
    (each : ∀ a ∈ l, (f a).Nodup ∧ ∀ b ∈ f a, owner b = key a) : (l.flatMap f).Nodup := by
  induction l with
  | nil => exact List.nodup_nil
  | cons a l ih =>
    obtain ⟨fresh, distinct⟩ := List.nodup_cons.1 distinct
    obtain ⟨first, rest⟩ := List.forall_mem_cons.1 each
    rw [List.flatMap_cons]
    refine List.nodup_append.2 ⟨first.1, ih distinct rest, fun b hb b' hb' heq => ?_⟩
    subst heq
    obtain ⟨a', ha', hmem⟩ := List.mem_flatMap.1 hb'
    have same : key a = key a' := (first.2 b hb).symm.trans ((rest a' ha').2 b hmem)
    exact fresh (same ▸ List.mem_map_of_mem ha')

theorem Store.nodup_heard (s : Store) (env : Surroundings) (s' : Store) :
    (s.heard env s').Nodup := by
  refine nodup_flatMap_of_key (fun row => row.1) Prod.fst (Table.nodup_keys s.entries) ?_
  intro row _
  refine ⟨(row.2.nodup_heardDevices env s').map fun _ _ h => (Prod.mk.inj h).2, ?_⟩
  intro k hk
  obtain ⟨eui, -, rfl⟩ := List.mem_map.1 hk
  rfl

end Heard

/-! ### The batch of a cycle -/

/-- A count of a summary adds up, so that it is the length of lists put together. -/
theorem Summary.total_eq_length {α β : Type} (count : Summary → Nat) (zero : count {} = 0)
    (add : ∀ a b, count (a.add b) = count a + count b) {l : List α} {part : α → Summary}
    {f : α → List β} (each : ∀ a ∈ l, count (part a) = (f a).length) :
    count (total (l.map part)) = (l.flatMap f).length := by
  induction l with
  | nil => exact zero
  | cons a l ih =>
    obtain ⟨first, rest⟩ := List.forall_mem_cons.1 each
    rw [List.map_cons, total, add, first, ih rest, List.flatMap_cons, List.length_append]

section Batch

variable {env : Surroundings} {s s' : Store} {worker : Worker} {now : Instant}
  {hit : List DeploymentId} {es : List Entry} {e : Entry} {id : DeploymentId}

/-- A claimed rollout as the cycle leaves it: it has made its step, unless it was hit. -/
def Worker.leaves (worker : Worker) (now : Instant) (env : Surroundings) (hit : List DeploymentId)
    (e : Entry) : Entry :=
  if e.id ∈ hit then e else worker.stepEntry now env e

theorem Batch.unfinished (batch : Batch worker s now es) (hs : s.Keyed) (he : e ∈ es) :
    e.deployment.progress.stage.isTerminal = false := by
  have claimed : e.deployment ∈ worker.claims s now := batch.claims ▸ List.mem_map_of_mem he
  obtain ⟨-, -, due⟩ := Transaction.of_mem_claimDue hs Transaction.confined_fresh claimed
  exact Deployment.unfinished_of_isDue due

variable (env worker now hit) in
/-- The counts of a claimed rollout are those of what the cycle changes of it. -/
theorem Worker.tally_eq (unfinished : e.deployment.progress.stage.isTerminal = false) :
    let p := e.deployment.progress
    let p' := (worker.leaves now env hit e).deployment.progress
    (worker.tally now env hit e).finished = (if p.Finishes p' then 1 else 0) ∧
    (worker.tally now env hit e).advanced = (if p.Advances p' then 1 else 0) ∧
    (worker.tally now env hit e).retried = if p.Retries p' then 1 else 0 := by
  intro p p'
  by_cases struck : e.id ∈ hit
  · have same : p' = p := by simp only [p', p, leaves, if_pos struck]
    rw [same, tally, if_pos struck, if_neg p.not_finishes_self, if_neg p.not_advances_self,
      if_neg p.not_retries_self]
    exact ⟨rfl, rfl, rfl⟩
  · have moved : p' = (e.transition worker.machine now (env.stamps e.id)
        (env.reply e.request)).next := by
      simp only [p', leaves, if_neg struck]
      rfl
    have moves : p.Moves p' := moved ▸ Machine.moves_transition unfinished
    rw [moved] at moves ⊢
    rw [tally, if_neg struck, account, Summary.ofTransition_eq unfinished moves]
    exact ⟨rfl, rfl, rfl⟩

variable (batch : Batch worker s now es) (hs : s.Keyed)
  (after : s' = s.stepAll (spared hit (es.map Entry.id)) (worker.stepEntry now env))

include batch in
/-- A count of the summary is the number of the things that the claimed rollouts own, if each counts
its own and no two own the same. -/
theorem Batch.count_eq_length {β : Type} {count : Summary → Nat} (zero : count {} = 0)
    (add : ∀ a b, count (a.add b) = count a + count b) (own : Entry → List β)
    (owner : β → DeploymentId) {all : List β}
    (counted : ∀ e ∈ es, count (worker.tally now env hit e) = (own e).length)
    (nodup_own : ∀ e ∈ es, (own e).Nodup) (owned : ∀ e, ∀ b ∈ own e, owner b = e.id)
    (nodup : all.Nodup) (mem_iff : ∀ b, b ∈ all ↔ ∃ e ∈ es, b ∈ own e) :
    count (Summary.total (es.map (worker.tally now env hit))) = all.length := by
  rw [Summary.total_eq_length count zero add counted]
  have apart : (es.flatMap own).Nodup :=
    nodup_flatMap_of_key Entry.id owner batch.nodup fun e he => ⟨nodup_own e he, owned e⟩
  refine ((List.perm_ext_iff_of_nodup apart nodup).2 fun b => ?_).length_eq
  rw [List.mem_flatMap, mem_iff]

include batch after in
theorem Batch.find?_of_mem (he : e ∈ es) :
    s'.entries.find? e.id = some (worker.leaves now env hit e) := by
  rw [after, Store.find?_stepAll, batch.stored e he, Worker.leaves]
  by_cases hhit : e.id ∈ hit
  · rw [if_pos hhit, if_neg (by simp [spared, hhit])]
  · have among : e.id ∈ es.map Entry.id := List.mem_map_of_mem he
    rw [if_neg hhit, if_pos (by simp [spared, hhit, among])]
    rfl

include after in
theorem find?_of_not_mem (hid : id ∉ es.map Entry.id) :
    s'.entries.find? id = s.entries.find? id := by
  have absent : id ∉ spared hit (es.map Entry.id) := fun h => hid (List.mem_filter.1 h).1
  rw [after, Store.find?_stepAll, if_neg absent]

section Changes

variable {p : Progress → Progress → Prop} [DecidableRel p]

/-- The claimed rollout, if the cycle changes it so. -/
def Worker.changes (worker : Worker) (now : Instant) (env : Surroundings) (hit : List DeploymentId)
    (p : Progress → Progress → Prop) [DecidableRel p] (e : Entry) : List DeploymentId :=
  if p e.deployment.progress (worker.leaves now env hit e).deployment.progress then [e.id] else []

theorem Worker.length_changes : (worker.changes now env hit p e).length =
    if p e.deployment.progress (worker.leaves now env hit e).deployment.progress then 1 else 0 := by
  unfold changes
  split <;> rfl

theorem Worker.mem_changes_iff : id ∈ worker.changes now env hit p e ↔
    id = e.id ∧ p e.deployment.progress (worker.leaves now env hit e).deployment.progress := by
  unfold changes
  split
  · next h => simp [h]
  · next h => simp [h]

theorem Worker.nodup_changes : (worker.changes now env hit p e).Nodup := by
  unfold changes
  split
  · exact List.nodup_singleton _
  · exact List.nodup_nil

end Changes

include batch after in
/-- **The count of a change** is the number of rollouts that have changed so. -/
theorem Batch.count_changed {p : Progress → Progress → Prop} [DecidableRel p]
    (irrefl : ∀ a, ¬ p a a) (count : Summary → Nat) (zero : count {} = 0)
    (add : ∀ a b, count (a.add b) = count a + count b)
    (each : ∀ e ∈ es, count (worker.tally now env hit e) =
      if p e.deployment.progress (worker.leaves now env hit e).deployment.progress then 1 else 0) :
    count (Summary.total (es.map (worker.tally now env hit))) = (s.changed s' p).length := by
  refine batch.count_eq_length zero add (worker.changes now env hit p) id
    (fun e he => (each e he).trans Worker.length_changes.symm) (fun e _ => Worker.nodup_changes)
    (fun e id hid => (Worker.mem_changes_iff.1 hid).1)
    ((Table.nodup_keys _).sublist List.filter_sublist) fun id => ?_
  rw [Store.mem_changed_iff]
  constructor
  · rintro ⟨d, d', hd, hd', h⟩
    by_cases hid : id ∈ es.map Entry.id
    · obtain ⟨e, he, rfl⟩ := List.mem_map.1 hid
      rw [Store.get_of_find? (batch.stored e he)] at hd
      rw [Store.get_of_find? (batch.find?_of_mem after he)] at hd'
      cases hd
      cases hd'
      exact ⟨e, he, Worker.mem_changes_iff.2 ⟨rfl, h⟩⟩
    · have same : s'.get id = s.get id := by
        unfold Store.get
        rw [find?_of_not_mem after hid]
      rw [same, hd] at hd'
      cases hd'
      exact absurd h (irrefl _)
  · rintro ⟨e, he, hid⟩
    obtain ⟨rfl, h⟩ := Worker.mem_changes_iff.1 hid
    exact ⟨_, _, Store.get_of_find? (batch.stored e he),
      Store.get_of_find? (batch.find?_of_mem after he), h⟩

/-! ### Devices of the batch -/

include hs in
theorem Entry.mem_pendingDevices_iff (stored : s.entries.find? e.id = some e) {eui : DevEui} :
    eui ∈ e.pendingDevices ↔ ∃ p, e.participants.find? eui = some p ∧ p.isPending := by
  unfold pendingDevices
  simp only [List.mem_map, List.mem_filter, Table.mem_values_iff]
  constructor
  · rintro ⟨p, ⟨⟨eui', hp⟩, pending⟩, rfl⟩
    obtain rfl := (hs.participant stored hp).2
    exact ⟨p, hp, pending⟩
  · rintro ⟨p, hp, pending⟩
    exact ⟨p, ⟨⟨eui, hp⟩, pending⟩, (hs.participant stored hp).2⟩

include hs in
theorem Entry.nodup_pendingDevices (stored : s.entries.find? e.id = some e) :
    e.pendingDevices.Nodup := by
  rw [← Transaction.pendingDevices_of_untouched hs stored (Transaction.untouched_holding [] e.id)]
  exact Transaction.nodup_pendingDevices hs _ _

include batch hs after in
/-- **A report settles a device** of a rollout that is not hit exactly if the device was pending. -/
theorem Batch.heard_iff (he : e ∈ es) (spared : e.id ∉ hit) {eui : DevEui} :
    env.heard e s' eui ↔
      eui ∈ e.pendingDevices ∧ eui ∈ (env.reply e.request).devices.map (·.eui) := by
  have stored := batch.stored e he
  rw [Entry.mem_pendingDevices_iff hs stored, Surroundings.heard_iff]
  constructor
  · rintro ⟨p, p', r, hp, -, hr, pending, -⟩
    have heui : r.eui = eui := by simpa using List.find?_some hr
    exact ⟨⟨p, hp, pending⟩, List.mem_map.2 ⟨r, List.mem_of_find?_eq_some hr, heui⟩⟩
  · rintro ⟨⟨p, hp, pending⟩, reported⟩
    obtain ⟨r, hr⟩ : ∃ r, ((env.reply e.request).devices.find? fun r => r.eui = eui) = some r := by
      obtain ⟨r, hmem, heui⟩ := List.mem_map.1 reported
      exact Option.isSome_iff_exists.1 (List.find?_isSome.2 ⟨r, hmem, by simpa using heui⟩)
    have own : p.eui = eui := (hs.participant stored hp).2
    -- the first report closes the device, which is then not there to be given up
    let closed := p.close r.outcome.state r.message ((env.stamps e.id).heard r)
    have hears : p.hear (env.stamps e.id) (env.reply e.request).devices = closed := by
      unfold Participant.hear
      rw [own, hr]
      exact if_pos pending
    have settled : closed.isPending = false := by
      show decide (r.outcome.state = .pending) = false
      cases r.outcome <;> rfl
    refine ⟨p, closed, r, hp, ?_, hr, pending, rfl, rfl⟩
    refine Store.participant?_eq_some_iff.2 ⟨_, batch.find?_of_mem after he, ?_⟩
    rw [Worker.leaves, if_neg spared, Worker.stepEntry, Entry.find?_participants_step, hp,
      Option.map_some, hears, Participant.giveUp_of_settled _ _ settled]

include batch after in
theorem Batch.not_heard (he : e ∈ es) (struck : e.id ∈ hit) (eui : DevEui) :
    ¬ env.heard e s' eui := by
  refine Surroundings.not_heard_of_same ?_
  rw [Store.participant?, batch.find?_of_mem after he, Worker.leaves, if_pos struck]
  rfl

include batch hs after in
theorem Batch.deviceOutcomes_tally (he : e ∈ es) :
    (worker.tally now env hit e).deviceOutcomes = (e.heardDevices env s').length := by
  by_cases struck : e.id ∈ hit
  · have none : e.heardDevices env s' = [] := by
      refine List.eq_nil_iff_forall_not_mem.2 fun eui heui => ?_
      exact batch.not_heard after he struck eui (Entry.mem_heardDevices_iff.1 heui)
    rw [none, Worker.tally, if_pos struck]
    rfl
  · have counts : (worker.tally now env hit e).deviceOutcomes =
        countReported (env.reply e.request).devices e.pendingDevices := by
      rw [Worker.tally, if_neg struck, Worker.account, Summary.ofTransition]
      split
      · rfl
      · split <;> rfl
    have nodup := Entry.nodup_pendingDevices hs (batch.stored e he)
    rw [counts, countReported]
    refine ((List.perm_ext_iff_of_nodup (nodup.sublist List.filter_sublist)
      (e.nodup_heardDevices env s')).2 fun eui => ?_).length_eq
    rw [Entry.mem_heardDevices_iff, batch.heard_iff hs after he struck, List.mem_filter,
      decide_eq_true_eq]

include batch hs after in
/-- **The count of device outcomes** is the number of devices that were settled by reports. -/
theorem Batch.count_heard : (Summary.total (es.map (worker.tally now env hit))).deviceOutcomes =
    (s.heard env s').length := by
  refine batch.count_eq_length rfl (fun _ _ => rfl)
    (fun e => (e.heardDevices env s').map fun eui => (e.id, eui)) Prod.fst (fun e he => ?_)
    (fun e _ => ?_) (fun e k hk => ?_) (s.nodup_heard env s') fun ⟨id, eui⟩ => ?_
  · rw [batch.deviceOutcomes_tally hs after he, List.length_map]
  · exact (e.nodup_heardDevices env s').map fun _ _ h => (Prod.mk.inj h).2
  · obtain ⟨eui, -, rfl⟩ := List.mem_map.1 hk
    rfl
  rw [Store.mem_heard_iff]
  constructor
  · rintro ⟨e, he, heui⟩
    obtain rfl : e.id = id := hs.deployment he
    by_cases hid : e.id ∈ es.map Entry.id
    · obtain ⟨e', he', same⟩ := List.mem_map.1 hid
      have stored := batch.stored e' he'
      rw [same, he] at stored
      cases stored
      exact ⟨e, he', List.mem_map.2 ⟨eui, Entry.mem_heardDevices_iff.2 heui, rfl⟩⟩
    · refine absurd heui (Surroundings.not_heard_of_same ?_)
      rw [Store.participant?, find?_of_not_mem after hid, he]
      rfl
  · rintro ⟨e, he, hk⟩
    obtain ⟨eui, heui, heq⟩ := List.mem_map.1 hk
    cases heq
    exact ⟨e, batch.stored e he, Entry.mem_heardDevices_iff.1 heui⟩

end Batch

/-! ### The summary -/

/-- **The summary of a cycle accounts for every claim.** Whatever the store and the bridge reply, if
a cycle has a result, then each rollout that it has claimed is counted once. On a store in memory,
whichever calls on single rollouts fail, it has one: the rollouts that it counts as finished,
advanced and retried are those that have become so in the store, and the device outcomes that it
counts are the devices that were settled there by reports. -/
theorem summary_accounts (worker : Worker) (now : Instant) :
    (∀ log summary, (worker.cycle now).run.Transcript log (.ok summary) →
      summary.claimed =
        summary.advanced + summary.retried + summary.finished + summary.failed) ∧
    ∀ (h : List Stroke) (w : World), w.shared = Shared.after h → ∀ env : Surroundings,
      w.transactions.find? env.tx = none → ∀ faults : Faults, ∃ summary scene,
        (worker.cycle now).run.advance (answer env faults) ⟨w, 0, []⟩ =
          (.done (.ok summary), scene) ∧
        summary.claimed =
          summary.advanced + summary.retried + summary.finished + summary.failed ∧
        summary.finished = (w.store.changed scene.world.store Progress.Finishes).length ∧
        summary.advanced = (w.store.changed scene.world.store Progress.Advances).length ∧
        summary.retried = (w.store.changed scene.world.store Progress.Retries).length ∧
        summary.deviceOutcomes = (w.store.heard env scene.world.store).length := by
  refine ⟨fun log summary => Worker.balanced_of_transcript, fun h w reached env absent faults => ?_⟩
  have sound : w.shared.Sound := reached ▸ Shared.sound_after h
  obtain ⟨es, struck, made, batch, -, run⟩ := advance_cycle sound absent faults worker now
  obtain ⟨log, transcript⟩ := transcript_of_advance run
  have counts (e : Entry) (he : e ∈ es) :=
    Worker.tally_eq env worker now struck (batch.unfinished sound.keyed he)
  refine ⟨_, _, run, Worker.balanced_of_transcript transcript, ?_, ?_, ?_, ?_⟩
  · exact batch.count_changed rfl Progress.not_finishes_self (·.finished) rfl (fun _ _ => rfl)
      fun e he => (counts e he).1
  · exact batch.count_changed rfl Progress.not_advances_self (·.advanced) rfl (fun _ _ => rfl)
      fun e he => (counts e he).2.1
  · exact batch.count_changed rfl Progress.not_retries_self (·.retried) rfl (fun _ _ => rfl)
      fun e he => (counts e he).2.2
  · exact batch.count_heard sound.keyed rfl

/-- Surroundings in which each step is done at once and all of its devices report success twice. -/
def Surroundings.repeating : Surroundings :=
  { Surroundings.sample with
    bridge q := .reported ⟨.completed, none,
      (q.pending ++ q.pending).map fun eui => ⟨eui, .success, ""⟩⟩ }

theorem accounts_of_pair :
    (World.ofStore (Shared.after Shared.pair).store).shared = Shared.after Shared.pair ∧
    ∃ summary scene, (Worker.sample.cycle .epoch).run.advance (answer .repeating .none)
        ⟨.ofStore (Shared.after Shared.pair).store, 0, []⟩ = (.done (.ok summary), scene) ∧
      summary.claimed = 2 + summary.failed ∧ summary.finished = 1 ∧ summary.advanced = 1 ∧
      summary.deviceOutcomes = 2 := by
  let s := (Shared.after Shared.pair).store
  have reached : (World.ofStore s).shared = Shared.after Shared.pair := Shared.after_pair.symm
  obtain ⟨summary, scene, run, balance, finished, advanced, retried, outcomes⟩ :=
    (summary_accounts .sample .epoch).2 Shared.pair _ reached .repeating rfl .none
  let s' := s.stepAll [Deployment.sample.id, Deployment.awaiting.id]
    (Worker.sample.stepEntry .epoch .repeating)
  have left : scene.world.store = s' := by
    have sound : (World.ofStore s).shared.Sound := reached ▸ Shared.sound_after Shared.pair
    have absent : (World.ofStore s).transactions.find? Surroundings.repeating.tx = none := rfl
    obtain ⟨es, made, batch, plain⟩ := advance_cycle_none sound absent .sample .epoch
    have ids : es.map Entry.id = [Deployment.sample.id, Deployment.awaiting.id] := by
      rw [batch.ids, Worker.claims]
      exact congrArg (fun due => (due.take 10).map (·.id)) Shared.due_pair
    rw [run, ids] at plain
    exact congrArg (·.world.store) (Prod.mk.inj plain).2
  have counts : (s.changed s' Progress.Finishes).length = 1 ∧
      (s.changed s' Progress.Advances).length = 1 ∧ (s.changed s' Progress.Retries).length = 0 ∧
      (s.heard .repeating s').length = 2 := by
    decide +kernel
  rw [left] at finished advanced retried outcomes
  have finished : summary.finished = 1 := finished.trans counts.1
  have advanced : summary.advanced = 1 := advanced.trans counts.2.1
  have retried : summary.retried = 0 := retried.trans counts.2.2.1
  refine ⟨reached, summary, scene, run, ?_, finished, advanced, outcomes.trans counts.2.2.2⟩
  rw [balance, finished, advanced, retried]

end FirmwareRollout
