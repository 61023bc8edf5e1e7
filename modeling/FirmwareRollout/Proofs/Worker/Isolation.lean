import FirmwareRollout.Proofs.Worker.Refinement

/-!
Faults stay where they strike. Whatever calls on single rollouts fail in a cycle, it commits; what
is left of each rollout that it has claimed is either what there was before, or what the same cycle
leaves of it without faults.

Main statement: `faults_stay_apart`.
-/

namespace FirmwareRollout

namespace Worker

variable {env : Surroundings} {worker : Worker} {now : Instant} {hit : List DeploymentId}

theorem failed_tally (e : Entry) :
    (worker.tally now env hit e).failed = if e.id ∈ hit then 1 else 0 := by
  unfold tally
  split
  · rfl
  · unfold account Summary.ofTransition
    split
    · rfl
    · split <;> rfl

/-- A cycle counts the rollouts that are hit. -/
theorem failed_report (es : List Entry) :
    (worker.report now env hit es).failed = (es.filter fun e => e.id ∈ hit).length := by
  show (Summary.total (es.map (worker.tally now env hit))).failed = _
  induction es with
  | nil => rfl
  | cons e es ih =>
    rw [List.map_cons, Summary.total]
    show (worker.tally now env hit e).failed + _ = _
    rw [ih, failed_tally]
    by_cases he : e.id ∈ hit
    · rw [if_pos he, List.filter_cons_of_pos (by simpa using he), List.length_cons, Nat.add_comm]
    · rw [if_neg he, List.filter_cons_of_neg (by simpa using he), Nat.zero_add]

end Worker

/-- **Faults stay where they strike.** Among the transactions of others, which stand still, a cycle
some of whose calls fail has a result and commits, as it does without faults. The rollouts on which a
call has failed are of its batch and are as they were before the cycle; all others are what they are
after the cycle without faults. The summary counts the former. -/
theorem faults_stay_apart (h : List Stroke) (w : World) (reached : w.shared = Shared.after h)
    (env : Surroundings) (absent : w.transactions.find? env.tx = none) (worker : Worker)
    (now : Instant) (faults : Faults) :
    ∃ summary s struck made summary' s' made',
      (worker.cycle now).run.advance (answer env faults) ⟨w, 0, []⟩ =
        (.done (.ok summary), ⟨⟨s, w.transactions⟩, made, struck⟩) ∧
      (worker.cycle now).run.advance (answer env .none) ⟨w, 0, []⟩ =
        (.done (.ok summary'), ⟨⟨s', w.transactions⟩, made', []⟩) ∧
      s.locked = w.store.locked ∧
      (∀ id ∈ struck, id ∈ (worker.claims w.store now).map (·.id) ∧
        s.entries.find? id = w.store.entries.find? id) ∧
      (∀ id, id ∉ struck → s.entries.find? id = s'.entries.find? id) ∧
      summary.failed = ((worker.claims w.store now).filter fun d => d.id ∈ struck).length := by
  have sound : w.shared.Sound := reached ▸ Shared.sound_after h
  obtain ⟨es, struck, made, batch, among, run⟩ := advance_cycle sound absent faults worker now
  obtain ⟨es', made', batch', run'⟩ := advance_cycle_none sound absent worker now
  refine ⟨_, _, struck, made, _, _, made', run, run', rfl, fun id hid => ⟨?_, ?_⟩, fun id hid => ?_,
    ?_⟩
  · rw [← batch.ids]
    exact among id hid
  · have absent : id ∉ spared struck (es.map Entry.id) := by simp [spared, hid]
    rw [Store.find?_stepAll, if_neg absent]
  · have same : id ∈ spared struck (es.map Entry.id) ↔ id ∈ es'.map Entry.id := by
      rw [batch.ids, batch'.ids]
      simp [spared, hid]
    rw [Store.find?_stepAll, Store.find?_stepAll]
    simp only [same]
  · rw [Worker.failed_report, ← batch.claims, List.filter_map, List.length_map]
    rfl

/-- Storing the first rollout fails. -/
def Faults.sample : Faults where
  at? _ c := match c with
    | .update d => if d.id = Deployment.sample.id then some (.database "connection lost") else .none
    | _ => .none
  concerns {n c e} h := by
    cases c <;> simp_all [Call.deployment?]
  plain {n c e} h := by
    cases c with
    | update d =>
      simp only at h
      split at h
      · obtain rfl := Option.some.inj h
        rfl
      · cases h
    | _ => cases h

/-- What that cycle leaves of the pair: only the sample is struck, and the other one has moved. -/
theorem scene_of_pair :
    let s := (Shared.after Shared.pair).store
    let scene := ((Worker.sample.cycle .epoch).run.advance (answer .sample .sample)
      ⟨.ofStore s, 0, []⟩).2
    scene.struck = [Deployment.sample.id] ∧
      scene.world.store.get Deployment.awaiting.id ≠ s.get Deployment.awaiting.id := by
  intro s scene
  let w := World.ofStore s
  let ids := [Deployment.sample.id, Deployment.awaiting.id]
  have begun : answer .sample .sample (.store .begin) ⟨w, 0, []⟩ =
    some (.ok (), ⟨w.put 0 s (some .fresh), 1, []⟩) := rfl
  -- sorting what is due does not reduce, so that the reply to the claim comes from its equation
  have claimed : answer .sample .sample (.store (.claimDue 10 .epoch))
      ⟨w.put 0 s (some .fresh), 1, []⟩ = some (.ok [.sample, .awaiting],
        ⟨w.put 0 (s.lockAll ids) (some (.holding ids)), 2, []⟩) := by
    have reply := perform_claimDue .sample s .epoch .epoch
    rw [Worker.claims, Shared.due_pair] at reply
    exact answer_of_perform (w := w) (by simp) rfl reply
  have opened : (Worker.sample.cycle .epoch).run.advance (answer .sample .sample) ⟨w, 0, []⟩ = _ :=
    (Program.advance_of_reply begun).trans (Program.advance_of_reply claimed)
  unfold scene
  rw [opened]
  decide +kernel

theorem fault_stays_apart_on_pair :
    let w := World.ofStore (Shared.after Shared.pair).store
    w.shared = Shared.after Shared.pair ∧
    ∃ summary s made s', (Worker.sample.cycle .epoch).run.advance (answer .sample .sample)
        ⟨w, 0, []⟩ = (.done (.ok summary), ⟨.ofStore s, made, [Deployment.sample.id]⟩) ∧
      (∃ summary' made', (Worker.sample.cycle .epoch).run.advance (answer .sample .none)
        ⟨w, 0, []⟩ = (.done (.ok summary'), ⟨.ofStore s', made', []⟩)) ∧
      summary.failed = 1 ∧
      s.entries.find? Deployment.sample.id = w.store.entries.find? Deployment.sample.id ∧
      s.entries.find? Deployment.awaiting.id = s'.entries.find? Deployment.awaiting.id ∧
      s.get Deployment.awaiting.id ≠ w.store.get Deployment.awaiting.id := by
  intro w
  have reached : w.shared = Shared.after Shared.pair := Shared.after_pair.symm
  obtain ⟨summary, s, struck, made, summary', s', made', run, run', -, stays, others, failed⟩ :=
    faults_stay_apart Shared.pair w reached .sample rfl .sample .epoch .sample
  obtain ⟨hit, moved⟩ := scene_of_pair
  rw [run] at hit moved
  obtain rfl : struck = [Deployment.sample.id] := hit
  have claims : ((Worker.sample.claims w.store .epoch).filter
      fun d => d.id ∈ [Deployment.sample.id]).length = 1 := by
    have due : Transaction.due w.store .fresh .epoch = _ := Shared.due_pair
    rw [Worker.claims, due]
    decide
  exact ⟨reached, summary, s, made, s', run, ⟨summary', made', run'⟩, failed.trans claims,
    (stays _ List.mem_cons_self).2, others _ (by decide), moved⟩

end FirmwareRollout
