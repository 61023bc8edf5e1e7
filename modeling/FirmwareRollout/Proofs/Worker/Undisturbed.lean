import FirmwareRollout.Proofs.Worker.Refinement
import FirmwareRollout.Proofs.Worker.Within

/-!
A cycle that goes on while others are at work. `Undisturbed near reply goal task t` says of a task
with the transaction `t` that it comes to a point where `goal` holds: none of its calls waits, and
each may be made on any other store, at any time, so long as the store is `near`. Here a store is near
if the batch of the cycle is locked in it and stored as it was claimed; that is all that others leave
to a cycle, and all that it needs.

What a task within its batch does among others it does as when nobody else is at work
(`Within.undisturbed`), so that what is known of a cycle alone need not be proved again.

Main statement: `undisturbed_cycle`.
-/

namespace FirmwareRollout

/-- A store in which some rollouts are locked, and stored as in the table. -/
structure Near (entries : Table DeploymentId Entry) (ids : List DeploymentId) (s : Store) :
    Prop where
  same : ∀ id ∈ ids, s.entries.find? id = entries.find? id
  locked : ∀ id ∈ ids, s.locked.contains id

/-- **Whatever others do in between**, the task comes to a point where `goal` holds. -/
inductive Undisturbed {α : Type} (near : Store → Prop) (reply : StepRequest → StepResult)
    (goal : Task α → Transaction → Prop) : Task α → Transaction → Prop where
  | here {task : Task α} {t : Transaction} (h : goal task t) : Undisturbed near reply goal task t
  | call {c : Call} {resume : c.Result → Task α} {t : Transaction} (begun : c ≠ .begin)
    (stays : ∀ s clock, near s → ∃ r t', t.perform s clock c = some (r, s, some t') ∧
      t'.held = t.held)
    (rest : ∀ s clock r t', near s → t.perform s clock c = some (r, s, some t') →
      Undisturbed near reply goal (resume r) t') :
    Undisturbed near reply goal (.step (.store c) resume) t
  | send {q : StepRequest} {resume : Unit → Task α} {t : Transaction}
    (rest : Undisturbed near reply goal (resume ()) t) :
    Undisturbed near reply goal (.step (.send q) resume) t
  | receive {q : StepRequest} {resume : StepResult → Task α} {t : Transaction}
    (rest : Undisturbed near reply goal (resume (reply q)) t) :
    Undisturbed near reply goal (.step (.receive q) resume) t

/-- The task has come to its end. -/
def Ended {α : Type} (post : α → Transaction → Prop) (task : Task α) (t : Transaction) : Prop :=
  ∃ a, task = .done a ∧ post a t

section Rules

variable {α β : Type} {near : Store → Prop} {reply : StepRequest → StepResult}
  {mid : α → Transaction → Prop} {goal : Task β → Transaction → Prop} {t : Transaction}

theorem Undisturbed.bind {task : Task α} {f : α → Task β}
    (h : Undisturbed near reply (Ended mid) task t)
    (next : ∀ a t, mid a t → Undisturbed near reply goal (f a) t) :
    Undisturbed near reply goal (Program.bind task f) t := by
  induction h with
  | here h =>
    obtain ⟨a, rfl, ha⟩ := h
    exact next a _ ha
  | call begun stays _ ih => exact .call begun stays ih
  | send _ ih => exact .send ih
  | receive _ ih => exact .receive ih

theorem Undisturbed.imp {task : Task β} {near' : Store → Prop} {goal' : Task β → Transaction → Prop}
    (h : Undisturbed near reply goal task t) (fewer : ∀ s, near' s → near s)
    (weaker : ∀ task t, goal task t → goal' task t) : Undisturbed near' reply goal' task t := by
  induction h with
  | here h => exact .here (weaker _ _ h)
  | call begun stays _ ih =>
    exact .call begun (fun s clock h => stays s clock (fewer s h)) fun s clock r t' h =>
      ih s clock r t' (fewer s h)
  | send _ ih => exact .send ih
  | receive _ ih => exact .receive ih

/-- One task after another, where the first has no errors, with what comes after both. -/
theorem Undisturbed.liftThen {γ : Type} {goal : Task γ → Transaction → Prop} {task : Task α}
    {f : α → Fallible β} {g : Except Error β → Task γ}
    (h : Undisturbed near reply (Ended mid) task t)
    (next : ∀ a t, mid a t → Undisturbed near reply goal (Program.bind (f a).run g) t) :
    Undisturbed near reply goal (Program.bind (liftM task >>= f).run g) t := by
  have lifted : (liftM task >>= f).run = Program.bind task fun a => (f a).run :=
    Program.bind_assoc task _ _
  rw [lifted, Program.bind_assoc]
  exact h.bind next

/-- One task after another, where the first succeeds, with what comes after both. -/
theorem Undisturbed.andThen {γ : Type} {goal : Task γ → Transaction → Prop} {task : Fallible α}
    {f : α → Fallible β} {g : Except Error β → Task γ}
    (h : Undisturbed near reply (Ended fun r t => ∃ a, r = .ok a ∧ mid a t) task.run t)
    (next : ∀ a t, mid a t → Undisturbed near reply goal (Program.bind (f a).run g) t) :
    Undisturbed near reply goal (Program.bind (task >>= f).run g) t := by
  have first : (task >>= f).run = Program.bind task.run fun r => (ExceptT.bindCont f r) := rfl
  rw [first, Program.bind_assoc]
  refine h.bind fun r t hr => ?_
  obtain ⟨a, rfl, ha⟩ := hr
  exact next a t ha

/-- The bridge answers, and nothing else has to happen. -/
theorem undisturbed_consult (requests : List StepRequest) (t : Transaction) :
    Undisturbed near reply (Ended fun results t' => results = requests.map reply ∧ t' = t)
      (Worker.consult requests) t := by
  have sent : ∀ requests : List StepRequest,
      Undisturbed near reply (Ended fun _ t' => t' = t) (requests.forM Task.send) t := by
    intro requests
    induction requests with
    | nil => exact .here ⟨_, rfl, rfl⟩
    | cons q requests ih => exact .send ih
  refine (sent requests).bind fun _ t' h => ?_
  subst h
  induction requests with
  | nil => exact .here ⟨_, rfl, rfl, rfl⟩
  | cons q requests ih =>
    rw [List.mapM_cons]
    refine .receive ?_
    show Undisturbed near reply _ (Program.bind (requests.mapM Task.receive) _) t'
    refine ih.bind fun results t₁ h => ?_
    obtain ⟨rfl, rfl⟩ := h
    exact .here ⟨_, rfl, rfl, rfl⟩

end Rules

/-! ### A task within its batch -/

section Batch

variable {α : Type} {env : Surroundings} {w : World} {s : Store} {t t₀ : Transaction}
  {ids struck : List DeploymentId}

/-- **A task within its batch does among others what it does alone**, stamps aside. -/
theorem Within.undisturbed {post : α → Transaction → List DeploymentId → Prop} {task : Task α}
    (within : Within ids task) (runs : Runs env .none w s post task t₀ struck)
    (alike : t₀.Alike t) (locked : ∀ id ∈ ids, s.locked.contains id)
    (held : ∀ id ∈ ids, t₀.held.contains id) :
    Undisturbed (Near s.entries ids) env.reply
      (Ended fun a t => ∃ t₀, t₀.Alike t ∧ post a t₀ struck) task t := by
  -- the run alone is followed from any number of calls on
  suffices h : ∀ made, task.Reaches (answer env .none)
      (fun a scene => ∃ t', scene.world = w.put env.tx s (some t') ∧ post a t' scene.struck)
      ⟨w.put env.tx s (some t₀), made, struck⟩ → _ from h 0 (runs 0)
  clear runs
  intro made reaches
  induction task generalizing t t₀ made with
  | done a =>
    obtain ⟨t', world, hpost⟩ := reaches
    have same := congrArg (fun w => World.transactions w |>.find? env.tx) world
    simp only [World.find?_put_self, Option.some.injEq] at same
    exact .here ⟨a, rfl, t', same ▸ alike, hpost⟩
  | step op resume ih =>
    cases op with
    | send q => exact within.elim
    | receive q => exact within.elim
    | store c =>
      obtain ⟨on, blind, next⟩ := within
      have begun : c ≠ .begin := by
        rintro rfl
        exact on
      have agree : ∀ s' clock, Near s.entries ids s' → Transaction.Alike.Agree t₀.held s s' c
          (t₀.perform s (env.clock c) c) (t.perform s' clock c) := fun s' clock near =>
        alike.perform on near.same held locked near.locked _ _
      obtain ⟨r₀, scene, reply, reaches⟩ := reaches
      refine .call begun (fun s' clock near => ?_) fun s' clock r t' near hperform => ?_
      · obtain ⟨_, t₀', r, t', -, hperform, -, kept, alike'⟩ := agree s' clock near
        exact ⟨r, t', hperform, alike'.held.trans (kept.trans alike.held.symm)⟩
      · obtain ⟨r₀', t₀', r', t'', alone, among, same, kept, alike'⟩ := agree s' clock near
        have equal := hperform.symm.trans among
        simp only [Option.some.injEq, Prod.mk.injEq, true_and] at equal
        obtain ⟨rfl, rfl⟩ := equal
        have scene₀ : (r₀', ⟨w.put env.tx s (some t₀'), made + 1, struck⟩) = (r₀, scene) := by
          have carried : answer env .none (.store c) ⟨w.put env.tx s (some t₀), made, struck⟩ =
              some (r₀', ⟨w.put env.tx s (some t₀'), made + 1, struck⟩) := by
            simp only [answer, Faults.none]
            rw [World.perform_put w begun, alone]
            rfl
          exact Option.some.inj (carried.symm.trans reply)
        cases scene₀
        rw [blind r₀ r same]
        exact ih r₀ (next r₀) alike' (fun id hid => kept ▸ held id hid) _ reaches

end Batch

/-! ### The cycle -/

/-- What a transaction has written are the steps of a batch, stamps aside, and nothing else. -/
structure Wrote (entries : Table DeploymentId Entry) (step : Entry → Entry)
    (ids : List DeploymentId) (t : Transaction) : Prop where
  own : ∀ id ∈ ids, ∀ e, entries.find? id = some e →
    (t.settleEntry id e).unstamped = (step e).unstamped
  others : ∀ id, id ∉ ids → ∀ e, t.settleEntry id e = e

/-- The task has nothing left to do but to commit. -/
def AtCommit (good : Transaction → Prop) (task : Task Unit) (t : Transaction) : Prop :=
  good t ∧ ∃ resume, task = .step (.store .commit) resume ∧ resume (.ok ()) = .done ()

section Cycle

variable {worker : Worker} {now : Instant} {env : Surroundings}

/-- The task makes a claim, and whatever that finds, it comes to its commit with the steps of what
was claimed. -/
def AtClaim (worker : Worker) (now : Instant) (env : Surroundings) (task : Task Unit) : Prop :=
  ∃ resume, task = .step (.store (.claimDue worker.batchSize now)) resume ∧
    ∀ s es, s.Keyed → Batch worker s now es →
      Undisturbed (Near s.entries (es.map Entry.id)) env.reply
        (AtCommit (Wrote s.entries (worker.stepEntry now env) (es.map Entry.id)))
        (resume (.ok (worker.claims s now))) (.holding (es.map Entry.id))

theorem Transaction.Untouched.alike {t t' : Transaction} {id : DeploymentId} (h : t.Untouched id)
    (alike : t.Alike t') : t'.Untouched id where
  deployment := by
    have staged := Staging.find?_deployments_unstamped alike.staging id
    rwa [h.deployment, Option.map_none, Option.map_eq_none_iff] at staged
  outcomes eui := by
    have staged := Staging.find?_outcomes_unstamped alike.staging (id, eui)
    rwa [h.outcomes eui, Option.map_none, Option.map_eq_none_iff] at staged

theorem Carried.wrote {s : Store} {step : Entry → Entry} {es : List Entry} {t t₀ : Transaction}
    (h : Carried step es [] (.holding (es.map Entry.id)) t₀) (alike : t₀.Alike t)
    (stored : ∀ e ∈ es, s.entries.find? e.id = some e) :
    Wrote s.entries step (es.map Entry.id) t where
  own id hid e he := by
    obtain ⟨e', mem, rfl⟩ := List.mem_map.1 hid
    obtain rfl := Option.some.inj ((stored e' mem).symm.trans he)
    rw [Transaction.unstamped_settleEntry alike.staging, h.own e' mem, if_neg (by simp)]
  others id hid e := by
    have untouched := (Transaction.untouched_holding (es.map Entry.id) id).sameOn (h.others id hid)
    exact (untouched.alike alike).settleEntry e

/-- A task that has only to commit, and whose result is of no account. -/
theorem atCommit {good : Transaction → Prop} {t : Transaction} (h : good t) (summary : Summary) :
    AtCommit good (Program.bind (do let _ ← Task.store .commit; return summary :
      Fallible Summary).run fun _ => .done ()) t := ⟨h, _, rfl, rfl⟩

section Claimed

variable {s : Store} {es : List Entry} (batch : Batch worker s now es)
include batch

/-- A task within the batch, which has been claimed and of which nothing is written yet. -/
theorem Batch.undisturbed {α : Type} {post : α → Transaction → List DeploymentId → Prop}
    {task : Task α} {t : Transaction} (within : Within (es.map Entry.id) task)
    (runs : Runs env .none (.ofStore s) (s.lockAll (es.map Entry.id)) post task
      (.holding (es.map Entry.id)) [])
    (alike : (Transaction.holding (es.map Entry.id)).Alike t) :
    Undisturbed (Near s.entries (es.map Entry.id)) env.reply
      (Ended fun a t => ∃ t₀, t₀.Alike t ∧ post a t₀ []) task t := by
  refine within.undisturbed (s := s.lockAll (es.map Entry.id)) runs alike (fun id hid => ?_)
    fun id hid => ?_
  all_goals
    obtain ⟨e, he, rfl⟩ := List.mem_map.1 hid
  · exact (batch.claimed he).locked
  · exact (batch.claimed he).held

theorem Batch.undisturbed_readPending (stored : s.Keyed) :
    Undisturbed (Near s.entries (es.map Entry.id)) env.reply
      (Ended fun work t => work = es.map (fun e => (e.deployment, e.pendingDevices)) ∧
        (Transaction.holding (es.map Entry.id)).Alike t)
      (Worker.readPending (es.map (·.deployment))) (.holding (es.map Entry.id)) := by
  have keyed : (s.lockAll (es.map Entry.id)).Keyed := stored.congr rfl
  refine (batch.undisturbed (Worker.within_readPending_batch es)
    (runs_readPending keyed (fun _ he => batch.claimed he) batch.nodup) (.refl _)).imp
    (fun _ h => h) fun task t => ?_
  rintro ⟨work, rfl, t₀, alike, hit, -, unstruck, rfl, rfl⟩
  obtain rfl : hit = [] := by simpa using unstruck.symm
  refine ⟨_, rfl, ?_, alike⟩
  rw [List.filter_eq_self.2 (by simp)]

theorem Batch.undisturbed_settleAll {t : Transaction} (stored : s.Keyed)
    (alike : (Transaction.holding (es.map Entry.id)).Alike t) :
    Undisturbed (Near s.entries (es.map Entry.id)) env.reply
      (Ended fun r t => ∃ summary, r = .ok summary ∧
        Wrote s.entries (worker.stepEntry now env) (es.map Entry.id) t)
      (worker.settleAll now (es.map fun e => (e.deployment, env.reply e.request))).run t := by
  have keyed : (s.lockAll (es.map Entry.id)).Keyed := stored.congr rfl
  refine (batch.undisturbed (Worker.within_settleAll_batch worker now es env.reply)
    (runs_settleAll keyed worker now (fun _ he => batch.claimed he) batch.nodup rfl) alike).imp
    (fun _ h => h) fun task t => ?_
  rintro ⟨r, rfl, t₀, alike, result⟩
  cases r with
  | error e => exact result.elim
  | ok summary =>
    obtain ⟨hit, -, unstruck, carried⟩ := result
    obtain rfl : hit = [] := by simpa using unstruck.symm
    exact ⟨_, rfl, summary, rfl, carried.wrote alike batch.stored⟩

end Claimed

/-- **What is claimed comes to be written**, whatever others do meanwhile. -/
theorem undisturbed_cycle (worker : Worker) (now : Instant) (env : Surroundings) :
    ∃ resume, (Program.bind (worker.cycle now).run fun _ => .done () : Task Unit) =
      .step (.store .begin) resume ∧ AtClaim worker now env (resume (.ok ())) := by
  refine ⟨_, rfl, _, rfl, fun s es stored batch => ?_⟩
  rw [← batch.claims]
  show Undisturbed _ _ _ (Program.bind (ExceptT.run (if _ then _ else _)) _) _
  split
  · next empty =>
    obtain rfl : es = [] := by simpa using empty
    exact .here (atCommit (Carried.wrote (.nil rfl) (.refl _) (by simp)) {})
  · refine Undisturbed.liftThen (batch.undisturbed_readPending stored) fun work t h => ?_
    obtain ⟨rfl, alike⟩ := h
    refine Undisturbed.liftThen (undisturbed_consult _ t) fun results t' h => ?_
    obtain ⟨rfl, rfl⟩ := h
    have settled : Undisturbed _ env.reply _ _ _ := batch.undisturbed_settleAll stored alike
    rw [← Worker.zip_replies, ← Worker.requests_batch] at settled
    exact Undisturbed.andThen settled fun summary t wrote => .here (atCommit wrote _)

end Cycle

end FirmwareRollout
