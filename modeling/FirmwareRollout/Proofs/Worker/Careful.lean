import FirmwareRollout.Proofs.Rollout.Moves
import FirmwareRollout.Proofs.Store.Onward
import FirmwareRollout.Worker.Cycle

/-!
Tasks that take care of what they write, while others are at work. `Careful law post task x s` says
of a task with the transaction `x` on the store `s`: whenever it writes the record of a rollout, the
law relates that record to the one that is stored at that moment, and a rollout that it ends has no
device left pending; where it is done, `post` holds of its result. Before every call the store may
move onward (`Later`), and every call may be refused, or be carried out and its answer be lost
(`Response`).

Main statements: the rules `Careful.bind`, `Careful.andThen`, `Careful.later` and `careful_store`.
-/

namespace FirmwareRollout

/-! ### The calls of a task -/

/-- What can become of the store before the next call of a party with the transaction `x`. -/
def Later (x : Option Transaction) (s s' : Store) : Prop :=
  s.Onward (Session.Has (x.map .working)) s'

/-- What a call of a party with the transaction `x` can come to. -/
inductive Response (x : Option Transaction) (s : Store) :
    (c : Call) → c.Result → Option Transaction → Store → Prop where
  /-- It is refused. -/
  | refused {c : Call} (e : Error) : Response x s c (.error e) x s
  /-- The transaction is opened. -/
  | opened (r : Call.begin.Result) (absent : x = none) : Response x s .begin r (some .fresh) s
  /-- It is carried out; if its answer is lost, there is an error instead. -/
  | carried {c : Call} {t t' : Transaction} {s' : Store} {clock : Instant} {r r' : c.Result}
    (working : x = some t) (keyed : s.Keyed) (confined : t.Confined)
    (perform : t.perform s clock c = some (r, s', some t')) (honest : ∀ a, r' = .ok a → r = .ok a) :
    Response x s c r' (some t') s'
  /-- The transaction is over, and what others have done since is anybody's guess. -/
  | ended {c : Call} (r : c.Result) (s' : Store) (ends : c = .commit ∨ c = .rollback) :
    Response x s c r none s'

/-- The record may be written in place of the one that is stored: the law relates them whatever the
clock reads, and if the rollout is over then no device is left out. -/
def Transaction.May (law : Deployment → Deployment → Prop) (t : Transaction) (s : Store)
    (d' : Deployment) : Prop :=
  ∃ d, s.get d'.id = some d ∧ (∀ clock : Instant, law d { d' with updatedAt := clock.floorMicros }) ∧
    (d'.progress.stage.isTerminal → t.staging.Covers s d'.id)

/-- The call writes nothing that it may not. -/
def Permits (law : Deployment → Deployment → Prop) (x : Option Transaction) (s : Store)
    (c : Call) : Prop :=
  ∀ t d, x = some t → c = .update d → t.May law s d

/-- **A task that takes care.** -/
def Careful {α : Type} (law : Deployment → Deployment → Prop)
    (post : α → Option Transaction → Store → Prop) : Task α → Option Transaction → Store → Prop
  | .done a, x, s => post a x s
  | .step (.store c) resume, x, s => ∀ s', Later x s s' → Permits law x s' c ∧
    ∀ r x' s'', Response x s' c r x' s'' → Careful law post (resume r) x' s''
  | .step (.send _) resume, x, s => Careful law post (resume ()) x s
  | .step (.receive _) resume, x, s => ∀ r, Careful law post (resume r) x s

section Rules

variable {α β : Type} {law : Deployment → Deployment → Prop} {x : Option Transaction}
  {s s' : Store} {ds : List Deployment}

theorem Later.refl (x : Option Transaction) (s : Store) : Later x s s := Store.Onward.refl s

theorem Careful.bind {mid : α → Option Transaction → Store → Prop}
    {post : β → Option Transaction → Store → Prop} {task : Task α} {f : α → Task β}
    (h : Careful law mid task x s) (next : ∀ a x s, mid a x s → Careful law post (f a) x s) :
    Careful law post (Program.bind task f) x s := by
  induction task generalizing x s with
  | done a => exact next a x s h
  | step op resume ih =>
    cases op with
    | store c =>
      intro s' later
      obtain ⟨permits, resumes⟩ := h s' later
      exact ⟨permits, fun r x' s'' response => ih r (resumes r x' s'' response)⟩
    | send q => exact ih () h
    | receive q => exact fun r => ih r (h r)

theorem Careful.imp {mid post : α → Option Transaction → Store → Prop} {task : Task α}
    (h : Careful law mid task x s) (weaker : ∀ a x s, mid a x s → post a x s) :
    Careful law post task x s := by
  have := h.bind (f := Program.done) weaker
  rwa [Program.bind_done] at this

/-- A task that takes care goes on to do so while others are at work. -/
theorem Careful.later {post : α → Option Transaction → Store → Prop} {task : Task α}
    (stable : ∀ a s s', Later x s s' → post a x s → post a x s') (h : Careful law post task x s)
    (later : Later x s s') : Careful law post task x s' := by
  induction task with
  | done a => exact stable a s s' later h
  | step op resume ih =>
    cases op with
    | store c => exact fun s'' later' => h s'' (later.trans later')
    | send q => exact ih () h
    | receive q => exact fun r => ih r (h r)

/-- One task after another, where the second is left out if the first fails. -/
theorem Careful.andThen {mid : Except Error α → Option Transaction → Store → Prop}
    {post : Except Error β → Option Transaction → Store → Prop} {task : Fallible α}
    {f : α → Fallible β} (h : Careful law mid task.run x s)
    (ok : ∀ a x s, mid (.ok a) x s → Careful law post (f a).run x s)
    (error : ∀ e x s, mid (.error e) x s → post (.error e) x s) :
    Careful law post (task >>= f).run x s := by
  refine Careful.bind h fun r x s hr => ?_
  cases r with
  | ok a => exact ok a x s hr
  | error e => exact error e x s hr

theorem careful_outcome {post : Except Error (Except Error α) → Option Transaction → Store → Prop}
    {task : Fallible α} (h : Careful law (fun r => post (.ok r)) task.run x s) :
    Careful law post (Task.outcome task).run x s :=
  Careful.bind h fun _ _ _ hr => hr

/-- One task after another, where the first has no errors. -/
theorem Careful.liftThen {mid : α → Option Transaction → Store → Prop}
    {post : Except Error β → Option Transaction → Store → Prop} {task : Task α}
    {f : α → Fallible β} (h : Careful law mid task x s)
    (next : ∀ a x s, mid a x s → Careful law post (f a).run x s) :
    Careful law post (liftM task >>= f).run x s := by
  have lifted : Careful law (fun r x s => ∃ a, r = .ok a ∧ mid a x s)
      (liftM task : Fallible α).run x s := Careful.bind h fun a _ _ ha => ⟨a, rfl, ha⟩
  refine lifted.andThen (fun a x s => ?_) nofun
  rintro ⟨a', heq, ha⟩
  obtain rfl := Except.ok.inj heq
  exact next a x s ha

end Rules

/-! ### What a cycle counts on -/

/-- The party has a transaction that holds the rollouts `ds`, and they are stored as they are. -/
def Holding (ds : List Deployment) (x : Option Transaction) (s : Store) : Prop :=
  ∃ t, x = some t ∧ ∀ d ∈ ds, t.held.contains d.id ∧ s.get d.id = some d

/-- The transaction of the party leaves no device of the rollout out. -/
def Covering (id : DeploymentId) (x : Option Transaction) (s : Store) : Prop :=
  ∀ t, x = some t → t.staging.Covers s id

section Facts

variable {law : Deployment → Deployment → Prop} {x x' : Option Transaction} {s s' : Store}
  {ds : List Deployment} {d : Deployment} {c : Call}

theorem Holding.later (h : Holding ds x s) (later : Later x s s') : Holding ds x s' := by
  obtain ⟨t, rfl, holds⟩ := h
  refine ⟨t, rfl, fun d hd => ?_⟩
  obtain ⟨held, stored⟩ := holds d hd
  exact ⟨held, (later.get_eq ⟨_, rfl, held⟩).trans stored⟩

theorem Holding.stored (h : Holding ds x s) (hd : d ∈ ds) : s.get d.id = some d := by
  obtain ⟨t, -, holds⟩ := h
  exact (holds d hd).2

/-- Only the end of the transaction gives the rollouts up. -/
theorem Holding.response {r : c.Result} (h : Holding ds x s) (response : Response x s c r x' s')
    (stays : c ≠ .commit ∧ c ≠ .rollback) : Holding ds x' s' := by
  obtain ⟨t, working, holds⟩ := h
  cases response with
  | refused e => exact ⟨t, working, holds⟩
  | opened r absent => cases working.symm.trans absent
  | carried working' keyed confined perform honest =>
    obtain rfl := Option.some.inj (working.symm.trans working')
    have effect := Transaction.perform_effect keyed confined perform
    refine ⟨_, rfl, fun d hd => ?_⟩
    obtain ⟨held, stored⟩ := holds d hd
    exact ⟨effect.held_mono held, (Store.get_congr effect.entries _).trans stored⟩
  | ended r s' ends => exact (ends.elim stays.1 stays.2).elim

theorem Covering.later (h : Covering d.id x s) (hd : s.get d.id = some d) (later : Later x s s') :
    Covering d.id x s' :=
  fun t ht => (h t ht).onward later (Store.contains_of_get hd)

theorem permits_of_ne (h : ∀ d, c ≠ .update d) : Permits law x s c :=
  fun _ d _ hc => absurd hc (h d)

theorem careful_store {post : c.Result → Option Transaction → Store → Prop} (h : Holding ds x s)
    (stays : c ≠ .commit ∧ c ≠ .rollback) (permits : ∀ s', Later x s s' → Permits law x s' c)
    (then_ : ∀ {s'}, Later x s s' → Holding ds x s' → ∀ {r x' s''}, Response x s' c r x' s'' →
      Holding ds x' s'' → post r x' s'') :
    Careful law post (Task.store c).run x s := by
  intro s' later
  have holding := h.later later
  exact ⟨permits s' later, fun r x' s'' response =>
    then_ later holding response (holding.response response stays)⟩

/-- A call that writes no rollout, whatever it comes to. -/
theorem careful_read (x : Option Transaction) (s : Store) (reads : ∀ d, c ≠ .update d) :
    Careful law (fun _ _ _ => True) (Task.store c).run x s :=
  fun _ _ => ⟨permits_of_ne reads, fun _ _ _ _ => trivial⟩

end Facts

/-! ### Tasks that give nothing up -/

/-- The task takes care, and gives up none of the rollouts `ds`, whatever comes of it. -/
def Keeps {α : Type} (law : Deployment → Deployment → Prop) (ds : List Deployment)
    (task : Fallible α) : Prop :=
  ∀ x s, Holding ds x s → Careful law (fun _ x s => Holding ds x s) task.run x s

namespace Keeps

variable {α β : Type} {law : Deployment → Deployment → Prop} {ds : List Deployment}

theorem pure (a : α) : Keeps law ds (Pure.pure a) := fun _ _ h => h

theorem throw (e : Error) : Keeps law ds (MonadExcept.throw e : Fallible α) := fun _ _ h => h

theorem bind {task : Fallible α} {f : α → Fallible β} (h : Keeps law ds task)
    (next : ∀ a, Keeps law ds (f a)) : Keeps law ds (task >>= f) :=
  fun x s holding => Careful.andThen (h x s holding) (fun a x s holding => next a x s holding)
    fun _ _ _ holding => holding

theorem outcome {task : Fallible α} (h : Keeps law ds task) : Keeps law ds (Task.outcome task) :=
  fun x s holding => careful_outcome (h x s holding)

theorem store {c : Call} (stays : c ≠ .commit ∧ c ≠ .rollback) (reads : ∀ d, c ≠ .update d) :
    Keeps law ds (Task.store c) :=
  fun _ _ holding => careful_store holding stays (fun _ _ => permits_of_ne reads)
    fun _ _ _ _ _ _ holding => holding

end Keeps

end FirmwareRollout
