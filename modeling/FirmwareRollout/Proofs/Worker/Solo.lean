import FirmwareRollout.Proofs.Program.Reaches
import FirmwareRollout.Proofs.Store.Interleaving
import FirmwareRollout.Worker.Cycle

/-!
A cycle that nobody else disturbs. `answer` replies to its calls from a world in which other
transactions may be open but stand still, and lets calls on single rollouts fail as a plan of faults
has it; a call that fails does nothing else. `Runs` follows the transaction of the cycle while the
store stays as it is, which is all that happens between the claim and the commit.

Main statements: the rules `Runs.bind`, `Runs.andThen`, `runs_store` and `Ends.andThen`.
-/

namespace FirmwareRollout

/-- What a cycle meets: the number of its transaction, what the clock reads at each call, the time
that a request is given, and what comes of each request. No request is made twice in a cycle, and no
call that reads the clock is. -/
structure Surroundings where
  tx : TxId
  clock : Call → Instant
  timeout : Duration
  bridge : StepRequest → Attempt

/-- What the cycle learns from a request. -/
def Surroundings.reply (env : Surroundings) (q : StepRequest) : StepResult :=
  (env.bridge q).result env.timeout

/-- Which calls fail, by their place in the cycle. Only calls on single rollouts do, and not as a
call on something unknown or settled would. -/
structure Faults where
  at? : Nat → Call → Option Error
  concerns : ∀ {n c e}, at? n c = some e → c.deployment?.isSome
  plain : ∀ {n c e}, at? n c = some e → (e.isAlreadyTerminal || e.isNotFound) = false

/-- No call fails. -/
def Faults.none : Faults where
  at? _ _ := .none
  concerns h := by cases h
  plain h := by cases h

/-- The world, how many calls were made, and the rollouts on which a call has failed. -/
structure Scene where
  world : World
  made : Nat
  struck : List DeploymentId

/-- Replies to a call of a cycle, unless the call has to wait for a lock. -/
def answer (env : Surroundings) (faults : Faults) :
    (op : WorkerOp) → Scene → Option (op.Reply × Scene)
  | .store c, scene =>
    match faults.at? scene.made c with
    | some e => some (.error e, { scene with
        made := scene.made + 1, struck := scene.struck ++ c.deployment?.toList })
    | .none => (scene.world.perform env.tx (env.clock c) c).map fun (r, world) =>
        (r, { scene with world, made := scene.made + 1 })
  | .send _, scene => some ((), scene)
  | .receive q, scene => some (env.reply q, scene)

/-- Without faults nothing is struck. -/
theorem struck_advance {α : Type} (env : Surroundings) (task : Task α) (scene : Scene) :
    (task.advance (answer env .none) scene).2.struck = scene.struck := by
  induction task generalizing scene with
  | done a => rfl
  | step op resume ih =>
    rw [Program.advance]
    split
    · next r scene' reply =>
      have same : scene'.struck = scene.struck := by
        cases op with
        | store c =>
          obtain ⟨result, -, h⟩ := Option.map_eq_some_iff.1 reply
          exact (congrArg Scene.struck (Prod.mk.inj h).2).symm
        | send q => exact (congrArg Scene.struck (Prod.mk.inj (Option.some.inj reply)).2).symm
        | receive q => exact (congrArg Scene.struck (Prod.mk.inj (Option.some.inj reply)).2).symm
      rw [ih, same]
    · rfl

/-! ### The world around one transaction -/

namespace World

theorem find?_put_self (w : World) (tx : TxId) (s : Store) (t : Option Transaction) :
    (w.put tx s t).transactions.find? tx = t := by
  cases t
  · exact Table.find?_erase_self _ _
  · exact Table.find?_insert_self _ _ _

theorem find?_put_of_ne (w : World) {tx tx' : TxId} (h : tx ≠ tx') (s : Store)
    (t : Option Transaction) :
    (w.put tx s t).transactions.find? tx' = w.transactions.find? tx' := by
  cases t
  · exact Table.find?_erase_of_ne _ h
  · exact Table.find?_insert_of_ne _ _ h

theorem put_put (w : World) (tx : TxId) (s s' : Store) (t t' : Option Transaction) :
    (w.put tx s t).put tx s' t' = w.put tx s' t' := by
  have tables : ((w.put tx s t).put tx s' t').transactions = (w.put tx s' t').transactions := by
    refine Table.ext fun tx' => ?_
    by_cases hne : tx = tx'
    · rw [← hne, find?_put_self, find?_put_self]
    · rw [find?_put_of_ne _ hne, find?_put_of_ne _ hne, find?_put_of_ne _ hne]
  cases t' with
  | none => exact congrArg (World.mk s') tables
  | some t' => exact congrArg (World.mk s') tables

/-- A call on a transaction that stands in the world. -/
theorem perform_put (w : World) {tx : TxId} {s : Store} {t : Transaction} {clock : Instant}
    {c : Call} (hc : c ≠ .begin) : (w.put tx s (some t)).perform tx clock c =
      (t.perform s clock c).map fun r => (r.1, w.put tx r.2.1 r.2.2) := by
  rw [perform_of_ne_begin hc, find?_put_self, Option.elim]
  refine congrArg (fun f => Option.map f _) (funext fun r => ?_)
  rw [put_put]

theorem put_none (w : World) {tx : TxId} (absent : w.transactions.find? tx = none) (s : Store) :
    w.put tx s none = { w with store := s } := by
  rw [put, Table.erase_of_find? absent]

end World

/-! ### Running inside of a transaction -/

section Runs

variable {α β : Type} {env : Surroundings} {faults : Faults} {w : World} {s : Store}
  {t t₁ t₂ : Transaction} {struck : List DeploymentId} {id : DeploymentId} {c : Call}

/-- A task that is run in the transaction `t` on the store `s` comes to its end with the store as it
is, and `post` holds of its result, its transaction and the rollouts that were struck. -/
def Runs (env : Surroundings) (faults : Faults) (w : World) (s : Store)
    (post : α → Transaction → List DeploymentId → Prop) (task : Task α) (t : Transaction)
    (struck : List DeploymentId) : Prop :=
  ∀ made, task.Reaches (answer env faults)
    (fun a scene => ∃ t', scene.world = w.put env.tx s (some t') ∧ post a t' scene.struck)
    ⟨w.put env.tx s (some t), made, struck⟩

theorem Runs.done {post : α → Transaction → List DeploymentId → Prop} {a : α}
    (h : post a t struck) : Runs env faults w s post (.done a) t struck :=
  fun _ => ⟨t, rfl, h⟩

theorem Runs.bind {mid : α → Transaction → List DeploymentId → Prop}
    {post : β → Transaction → List DeploymentId → Prop} {task : Task α} {f : α → Task β}
    (h : Runs env faults w s mid task t struck)
    (next : ∀ a t struck, mid a t struck → Runs env faults w s post (f a) t struck) :
    Runs env faults w s post (Program.bind task f) t struck := by
  intro made
  refine (h made).bind fun a scene => ?_
  rintro ⟨t', hworld, hmid⟩
  obtain ⟨world, made', struck'⟩ := scene
  obtain rfl : world = _ := hworld
  exact next a t' struck' hmid made'

theorem Runs.imp {mid post : α → Transaction → List DeploymentId → Prop} {task : Task α}
    (h : Runs env faults w s mid task t struck)
    (weaker : ∀ a t struck, mid a t struck → post a t struck) :
    Runs env faults w s post task t struck := by
  have := h.bind (f := .done) fun a t struck ha => Runs.done (weaker a t struck ha)
  rwa [Program.bind_done] at this

/-- One task after another, where the second is left out if the first fails. -/
theorem Runs.andThen {mid : Except Error α → Transaction → List DeploymentId → Prop}
    {post : Except Error β → Transaction → List DeploymentId → Prop} {task : Fallible α}
    {f : α → Fallible β} (h : Runs env faults w s mid task.run t struck)
    (ok : ∀ a t struck, mid (.ok a) t struck → Runs env faults w s post (f a).run t struck)
    (error : ∀ e t struck, mid (.error e) t struck → post (.error e) t struck) :
    Runs env faults w s post (task >>= f).run t struck := by
  refine Runs.bind h fun r t struck hr => ?_
  cases r with
  | ok a => exact ok a t struck hr
  | error e => exact Runs.done (error e t struck hr)

/-- A task whose errors are results goes on either way. -/
theorem Runs.outcomeThen {mid : Except Error α → Transaction → List DeploymentId → Prop}
    {post : Except Error β → Transaction → List DeploymentId → Prop} {task : Fallible α}
    {f : Except Error α → Fallible β} (h : Runs env faults w s mid task.run t struck)
    (next : ∀ r t struck, mid r t struck → Runs env faults w s post (f r).run t struck) :
    Runs env faults w s post (Task.outcome task >>= f).run t struck := by
  have outcome : Runs env faults w s (fun r t struck => ∃ r', r = .ok r' ∧ mid r' t struck)
      (Task.outcome task).run t struck :=
    Runs.bind h fun r t struck hr => Runs.done ⟨r, rfl, hr⟩
  refine outcome.andThen (fun r t struck => ?_) fun e t struck => ?_
  · rintro ⟨r', heq, hr⟩
    obtain rfl := Except.ok.inj heq
    exact next r t struck hr
  · rintro ⟨r', heq, -⟩
    cases heq

/-- A call that does not fail comes to what it comes to in its transaction. -/
theorem answer_of_perform {r : c.Result} {s' : Store} {t' : Option Transaction} {made : Nat}
    (hc : c ≠ .begin) (fault : faults.at? made c = none)
    (perform : t.perform s (env.clock c) c = some (r, s', t')) :
    answer env faults (.store c) ⟨w.put env.tx s (some t), made, struck⟩ =
      some (r, ⟨w.put env.tx s' t', made + 1, struck⟩) := by
  unfold answer
  simp only [fault]
  rw [World.perform_put w hc, perform]
  rfl

/-- A call comes to what it comes to in its transaction, or it fails and does nothing. -/
theorem runs_store {r : c.Result} (hc : c ≠ .begin)
    (perform : t.perform s (env.clock c) c = some (r, s, some t₁)) :
    Runs env faults w s (fun r' t' struck' => r' = r ∧ t' = t₁ ∧ struck' = struck ∨
      ∃ e, r' = .error e ∧ (e.isAlreadyTerminal || e.isNotFound) = false ∧
        t' = t ∧ c.deployment?.isSome ∧ struck' = struck ++ c.deployment?.toList)
      (Task.store c).run t struck := by
  intro made
  show ∃ r' scene, answer env faults (.store c) _ = some (r', scene) ∧ _
  cases fault : faults.at? made c with
  | none =>
    exact ⟨r, _, answer_of_perform hc fault perform, t₁, rfl, .inl ⟨rfl, rfl, rfl⟩⟩
  | some e =>
    refine ⟨.error e, ⟨w.put env.tx s (some t), made + 1, struck ++ c.deployment?.toList⟩, ?_, t, rfl,
      .inr ⟨e, rfl, faults.plain fault, rfl, faults.concerns fault, rfl⟩⟩
    simp only [answer, fault]

/-- The task has a result, of which `post` holds. -/
def Succeeds (post : α → Transaction → List DeploymentId → Prop) :
    Except Error α → Transaction → List DeploymentId → Prop
  | .ok a, t, struck => post a t struck
  | .error _, _, _ => False

theorem Runs.succeedsThen {mid : α → Transaction → List DeploymentId → Prop}
    {post : Except Error β → Transaction → List DeploymentId → Prop} {task : Fallible α}
    {f : α → Fallible β} (h : Runs env faults w s (Succeeds mid) task.run t struck)
    (next : ∀ a t struck, mid a t struck → Runs env faults w s post (f a).run t struck) :
    Runs env faults w s post (task >>= f).run t struck :=
  h.andThen next fun _ _ _ h => h.elim

/-- A call that is not about a rollout does not fail. -/
theorem reaches_control {made : Nat} {s' : Store} {t' : Option Transaction} {a : c.Answer}
    (hc : c ≠ .begin) (general : c.deployment? = none)
    (perform : t.perform s (env.clock c) c = some (.ok a, s', t')) :
    (Task.store c).run.Reaches (answer env faults)
      (fun r scene => r = .ok a ∧ scene.world = w.put env.tx s' t' ∧ scene.struck = struck)
      ⟨w.put env.tx s (some t), made, struck⟩ := by
  cases fault : faults.at? made c with
  | none => exact ⟨.ok a, _, answer_of_perform hc fault perform, rfl, rfl, rfl⟩
  | some e =>
    have concerns := faults.concerns fault
    rw [general] at concerns
    cases concerns

theorem runs_control {a : c.Answer} (hc : c ≠ .begin) (general : c.deployment? = none)
    (perform : t.perform s (env.clock c) c = some (.ok a, s, some t₁)) :
    Runs env faults w s (Succeeds fun a' t' struck' => a' = a ∧ t' = t₁ ∧ struck' = struck)
      (Task.store c).run t struck := by
  intro made
  refine (reaches_control hc general perform).imp fun r scene => ?_
  rintro ⟨rfl, hworld, hstruck⟩
  exact ⟨t₁, hworld, rfl, rfl, hstruck⟩

/-! ### The bridge -/

theorem Runs.send {post : α → Transaction → List DeploymentId → Prop} {q : StepRequest}
    {resume : Unit → Task α} (h : Runs env faults w s post (resume ()) t struck) :
    Runs env faults w s post (.step (.send q) resume) t struck :=
  fun made => ⟨(), _, rfl, h made⟩

theorem Runs.receive {post : α → Transaction → List DeploymentId → Prop} {q : StepRequest}
    {resume : StepResult → Task α} (h : Runs env faults w s post (resume (env.reply q)) t struck) :
    Runs env faults w s post (.step (.receive q) resume) t struck :=
  fun made => ⟨env.reply q, _, rfl, h made⟩

/-! ### Parts of a bracket -/

/-- How a task on one rollout ends: with the result that it has without faults, or with a call on
the rollout that has failed, and then the locks and the mark of its transaction are as before. -/
inductive Ends (id : DeploymentId) (a : α) (t t₁ : Transaction) (struck : List DeploymentId) :
    Except Error α → Transaction → List DeploymentId → Prop
  | ok : Ends id a t t₁ struck (.ok a) t₁ struck
  | error (e : Error) (t' : Transaction) (held : t'.held = t.held) (saved : t'.saved = t.saved) :
    Ends id a t t₁ struck (.error e) t' (struck ++ [id])

theorem Ends.congr {a : α} {r : Except Error α} {t' : Transaction} {struck' : List DeploymentId}
    (h : Ends id a t₁ t₂ struck r t' struck') (same : t₁.held = t.held ∧ t₁.saved = t.saved) :
    Ends id a t t₂ struck r t' struck' := by
  cases h with
  | ok => exact .ok
  | error e _ held saved => exact .error e t' (held.trans same.1) (saved.trans same.2)

theorem Ends.pure (a : α) :
    Runs env faults w s (Ends id a t t struck) (Pure.pure a : Fallible α).run t struck :=
  Runs.done .ok

theorem Ends.andThen {a : α} {b : β} {task : Fallible α} {f : α → Fallible β}
    (h : Runs env faults w s (Ends id a t t₁ struck) task.run t struck)
    (same : t₁.held = t.held ∧ t₁.saved = t.saved)
    (next : Runs env faults w s (Ends id b t₁ t₂ struck) (f a).run t₁ struck) :
    Runs env faults w s (Ends id b t t₂ struck) (task >>= f).run t struck := by
  refine Runs.andThen h (fun a' t' struck' ends => ?_) fun e t' struck' ends => ?_
  · cases ends with
    | ok => exact next.imp fun _ _ _ ends => ends.congr same
  · cases ends with
    | error _ _ held saved => exact .error e t' held saved

theorem Ends.store {a : c.Answer} (hc : c ≠ .begin) (about : c.deployment? = some id)
    (perform : t.perform s (env.clock c) c = some (.ok a, s, some t₁)) :
    Runs env faults w s (Ends id a t t₁ struck) (Task.store c).run t struck := by
  refine (runs_store hc perform).imp fun r t' struck' => ?_
  rintro (⟨rfl, rfl, rfl⟩ | ⟨e, rfl, -, rfl, -, rfl⟩)
  · exact .ok
  · rw [about]
    exact .error e t' rfl rfl

end Runs

end FirmwareRollout
