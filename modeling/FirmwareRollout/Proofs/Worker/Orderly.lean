import FirmwareRollout.Proofs.Worker.Careful
import FirmwareRollout.Proofs.Worker.Refinement

/-!
What a task asks of the bridge while nothing fails and others are at work. `Orderly now? post task
b x s` says of a task with the mail `b` and the transaction `x` on the store `s`: it sends a request
only for a rollout that it holds, that is stored as the request says and due at its time, and for
none twice; and it commits only when all of its requests are answered and what it has written are
the rollouts that it asked for. As in `Careful`, the store may move onward before every call, but
here every call is carried out (`Fulfilled`).

Main statements: the rules `Orderly.bind`, `Orderly.later` and `Achieves.bind`.
-/

namespace FirmwareRollout

/-! ### Mail -/

/-- What a party has sent to the bridge. -/
structure Mail where
  /-- The requests that it has sent, the latest first. -/
  sent : List StepRequest
  /-- Those that were not answered yet, the earliest first. -/
  unanswered : List StepRequest
deriving DecidableEq

namespace Mail

/-- Nothing was sent. -/
def none : Mail := ⟨[], []⟩

def send (b : Mail) (q : StepRequest) : Mail := ⟨q :: b.sent, b.unanswered ++ [q]⟩

def answer (b : Mail) (q : StepRequest) : Mail := { b with unanswered := b.unanswered.erase q }

/-- The rollouts that were asked for. -/
def asked (b : Mail) : List DeploymentId := b.sent.map (·.deployment)

@[simp] theorem asked_send (b : Mail) (q : StepRequest) :
    (b.send q).asked = q.deployment :: b.asked := rfl

end Mail

/-! ### Orderly tasks -/

/-- What a call of a party with the transaction `x` comes to if nothing fails. -/
inductive Fulfilled (x : Option Transaction) (s : Store) :
    (c : Call) → c.Result → Option Transaction → Store → Prop where
  | opened (absent : x = none) : Fulfilled x s .begin (.ok ()) (some .fresh) s
  | carried {c : Call} {t t' : Transaction} {s' : Store} {clock : Instant} {r : c.Result}
    (working : x = some t) (keyed : s.Keyed) (confined : t.Confined)
    (perform : t.perform s clock c = some (r, s', some t')) : Fulfilled x s c r (some t') s'
  /-- The transaction is over, and what others have done since is anybody's guess. -/
  | ended (s' : Store) : Fulfilled x s .commit (.ok ()) none s'

/-- The request is for a rollout that the party holds, as it is stored, and due at its time. -/
def Apt (now? : Option Instant) (x : Option Transaction) (s : Store) (q : StepRequest) : Prop :=
  ∃ t d now pending, x = some t ∧ now? = some now ∧ t.held.contains d.id ∧
    s.get d.id = some d ∧ d.isDue now ∧ q = .ofDeployment d pending

/-- The call can be made now: a transaction is opened before anything is asked, and committed when
all requests are answered and the rollouts that were asked for are written. -/
def Timely (b : Mail) (x : Option Transaction) : Call → Prop
  | .begin => b.asked = []
  | .commit => ∃ t, x = some t ∧ b.unanswered = [] ∧
    ∀ id, t.staging.deployments.contains id ↔ id ∈ b.asked
  | .rollback => False
  | _ => x.isSome

/-- **A task that deals with the bridge in order.** -/
def Orderly {α : Type} (now? : Option Instant)
    (post : α → Mail → Option Transaction → Store → Prop) :
    Task α → Mail → Option Transaction → Store → Prop
  | .done a, b, x, s => post a b x s
  | .step (.store c) resume, b, x, s => ∀ s', Later x s s' → Timely b x c ∧
    ∀ r x' s'', Fulfilled x s' c r x' s'' → Orderly now? post (resume r) b x' s''
  | .step (.send q) resume, b, x, s => Apt now? x s q ∧ q.deployment ∉ b.asked ∧
    Orderly now? post (resume ()) (b.send q) x s
  | .step (.receive q) resume, b, x, s => ∀ r, Orderly now? post (resume r) (b.answer q) x s

section Rules

variable {α β : Type} {now? : Option Instant} {b : Mail} {x : Option Transaction} {s s' : Store}
  {q : StepRequest}

theorem Apt.later (h : Apt now? x s q) (later : Later x s s') : Apt now? x s' q := by
  obtain ⟨t, d, now, pending, rfl, time, held, stored, due, rfl⟩ := h
  exact ⟨t, d, now, pending, rfl, time, held, (later.get_eq ⟨_, rfl, held⟩).trans stored, due, rfl⟩

theorem Orderly.bind {mid : α → Mail → Option Transaction → Store → Prop}
    {post : β → Mail → Option Transaction → Store → Prop} {task : Task α} {f : α → Task β}
    (h : Orderly now? mid task b x s)
    (next : ∀ a b x s, mid a b x s → Orderly now? post (f a) b x s) :
    Orderly now? post (Program.bind task f) b x s := by
  induction task generalizing b x s with
  | done a => exact next a b x s h
  | step op resume ih =>
    cases op with
    | store c =>
      intro s' later
      obtain ⟨timely, resumes⟩ := h s' later
      exact ⟨timely, fun r x' s'' fulfilled => ih r (resumes r x' s'' fulfilled)⟩
    | send q =>
      obtain ⟨apt, new, rest⟩ := h
      exact ⟨apt, new, ih () rest⟩
    | receive q => exact fun r => ih r (h r)

theorem Orderly.imp {mid post : α → Mail → Option Transaction → Store → Prop} {task : Task α}
    (h : Orderly now? mid task b x s) (weaker : ∀ a b x s, mid a b x s → post a b x s) :
    Orderly now? post task b x s := by
  have := h.bind (f := Program.done) weaker
  rwa [Program.bind_done] at this

/-- An orderly task stays so while others are at work. -/
theorem Orderly.later {post : α → Mail → Option Transaction → Store → Prop} {task : Task α}
    (stable : ∀ a b s s', Later x s s' → post a b x s → post a b x s')
    (h : Orderly now? post task b x s) (later : Later x s s') : Orderly now? post task b x s' := by
  induction task generalizing b with
  | done a => exact stable a b s s' later h
  | step op resume ih =>
    cases op with
    | store c => exact fun s'' later' => h s'' (later.trans later')
    | send q =>
      obtain ⟨apt, new, rest⟩ := h
      exact ⟨apt.later later, new, ih () rest⟩
    | receive q => exact fun r => ih r (h r)

/-! ### Tasks that do not fail -/

/-- Where `P` holds before it, the task is orderly and succeeds, and `Q` holds then. -/
def Achieves (now? : Option Instant) (P : Mail → Option Transaction → Store → Prop)
    (task : Fallible α) (Q : α → Mail → Option Transaction → Store → Prop) : Prop :=
  ∀ b x s, P b x s → Orderly now? (fun r b x s => ∃ a, r = .ok a ∧ Q a b x s) task.run b x s

variable {P : Mail → Option Transaction → Store → Prop}
  {Q : α → Mail → Option Transaction → Store → Prop}
  {R : β → Mail → Option Transaction → Store → Prop}

theorem Achieves.pure (a : α) (h : ∀ b x s, P b x s → Q a b x s) :
    Achieves now? P (Pure.pure a) Q :=
  fun b x s hp => ⟨a, rfl, h b x s hp⟩

theorem Achieves.bind {task : Fallible α} {f : α → Fallible β} (h : Achieves now? P task Q)
    (next : ∀ a, Achieves now? (Q a) (f a) R) : Achieves now? P (task >>= f) R := by
  intro b x s hp
  refine Orderly.bind (h b x s hp) fun r b x s hr => ?_
  obtain ⟨a, rfl, hq⟩ := hr
  exact next a b x s hq

/-- One task after another, where the first has no errors. -/
theorem Orderly.liftThen {mid : α → Mail → Option Transaction → Store → Prop}
    {post : Except Error β → Mail → Option Transaction → Store → Prop} {task : Task α}
    {f : α → Fallible β} (h : Orderly now? mid task b x s)
    (next : ∀ a b x s, mid a b x s → Orderly now? post (f a).run b x s) :
    Orderly now? post (liftM task >>= f).run b x s := by
  have lifted : Orderly now? (fun r b x s => ∃ a, r = .ok a ∧ mid a b x s)
      (liftM task : Fallible α).run b x s := h.bind fun a _ _ _ ha => ⟨a, rfl, ha⟩
  refine lifted.bind fun r b x s hr => ?_
  obtain ⟨a, rfl, ha⟩ := hr
  exact next a b x s ha

/-- A task that is known to succeed, and whose result is looked at. -/
theorem Achieves.outcome {task : Fallible α} (h : Achieves now? P task Q) :
    Achieves now? P (Task.outcome task) fun r b x s => ∃ a, r = .ok a ∧ Q a b x s :=
  fun b x s hp => Orderly.bind (h b x s hp) fun r _ _ _ hr => ⟨r, rfl, hr⟩

end Rules

end FirmwareRollout
