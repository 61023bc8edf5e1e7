import FirmwareRollout.Error
import FirmwareRollout.Program

/-!
Runs of a program that come to their end. `Reaches answer post p s` says of the program `p` in the
state `s` that every call of it gets a reply, and that `post` holds of its result and of the state
that it leaves. The rules follow the ways in which programs are put together, with errors and
without.

Main statements: `Reaches.bind`, `Reaches.andThen`, `Reaches.advance`, `eval_bind`.
-/

namespace FirmwareRollout.Program

variable {Op : Type} {Reply : Op → Type} {σ α β : Type}
  {answer : (op : Op) → σ → Option (Reply op × σ)} {s : σ}

def Reaches (answer : (op : Op) → σ → Option (Reply op × σ)) (post : α → σ → Prop) :
    Program Op Reply α → σ → Prop
  | done a, s => post a s
  | step op resume, s => ∃ r s', answer op s = some (r, s') ∧ Reaches answer post (resume r) s'

theorem Reaches.bind {mid : α → σ → Prop} {post : β → σ → Prop} {p : Program Op Reply α}
    {f : α → Program Op Reply β} (h : Reaches answer mid p s)
    (next : ∀ a s, mid a s → Reaches answer post (f a) s) : Reaches answer post (p.bind f) s := by
  induction p generalizing s with
  | done a => exact next a s h
  | step op resume ih =>
    obtain ⟨r, s', reply, rest⟩ := h
    exact ⟨r, s', reply, ih r rest⟩

theorem Reaches.imp {mid post : α → σ → Prop} {p : Program Op Reply α}
    (h : Reaches answer mid p s) (weaker : ∀ a s, mid a s → post a s) : Reaches answer post p s := by
  have := h.bind (f := done) weaker
  rwa [bind_done] at this

theorem advance_of_reply {op : Op} {resume : Reply op → Program Op Reply α} {r : Reply op} {s' : σ}
    (h : answer op s = some (r, s')) :
    (step op resume).advance answer s = (resume r).advance answer s' := by
  rw [Program.advance, h]

/-- **A program that reaches its end** is run to it. -/
theorem Reaches.advance {post : α → σ → Prop} {p : Program Op Reply α}
    (h : Reaches answer post p s) : ∃ a s', p.advance answer s = (done a, s') ∧ post a s' := by
  induction p generalizing s with
  | done a => exact ⟨a, s, rfl, h⟩
  | step op resume ih =>
    obtain ⟨r, s', reply, rest⟩ := h
    obtain ⟨a, s'', run, holds⟩ := ih r rest
    exact ⟨a, s'', (advance_of_reply reply).trans run, holds⟩

/-- What a program comes to and the state that it leaves, if all of its calls get a reply. -/
def eval (answer : (op : Op) → σ → Option (Reply op × σ)) : Program Op Reply α → σ → Option (α × σ)
  | done a, s => some (a, s)
  | step op resume, s => (answer op s).bind fun r => eval answer (resume r.1) r.2

theorem eval_bind (p : Program Op Reply α) (f : α → Program Op Reply β) (s : σ) :
    (p.bind f).eval answer s = (p.eval answer s).bind fun r => (f r.1).eval answer r.2 := by
  induction p generalizing s with
  | done a => rfl
  | step op resume ih =>
    rw [step_bind, eval, eval, Option.bind_assoc]
    exact congrArg (Option.bind _) (funext fun r => ih r.1 r.2)

theorem eval_bind_of_eval {task : Program Op Reply α} {f : α → Program Op Reply β} {a : α} {s' : σ}
    (h : task.eval answer s = some (a, s')) :
    (task.bind f).eval answer s = (f a).eval answer s' := by
  rw [eval_bind, h]
  rfl

/-! ### Programs with errors -/

/-- One program after another, where the second is left out if the first fails. -/
theorem Reaches.andThen {mid : Except Error α → σ → Prop} {post : Except Error β → σ → Prop}
    {task : ExceptT Error (Program Op Reply) α} {f : α → ExceptT Error (Program Op Reply) β}
    (h : Reaches answer mid task.run s)
    (ok : ∀ a s, mid (.ok a) s → Reaches answer post (f a).run s)
    (error : ∀ e s, mid (.error e) s → post (.error e) s) :
    Reaches answer post (task >>= f).run s := by
  refine Reaches.bind h fun r s hr => ?_
  cases r with
  | ok a => exact ok a s hr
  | error e => exact error e s hr

/-- One program after another, where the first has no errors. -/
theorem Reaches.liftThen {mid : α → σ → Prop} {post : Except Error β → σ → Prop}
    {task : Program Op Reply α} {f : α → ExceptT Error (Program Op Reply) β}
    (h : Reaches answer mid task s) (next : ∀ a s, mid a s → Reaches answer post (f a).run s) :
    Reaches answer post (liftM task >>= f).run s := by
  have lifted : Reaches answer (fun r s => ∃ a, r = .ok a ∧ mid a s)
      (liftM task : ExceptT Error (Program Op Reply) α).run s :=
    Reaches.bind h fun a _ ha => ⟨a, rfl, ha⟩
  refine lifted.andThen (fun a s => ?_) nofun
  rintro ⟨a', heq, ha⟩
  obtain rfl := Except.ok.inj heq
  exact next a s ha

theorem eval_bind_ok {task : ExceptT Error (Program Op Reply) α}
    {f : α → ExceptT Error (Program Op Reply) β} {a : α} {s' : σ}
    (h : task.run.eval answer s = some (.ok a, s')) :
    (task >>= f).run.eval answer s = (f a).run.eval answer s' := by
  refine (eval_bind task.run _ s).trans ?_
  rw [h]
  rfl

theorem eval_bind_error {task : ExceptT Error (Program Op Reply) α}
    {f : α → ExceptT Error (Program Op Reply) β} {e : Error} {s' : σ}
    (h : task.run.eval answer s = some (.error e, s')) :
    (task >>= f).run.eval answer s = some (.error e, s') := by
  refine (eval_bind task.run _ s).trans ?_
  rw [h]
  rfl

theorem eval_liftM_bind {task : Program Op Reply α} {f : α → ExceptT Error (Program Op Reply) β}
    {a : α} {s' : σ} (h : task.eval answer s = some (a, s')) :
    (liftM task >>= f).run.eval answer s = (f a).run.eval answer s' := by
  have lifted : (liftM task : ExceptT Error (Program Op Reply) α).run.eval answer s =
      some (.ok a, s') := by
    refine (eval_bind task _ s).trans ?_
    rw [h]
    rfl
  exact eval_bind_ok lifted

end FirmwareRollout.Program
