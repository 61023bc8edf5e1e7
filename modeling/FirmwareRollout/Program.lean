/-!
Programs that work by calls on something outside: a program is done with a result, or makes a call
and goes on with the reply. The same program can be run against anything that answers its calls, be
stopped before a call and resumed, or be interleaved with others. Main statements: the laws of a
monad, and `run_bind`.
-/

namespace FirmwareRollout

/-- A program that makes calls `Op` and gets a reply of a type that depends on the call. -/
inductive Program (Op : Type) (Reply : Op → Type) (α : Type) where
  | done (result : α)
  | step (op : Op) (resume : Reply op → Program Op Reply α)

namespace Program

variable {Op : Type} {Reply : Op → Type} {α β γ : Type}

/-- Goes on with the result of a program. -/
protected def bind : Program Op Reply α → (α → Program Op Reply β) → Program Op Reply β
  | done a, f => f a
  | step op resume, f => step op fun r => (resume r).bind f

instance : Monad (Program Op Reply) where
  pure := done
  bind := Program.bind

/-- The program that makes one call and gives its reply. -/
def call (op : Op) : Program Op Reply (Reply op) := step op done

@[simp] theorem pure_bind (a : α) (f : α → Program Op Reply β) : (done a).bind f = f a := rfl

@[simp] theorem step_bind (op : Op) (resume : Reply op → Program Op Reply α)
    (f : α → Program Op Reply β) :
    (step op resume).bind f = step op fun r => (resume r).bind f := rfl

@[simp] theorem bind_done (p : Program Op Reply α) : p.bind done = p := by
  induction p with
  | done => rfl
  | step op resume ih => exact congrArg (step op) (funext ih)

theorem bind_assoc (p : Program Op Reply α) (f : α → Program Op Reply β)
    (g : β → Program Op Reply γ) : (p.bind f).bind g = p.bind fun a => (f a).bind g := by
  induction p with
  | done => rfl
  | step op resume ih => exact congrArg (step op) (funext ih)

instance : LawfulMonad (Program Op Reply) :=
  LawfulMonad.mk' _ (fun p => bind_done p) (fun _ _ => rfl) bind_assoc

/-! ### Running -/

variable {σ : Type}

/-- Runs a program to its end; `answer` replies to each call and moves the state. -/
def run (answer : (op : Op) → σ → Reply op × σ) : Program Op Reply α → σ → α × σ
  | done a, s => (a, s)
  | step op resume, s => run answer (resume (answer op s).1) (answer op s).2

/-- Runs a program up to the first call that gets no reply in the state it meets. -/
def advance (answer : (op : Op) → σ → Option (Reply op × σ)) :
    Program Op Reply α → σ → Program Op Reply α × σ
  | done a, s => (done a, s)
  | step op resume, s =>
    match answer op s with
    | some (r, s) => advance answer (resume r) s
    | none => (step op resume, s)

def result? : Program Op Reply α → Option α
  | done a => some a
  | step .. => none

/-- Running one program after another is running the first, then the second from where it ended. -/
theorem run_bind (answer : (op : Op) → σ → Reply op × σ) (p : Program Op Reply α)
    (f : α → Program Op Reply β) (s : σ) :
    (p.bind f).run answer s = (f (p.run answer s).1).run answer (p.run answer s).2 := by
  induction p generalizing s with
  | done => rfl
  | step op resume ih => exact ih _ _

/-- Stopping where a reply is late and going on with it later makes no difference to a program that
runs alone. -/
theorem run_advance {early : (op : Op) → σ → Option (Reply op × σ)}
    {answer : (op : Op) → σ → Reply op × σ} (h : ∀ op s r, early op s = some r → r = answer op s)
    (p : Program Op Reply α) (s : σ) :
    (p.advance early s).1.run answer (p.advance early s).2 = p.run answer s := by
  induction p generalizing s with
  | done => rfl
  | step op resume ih =>
    rw [advance]
    split
    · next r s' hr =>
      have := h _ _ _ hr
      rw [ih, run, ← this]
    · rfl

end Program

end FirmwareRollout
