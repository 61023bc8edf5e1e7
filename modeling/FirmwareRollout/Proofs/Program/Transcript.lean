import FirmwareRollout.Error
import FirmwareRollout.Program

/-!
Transcripts of a program: the calls that it makes with the replies that it gets, the first one
first, and the result to which they lead. `record` runs a program in some surroundings and writes
its transcript down; the surroundings may reply to each call as they like, so that what holds of all
transcripts holds whatever becomes of the calls.

Main statements: `transcript_record` and `transcript_of_advance`, and the inversions
`Transcript.bind`, `Transcript.andThen` and `Transcript.liftThen`.
-/

namespace FirmwareRollout.Program

variable {Op : Type} {Reply : Op → Type} {σ α β : Type}

/-- A call and the reply to it. -/
structure Line (Op : Type) (Reply : Op → Type) where
  op : Op
  reply : Reply op

/-- **The transcripts of a program**, with their results. -/
inductive Transcript : Program Op Reply α → List (Line Op Reply) → α → Prop where
  | done (a : α) : Transcript (.done a) [] a
  | step {op : Op} {resume : Reply op → Program Op Reply α} {r : Reply op}
    {log : List (Line Op Reply)} {a : α} (rest : Transcript (resume r) log a) :
    Transcript (.step op resume) (⟨op, r⟩ :: log) a

/-- Runs a program and writes down its calls with the replies: the transcript, the result and the
state that is left. -/
def record (answer : (op : Op) → σ → Reply op × σ) :
    Program Op Reply α → σ → List (Line Op Reply) × α × σ
  | done a, s => ([], a, s)
  | step op resume, s =>
    let rest := record answer (resume (answer op s).1) (answer op s).2
    (⟨op, (answer op s).1⟩ :: rest.1, rest.2)

/-- Writing down does not change what a program does. -/
theorem record_eq_run (answer : (op : Op) → σ → Reply op × σ) (p : Program Op Reply α) (s : σ) :
    (p.record answer s).2 = p.run answer s := by
  induction p generalizing s with
  | done => rfl
  | step op resume ih => exact ih _ _

theorem transcript_record (answer : (op : Op) → σ → Reply op × σ) (p : Program Op Reply α)
    (s : σ) : p.Transcript (p.record answer s).1 (p.record answer s).2.1 := by
  induction p generalizing s with
  | done a => exact .done a
  | step op resume ih => exact .step (ih _ _)

/-- A run that comes to its end has a transcript. -/
theorem transcript_of_advance {answer : (op : Op) → σ → Option (Reply op × σ)}
    {p : Program Op Reply α} {s s' : σ} {a : α} (h : p.advance answer s = (.done a, s')) :
    ∃ log, p.Transcript log a := by
  induction p generalizing s with
  | done b =>
    cases h
    exact ⟨[], .done a⟩
  | step op resume ih =>
    rw [advance] at h
    split at h
    · obtain ⟨log, rest⟩ := ih _ h
      exact ⟨_, .step rest⟩
    · cases h

variable {log : List (Line Op Reply)}

theorem Transcript.bind {p : Program Op Reply α} {f : α → Program Op Reply β} {b : β}
    (h : (p.bind f).Transcript log b) :
    ∃ first rest a, log = first ++ rest ∧ p.Transcript first a ∧ (f a).Transcript rest b := by
  induction p generalizing log with
  | done a => exact ⟨[], log, a, rfl, .done a, h⟩
  | step op resume ih =>
    rw [step_bind] at h
    cases h with
    | step rest =>
      obtain ⟨first, later, a, rfl, hfirst, hlater⟩ := ih _ rest
      exact ⟨_ :: first, later, a, rfl, .step hfirst, hlater⟩

/-- One program after another, where the second is left out if the first fails. -/
theorem Transcript.andThen {task : ExceptT Error (Program Op Reply) α}
    {f : α → ExceptT Error (Program Op Reply) β} {b : Except Error β}
    (h : (task >>= f).run.Transcript log b) :
    (∃ e, b = .error e ∧ task.run.Transcript log (.error e)) ∨
      ∃ first rest a, log = first ++ rest ∧ task.run.Transcript first (.ok a) ∧
        (f a).run.Transcript rest b := by
  obtain ⟨first, rest, r, rfl, hfirst, hrest⟩ := Transcript.bind h
  cases r with
  | ok a => exact .inr ⟨first, rest, a, rfl, hfirst, hrest⟩
  | error e =>
    have stopped : Transcript (.done (.error e : Except Error β)) rest b := hrest
    cases stopped
    rw [List.append_nil]
    exact .inl ⟨e, rfl, hfirst⟩

/-- A result without an error comes from one program and then from the other. -/
theorem Transcript.andThen_ok {task : ExceptT Error (Program Op Reply) α}
    {f : α → ExceptT Error (Program Op Reply) β} {b : β}
    (h : (task >>= f).run.Transcript log (.ok b)) :
    ∃ first rest a, log = first ++ rest ∧ task.run.Transcript first (.ok a) ∧
      (f a).run.Transcript rest (.ok b) := by
  rcases h.andThen with ⟨e, heq, -⟩ | both
  · cases heq
  · exact both

/-- One program after another, where the first has no errors. -/
theorem Transcript.liftThen {task : Program Op Reply α}
    {f : α → ExceptT Error (Program Op Reply) β} {b : Except Error β}
    (h : (liftM task >>= f).run.Transcript log b) :
    ∃ first rest a, log = first ++ rest ∧ task.Transcript first a ∧
      (f a).run.Transcript rest b := by
  have lifted : ∀ {first : List (Line Op Reply)} {r : Except Error α},
      (liftM task : ExceptT Error (Program Op Reply) α).run.Transcript first r →
        ∃ a, r = .ok a ∧ task.Transcript first a := by
    intro first r hr
    obtain ⟨begun, ended, a, rfl, ha, hend⟩ := Transcript.bind hr
    cases hend
    exact ⟨a, rfl, (List.append_nil begun).symm ▸ ha⟩
  rcases h.andThen with ⟨e, -, failed⟩ | ⟨first, rest, a, rfl, hfirst, hrest⟩
  · obtain ⟨_, heq, -⟩ := lifted failed
    cases heq
  · obtain ⟨a', heq, ha⟩ := lifted hfirst
    cases heq
    exact ⟨first, rest, a, rfl, ha, hrest⟩

end FirmwareRollout.Program
