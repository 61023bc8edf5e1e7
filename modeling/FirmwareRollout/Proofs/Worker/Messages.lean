import FirmwareRollout.Proofs.Store.Messages
import FirmwareRollout.Proofs.Worker.Crew

/-!
Where the message of a device comes from. A party passes on what it was told, by its errand or by
the bridge, and all else that it records are errors. So the history that leads to a store tells
every message in it that stands with a success (`Turn.Tells`), and there is none where no outcome
stands. What is left of a program is `Faithful` if it records no success that was not told, whatever
its calls come to.

Main statement: `messages_are_told`.
-/

namespace FirmwareRollout

/-! ### Programs that pass on what they are told -/

namespace Program

variable {Op : Type} {Reply : Op → Type} {α β : Type} {may : Op → Prop}
  {fair : (op : Op) → Reply op → Prop}

/-- The program makes only calls that it may, as long as all replies are fair, and `post` holds of
its result then. -/
def Abides (may : Op → Prop) (fair : (op : Op) → Reply op → Prop) (post : α → Prop) :
    Program Op Reply α → Prop
  | done a => post a
  | step op resume => may op ∧ ∀ r, fair op r → Abides may fair post (resume r)

theorem Abides.bind {mid : α → Prop} {post : β → Prop} {p : Program Op Reply α}
    {f : α → Program Op Reply β} (h : p.Abides may fair mid)
    (next : ∀ a, mid a → (f a).Abides may fair post) : (p.bind f).Abides may fair post := by
  induction p with
  | done a => exact next a h
  | step op resume ih => exact ⟨h.1, fun r hr => ih r (h.2 r hr)⟩

end Program

/-- The successes that the result of a step reports were told. -/
def StepResult.Told (told : DevEui → String → Prop) (result : StepResult) : Prop :=
  ∀ r ∈ result.devices, r.outcome = .success → told r.eui r.message

namespace WorkerOp

/-- A call on the store records no success that was not told. -/
def Faithful (told : DevEui → String → Prop) : WorkerOp → Prop
  | store c => c.Faithful told
  | send _ | receive _ => True

/-- What the bridge reports was told. -/
def Fair (told : DevEui → String → Prop) : (op : WorkerOp) → op.Reply → Prop
  | receive _, result => StepResult.Told told result
  | store _, _ | send _, _ => True

end WorkerOp

/-- What is left of a task records no success that was not told, as long as the bridge reports
none. -/
abbrev Task.Faithful {α : Type} (told : DevEui → String → Prop) (post : α → Prop) (task : Task α) :
    Prop :=
  task.Abides (WorkerOp.Faithful told) (WorkerOp.Fair told) post

/-- The same of a task with errors, where `post` is about the results that are none. -/
def Passes {α : Type} (told : DevEui → String → Prop) (post : α → Prop) (task : Fallible α) : Prop :=
  Task.Faithful told (fun r => ∀ a, r = .ok a → post a) task.run

namespace Passes

variable {told : DevEui → String → Prop} {α β : Type}

theorem pure {post : α → Prop} {a : α} (h : post a) : Passes told post (Pure.pure a) := by
  rintro _ ⟨⟩
  exact h

theorem throw {post : α → Prop} (e : Error) :
    Passes told post (MonadExcept.throw e : Fallible α) := by
  rintro _ ⟨⟩

theorem bind {mid : α → Prop} {post : β → Prop} {task : Fallible α} {f : α → Fallible β}
    (h : Passes told mid task) (next : ∀ a, mid a → Passes told post (f a)) :
    Passes told post (task >>= f) := by
  refine Program.Abides.bind h fun r hr => ?_
  cases r with
  | ok a => exact next a (hr a rfl)
  | error e =>
    have stopped : Passes told post (MonadExcept.throw e : Fallible β) := throw e
    exact stopped

theorem lift {mid : α → Prop} {task : Task α} (h : Task.Faithful told mid task) :
    Passes told mid (liftM task : Fallible α) := by
  refine Program.Abides.bind h fun a ha => ?_
  rintro _ ⟨⟩
  exact ha

theorem outcome {mid : α → Prop} {task : Fallible α} (h : Passes told mid task) :
    Passes told (fun _ => True) (Task.outcome task) := by
  refine Program.Abides.bind h fun r _ => ?_
  exact fun _ _ => trivial

theorem store {c : Call} (faithful : c.Faithful told) : Passes told (fun _ => True) (Task.store c) :=
  ⟨faithful, fun _ _ _ _ => trivial⟩

/-- A call that records nothing. -/
theorem other {c : Call} (silent : ∀ id eui outcome message,
    c ≠ .recordOutcome id eui outcome message) : Passes told (fun _ => True) (Task.store c) :=
  store fun _ _ _ records => absurd records (silent _ _ _ _)

end Passes

namespace Worker

variable {told : DevEui → String → Prop} {w : Worker} {now : Instant}

theorem passes_recordReports (id : DeploymentId) {reports : List DeviceReport}
    (fair : ∀ r ∈ reports, r.outcome = .success → told r.eui r.message) :
    Passes told (fun _ => True) (recordReports id reports) := by
  induction reports with
  | nil => exact .pure trivial
  | cons r rest ih =>
    obtain ⟨first, others⟩ := List.forall_mem_cons.1 fair
    have rest := ih others
    have records := Call.faithful_recordOutcome first id
    refine .bind (.outcome (.store records)) fun result _ => ?_
    cases result with
    | ok => exact .bind rest fun n _ => .pure trivial
    | error e =>
      show Passes told _ (if _ then _ else _)
      split
      · exact rest
      · exact .throw e

theorem passes_failOutstanding (id : DeploymentId) (message : Option String) :
    Passes told (fun _ => True) (failOutstanding id message) := by
  cases message with
  | none => exact .pure trivial
  | some message => exact .bind (.other (by simp)) fun _ _ => .pure trivial

theorem passes_persist (d : Deployment) {result : StepResult} (fair : result.Told told) :
    Passes told (fun _ => True) (w.persist now d result) := by
  refine .bind (passes_recordReports d.id fair) fun recorded _ => ?_
  refine .bind (.other (by simp)) fun euis _ => ?_
  exact .bind (passes_failOutstanding d.id _) fun _ _ =>
    .bind (.other (by simp)) fun _ _ => .pure trivial

theorem passes_settle (d : Deployment) {result : StepResult} (fair : result.Told told) :
    Passes told (fun _ => True) (w.settle now d result) := by
  refine .bind (.other (by simp)) fun _ _ => ?_
  refine .bind (.outcome (passes_persist d fair)) fun r _ => ?_
  cases r with
  | ok summary => exact .bind (.other (by simp)) fun _ _ => .pure trivial
  | error e => exact .bind (.other (by simp)) fun _ _ => .pure trivial

theorem passes_settleAll {work : List (Deployment × StepResult)}
    (fair : ∀ p ∈ work, p.2.Told told) : Passes told (fun _ => True) (w.settleAll now work) := by
  induction work with
  | nil => exact .pure trivial
  | cons p rest ih =>
    obtain ⟨first, others⟩ := List.forall_mem_cons.1 fair
    exact .bind (passes_settle p.1 first) fun _ _ => .bind (ih others) fun _ _ => .pure trivial

theorem faithful_readPending (claimed : List Deployment) :
    Task.Faithful told (fun _ => True) (readPending claimed) := by
  induction claimed with
  | nil => exact trivial
  | cons d rest ih =>
    refine Program.Abides.bind (Passes.other (by simp)) fun pending _ => ?_
    refine Program.Abides.bind ih fun others _ => ?_
    cases pending <;> exact trivial

theorem faithful_send (requests : List StepRequest) :
    Task.Faithful told (fun _ => True) (requests.forM Task.send) := by
  induction requests with
  | nil => exact trivial
  | cons q requests ih => exact ⟨trivial, fun _ _ => ih⟩

theorem faithful_receive (requests : List StepRequest) :
    Task.Faithful told (fun results => ∀ result ∈ results, result.Told told)
      (requests.mapM Task.receive) := by
  induction requests with
  | nil => exact List.forall_mem_nil _
  | cons q requests ih =>
    rw [List.mapM_cons]
    refine ⟨trivial, fun result fair => ?_⟩
    show Task.Faithful told _ (Program.bind (requests.mapM Task.receive) _)
    exact Program.Abides.bind ih fun _ others => List.forall_mem_cons.2 ⟨fair, others⟩

/-- What comes of asking the bridge was told by the bridge. -/
theorem faithful_consult (requests : List StepRequest) :
    Task.Faithful told (fun results => ∀ result ∈ results, result.Told told) (consult requests) :=
  Program.Abides.bind (faithful_send requests) fun _ _ => faithful_receive requests

/-- **A cycle records no success that the bridge has not reported.** -/
theorem passes_cycle (w : Worker) (now : Instant) : Passes told (fun _ => True) (w.cycle now) := by
  refine .bind (.other (by simp)) fun _ _ => ?_
  refine .bind (.other (by simp)) fun claimed _ => ?_
  show Passes told _ (if _ then _ else _)
  split
  · exact .bind (.other (by simp)) fun _ _ => .pure trivial
  · refine .bind (.lift (faithful_readPending claimed)) fun work _ => ?_
    refine .bind (.lift (faithful_consult _)) fun results fair => ?_
    have told_each : ∀ p ∈ (work.map (·.1)).zip results, p.2.Told told :=
      fun p hp => fair p.2 (List.of_mem_zip hp).2
    refine .bind (passes_settleAll told_each) fun summary _ => ?_
    exact .bind (.other (by simp)) fun _ _ => .pure trivial

theorem passes_recordOutcome (id : DeploymentId) (eui : DevEui) (outcome : Outcome)
    (message : String) (faithful : outcome = .success → told eui message) :
    Passes told (fun _ => True) (recordOutcome id eui outcome message) := by
  have records := Call.faithful_recordOutcome faithful id
  refine .bind (.other (by simp)) fun _ _ => ?_
  exact .bind (.store records) fun _ _ => .bind (.other (by simp)) fun _ _ => .pure trivial

end Worker

/-! ### Parties -/

/-- The turn tells that the device has succeeded, with this message. -/
def Turn.Tells : Turn → DevEui → String → Prop
  | .start _ (.record _ eui .success message), eui', message' => eui' = eui ∧ message' = message
  | .go _ (.answer result), eui, message => ⟨eui, .success, message⟩ ∈ result.devices
  | _, _, _ => False

section Parties

variable {told : DevEui → String → Prop} {x : Option Session} {s : Store}

theorem StepResult.told_of_tells {result : StepResult} {tx : TxId}
    (tells : ∀ eui message, Turn.Tells (.go tx (.answer result)) eui message → told eui message) :
    result.Told told := by
  intro r mem success
  refine tells r.eui r.message ?_
  show ⟨r.eui, .success, r.message⟩ ∈ result.devices
  rw [← success]
  exact mem

theorem Errand.faithful_task {errand : Errand} {tx : TxId}
    (tells : ∀ eui message, Turn.Tells (.start tx errand) eui message → told eui message) :
    Task.Faithful told (fun _ => True) errand.task := by
  cases errand with
  | cycle w now => exact Program.Abides.bind (Worker.passes_cycle w now) fun _ _ => trivial
  | record id eui outcome message =>
    refine Program.Abides.bind (Worker.passes_recordOutcome id eui outcome message ?_)
      fun _ _ => trivial
    rintro rfl
    exact tells eui message ⟨rfl, rfl⟩

/-- The stroke that a call takes is about that call. -/
theorem Session.call_of_request {clock clock' : Instant} {c c' : Call}
    (h : (Session.request x s clock c).1 = some (.call clock' c')) : c' = c := by
  cases x with
  | none => cases c <;> cases h
  | some y =>
    cases c with
    | begin | rollback => cases h
    | commit => cases y <;> cases h
    | _ => cases h; rfl

/-- A party whose program passes on what it was told does so at its turn and afterwards. -/
theorem Task.Faithful.proceed {task : Task Unit} (h : Task.Faithful told (fun _ => True) task)
    (e : Event) (fair : ∀ result, e = .answer result → result.Told told) :
    (∀ clock c, (Task.proceed x s e task).1 = some (.call clock c) → c.Faithful told) ∧
      Task.Faithful told (fun _ => True) (Task.proceed x s e task).2 := by
  cases task with
  | done a => cases e <;> exact ⟨by simp [Task.proceed], trivial⟩
  | step op resume =>
    cases op with
    | send q => cases e <;> exact ⟨by simp [Task.proceed], h.2 () trivial⟩
    | receive q =>
      cases e with
      | answer result => exact ⟨by simp [Task.proceed], h.2 result (fair result rfl)⟩
      | _ => exact ⟨by simp [Task.proceed], h⟩
    | store c =>
      cases e with
      | answer result => exact ⟨by simp [Task.proceed], h⟩
      | refuse e =>
        simp only [Task.proceed]
        split
        · exact ⟨by simp, h⟩
        · exact ⟨by simp, h.2 _ trivial⟩
      | carry clock lost =>
        have own : ∀ clock' c', (Session.request x s clock c).1 = some (.call clock' c') →
            c'.Faithful told := fun _ _ hc => Session.call_of_request hc ▸ h.1
        simp only [Task.proceed]
        split
        · next a r request =>
          rw [request] at own
          exact ⟨own, h.2 _ trivial⟩
        · next a request =>
          rw [request] at own
          exact ⟨own, h⟩

end Parties

namespace Crew

variable {told : DevEui → String → Prop} {c : Crew}

/-- All parties pass on what they are told. -/
def Faithful (told : DevEui → String → Prop) (c : Crew) : Prop :=
  ∀ tx p, c.parties.find? tx = some p → Task.Faithful told (fun _ => True) p.rest

/-- A turn in which no success comes up that was not told. -/
theorem Faithful.step (h : c.Faithful told) {m : Turn}
    (tells : ∀ eui message, m.Tells eui message → told eui message) :
    (∀ k, c.stroke? m = some k → k.Faithful told) ∧ (c.step m).Faithful told := by
  cases m with
  | create d devices =>
    refine ⟨?_, h⟩
    rintro _ ⟨⟩ tx clock c ⟨⟩
  | start tx errand =>
    refine ⟨fun _ none => (nomatch none), fun tx' p hp => ?_⟩
    change (if _ then _ else _ : Table TxId Party).find? tx' = some p at hp
    split at hp
    · exact h tx' p hp
    · rcases Table.find?_insert_eq_some_iff.1 hp with ⟨-, rfl⟩ | ⟨-, old⟩
      · exact Errand.faithful_task tells
      · exact h tx' p old
  | go tx e =>
    cases hp : c.parties.find? tx with
    | none =>
      rw [step_go_of_absent hp e]
      exact ⟨by simp [stroke?, proceed, hp], h⟩
    | some p =>
      have fair : ∀ result, e = .answer result → result.Told told := by
        rintro result rfl
        exact StepResult.told_of_tells tells
      obtain ⟨calls, rest⟩ := (h tx p hp).proceed e fair
      refine ⟨fun k hk tx' clock call heq => ?_, fun tx' p' hp' => ?_⟩
      · subst heq
        simp only [stroke?, proceed, hp, Option.map_some, Option.bind_some,
          Option.map_eq_some_iff] at hk
        obtain ⟨a, ha, same⟩ := hk
        cases same
        exact calls clock call ha
      · rw [step_go hp rfl] at hp'
        rcases Table.find?_insert_eq_some_iff.1 hp' with ⟨-, rfl⟩ | ⟨-, old⟩
        · exact rest
        · exact h tx' p' old
  | drop tx =>
    refine ⟨?_, fun tx' p hp => h tx' p (Table.find?_erase_eq_some_iff.1 hp).2⟩
    rintro _ ⟨⟩ tx' clock c ⟨⟩

/-- What comes of a history that tells no other successes. -/
theorem faithful_after {h : List Turn}
    (tells : ∀ m ∈ h, ∀ eui message, m.Tells eui message → told eui message) :
    (after h).Faithful told ∧ ∀ k ∈ strokes h, k.Faithful told := by
  induction h with
  | nil => exact ⟨fun _ _ hp => (nomatch hp), List.forall_mem_nil _⟩
  | cons m h ih =>
    obtain ⟨first, rest⟩ := List.forall_mem_cons.1 tells
    obtain ⟨parties, before⟩ := ih rest
    obtain ⟨own, parties'⟩ := parties.step first
    refine ⟨parties', fun k hk => ?_⟩
    rcases List.mem_append.1 hk with hk | hk
    · exact own k (Option.mem_toList.1 hk)
    · exact before k hk

/-- **Messages are told.** In every history, a device without an outcome has no message, and the
message of one that has succeeded is the one with which its success was told, by the bridge or by
the errand of a party. So only errors have messages where all successes are told without one. -/
theorem messages_are_told (h : List Turn) (id : DeploymentId) (eui : DevEui) (p : Participant)
    (hp : (after h).shared.store.participant? id eui = some p) :
    (p.state = .pending → p.errorMessage = "") ∧
    (p.state = .success → ∃ m ∈ h, m.Tells eui p.errorMessage) ∧
    ((∀ m ∈ h, ∀ message, m.Tells eui message → message = "") →
      p.state ≠ .error → p.errorMessage = "") := by
  have tells : ∀ m ∈ h, ∀ eui message, m.Tells eui message → ∃ m ∈ h, m.Tells eui message :=
    fun m hm _ _ told => ⟨m, hm, told⟩
  have strokes := (faithful_after tells).2
  rw [shared_after] at hp
  have fits := (Shared.told_after strokes).stored id eui p hp
  refine ⟨fits.pending, fits.success, fun silent unfailed => ?_⟩
  cases state : p.state with
  | pending => exact fits.pending state
  | success =>
    obtain ⟨m, hm, tells⟩ := fits.success state
    exact silent m hm _ tells
  | error => exact absurd state unfailed

/-- A history in which the success of a device is told with a message. -/
def signal : List Turn :=
  List.replicate 4 (.go 1 (.carry .epoch none)) ++
    [.start 1 (.record Deployment.sample.id ⟨Vector.replicate 8 0⟩ .success "weak signal"),
      .create .sample [⟨⟨Vector.replicate 8 0⟩, "meter"⟩]]

/-- What is stored of the device then. -/
def heard : Participant :=
  ⟨Deployment.sample.id, ⟨Vector.replicate 8 0⟩, "meter", .success, "weak signal", .epoch, .epoch⟩

theorem participant?_signal : (after signal).shared.store.participant? Deployment.sample.id
    ⟨Vector.replicate 8 0⟩ = some heard := by
  decide +kernel

theorem told_of_signal : (after signal).shared.store.participant? Deployment.sample.id
      ⟨Vector.replicate 8 0⟩ = some heard ∧
    ∃ m ∈ signal, m.Tells ⟨Vector.replicate 8 0⟩ "weak signal" :=
  ⟨participant?_signal, (messages_are_told _ _ _ _ participant?_signal).2.1 rfl⟩

/-- A message can stand with a success. -/
theorem success_has_message : ¬∀ h id eui p,
    (after h).shared.store.participant? id eui = some p → p.state ≠ .error → p.errorMessage = "" := by
  intro tidy
  have silent := tidy _ _ _ _ participant?_signal (by decide)
  exact absurd silent (by decide)

end Crew

end FirmwareRollout
