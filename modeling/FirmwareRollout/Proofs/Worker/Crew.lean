import FirmwareRollout.Proofs.Worker.Cycle

/-!
Workers and trackers at work on one store. A `Crew` is a shared store and the parties that work on
it, each a program that goes on by one call, or by a part of one, whenever it is its turn. A history
is a list of turns, the latest first: new rollouts, parties that start, go on in any order or are
dropped at any point, calls that are refused, and calls whose answers are lost. The bridge may
answer whatever it likes.

What a crew does to the store is a history of strokes (`shared_after`), so that what holds of all of
these holds here. The invariant is `Crew.Sound`: every party takes care of what it writes
(`Careful`), and what its transaction has written obeys the law of its errand (`Staging.Obeys`).

Main statement: `Crew.sound_after`.
-/

namespace FirmwareRollout

/-! ### Parties -/

/-- What a party is about. -/
inductive Errand where
  /-- One cycle of a worker, at a time of its own. -/
  | cycle (w : Worker) (now : Instant)
  /-- The outcome of one device. -/
  | record (id : DeploymentId) (eui : DevEui) (outcome : Outcome) (message : String)

namespace Errand

/-- The program of an errand; its result is of no account. -/
def task : Errand → Task Unit
  | cycle w now => Program.bind (w.cycle now).run fun _ => .done ()
  | record id eui outcome message =>
    Program.bind (Worker.recordOutcome id eui outcome message).run fun _ => .done ()

/-- What an errand may make of the record of a rollout. -/
def law : Errand → Deployment → Deployment → Prop
  | cycle w now => w.machine.Moves now
  | record .. => fun _ _ => False

end Errand

/-- A party, and what is left of its program. -/
structure Party where
  errand : Errand
  rest : Task Unit

/-- What comes to a party from outside. -/
inductive Event where
  /-- Its call is carried out, as far as it can be at one stroke; an answer that is lost is an
  error. -/
  | carry (clock : Instant) (lost : Option Error)
  /-- Its call is refused. -/
  | refuse (error : Error)
  /-- The bridge answers. -/
  | answer (result : StepResult)

/-- The stroke that a call takes next, and what the call comes to if that is the last one. -/
def Session.request (x : Option Session) (s : Store) (clock : Instant) :
    (c : Call) → Option Act × Option c.Result
  | .begin => (some .begin, if x.isNone then some (.ok ()) else none)
  | .commit =>
    match x with
    | none => (none, some (.error (.internal "no transaction")))
    | some (.working _) => (some .publish, none)
    | some (.leaving _) => (some .leave, some (.ok ()))
  | .rollback =>
    match x with
    | none => (none, some (.error (.internal "no transaction")))
    | some _ => (some .leave, some (.ok ()))
  | c =>
    match x with
    | none => (none, some (.error (.internal "no transaction")))
    | some _ => (some (.call clock c), answer x s clock c)

/-- The stroke that a task takes next, and what is left of the task then. A commit that has
published can no longer be refused. -/
def Task.proceed (x : Option Session) (s : Store) : Event → Task Unit → Option Act × Task Unit
  | _, .step (.send _) resume => (none, resume ())
  | .answer result, .step (.receive _) resume => (none, resume result)
  | .refuse e, .step (.store c) resume =>
    match x with
    | some (.leaving _) => (none, .step (.store c) resume)
    | _ => (none, resume (.error e))
  | .carry clock lost, .step (.store c) resume =>
    match Session.request x s clock c with
    | (a, some r) => (a, resume (lost.elim r .error))
    | (a, none) => (a, .step (.store c) resume)
  | _, task => (none, task)

/-! ### Crews -/

/-- A turn: a new rollout, or what becomes of a party. -/
inductive Turn where
  | create (d : Deployment) (devices : List EnrolledDevice)
  /-- A party starts, unless there is one of that number. -/
  | start (tx : TxId) (errand : Errand)
  | go (tx : TxId) (e : Event)
  /-- A party goes away; its transaction, if it has one, is given up. -/
  | drop (tx : TxId)

/-- A shared store and the parties that work on it, each with the number of its transaction. -/
structure Crew where
  shared : Shared
  parties : Table TxId Party

namespace Crew

/-- A store that holds nothing, and nobody at work. -/
def empty : Crew := ⟨.empty, .empty⟩

/-- What the event does to the party `tx`, if there is one. -/
def proceed (c : Crew) (tx : TxId) (e : Event) : Option (Option Act × Party) :=
  (c.parties.find? tx).map fun p =>
    let (a, rest) := Task.proceed (c.shared.sessions.find? tx) c.shared.store e p.rest
    (a, { p with rest })

/-- The stroke of a turn, if it has one. -/
def stroke? (c : Crew) : Turn → Option Stroke
  | .create d devices => some (.create d devices)
  | .start .. => none
  | .go tx e => (c.proceed tx e).bind fun (a, _) => a.map (.act tx)
  | .drop tx => some (.act tx .leave)

/-- The parties after a turn. -/
def muster (c : Crew) : Turn → Table TxId Party
  | .create .. => c.parties
  | .start tx errand =>
    if c.parties.contains tx then c.parties else c.parties.insert tx ⟨errand, errand.task⟩
  | .go tx e =>
    match c.proceed tx e with
    | some (_, p) => c.parties.insert tx p
    | none => c.parties
  | .drop tx => c.parties.erase tx

/-- Carries out a turn. -/
def step (c : Crew) (m : Turn) : Crew := ⟨c.shared.run (c.stroke? m).toList, c.muster m⟩

/-- The crew that a history leads to. -/
def after : List Turn → Crew
  | [] => empty
  | m :: h => (after h).step m

/-- The strokes of a history. -/
def strokes : List Turn → List Stroke
  | [] => []
  | m :: h => ((after h).stroke? m).toList ++ strokes h

/-- **A crew leads the store through a history of strokes**. -/
theorem shared_after (h : List Turn) : (after h).shared = Shared.after (strokes h) := by
  induction h with
  | nil => rfl
  | cons m h ih =>
    show (after h).shared.run _ = Shared.empty.run _
    rw [strokes, Shared.run_append, ih]
    rfl

end Crew

/-! ### What a transaction has written -/

section Obeys

variable {law : Deployment → Deployment → Prop} {s s' : Store} {g : Staging} {t t' : Transaction}

/-- All that is written obeys the law: every record is what the law makes of the one that is stored,
and of a rollout that is over no device is left out. -/
def Staging.Obeys (law : Deployment → Deployment → Prop) (s : Store) (g : Staging) : Prop :=
  ∀ id d', g.deployments.find? id = some d' → ∃ d, s.get id = some d ∧ law d d' ∧
    (d'.progress.stage.isTerminal → g.Covers s id)

theorem Staging.Obeys.onward (h : g.Obeys law s) {kept : DeploymentId → Prop}
    (onward : s.Onward kept s') (keeps : ∀ id d, g.deployments.find? id = some d → kept id) :
    g.Obeys law s' := by
  intro id d' hd'
  obtain ⟨d, stored, allowed, covers⟩ := h id d' hd'
  exact ⟨d, (onward.get_eq (keeps id d' hd')).trans stored, allowed,
    fun finished => (covers finished).onward onward (Store.contains_of_get stored)⟩

/-- All that a transaction has written, what it has marked included, obeys the law. -/
structure Transaction.Obeys (law : Deployment → Deployment → Prop) (s : Store)
    (t : Transaction) : Prop where
  staging : t.staging.Obeys law s
  saved : ∀ g, t.saved = some g → g.Obeys law s

theorem Transaction.obeys_fresh : Transaction.fresh.Obeys law s where
  staging _ _ h := nomatch h
  saved _ h := nomatch h

theorem Transaction.Obeys.onward (h : t.Obeys law s) (ht : t.Confined)
    (onward : s.Onward (fun id => t.held.contains id) s') : t.Obeys law s' where
  staging := h.staging.onward onward fun _ _ => ht.staging.held
  saved g hg := (h.saved g hg).onward onward fun _ _ => (ht.saved g hg).held

/-- A call that writes nothing that it may not keeps the law. -/
theorem Transaction.Effect.obeys {c : Call} (effect : Effect s t c s' t') (h : t.Obeys law s)
    (permits : Permits law (some t) s c) : t'.Obeys law s' := by
  have still : s.Onward (fun _ => True) s' := .of_entries effect.entries
  have same : ∀ {g : Staging}, g.Obeys law s → g.Obeys law s' :=
    fun hg => hg.onward still fun _ _ _ => trivial
  cases effect with
  | nothing => exact h
  | lock ids free => exact ⟨same h.staging, fun g hg => same (h.saved g hg)⟩
  | write d clock free =>
    refine ⟨fun id d' hd' => ?_, fun g hg => same (h.saved g hg)⟩
    rcases Table.find?_insert_eq_some_iff.1 hd' with ⟨rfl, rfl⟩ | ⟨-, hd'⟩
    · obtain ⟨d₀, stored, allowed, covers⟩ := permits t d rfl rfl
      exact ⟨d₀, stored, allowed clock, covers⟩
    · exact same h.staging id d' hd'
  | stage id euis outcome terminal pending =>
    have more : ∀ k, t.staging.outcomes.contains k →
        (t.stageAll id euis outcome).staging.outcomes.contains k :=
      fun k hk => contains_outcomes_stageAll.2 (.inr hk)
    rw [stageAll_eq] at more ⊢
    refine ⟨fun id' d' hd' => ?_, h.saved⟩
    obtain ⟨d, stored, allowed, covers⟩ := h.staging id' d' hd'
    exact ⟨d, stored, allowed, fun finished => (covers finished).mono more⟩
  | mark => exact ⟨h.staging, fun g hg => Option.some.inj hg ▸ h.staging⟩
  | back g hg => exact ⟨h.saved g hg, nofun⟩
  | forget => exact ⟨h.staging, nofun⟩

end Obeys

/-! ### The invariant of a party -/

/-- **The invariant of a party** with its transaction, on a store: it takes care of what it is still
to write, and what it has written obeys the law of its errand. When it has published, nothing is
left to it but to leave. -/
def Party.Sound (p : Party) (s : Store) : Option Session → Prop
  | none => Careful p.errand.law (fun _ _ _ => True) p.rest none s
  | some (.working t) =>
    Careful p.errand.law (fun _ _ _ => True) p.rest (some t) s ∧ t.Obeys p.errand.law s
  | some (.leaving _) => ∃ resume, p.rest = .step (.store .commit) resume ∧
    ∀ r s', Careful p.errand.law (fun _ _ _ => True) (resume r) none s'

/-- The shared session and store after a party's stroke, if it makes one. -/
def Session.stroke (x : Option Session) (s : Store) : Option Act → Option Session × Store
  | some a => act x s a
  | none => (x, s)

namespace Party

variable {p : Party} {x : Option Session} {s s' : Store}

theorem sound_start (errand : Errand) (s : Store) : Party.Sound ⟨errand, errand.task⟩ s none := by
  cases errand with
  | cycle w now => exact (Worker.careful_cycle w now s).bind fun _ _ _ _ => trivial
  | record id eui outcome message =>
    exact (Worker.careful_recordOutcome id eui outcome message none s).bind fun _ _ _ _ => trivial

/-- Others do not disturb a party. -/
theorem Sound.onward (h : p.Sound s x) (hx : Session.Confined x)
    (onward : s.Onward (Session.Has x) s') : p.Sound s' x := by
  match x with
  | none => exact Careful.later (fun _ _ _ _ _ => trivial) h onward
  | some (.working t) =>
    refine ⟨Careful.later (fun _ _ _ _ _ => trivial) h.1 onward, h.2.onward (hx t rfl) ?_⟩
    exact onward.mono fun id hid => ⟨_, rfl, hid⟩
  | some (.leaving held) => exact h

/-- A call in the midst of a transaction, which is carried out at one stroke or has to wait. -/
theorem sound_call {errand : Errand} {c : Call} {resume : c.Result → Task Unit} {t : Transaction}
    (h : Party.Sound ⟨errand, .step (.store c) resume⟩ s (some (.working t))) (hs : s.Keyed)
    (ht : t.Confined) (clock : Instant) (lost : Option Error) (stays : c ≠ .commit ∧ c ≠ .rollback)
    (call : Session.request (some (.working t)) s clock c =
      (some (.call clock c), Session.answer (some (.working t)) s clock c)) :
    let (a, rest) := Task.proceed (some (.working t)) s (.carry clock lost) (.step (.store c) resume)
    Party.Sound ⟨errand, rest⟩ (Session.stroke (some (.working t)) s a).2
      (Session.stroke (some (.working t)) s a).1 := by
  obtain ⟨permits, careful⟩ := h.1 s (Later.refl (some t) s)
  simp only [Task.proceed, call, Session.answer]
  cases hperform : t.perform s clock c with
  | none =>
    simp only [Option.map_none, Session.stroke, Session.act, hperform]
    exact h
  | some result =>
    obtain ⟨r, s', left⟩ := result
    cases left with
    | none => exact ((t.ends_of_perform hperform).elim stays.1 stays.2).elim
    | some t' =>
      have effect := Transaction.perform_effect hs ht hperform
      simp only [Option.map_some, Session.stroke, Session.act, hperform]
      refine ⟨careful _ _ _ (.carried rfl hs ht hperform fun a ha => ?_), effect.obeys h.2 permits⟩
      cases lost with
      | none => exact ha
      | some e => cases ha

theorem sound_carry {errand : Errand} {c : Call} {resume : c.Result → Task Unit}
    (h : Party.Sound ⟨errand, .step (.store c) resume⟩ s x) (hs : s.Keyed)
    (hx : Session.Confined x) (clock : Instant) (lost : Option Error) :
    let (a, rest) := Task.proceed x s (.carry clock lost) (.step (.store c) resume)
    Party.Sound ⟨errand, rest⟩ (Session.stroke x s a).2 (Session.stroke x s a).1 := by
  match x with
  | none =>
    -- no call but the first can be carried out without a transaction
    have careful := (h s (Later.refl none s)).2
    cases c with
    | begin => exact ⟨careful _ _ _ (.opened _ rfl), Transaction.obeys_fresh⟩
    | _ => cases lost <;> exact careful _ _ _ (.refused _)
  | some (.leaving held) =>
    -- the call is the second part of a commit
    obtain ⟨resume', heq, careful⟩ := h
    cases heq
    exact careful _ _
  | some (.working t) =>
    have careful := (h.1 s (Later.refl (some t) s)).2
    cases c with
    | begin => exact h
    | commit => exact ⟨resume, rfl, fun r s' => careful r none s' (.ended r s' (.inl rfl))⟩
    | rollback => exact careful _ _ _ (.ended _ _ (.inr rfl))
    | _ => exact sound_call h hs (hx t rfl) clock lost (by simp) rfl

theorem Sound.proceed (h : p.Sound s x) (hs : s.Keyed) (hx : Session.Confined x) (e : Event) :
    let (a, rest) := Task.proceed x s e p.rest
    Party.Sound { p with rest } (Session.stroke x s a).2 (Session.stroke x s a).1 := by
  obtain ⟨errand, rest⟩ := p
  cases rest with
  | done a => cases e <;> exact h
  | step op resume =>
    cases op with
    | send q =>
      match x with
      | none => cases e <;> exact h
      | some (.working t) => cases e <;> exact h
      | some (.leaving held) => obtain ⟨_, heq, _⟩ := h; cases heq
    | receive q =>
      cases e with
      | answer result =>
        match x with
        | none => exact h result
        | some (.working t) => exact ⟨h.1 result, h.2⟩
        | some (.leaving held) => obtain ⟨_, heq, _⟩ := h; cases heq
      | _ => exact h
    | store c =>
      cases e with
      | answer result => exact h
      | refuse e =>
        match x with
        | none => exact (h s (Later.refl none s)).2 _ _ _ (.refused e)
        | some (.working t) => exact ⟨(h.1 s (Later.refl (some t) s)).2 _ _ _ (.refused e), h.2⟩
        | some (.leaving held) => exact h
      | carry clock lost => exact sound_carry h hs hx clock lost

end Party

/-! ### The invariant of a crew -/

namespace Crew

/-- **The invariant of a crew**: that of the shared store, and that of every party; nobody else has
a transaction. -/
structure Sound (c : Crew) : Prop where
  shared : c.shared.Sound
  party : ∀ {tx p}, c.parties.find? tx = some p →
    p.Sound c.shared.store (c.shared.sessions.find? tx)
  led : ∀ {tx x}, c.shared.sessions.find? tx = some x → c.parties.contains tx

variable {c : Crew} {tx : TxId} {p : Party}

theorem sound_empty : empty.Sound where
  shared := Shared.sound_empty
  party h := nomatch h
  led h := nomatch h

/-- A stroke that is not a party's own leaves its transaction as it is. -/
theorem find?_step_of_other (w : Shared) {k : Stroke} (other : ∀ a, k ≠ .act tx a) :
    (w.step k).sessions.find? tx = w.sessions.find? tx := by
  cases k with
  | create d devices => rfl
  | act tx' a =>
    have hne : tx' ≠ tx := fun h => other a (h ▸ rfl)
    rw [Shared.step, Shared.find?_put_of_ne _ hne]

/-- A stroke that is not a party's own leaves it sound. -/
theorem Sound.other (hc : c.Sound) (hp : c.parties.find? tx = some p) {k : Stroke}
    (other : ∀ a, k ≠ .act tx a) :
    p.Sound (c.shared.step k).store ((c.shared.step k).sessions.find? tx) := by
  rw [find?_step_of_other c.shared other]
  exact (hc.party hp).onward hc.shared.confined (hc.shared.onward_step other)

theorem run_stroke (w : Shared) (tx : TxId) (a : Option Act) :
    w.run (a.map (Stroke.act tx)).toList =
      w.put tx (Session.stroke (w.sessions.find? tx) w.store a) := by
  cases a with
  | none => exact (w.put_self tx).symm
  | some a => rfl

/-- Nothing happens in the turn of a party that is not there. -/
theorem step_go_of_absent (hp : c.parties.find? tx = none) (e : Event) : c.step (.go tx e) = c := by
  simp [step, stroke?, muster, proceed, hp, Shared.run]

/-- A party's turn is its own stroke, and goes on with its own program. -/
theorem step_go (hp : c.parties.find? tx = some p) {e : Event} {a : Option Act} {rest : Task Unit}
    (hgo : Task.proceed (c.shared.sessions.find? tx) c.shared.store e p.rest = (a, rest)) :
    c.step (.go tx e) =
      ⟨c.shared.run (a.map (Stroke.act tx)).toList, c.parties.insert tx { p with rest }⟩ := by
  simp [step, stroke?, muster, proceed, hp, hgo]

theorem Sound.go (hc : c.Sound) (tx : TxId) (e : Event) : (c.step (.go tx e)).Sound := by
  cases hp : c.parties.find? tx with
  | none =>
    rwa [step_go_of_absent hp]
  | some p =>
    have own := (hc.party hp).proceed hc.shared.keyed hc.shared.confined e
    generalize hgo : Task.proceed (c.shared.sessions.find? tx) c.shared.store e p.rest = go at own
    obtain ⟨a, rest⟩ := go
    rw [step_go hp hgo]
    refine ⟨?_, fun {tx' p'} hp' => ?_, fun {tx' x} hx => ?_⟩
    · cases a with
      | none => exact hc.shared
      | some a => exact hc.shared.step (.act tx a)
    · rcases Table.find?_insert_eq_some_iff.1 hp' with ⟨rfl, rfl⟩ | ⟨hne, old⟩
      · rw [run_stroke, Shared.store_put, Shared.find?_put_self]
        exact own
      · -- another party: what this one has done moves the store onward for it
        cases a with
        | none => exact hc.party old
        | some a => exact hc.other old fun a' h => hne (Stroke.act.inj h).1
    · refine Table.contains_insert.2 ?_
      by_cases hne : tx = tx'
      · exact .inl hne
      · rw [run_stroke, Shared.find?_put_of_ne _ hne] at hx
        exact .inr (hc.led hx)

theorem Sound.step (hc : c.Sound) (m : Turn) : (c.step m).Sound := by
  cases m with
  | go tx e => exact hc.go tx e
  | create d devices =>
    show Sound ⟨c.shared.step (.create d devices), c.parties⟩
    exact ⟨hc.shared.step (.create d devices), fun hp => hc.other hp (by simp), hc.led⟩
  | start tx errand =>
    show Sound ⟨c.shared, if _ then _ else _⟩
    split
    · exact hc
    · next absent =>
      refine ⟨hc.shared, fun {tx' p'} hp' => ?_, fun {tx' x} hx => ?_⟩
      · rcases Table.find?_insert_eq_some_iff.1 hp' with ⟨rfl, rfl⟩ | ⟨-, old⟩
        · cases hx : c.shared.sessions.find? tx with
          | none => exact hx ▸ Party.sound_start errand c.shared.store
          | some x => exact absurd (hc.led hx) absent
        · exact hc.party old
      · exact Table.contains_insert.2 (.inr (hc.led hx))
  | drop tx =>
    show Sound ⟨c.shared.step (.act tx .leave), c.parties.erase tx⟩
    refine ⟨hc.shared.step (.act tx .leave), fun {tx' p'} hp' => ?_, fun {tx' x} hx => ?_⟩
    · obtain ⟨hne, old⟩ := Table.find?_erase_eq_some_iff.1 hp'
      exact hc.other old fun a h => hne (Stroke.act.inj h).1
    · unfold Shared.step at hx
      by_cases hne : tx = tx'
      · subst hne
        rw [Shared.find?_put_self] at hx
        cases hsession : c.shared.sessions.find? tx <;> rw [hsession] at hx <;> cases hx
      · rw [Shared.find?_put_of_ne _ hne] at hx
        exact Table.contains_erase.2 ⟨fun h => hne h.symm, hc.led hx⟩

theorem sound_after (h : List Turn) : (after h).Sound := by
  induction h with
  | nil => exact sound_empty
  | cons m h ih => exact ih.step m

end Crew

end FirmwareRollout
