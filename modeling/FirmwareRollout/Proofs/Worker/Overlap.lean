import FirmwareRollout.Proofs.Worker.Crew
import FirmwareRollout.Proofs.Worker.Undisturbed

/-!
Cycles that overlap. A `Shift` is a cycle among others, with the answers that it gets from the
bridge. Shifts go on one call at a time, in any order (`Crew.work`), and nobody else does. Once all
of them have made their claims and none has begun to commit, it makes no difference in which order
they go on: each changes what it has claimed as it would alone, and nothing else.

Before that moment every shift is at one of the points of `Early`, or one has begun to commit
(`Over`), which it does not take back. After it every shift is at one of the points of `Late`, and
`Overlapping` is what all turns keep.

Main statement: `overlapping_cycles_commute`.
-/

namespace FirmwareRollout

/-- A cycle among others: the number of its transaction, its worker and its time, and the answers
that it gets. -/
structure Shift where
  tx : TxId
  worker : Worker
  now : Instant
  /-- The time that a request is given. -/
  timeout : Duration
  /-- What comes of each request. -/
  bridge : StepRequest → Attempt

namespace Shift

/-- What the cycle would meet if it were alone. -/
def alone (sh : Shift) : Surroundings := ⟨sh.tx, fun _ => sh.now, sh.timeout, sh.bridge⟩

/-- The step that the cycle makes of a rollout if it is alone. -/
def step (sh : Shift) (e : Entry) : Entry := sh.worker.stepEntry sh.now sh.alone e

/-- The event by which the cycle goes on: its call is carried out, or its request is answered. -/
def event (sh : Shift) (clock : Instant) : Task Unit → Event
  | .step (.receive q) _ => .answer (sh.alone.reply q)
  | _ => .carry clock none

end Shift

/-- Is a claim the next call? -/
def Task.claims {α : Type} : Task α → Bool
  | .step (.store (.claimDue ..)) _ => true
  | _ => false

namespace Crew

/-- The cycle starts, or goes on by one call or a part of one. -/
def move (c : Crew) (sh : Shift) (clock : Instant) : Crew :=
  match c.parties.find? sh.tx with
  | none => c.step (.start sh.tx (.cycle sh.worker sh.now))
  | some p => c.step (.go sh.tx (sh.event clock p.rest))

/-- Cycles go on in any order, the latest turn first, each turn with what the clock reads. -/
def work (c : Crew) : List (Shift × Instant) → Crew
  | [] => c
  | (sh, clock) :: turns => (c.work turns).move sh clock

/-- The cycle has made its claim and has not begun to commit. -/
def amid (c : Crew) (sh : Shift) : Bool :=
  match c.parties.find? sh.tx, c.shared.sessions.find? sh.tx with
  | some p, some (.working _) => !Task.claims p.rest
  | _, _ => false

/-- The cycle has come to its end. -/
def finished (c : Crew) (sh : Shift) : Bool :=
  (c.parties.find? sh.tx).any fun p => p.rest.result?.isSome

/-- All that is stored of a rollout. -/
def row? (c : Crew) (id : DeploymentId) : Option Entry := c.shared.store.entries.find? id

/-! ### One turn -/

variable {c : Crew} {sh : Shift} {tx : TxId} {clock : Instant} {p : Party}

theorem sound_move (hc : c.Sound) (sh : Shift) (clock : Instant) : (c.move sh clock).Sound := by
  unfold move
  split <;> exact hc.step _

theorem sound_work (hc : c.Sound) (turns : List (Shift × Instant)) : (c.work turns).Sound := by
  induction turns with
  | nil => exact hc
  | cons turn turns ih => exact sound_move ih turn.1 turn.2

theorem work_append (c : Crew) (earlier later : List (Shift × Instant)) :
    c.work (later ++ earlier) = (c.work earlier).work later := by
  induction later with
  | nil => rfl
  | cons turn later ih => exact congrArg (fun c : Crew => c.move turn.1 turn.2) ih

/-- The turn of a cycle is its stroke, and goes on with its task. -/
theorem move_eq (hp : c.parties.find? sh.tx = some p) {a : Option Act} {rest : Task Unit}
    (hgo : Task.proceed (c.shared.sessions.find? sh.tx) c.shared.store (sh.event clock p.rest)
      p.rest = (a, rest)) :
    c.move sh clock = ⟨c.shared.put sh.tx
      (Session.stroke (c.shared.sessions.find? sh.tx) c.shared.store a),
      c.parties.insert sh.tx { p with rest }⟩ := by
  rw [move, hp]
  exact (step_go hp hgo).trans (by rw [run_stroke])

/-- What the turn of a cycle leaves of its party and its transaction, and the store. -/
theorem move_of_proceed (clock : Instant) (hp : c.parties.find? sh.tx = some p)
    {x : Option Session} (hx : c.shared.sessions.find? sh.tx = x) {a : Option Act} {rest : Task Unit}
    (hgo : Task.proceed x c.shared.store (sh.event clock p.rest) p.rest = (a, rest)) :
    (c.move sh clock).parties.find? sh.tx = some { p with rest } ∧
      (c.move sh clock).shared.sessions.find? sh.tx = (Session.stroke x c.shared.store a).1 ∧
      (c.move sh clock).shared.store = (Session.stroke x c.shared.store a).2 := by
  subst hx
  rw [move_eq hp hgo]
  exact ⟨Table.find?_insert_self _ _ _, Shared.find?_put_self _ _ _ _, Shared.store_put _ _ _ _⟩

/-- The turn of a cycle that is not there yet: it starts. -/
theorem move_of_absent (absent : c.parties.find? sh.tx = none) :
    c.move sh clock = ⟨c.shared, c.parties.insert sh.tx
      ⟨.cycle sh.worker sh.now, Errand.task (.cycle sh.worker sh.now)⟩⟩ := by
  rw [move, absent]
  show Crew.mk c.shared (if c.parties.contains sh.tx then c.parties else _) = _
  rw [if_neg (by simp [Table.contains_eq_false_iff.2 absent])]

/-- The turn of a cycle leaves the others where they are. -/
theorem move_of_ne (c : Crew) (clock : Instant) (hne : sh.tx ≠ tx) :
    (c.move sh clock).parties.find? tx = c.parties.find? tx ∧
      (c.move sh clock).shared.sessions.find? tx = c.shared.sessions.find? tx := by
  cases hp : c.parties.find? sh.tx with
  | none =>
    rw [move_of_absent hp]
    exact ⟨Table.find?_insert_of_ne _ _ hne, rfl⟩
  | some p =>
    rw [move_eq hp rfl]
    exact ⟨Table.find?_insert_of_ne _ _ hne, Shared.find?_put_of_ne _ hne _ _⟩

end Crew

/-! ### Where a cycle stands -/

section Standing

variable {c : Crew} {sh : Shift} {entries : Table DeploymentId Entry} {ids : List DeploymentId}
  {id : DeploymentId} {rest : Task Unit} {t t' : Transaction} {p : Party} {clock : Instant}

/-- The cycle has claimed the rollouts `ids` and is on its way to write its steps of them. -/
structure Underway (entries : Table DeploymentId Entry) (sh : Shift) (ids : List DeploymentId)
    (rest : Task Unit) (t : Transaction) : Prop where
  held : t.held = (Transaction.holding ids).held
  going : Undisturbed (Near entries ids) sh.alone.reply (AtCommit (Wrote entries sh.step ids)) rest t

theorem Underway.holds (h : Underway entries sh ids rest t) : t.held.contains id ↔ id ∈ ids := by
  rw [h.held]
  exact (IdSet.contains_addAll _ _ _).trans (by simp)

/-- A call that is carried out in the midst of a transaction is its next stroke. -/
theorem proceed_call {s : Store} {c : Call} {resume : c.Result → Task Unit} {r : c.Result}
    (begun : c ≠ .begin) (h : t.perform s clock c = some (r, s, some t')) :
    Task.proceed (some (.working t)) s (.carry clock none) (.step (.store c) resume) =
      (some (.call clock c), resume r) := by
  have request : Session.request (some (.working t)) s clock c = (some (.call clock c), some r) := by
    cases c with
    | begin => exact absurd rfl begun
    | commit | rollback => simp [Transaction.perform] at h
    | _ => simp only [Session.request, Session.answer, h, Option.map_some]
  simp only [Task.proceed, request, Option.elim]

/-- A cycle that is under way goes on, or begins to commit. -/
theorem Underway.move (h : Underway entries sh ids p.rest t)
    (hp : c.parties.find? sh.tx = some p) (ht : c.shared.sessions.find? sh.tx = some (.working t))
    (near : Near entries ids c.shared.store) (clock : Instant) :
    (∃ p' t', (c.move sh clock).parties.find? sh.tx = some p' ∧
      (c.move sh clock).shared.sessions.find? sh.tx = some (.working t') ∧
      Underway entries sh ids p'.rest t' ∧ (c.move sh clock).shared.store = c.shared.store) ∨
    AtCommit (Wrote entries sh.step ids) p.rest t ∧
      (c.move sh clock).parties.find? sh.tx = some p ∧
      (c.move sh clock).shared.sessions.find? sh.tx = some (.leaving t.held) ∧
      (c.move sh clock).shared.store = t.publish c.shared.store := by
  obtain ⟨errand, rest⟩ := p
  obtain ⟨held, going⟩ := h
  cases going with
  | here atCommit =>
    obtain ⟨-, resume, rfl, -⟩ := id atCommit
    exact .inr ⟨atCommit, Crew.move_of_proceed _ hp ht (a := some .publish) rfl⟩
  | @call c' resume _ begun stays next =>
    obtain ⟨r, t', hperform, kept⟩ := stays c.shared.store clock near
    obtain ⟨hp', ht', hs⟩ := Crew.move_of_proceed _ hp ht (proceed_call begun hperform)
    simp only [Session.stroke, Session.act, hperform] at ht' hs
    exact .inl ⟨_, t', hp', ht', ⟨kept.trans held, next _ _ _ _ near hperform⟩, hs⟩
  | send next =>
    obtain ⟨hp', ht', hs⟩ := Crew.move_of_proceed clock hp ht (a := none) rfl
    exact .inl ⟨_, t, hp', ht', ⟨held, next⟩, hs⟩
  | receive next =>
    obtain ⟨hp', ht', hs⟩ := Crew.move_of_proceed clock hp ht (a := none) rfl
    exact .inl ⟨_, t, hp', ht', ⟨held, next⟩, hs⟩

theorem Underway.near (h : Underway entries sh ids rest t) (hc : c.Sound)
    (ht : c.shared.sessions.find? sh.tx = some (.working t))
    (same : ∀ id ∈ ids, c.row? id = entries.find? id) : Near entries ids c.shared.store where
  same := same
  locked _ hid := hc.shared.locked_iff.2 ⟨sh.tx, .working t, ht, h.holds.2 hid⟩

theorem Underway.congr {entries' : Table DeploymentId Entry} (h : Underway entries sh ids rest t)
    (same : ∀ id ∈ ids, entries'.find? id = entries.find? id) : Underway entries' sh ids rest t where
  held := h.held
  going := by
    refine h.going.imp (fun s near => ⟨fun id hid => ?_, near.locked⟩) fun task t ⟨wrote, next⟩ =>
      ⟨⟨fun id hid e he => ?_, wrote.others⟩, next⟩
    · exact (near.same id hid).trans (same id hid)
    · exact wrote.own id hid e ((same id hid).symm.trans he)

/-- Of other rollouts nothing is published. -/
theorem Wrote.find?_publish_of_not_mem {step : Entry → Entry} {s : Store}
    (h : Wrote entries step ids t) (hid : id ∉ ids) :
    (t.publish s).entries.find? id = s.entries.find? id := by
  rw [Transaction.publish, Table.find?_map]
  cases he : s.entries.find? id with
  | none => rfl
  | some e => exact congrArg some (h.others id hid e)

/-- Of its batch the steps are published, stamps aside. -/
theorem Wrote.find?_publish {step : Entry → Entry} {s : Store} (h : Wrote entries step ids t)
    (hid : id ∈ ids) (same : s.entries.find? id = entries.find? id) :
    ((t.publish s).entries.find? id).map Entry.unstamped =
      (entries.find? id).map fun e => (step e).unstamped := by
  rw [Transaction.publish, Table.find?_map, same]
  cases he : entries.find? id with
  | none => rfl
  | some e => exact congrArg some (h.own id hid e he)

/-- The cycle has begun to commit, and does nothing else any more. -/
inductive Over : Option Party → Option Session → Prop where
  | leaving {p : Party} {held : IdSet} {resume : Call.Result .commit → Task Unit}
    (rest : p.rest = .step (.store .commit) resume) (ends : resume (.ok ()) = .done ()) :
    Over (some p) (some (.leaving held))
  | finished {p : Party} (rest : p.rest = .done ()) : Over (some p) none

/-- What has begun to commit comes to its end, and stores nothing more. -/
theorem Over.move (h : Over (c.parties.find? sh.tx) (c.shared.sessions.find? sh.tx))
    (clock : Instant) :
    Over ((c.move sh clock).parties.find? sh.tx) ((c.move sh clock).shared.sessions.find? sh.tx) ∧
      (c.move sh clock).shared.store.entries = c.shared.store.entries := by
  generalize hp : c.parties.find? sh.tx = p? at h
  generalize hx : c.shared.sessions.find? sh.tx = x? at h
  cases h with
  | @leaving p held resume rest ends =>
    have go : Task.proceed (some (.leaving held)) c.shared.store (sh.event clock p.rest) p.rest =
        (some .leave, .done ()) := by
      rw [rest, ← ends]
      rfl
    obtain ⟨hp', hx', hs⟩ := Crew.move_of_proceed _ hp hx go
    rw [hp', hx', hs]
    exact ⟨.finished rfl, rfl⟩
  | @finished p rest =>
    have go : Task.proceed none c.shared.store (sh.event clock p.rest) p.rest = (none, .done ()) := by
      rw [rest]
      rfl
    obtain ⟨hp', hx', hs⟩ := Crew.move_of_proceed _ hp hx go
    rw [hp', hx', hs]
    exact ⟨.finished rfl, rfl⟩

/-- Where a cycle can stand among others: before its claim, between its claim and its commit, when
what it has claimed is stored as it was claimed, or after that. -/
inductive Stands (sh : Shift) (s : Store) : Option Party → Option Session → Prop where
  | absent : Stands sh s none none
  | opening {p : Party} {resume : Call.Result .begin → Task Unit}
    (rest : p.rest = .step (.store .begin) resume)
    (next : AtClaim sh.worker sh.now sh.alone (resume (.ok ()))) : Stands sh s (some p) none
  | claiming {p : Party} (next : AtClaim sh.worker sh.now sh.alone p.rest) :
    Stands sh s (some p) (some (.working .fresh))
  | amid {p : Party} {t : Transaction} {s₀ : Store} {es : List Entry}
    (batch : Batch sh.worker s₀ sh.now es)
    (same : ∀ id ∈ es.map Entry.id, s.entries.find? id = s₀.entries.find? id)
    (underway : Underway s₀.entries sh (es.map Entry.id) p.rest t) :
    Stands sh s (some p) (some (.working t))
  | gone {p? : Option Party} {x? : Option Session} (h : Over p? x?) : Stands sh s p? x?

/-- What others store of other rollouts is no matter to a cycle. -/
theorem Stands.congr {s s' : Store} {p? : Option Party} {x? : Option Session}
    (h : Stands sh s p? x?)
    (same : ∀ id, Session.Has x? id → s'.entries.find? id = s.entries.find? id) :
    Stands sh s' p? x? := by
  cases h with
  | absent => exact .absent
  | opening rest next => exact .opening rest next
  | claiming next => exact .claiming next
  | amid batch stored underway =>
    refine .amid batch (fun id hid => ?_) underway
    exact (same id ⟨_, rfl, underway.holds.2 hid⟩).trans (stored id hid)
  | gone h => exact .gone h

/-- **A turn of a cycle** changes nothing that is stored but of what it holds. -/
theorem Stands.move (h : Stands sh c.shared.store (c.parties.find? sh.tx)
    (c.shared.sessions.find? sh.tx)) (hc : c.Sound) (clock : Instant) :
    Stands sh (c.move sh clock).shared.store ((c.move sh clock).parties.find? sh.tx)
      ((c.move sh clock).shared.sessions.find? sh.tx) ∧
    ∀ id, ¬ c.shared.Holds sh.tx id → (c.move sh clock).row? id = c.row? id := by
  unfold Shared.Holds Crew.row?
  generalize hp : c.parties.find? sh.tx = p? at h
  generalize hx : c.shared.sessions.find? sh.tx = x? at h
  cases h with
  | absent =>
    obtain ⟨resume, rest, next⟩ := undisturbed_cycle sh.worker sh.now sh.alone
    rw [Crew.move_of_absent hp, Table.find?_insert_self, hx]
    exact ⟨.opening rest next, fun _ _ => rfl⟩
  | @opening p resume rest next =>
    have go : Task.proceed none c.shared.store (sh.event clock p.rest) p.rest =
        (some .begin, resume (.ok ())) := by
      rw [rest]
      rfl
    obtain ⟨hp', hx', hs⟩ := Crew.move_of_proceed _ hp hx go
    rw [hp', hx', hs]
    exact ⟨.claiming next, fun _ _ => rfl⟩
  | @claiming p next =>
    obtain ⟨resume, rest, next⟩ := next
    obtain ⟨es, batch⟩ := exists_batch hc.shared.keyed sh.worker sh.now
    have claim := perform_claimDue sh.worker c.shared.store sh.now clock
    have go : Task.proceed (some (.working .fresh)) c.shared.store (sh.event clock p.rest) p.rest =
        (some (.call clock (.claimDue sh.worker.batchSize sh.now)),
          resume (.ok (sh.worker.claims c.shared.store sh.now))) := by
      rw [rest]
      show Task.proceed _ _ (.carry clock none) _ = _
      simp only [Task.proceed, Session.request, Session.answer, claim, Option.map_some, Option.elim]
    obtain ⟨hp', hx', hs⟩ := Crew.move_of_proceed _ hp hx go
    simp only [Session.stroke, Session.act, claim] at hx' hs
    rw [← batch.ids] at hx'
    rw [hp', hx', hs]
    exact ⟨.amid batch (fun _ _ => rfl) ⟨rfl, next _ es hc.shared.keyed batch⟩, fun _ _ => rfl⟩
  | @amid p t s₀ es batch same underway =>
    rcases underway.move hp hx (underway.near hc hx same) clock with
      ⟨p', t', hp', hx', underway', hs⟩ | ⟨⟨wrote, resume, rest, ends⟩, hp', hx', hs⟩
    · rw [hp', hx', hs]
      exact ⟨.amid batch same underway', fun _ _ => rfl⟩
    · rw [hp', hx', hs]
      refine ⟨.gone (.leaving rest ends), fun id hid => wrote.find?_publish_of_not_mem fun hmem => ?_⟩
      exact hid ⟨_, rfl, underway.holds.2 hmem⟩
  | gone h =>
    subst hp hx
    obtain ⟨h', hs⟩ := h.move clock
    rw [hs]
    exact ⟨.gone h', fun _ _ => rfl⟩

/-- The rollouts `ids` have made the steps of the cycle, stamps aside. -/
def Stepped (entries : Table DeploymentId Entry) (sh : Shift) (ids : List DeploymentId)
    (s : Store) : Prop :=
  ∀ id ∈ ids, (s.entries.find? id).map Entry.unstamped =
    (entries.find? id).map fun e => (sh.step e).unstamped

/-- Where a cycle that has claimed the rollouts `ids` can stand when all have made their claims. -/
inductive Late (entries : Table DeploymentId Entry) (sh : Shift) (ids : List DeploymentId)
    (s : Store) : Option Party → Option Session → Prop where
  | amid {p : Party} {t : Transaction} (underway : Underway entries sh ids p.rest t)
    (same : ∀ id ∈ ids, s.entries.find? id = entries.find? id) :
    Late entries sh ids s (some p) (some (.working t))
  | gone {p? : Option Party} {x? : Option Session} (h : Over p? x?)
    (stepped : Stepped entries sh ids s) : Late entries sh ids s p? x?

/-- What others store is no matter to a cycle. -/
theorem Late.congr {s s' : Store} {p? : Option Party} {x? : Option Session}
    (h : Late entries sh ids s p? x?)
    (same : ∀ id ∈ ids, s'.entries.find? id = s.entries.find? id) :
    Late entries sh ids s' p? x? := by
  cases h with
  | amid underway stored => exact .amid underway fun id hid => (same id hid).trans (stored id hid)
  | gone h stepped =>
    refine .gone h fun id hid => ?_
    rw [same id hid]
    exact stepped id hid

/-- **A turn of a cycle** stores its steps of what it has claimed, or nothing. -/
theorem Late.move (h : Late entries sh ids c.shared.store (c.parties.find? sh.tx)
    (c.shared.sessions.find? sh.tx)) (hc : c.Sound) (clock : Instant) :
    Late entries sh ids (c.move sh clock).shared.store ((c.move sh clock).parties.find? sh.tx)
      ((c.move sh clock).shared.sessions.find? sh.tx) ∧
      ∀ id, id ∉ ids → (c.move sh clock).row? id = c.row? id := by
  generalize hp : c.parties.find? sh.tx = p? at h
  generalize hx : c.shared.sessions.find? sh.tx = x? at h
  cases h with
  | @amid p t underway same =>
    rcases underway.move hp hx (underway.near hc hx same) clock with
      ⟨p', t', hp', hx', underway', hs⟩ | ⟨⟨wrote, resume, rest, ends⟩, hp', hx', hs⟩
    · unfold Crew.row?
      rw [hp', hx', hs]
      exact ⟨.amid underway' same, fun _ _ => rfl⟩
    · unfold Crew.row?
      rw [hp', hx', hs]
      exact ⟨.gone (.leaving rest ends) fun id hid => wrote.find?_publish hid (same id hid),
        fun id hid => wrote.find?_publish_of_not_mem hid⟩
  | gone h stepped =>
    subst hp hx
    obtain ⟨h', hs⟩ := h.move clock
    unfold Crew.row?
    rw [hs]
    refine ⟨.gone h' fun id hid => ?_, fun _ _ => rfl⟩
    rw [hs]
    exact stepped id hid

end Standing

/-! ### Turns in any order -/

section Turns

variable {base c : Crew} {shifts : List Shift} {sh : Shift} {turns : List (Shift × Instant)}
  {lot : Shift → List DeploymentId} {tx : TxId}

/-- No two cycles have the same number. -/
def Distinct (shifts : List Shift) : Prop :=
  ∀ sh ∈ shifts, ∀ sh' ∈ shifts, sh.tx = sh'.tx → sh = sh'

/-- Who is not there has no transaction. -/
theorem Crew.Sound.session_of_absent (hc : c.Sound) (absent : c.parties.find? tx = none) :
    c.shared.sessions.find? tx = none := by
  cases hx : c.shared.sessions.find? tx with
  | none => rfl
  | some x =>
    have led := hc.led hx
    rw [Table.contains_eq_false_iff.2 absent] at led
    cases led

/-- The turns are all of these cycles. -/
def TurnsOf (shifts : List Shift) (turns : List (Shift × Instant)) : Prop :=
  ∀ turn ∈ turns, turn.1 ∈ shifts

/-- Cycles leave the transactions of others where they are. -/
theorem Crew.work_of_ne (c : Crew) (turns : List (Shift × Instant))
    (other : ∀ turn ∈ turns, turn.1.tx ≠ tx) :
    (c.work turns).parties.find? tx = c.parties.find? tx ∧
      (c.work turns).shared.sessions.find? tx = c.shared.sessions.find? tx := by
  induction turns with
  | nil => exact ⟨rfl, rfl⟩
  | cons turn turns ih =>
    obtain ⟨first, rest⟩ := List.forall_mem_cons.1 other
    obtain ⟨parties, sessions⟩ := Crew.move_of_ne (c.work turns) turn.2 first
    exact ⟨parties.trans (ih rest).1, sessions.trans (ih rest).2⟩

/-- **Whatever turns cycles have taken**, each stands where it can stand. -/
theorem stands_work (sound : base.Sound) (distinct : Distinct shifts)
    (new : ∀ sh ∈ shifts, base.parties.find? sh.tx = none) (own : TurnsOf shifts turns)
    (hsh : sh ∈ shifts) : Stands sh (base.work turns).shared.store
      ((base.work turns).parties.find? sh.tx) ((base.work turns).shared.sessions.find? sh.tx) := by
  induction turns generalizing sh with
  | nil =>
    rw [Crew.work, new sh hsh, sound.session_of_absent (new sh hsh)]
    exact .absent
  | cons turn turns ih =>
    obtain ⟨sh', clock⟩ := turn
    obtain ⟨hsh', own⟩ := List.forall_mem_cons.1 own
    have reached : (base.work turns).Sound := Crew.sound_work sound turns
    obtain ⟨moved, kept⟩ := (ih own hsh').move reached clock
    by_cases hne : sh'.tx = sh.tx
    · obtain rfl := distinct sh' hsh' sh hsh hne
      exact moved
    · obtain ⟨parties, sessions⟩ := Crew.move_of_ne (base.work turns) clock hne
      rw [Crew.work, parties, sessions]
      -- what this cycle holds the other one does not
      exact (ih own hsh).congr fun id hid => kept id fun hid' =>
        hne (reached.shared.exclusive hid' hid)

/-- **What all turns of some cycles keep** that have claimed their lots in `base`: each is on its way
or has made its steps, and nothing else is stored. -/
structure Overlapping (base : Crew) (shifts : List Shift) (lot : Shift → List DeploymentId)
    (c : Crew) : Prop where
  sound : c.Sound
  late : ∀ sh ∈ shifts, Late base.shared.store.entries sh (lot sh) c.shared.store
    (c.parties.find? sh.tx) (c.shared.sessions.find? sh.tx)
  others : ∀ id, (∀ sh ∈ shifts, id ∉ lot sh) → c.row? id = base.row? id

theorem Overlapping.move (h : Overlapping base shifts lot c) (distinct : Distinct shifts)
    (apart : ∀ sh ∈ shifts, ∀ sh' ∈ shifts, ∀ id ∈ lot sh, id ∈ lot sh' → sh = sh')
    (hsh : sh ∈ shifts) (clock : Instant) : Overlapping base shifts lot (c.move sh clock) := by
  obtain ⟨moved, kept⟩ := (h.late sh hsh).move h.sound clock
  refine ⟨Crew.sound_move h.sound sh clock, fun sh' hsh' => ?_, fun id hid => ?_⟩
  · by_cases hne : sh = sh'
    · exact hne ▸ moved
    · obtain ⟨parties, sessions⟩ := Crew.move_of_ne c clock
        fun heq => hne (distinct sh hsh sh' hsh' heq)
      rw [parties, sessions]
      exact (h.late sh' hsh').congr fun id hid =>
        kept id fun hid' => hne (apart sh hsh sh' hsh' id hid' hid)
  · exact (kept id (hid sh hsh)).trans (h.others id hid)

theorem Overlapping.work (h : Overlapping base shifts lot c) (distinct : Distinct shifts)
    (apart : ∀ sh ∈ shifts, ∀ sh' ∈ shifts, ∀ id ∈ lot sh, id ∈ lot sh' → sh = sh')
    (own : TurnsOf shifts turns) : Overlapping base shifts lot (c.work turns) := by
  induction turns with
  | nil => exact h
  | cons turn turns ih =>
    obtain ⟨hsh, own⟩ := List.forall_mem_cons.1 own
    exact (ih own).move distinct apart hsh turn.2

/-! ### Coming to the end -/

theorem Crew.work_replicate (c : Crew) (n : Nat) (turn : Shift × Instant) :
    c.work (List.replicate (n + 1) turn) =
      (c.move turn.1 turn.2).work (List.replicate n turn) := by
  rw [List.replicate_succ', Crew.work_append]
  rfl

/-- If a cycle comes to its end after one more turn, it comes to its end. -/
theorem exists_finish_of_move {clock : Instant}
    (h : ∃ n, ((c.move sh clock).work (List.replicate n (sh, clock))).finished sh) :
    ∃ n, (c.work (List.replicate n (sh, clock))).finished sh := by
  obtain ⟨n, finished⟩ := h
  exact ⟨n + 1, Crew.work_replicate c n (sh, clock) ▸ finished⟩

theorem finished_of_rest {p : Party} (hp : c.parties.find? sh.tx = some p)
    (rest : p.rest = .done ()) : c.finished sh := by
  simp [Crew.finished, hp, rest, Program.result?]

theorem Over.exists_finish (h : Over (c.parties.find? sh.tx) (c.shared.sessions.find? sh.tx))
    (clock : Instant) : ∃ n, (c.work (List.replicate n (sh, clock))).finished sh := by
  generalize hp : c.parties.find? sh.tx = p? at h
  generalize hx : c.shared.sessions.find? sh.tx = x? at h
  cases h with
  | @leaving p held resume rest ends =>
    have go : Task.proceed (some (.leaving held)) c.shared.store (sh.event clock p.rest) p.rest =
        (some .leave, .done ()) := by
      rw [rest, ← ends]
      rfl
    exact exists_finish_of_move ⟨0, finished_of_rest (Crew.move_of_proceed _ hp hx go).1 rfl⟩
  | finished rest => exact ⟨0, finished_of_rest hp rest⟩

/-- **A cycle that is under way comes to its end** by turns of its own. -/
theorem Undisturbed.exists_finish {entries : Table DeploymentId Entry} {ids : List DeploymentId}
    {good : Transaction → Prop} {task : Task Unit} {t : Transaction}
    (h : Undisturbed (Near entries ids) sh.alone.reply (AtCommit good) task t) {p : Party}
    (hp : c.parties.find? sh.tx = some p) (rest : p.rest = task)
    (ht : c.shared.sessions.find? sh.tx = some (.working t))
    (near : Near entries ids c.shared.store) (clock : Instant) :
    ∃ n, (c.work (List.replicate n (sh, clock))).finished sh := by
  subst rest
  generalize htask : p.rest = task at h
  induction h generalizing c p with
  | @here task t atCommit =>
    obtain ⟨-, resume, rfl, ends⟩ := atCommit
    have go : Task.proceed (some (.working t)) c.shared.store (sh.event clock p.rest) p.rest =
        (some .publish, p.rest) := by
      rw [htask]
      rfl
    obtain ⟨hp', hx', -⟩ := Crew.move_of_proceed _ hp ht go
    refine exists_finish_of_move (Over.exists_finish ?_ clock)
    rw [hp', hx']
    exact .leaving htask ends
  | @call c' resume t begun stays _ ih =>
    obtain ⟨r, t', hperform, -⟩ := stays c.shared.store clock near
    have go : Task.proceed (some (.working t)) c.shared.store (sh.event clock p.rest) p.rest =
        (some (.call clock c'), resume r) := by
      rw [htask]
      exact proceed_call begun hperform
    obtain ⟨hp', hx', hs⟩ := Crew.move_of_proceed _ hp ht go
    simp only [Session.stroke, Session.act, hperform] at hx' hs
    exact exists_finish_of_move (ih _ _ _ _ near hperform hp' hx' (hs ▸ near) rfl)
  | @send q resume t _ ih =>
    have go : Task.proceed (some (.working t)) c.shared.store (sh.event clock p.rest) p.rest =
        (none, resume ()) := by
      rw [htask]
      rfl
    obtain ⟨hp', hx', hs⟩ := Crew.move_of_proceed _ hp ht go
    exact exists_finish_of_move (ih hp' hx' (hs ▸ near) rfl)
  | @receive q resume t _ ih =>
    have go : Task.proceed (some (.working t)) c.shared.store (sh.event clock p.rest) p.rest =
        (none, resume (sh.alone.reply q)) := by
      rw [htask]
      rfl
    obtain ⟨hp', hx', hs⟩ := Crew.move_of_proceed _ hp ht go
    exact exists_finish_of_move (ih hp' hx' (hs ▸ near) rfl)

/-- A cycle that has claimed its lot comes to its end by turns of its own. -/
theorem Overlapping.exists_finish (h : Overlapping base shifts lot c) (hsh : sh ∈ shifts)
    (clock : Instant) : ∃ n, (c.work (List.replicate n (sh, clock))).finished sh := by
  have late := h.late sh hsh
  generalize hp : c.parties.find? sh.tx = p? at late
  generalize hx : c.shared.sessions.find? sh.tx = x? at late
  cases late with
  | amid underway same =>
    exact underway.going.exists_finish hp rfl hx (underway.near h.sound hx same) clock
  | gone h' _ =>
    subst hp hx
    exact h'.exists_finish clock

/-- Who is under way has a call before it. -/
theorem Undisturbed.unfinished {near : Store → Prop} {reply : StepRequest → StepResult}
    {good : Transaction → Prop} {task : Task Unit} {t : Transaction}
    (h : Undisturbed near reply (AtCommit good) task t) : task.result? = none := by
  cases h with
  | here atCommit =>
    obtain ⟨-, resume, rfl, -⟩ := atCommit
    rfl
  | _ => rfl

/-- A cycle that has come to its end has no transaction, and its rollouts have made its steps. -/
theorem Overlapping.of_finished (h : Overlapping base shifts lot c) (hsh : sh ∈ shifts)
    (finished : c.finished sh) : c.shared.sessions.find? sh.tx = none ∧
      Stepped base.shared.store.entries sh (lot sh) c.shared.store := by
  have late := h.late sh hsh
  unfold Crew.finished at finished
  generalize c.parties.find? sh.tx = p? at late finished
  generalize c.shared.sessions.find? sh.tx = x? at late
  cases late with
  | amid underway same => simp [underway.going.unfinished] at finished
  | gone h' stepped =>
    cases h' with
    | leaving rest ends => simp [rest, Program.result?] at finished
    | finished rest => exact ⟨rfl, stepped⟩

/-! ### Between claim and commit -/

/-- A cycle that is amid holds its batch as it has claimed it, and is on its way to write its steps
of it. -/
theorem Stands.of_amid (h : Stands sh c.shared.store (c.parties.find? sh.tx)
    (c.shared.sessions.find? sh.tx)) (amid : c.amid sh) :
    ∃ s es p t, Batch sh.worker s sh.now es ∧
      (∀ id ∈ es.map Entry.id, c.row? id = s.entries.find? id) ∧
      c.parties.find? sh.tx = some p ∧ c.shared.sessions.find? sh.tx = some (.working t) ∧
      Underway c.shared.store.entries sh (es.map Entry.id) p.rest t := by
  unfold Crew.amid at amid
  generalize c.parties.find? sh.tx = p? at h amid
  generalize c.shared.sessions.find? sh.tx = x? at h amid
  cases h with
  | absent => cases amid
  | opening => cases amid
  | claiming next =>
    obtain ⟨resume, rest, -⟩ := next
    simp [rest, Task.claims] at amid
  | amid batch same underway => exact ⟨_, _, _, _, batch, same, rfl, rfl, underway.congr same⟩
  | gone h => cases h <;> cases amid

end Turns

/-- What some cycles leave of what there is in `m`, where they are amid: every rollout that one of
them holds has made the step that this cycle makes of it alone, stamps aside; all others are as
before, and what these cycles have locked is free. -/
structure AsAlone (m : Crew) (shifts : List Shift) (c : Crew) : Prop where
  held : ∀ sh ∈ shifts, ∀ id, m.shared.Holds sh.tx id →
    (c.row? id).map Entry.unstamped = (m.row? id).map fun e => (sh.step e).unstamped
  others : ∀ id, (∀ sh ∈ shifts, ¬ m.shared.Holds sh.tx id) → c.row? id = m.row? id
  locked : ∀ id, c.shared.store.locked.contains id ↔
    m.shared.store.locked.contains id ∧ ∀ sh ∈ shifts, ¬ m.shared.Holds sh.tx id

section AsAlone

variable {m c c' : Crew} {shifts : List Shift} {lot : Shift → List DeploymentId}

/-- There is one such outcome, stamps aside. -/
theorem AsAlone.unique (h : AsAlone m shifts c) (h' : AsAlone m shifts c') :
    c'.shared.store.unstamped = c.shared.store.unstamped := by
  have entries : (c'.shared.store.entries.map fun _ e => e.unstamped) =
      c.shared.store.entries.map fun _ e => e.unstamped := by
    refine Table.ext fun id => ?_
    rw [Table.find?_map, Table.find?_map]
    by_cases hid : ∃ sh ∈ shifts, m.shared.Holds sh.tx id
    · obtain ⟨sh, hsh, hid⟩ := hid
      exact (h'.held sh hsh id hid).trans (h.held sh hsh id hid).symm
    · have free : ∀ sh ∈ shifts, ¬ m.shared.Holds sh.tx id := fun sh hsh hold => hid ⟨sh, hsh, hold⟩
      exact congrArg (Option.map Entry.unstamped) ((h'.others id free).trans (h.others id free).symm)
  have locked : c'.shared.store.locked = c.shared.store.locked :=
    IdSet.ext fun id => (h'.locked id).trans (h.locked id).symm
  unfold Store.unstamped
  rw [entries, locked]

theorem Overlapping.asAlone (h : Overlapping m shifts lot c) (sound : m.Sound)
    (holds : ∀ sh ∈ shifts, ∀ id, m.shared.Holds sh.tx id ↔ id ∈ lot sh)
    (aside : ∀ tx, (∀ sh ∈ shifts, sh.tx ≠ tx) →
      c.shared.sessions.find? tx = m.shared.sessions.find? tx)
    (finished : ∀ sh ∈ shifts, c.finished sh) : AsAlone m shifts c where
  held sh hsh id hid := (h.of_finished hsh (finished sh hsh)).2 id ((holds sh hsh id).1 hid)
  others id hid := h.others id fun sh hsh hlot => hid sh hsh ((holds sh hsh id).2 hlot)
  locked id := by
    rw [h.sound.shared.locked_iff, sound.shared.locked_iff]
    constructor
    · rintro ⟨tx, hid⟩
      have other : ∀ sh ∈ shifts, sh.tx ≠ tx := by
        rintro sh hsh rfl
        obtain ⟨x, hx, -⟩ := hid
        rw [(h.of_finished hsh (finished sh hsh)).1] at hx
        cases hx
      have old : m.shared.Holds tx id := by
        unfold Shared.Holds
        rwa [← aside tx other]
      exact ⟨⟨tx, old⟩, fun sh hsh hid' => other sh hsh (sound.shared.exclusive hid' old)⟩
    · rintro ⟨⟨tx, old⟩, free⟩
      have other : ∀ sh ∈ shifts, sh.tx ≠ tx := by
        rintro sh hsh rfl
        exact free sh hsh old
      refine ⟨tx, ?_⟩
      unfold Shared.Holds
      rwa [aside tx other]

end AsAlone

/-- **Cycles that overlap commute.** From any state that a crew can reach, some cycles start and go
on in any order; take those that at some moment have made their claims and have not begun to commit.
Each holds the batch that it has claimed, which is still stored as it was then. From there each of
them comes to its end by turns of its own, whatever the others have done by then. When all of them
have come to their end, in whatever order their calls and the parts of their commits were made,
every rollout that one of them holds has made the step of this cycle, and nothing else has changed.
So the order makes no difference to what is stored, stamps aside. -/
theorem overlapping_cycles_commute (h : List Turn) (crew : List Shift) (distinct : Distinct crew)
    (new : ∀ sh ∈ crew, (Crew.after h).parties.find? sh.tx = none)
    (early : List (Shift × Instant)) (own : TurnsOf crew early) (shifts : List Shift)
    (amid : ∀ sh ∈ shifts, sh ∈ crew ∧ ((Crew.after h).work early).amid sh) :
    let m := (Crew.after h).work early
    (∀ sh ∈ shifts, ∃ s es, Batch sh.worker s sh.now es ∧
      (∀ id, m.shared.Holds sh.tx id ↔ id ∈ es.map Entry.id) ∧
      ∀ id ∈ es.map Entry.id, m.row? id = s.entries.find? id) ∧
    (∀ late, TurnsOf shifts late → ∀ sh ∈ shifts, ∀ clock,
      ∃ n, ((m.work late).work (List.replicate n (sh, clock))).finished sh) ∧
    (∀ late, TurnsOf shifts late → (∀ sh ∈ shifts, (m.work late).finished sh) →
      AsAlone m shifts (m.work late)) ∧
    ∀ late late', TurnsOf shifts late → TurnsOf shifts late' →
      (∀ sh ∈ shifts, (m.work late).finished sh) → (∀ sh ∈ shifts, (m.work late').finished sh) →
      (m.work late').shared.store.unstamped = (m.work late).shared.store.unstamped := by
  intro m
  have sound : m.Sound := Crew.sound_work (Crew.sound_after h) early
  have apart : Distinct shifts := fun sh hsh sh' hsh' =>
    distinct sh (amid sh hsh).1 sh' (amid sh' hsh').1
  have standing : ∀ sh : Shift, ∃ ids, sh ∈ shifts → ∃ s es p t, Batch sh.worker s sh.now es ∧
      ids = es.map Entry.id ∧ (∀ id ∈ ids, m.row? id = s.entries.find? id) ∧
      m.parties.find? sh.tx = some p ∧ m.shared.sessions.find? sh.tx = some (.working t) ∧
      Underway m.shared.store.entries sh ids p.rest t := by
    intro sh
    by_cases hsh : sh ∈ shifts
    · obtain ⟨member, hamid⟩ := amid sh hsh
      obtain ⟨s, es, p, t, batch, same, hp, ht, underway⟩ :=
        (stands_work (Crew.sound_after h) distinct new own member).of_amid hamid
      exact ⟨_, fun _ => ⟨s, es, p, t, batch, rfl, same, hp, ht, underway⟩⟩
    · exact ⟨[], fun member => absurd member hsh⟩
  obtain ⟨lot, hlot⟩ := Classical.axiomOfChoice standing
  have holds : ∀ sh ∈ shifts, ∀ id, m.shared.Holds sh.tx id ↔ id ∈ lot sh := by
    intro sh hsh id
    obtain ⟨-, -, p, t, -, -, -, -, ht, underway⟩ := hlot sh hsh
    rw [← underway.holds]
    constructor
    · rintro ⟨x, hx, hid⟩
      obtain rfl := Option.some.inj (ht.symm.trans hx)
      exact hid
    · exact fun hid => ⟨_, ht, hid⟩
  have started : Overlapping m shifts lot m := by
    refine ⟨sound, fun sh hsh => ?_, fun _ _ => rfl⟩
    obtain ⟨-, -, p, t, -, -, -, hp, ht, underway⟩ := hlot sh hsh
    rw [hp, ht]
    exact .amid underway fun _ _ => rfl
  have disjoint : ∀ sh ∈ shifts, ∀ sh' ∈ shifts, ∀ id ∈ lot sh, id ∈ lot sh' → sh = sh' :=
    fun sh hsh sh' hsh' id hid hid' => apart sh hsh sh' hsh'
      (sound.shared.exclusive ((holds sh hsh id).2 hid) ((holds sh' hsh' id).2 hid'))
  have outcome : ∀ late, TurnsOf shifts late → (∀ sh ∈ shifts, (m.work late).finished sh) →
      AsAlone m shifts (m.work late) := by
    intro late hlate finished
    refine (started.work apart disjoint hlate).asAlone sound holds (fun tx other => ?_) finished
    exact (Crew.work_of_ne m late fun turn hturn => other turn.1 (hlate turn hturn)).2
  refine ⟨fun sh hsh => ?_, fun late hlate sh hsh clock => ?_, outcome,
    fun late late' hlate hlate' finished finished' => ?_⟩
  · obtain ⟨s, es, -, -, batch, hes, same, -⟩ := hlot sh hsh
    exact ⟨s, es, batch, hes ▸ holds sh hsh, hes ▸ same⟩
  · exact (started.work apart disjoint hlate).exists_finish hsh clock
  · exact (outcome late hlate finished).unique (outcome late' hlate' finished')

/-- A microsecond after the epoch. -/
def Instant.sample : Instant := Instant.epoch.later (.ofNanos 1000)

/-- Two rollouts with a device each, of which the second is due a microsecond after the first. -/
def Turn.pair : List Turn :=
  [.create { Deployment.sample with
      id := ⟨Vector.replicate 16 2⟩, progress := ⟨.multicastSetup, .sample, 0⟩ }
      [⟨⟨Vector.replicate 8 2⟩, "meter"⟩],
    .create .sample [⟨⟨Vector.replicate 8 0⟩, "meter"⟩]]

/-- Two cycles, at the times at which the rollouts are due. -/
def Shift.pair : List Shift :=
  [⟨0, .sample, .epoch, .zero, Surroundings.sample.bridge⟩,
    ⟨1, .sample, .sample, .zero, Surroundings.sample.bridge⟩]

/-- Turns of the two cycles, the latest first: each round is some turns of one of them. -/
def Shift.rounds (rounds : List (Fin 2 × Nat)) (clock : Instant) : List (Shift × Instant) :=
  rounds.flatMap fun round => List.replicate round.2 (Shift.pair.get round.1, clock)

theorem turnsOf_rounds (rounds : List (Fin 2 × Nat)) (clock : Instant) :
    TurnsOf Shift.pair (Shift.rounds rounds clock) := by
  intro turn hturn
  obtain ⟨round, -, hturn⟩ := List.mem_flatMap.1 hturn
  obtain rfl := List.eq_of_mem_replicate hturn
  exact List.get_mem _ _

/-- Both cycles have made their claims, and the first has come further than the second. -/
def Crew.midway : Crew := (Crew.after Turn.pair).work (Shift.rounds [(1, 3), (0, 6)] .epoch)

theorem overlap_of_pair :
    (∀ sh ∈ Shift.pair, Crew.midway.amid sh) ∧
    (∀ sh ∈ Shift.pair,
      (Crew.midway.work (Shift.rounds [(1, 20), (0, 20)] .epoch)).finished sh) ∧
    (∀ sh ∈ Shift.pair,
      (Crew.midway.work (Shift.rounds [(0, 1), (1, 20), (0, 6)] .sample)).finished sh) ∧
    (Crew.midway.work (Shift.rounds [(0, 1), (1, 20), (0, 6)] .sample)).shared.store ≠
      (Crew.midway.work (Shift.rounds [(1, 20), (0, 20)] .epoch)).shared.store ∧
    (Crew.midway.work (Shift.rounds [(0, 1), (1, 20), (0, 6)] .sample)).shared.store.unstamped =
      (Crew.midway.work (Shift.rounds [(1, 20), (0, 20)] .epoch)).shared.store.unstamped := by
  have distinct : Distinct Shift.pair := by
    intro sh hsh sh' hsh' same
    simp only [Shift.pair, List.mem_cons, List.not_mem_nil, or_false] at hsh hsh'
    rcases hsh with rfl | rfl <;> rcases hsh' with rfl | rfl <;> first | rfl | cases same
  have amid : ∀ sh ∈ Shift.pair, Crew.midway.amid sh := by decide +kernel
  have finished : ∀ sh ∈ Shift.pair,
      (Crew.midway.work (Shift.rounds [(1, 20), (0, 20)] .epoch)).finished sh := by decide +kernel
  have finished' : ∀ sh ∈ Shift.pair,
      (Crew.midway.work (Shift.rounds [(0, 1), (1, 20), (0, 6)] .sample)).finished sh := by
    decide +kernel
  refine ⟨amid, finished, finished', by decide +kernel, ?_⟩
  unfold Crew.midway at amid finished finished' ⊢
  exact (overlapping_cycles_commute Turn.pair Shift.pair distinct (fun _ _ => rfl)
    (Shift.rounds [(1, 3), (0, 6)] .epoch) (turnsOf_rounds _ _) Shift.pair
    fun sh hsh => ⟨hsh, amid sh hsh⟩).2.2.2 _ _ (turnsOf_rounds _ _) (turnsOf_rounds _ _) finished
    finished'

end FirmwareRollout
