import FirmwareRollout.Proofs.Store.Effect
import FirmwareRollout.Store.Transaction

/-!
A store that any number of transactions share, in steps as small as those in which they can
interleave. What a transaction does at one stroke is an `Act`: a commit is two of them, first its
writes are published and then its locks are given back, and a read that waits for a lock takes the
lock first and reads the store anew afterwards. A history is a list of strokes, the latest first,
and `after` gives the shared store that it leads to; a stroke that is not possible where it comes
changes nothing.

Main statements: `World.perform_eq_run`, which says that a call carried out as a whole is some
strokes of its transaction in a row, and `World.Reached.exists_history`: what holds after all
histories holds for whole calls in any order.
-/

namespace FirmwareRollout

/-! ### The strokes of one transaction -/

/-- A transaction that has begun and has not ended. -/
inductive Session where
  /-- It takes calls. -/
  | working (t : Transaction)
  /-- Its writes are published; its locks are still to be given back. -/
  | leaving (held : IdSet)
deriving DecidableEq

/-- The rollouts that a transaction has locked. -/
def Session.held : Session → IdSet
  | working t => t.held
  | leaving held => held

/-- A transaction, if there is one, has locked the rollout. -/
def Session.Has (x : Option Session) (id : DeploymentId) : Prop :=
  ∃ y, x = some y ∧ y.held.contains id

/-- Gives back a set of locks. -/
def Store.release (s : Store) (held : IdSet) : Store :=
  { s with locked := held.keys.foldl (·.erase ·) s.locked }

/-- Makes what a transaction has written last. -/
def Transaction.publish (t : Transaction) (s : Store) : Store :=
  { s with entries := s.entries.map t.settleEntry }

/-- What a transaction does at one stroke. -/
inductive Act where
  | begin
  /-- A call that is carried out at one stroke and leaves the transaction open. -/
  | call (clock : Instant) (c : Call)
  /-- The first part of a read that waits for a lock. -/
  | acquire (id : DeploymentId)
  /-- The first part of a commit. -/
  | publish
  /-- The second part of a commit; without the first, a rollback. A transaction that is given up
  does the same. -/
  | leave
deriving DecidableEq

namespace Session

/-- What a call on a transaction comes to; nothing if it has to wait. -/
def answer (x : Option Session) (s : Store) (clock : Instant) (c : Call) : Option c.Result :=
  match x with
  | some (working t) => (t.perform s clock c).map (·.1)
  | _ => none

/-- Carries out an act, if the transaction can do it now. -/
def act (x : Option Session) (s : Store) : Act → Option Session × Store
  | .begin =>
    match x with
    | none => (some (working .fresh), s)
    | some _ => (x, s)
  | .call clock c =>
    match x with
    | some (working t) =>
      match t.perform s clock c with
      | some (_, s, some t) => (some (working t), s)
      | _ => (x, s)
    | _ => (x, s)
  | .acquire id =>
    match x with
    | some (working t) =>
      match Transaction.lockState s t id with
      | .taken => (some (working (Transaction.lock (s, t) id).2), (Transaction.lock (s, t) id).1)
      | _ => (x, s)
    | _ => (x, s)
  | .publish =>
    match x with
    | some (working t) => (some (leaving t.held), t.publish s)
    | _ => (x, s)
  | .leave =>
    match x with
    | some x => (none, s.release x.held)
    | none => (none, s)

end Session

/-! ### Histories -/

/-- A stroke: a new rollout, or what a transaction does. -/
inductive Stroke where
  | create (d : Deployment) (devices : List EnrolledDevice)
  | act (tx : TxId) (a : Act)
deriving DecidableEq

/-- A store and the transactions on it that have begun and not ended. -/
structure Shared where
  store : Store
  sessions : Table TxId Session
deriving DecidableEq

namespace Shared

/-- A store that holds nothing, and no transaction on it. -/
def empty : Shared := ⟨.empty, .empty⟩

/-- Takes over what an act has left of a transaction and of the store. -/
def put (w : Shared) (tx : TxId) : Option Session × Store → Shared
  | (some x, s) => ⟨s, w.sessions.insert tx x⟩
  | (none, s) => ⟨s, w.sessions.erase tx⟩

/-- Carries out a stroke. -/
def step (w : Shared) : Stroke → Shared
  | .create d devices => { w with store := (w.store.create d devices).2 }
  | .act tx a => w.put tx (Session.act (w.sessions.find? tx) w.store a)

/-- Carries out a history, the latest stroke first, from a shared store. -/
def run (w : Shared) : List Stroke → Shared
  | [] => w
  | m :: h => (w.run h).step m

/-- The shared store that a history leads to. -/
def after (h : List Stroke) : Shared := empty.run h

/-- The transaction `tx` has locked the rollout. -/
def Holds (w : Shared) (tx : TxId) (id : DeploymentId) : Prop :=
  Session.Has (w.sessions.find? tx) id

theorem run_append (w : Shared) (h h' : List Stroke) : w.run (h' ++ h) = (w.run h).run h' := by
  induction h' with
  | nil => rfl
  | cons m h' ih => exact congrArg (·.step m) ih

@[simp] theorem store_put (w : Shared) (tx : TxId) (x : Option Session) (s : Store) :
    (w.put tx (x, s)).store = s := by
  cases x <;> rfl

theorem find?_put_self (w : Shared) (tx : TxId) (x : Option Session) (s : Store) :
    (w.put tx (x, s)).sessions.find? tx = x := by
  cases x
  · exact Table.find?_erase_self _ _
  · exact Table.find?_insert_self _ _ _

theorem find?_put_of_ne (w : Shared) {tx tx' : TxId} (h : tx ≠ tx') (x : Option Session)
    (s : Store) : (w.put tx (x, s)).sessions.find? tx' = w.sessions.find? tx' := by
  cases x
  · exact Table.find?_erase_of_ne _ h
  · exact Table.find?_insert_of_ne _ _ h

theorem ext {w w' : Shared} (store : w.store = w'.store)
    (sessions : ∀ tx, w.sessions.find? tx = w'.sessions.find? tx) : w = w' := by
  cases w
  cases w'
  exact congr (congrArg Shared.mk store) (Table.ext sessions)

theorem put_self (w : Shared) (tx : TxId) : w.put tx (w.sessions.find? tx, w.store) = w := by
  refine ext (store_put _ _ _ _) fun tx' => ?_
  by_cases h : tx = tx'
  · exact h ▸ find?_put_self _ _ _ _
  · exact find?_put_of_ne _ h _ _

theorem put_put (w : Shared) (tx : TxId) (xs xs' : Option Session × Store) :
    (w.put tx xs).put tx xs' = w.put tx xs' := by
  obtain ⟨x, s⟩ := xs
  obtain ⟨x', s'⟩ := xs'
  refine ext ((store_put _ _ _ _).trans (store_put _ _ _ _).symm) fun tx' => ?_
  by_cases h : tx = tx'
  · obtain rfl := h
    rw [find?_put_self, find?_put_self]
  · rw [find?_put_of_ne _ h, find?_put_of_ne _ h, find?_put_of_ne _ h]

/-- What a transaction does in a row depends on nothing but the transaction and the store. -/
theorem run_acts (w : Shared) (tx : TxId) (acts : List Act) :
    w.run (acts.map (.act tx)) =
      w.put tx (acts.foldr (fun a xs => Session.act xs.1 xs.2 a) (w.sessions.find? tx, w.store)) := by
  induction acts with
  | nil => exact (w.put_self tx).symm
  | cons a acts ih =>
    show (w.run (acts.map (.act tx))).step (.act tx a) = _
    rw [ih, List.foldr_cons]
    generalize acts.foldr (fun a xs => Session.act xs.1 xs.2 a) (w.sessions.find? tx, w.store) = xs
    rw [step, find?_put_self, store_put, put_put]

end Shared

/-! ### Whole calls -/

namespace World

/-- A world with all its transactions at work. -/
def shared (w : World) : Shared := ⟨w.store, w.transactions.map fun _ t => .working t⟩

theorem find?_shared (w : World) (tx : TxId) :
    w.shared.sessions.find? tx = (w.transactions.find? tx).map .working :=
  Table.find?_map _ _ _

theorem shared_put (w : World) (tx : TxId) (s : Store) (t : Option Transaction) :
    (w.put tx s t).shared = w.shared.put tx (t.map .working, s) := by
  refine Shared.ext (by cases t <;> rfl) fun k => ?_
  rw [find?_shared]
  by_cases hk : tx = k
  · obtain rfl := hk
    rw [Shared.find?_put_self]
    cases t
    · exact congrArg _ (Table.find?_erase_self _ _)
    · exact congrArg _ (Table.find?_insert_self _ _ _)
  · rw [Shared.find?_put_of_ne _ hk, find?_shared]
    cases t
    · exact congrArg _ (Table.find?_erase_of_ne _ hk)
    · exact congrArg _ (Table.find?_insert_of_ne _ _ hk)

/-- A transaction that is given up does what one stroke does. -/
theorem shared_abandon (w : World) (tx : TxId) :
    (w.abandon tx).shared = w.shared.step (.act tx .leave) := by
  rw [Shared.step, find?_shared, abandon]
  split
  · next t ht =>
    rw [shared_put, ht]
    rfl
  · next ht =>
    have self := w.shared.put_self tx
    rw [find?_shared, ht] at self
    rw [ht]
    exact self.symm

theorem find?_abandon (w : World) (tx : TxId) : (w.abandon tx).transactions.find? tx = none := by
  unfold abandon
  split
  · exact Table.find?_erase_self _ _
  · next ht => exact ht

theorem perform_of_ne_begin {w : World} {tx : TxId} {clock : Instant} {c : Call} (hc : c ≠ .begin) :
    w.perform tx clock c = (w.transactions.find? tx).elim
      (some (.error (.internal "no transaction"), w))
      fun t => (t.perform w.store clock c).map fun r => (r.1, w.put tx r.2.1 r.2.2) := by
  cases c with
  | begin => exact absurd rfl hc
  | _ =>
    unfold perform
    cases w.transactions.find? tx <;> rfl

/-- **A call carried out as a whole** is some strokes of its transaction in a row. -/
theorem perform_eq_run {w w' : World} {tx : TxId} {clock : Instant} {c : Call} {r : c.Result}
    (h : w.perform tx clock c = some (r, w')) :
    ∃ acts : List Act, w'.shared = w.shared.run (acts.map (.act tx)) := by
  by_cases hbegin : c = .begin
  · subst hbegin
    cases h
    refine ⟨[.begin, .leave], ?_⟩
    have absent : (w.abandon tx).shared.sessions.find? tx = none := by
      rw [find?_shared, find?_abandon]
      rfl
    show _ = (w.shared.step (.act tx .leave)).step (.act tx .begin)
    rw [shared_put, ← shared_abandon, Shared.step, absent]
    rfl
  · rw [perform_of_ne_begin hbegin] at h
    cases ht : w.transactions.find? tx with
    | none =>
      rw [ht] at h
      cases h
      exact ⟨[], rfl⟩
    | some t =>
      rw [ht] at h
      obtain ⟨⟨r, s, t'⟩, hperform, hw⟩ := Option.map_eq_some_iff.1 h
      cases hw
      have session : w.shared.sessions.find? tx = some (.working t) := by rw [find?_shared, ht]; rfl
      cases t' with
      | some t' =>
        refine ⟨[.call clock c], ?_⟩
        rw [Shared.run_acts, session, shared_put]
        simp only [List.foldr, Session.act]
        rw [show w.shared.store = w.store from rfl, hperform]
        rfl
      | none =>
        rw [shared_put]
        rcases t.ends_of_perform hperform with rfl | rfl
        · cases hperform
          refine ⟨[.leave, .publish], ?_⟩
          rw [Shared.run_acts, session]
          rfl
        · cases hperform
          refine ⟨[.leave], ?_⟩
          rw [Shared.run_acts, session]
          rfl

/-- The worlds that whole operations lead to. -/
inductive Reached : World → Prop where
  | empty : Reached (ofStore .empty)
  | create {w : World} (earlier : Reached w) (d : Deployment) (devices : List EnrolledDevice) :
    Reached { w with store := (w.store.create d devices).2 }
  | perform {w w' : World} (earlier : Reached w) {tx : TxId} {clock : Instant} {c : Call}
    {r : c.Result} (h : w.perform tx clock c = some (r, w')) : Reached w'
  | abandon {w : World} (earlier : Reached w) (tx : TxId) : Reached (w.abandon tx)

/-- **Whole operations in any order** are a history. -/
theorem Reached.exists_history {w : World} (reached : w.Reached) :
    ∃ h, w.shared = Shared.after h := by
  induction reached with
  | empty => exact ⟨[], rfl⟩
  | create earlier d devices ih =>
    obtain ⟨h, hw⟩ := ih
    refine ⟨.create d devices :: h, ?_⟩
    show _ = (Shared.after h).step (.create d devices)
    rw [← hw]
    rfl
  | @perform w w' earlier tx clock c r hperform ih =>
    obtain ⟨h, hw⟩ := ih
    obtain ⟨acts, hacts⟩ := perform_eq_run hperform
    refine ⟨acts.map (.act tx) ++ h, ?_⟩
    rw [Shared.after, Shared.run_append, ← Shared.after, ← hw, hacts]
  | abandon earlier tx ih =>
    obtain ⟨h, hw⟩ := ih
    refine ⟨.act tx .leave :: h, ?_⟩
    show _ = (Shared.after h).step (.act tx .leave)
    rw [← hw, shared_abandon]

end World

end FirmwareRollout
