import FirmwareRollout.Proofs.Store.Twin

/-!
What a rollback to a savepoint leaves of the calls that it takes back: their locks, and nothing else
that a later call could see. After it, the transaction is the twin of what it would be if nothing had
been called since the savepoint.

Main statement: `rollback_erases`.
-/

namespace FirmwareRollout

namespace Transaction

/-! ### What calls leave alone -/

/-- What calls leave as it is, as long as the transaction is open: nothing is committed, no lock is
given back. -/
structure Keeps (x y : Store × Transaction) : Prop where
  entries : y.1.entries = x.1.entries
  confined : y.2.Confined
  held : ∀ id, x.2.held.contains id → y.2.held.contains id
  alone : Alone x.1 x.2 → Alone y.1 y.2

theorem of_performAll_cons {clock : Instant} {c : Call} {calls : List (Instant × Call)}
    {x y : Store × Transaction} {rs : List Answered}
    (h : performAll ((clock, c) :: calls) x = some (rs, y)) : ∃ r s t rs',
      x.2.perform x.1 clock c = some (r, s, some t) ∧ performAll calls (s, t) = some (rs', y) := by
  simp only [performAll] at h
  split at h
  · next r s t perform =>
    obtain ⟨⟨rs', y'⟩, rest, heq⟩ := Option.map_eq_some_iff.1 h
    cases heq
    exact ⟨r, s, t, rs', perform, rest⟩
  · cases h

theorem performAll_keeps {s : Store} {t : Transaction} (hs : s.Keyed) (ht : t.Confined)
    {calls : List (Instant × Call)} {rs : List Answered} {x : Store × Transaction}
    (h : performAll calls (s, t) = some (rs, x)) : Keeps (s, t) x := by
  induction calls generalizing s t rs with
  | nil =>
    cases h
    exact ⟨rfl, ht, fun _ hid => hid, fun alone => alone⟩
  | cons call calls ih =>
    obtain ⟨clock, c⟩ := call
    obtain ⟨r, s', t', rs', perform, rest⟩ := of_performAll_cons h
    have effect := perform_effect hs ht perform
    have later := ih (hs.congr effect.entries) (effect.confined ht) rest
    refine ⟨later.entries.trans effect.entries, later.confined,
      fun id hid => later.held id (effect.held_mono hid), fun own => later.alone fun id => ?_⟩
    obtain ⟨ids, -, hlocked, hheld⟩ := effect.locks
    rw [hlocked, hheld, own id]

/-! ### The savepoint -/

theorem performAll_rollbackToSavepoint {x : Store × Transaction} {g : Staging}
    (marked : x.2.saved = some g) (clock : Instant) :
    performAll [(clock, .rollbackToSavepoint)] x = some ([⟨.rollbackToSavepoint, .ok ()⟩],
      x.1, { x.2 with staging := g, saved := none }) := by
  simp only [performAll, perform, marked, Option.map_some]

theorem performAll_releaseSavepoint (s : Store) (t : Transaction) (g : Staging) (clock : Instant) :
    performAll [(clock, .releaseSavepoint)] (s, { t with saved := some g }) =
      some ([⟨.releaseSavepoint, .ok ()⟩], s, { t with saved := none }) := by
  simp only [performAll, perform, Option.map_some]

/-- A call that is not about the savepoint neither reads nor writes it. -/
theorem perform_saved (t : Transaction) (s : Store) (clock : Instant) {c : Call}
    (plain : c.isSavepoint = false) (saved : Option Staging) :
    ({ t with saved } : Transaction).perform s clock c = (t.perform s clock c).map fun left =>
      (left.1, left.2.1, left.2.2.map fun t' => { t' with saved }) := by
  cases c with
  | savepoint | rollbackToSavepoint | releaseSavepoint => cases plain
  | lockedGet id =>
    have same : lockState s { t with saved } id = lockState s t id := rfl
    simp only [perform, same]
    cases lockState s t id <;> rfl
  | update d =>
    have same : lockState s { t with saved } d.id = lockState s t d.id := rfl
    simp only [perform, same]
    cases lockState s t d.id <;> rfl
  | claimDue limit now =>
    simp only [perform, claimDue, foldl_lock]
    rfl
  | recordOutcome id eui outcome message =>
    simp only [perform, recordOutcome]
    cases s.participant? id eui with
    | none => rfl
    | some p =>
      have same : ({ t with saved } : Transaction).deviceState p = t.deviceState p := rfl
      simp only [same]
      split <;> rfl
  | failPending id message =>
    have same : ({ t with saved } : Transaction).pendingDevices s id = t.pendingDevices s id := rfl
    simp only [perform, failPending, same]
    have staged : ∀ euis outcome, ({ t with saved } : Transaction).stageAll id euis outcome =
        { t.stageAll id euis outcome with saved } := by
      intro euis outcome
      rw [stageAll_eq, stageAll_eq]
    exact congrArg (fun left => some (_, s, some left)) (staged _ _)
  | begin | pendingDevices | commit | rollback => rfl

/-- Nobody but a savepoint call marks a point; the marked point can only be forgotten. -/
theorem saved_of_perform {s s' : Store} {t t' : Transaction} {clock : Instant} {c : Call}
    {r : c.Result} (h : t.perform s clock c = some (r, s', some t')) (other : c ≠ .savepoint) :
    t'.saved = t.saved ∨ t'.saved = none := by
  by_cases plain : c.isSavepoint = false
  · have same := perform_saved t s clock plain t.saved
    rw [show ({ t with saved := t.saved } : Transaction) = t from rfl, h] at same
    have left : some t' = some { t' with saved := t.saved } :=
      congrArg (fun left => left.2.2) (Option.some.inj same)
    have kept := congrArg Transaction.saved (Option.some.inj left)
    exact .inl kept
  · cases c with
    | savepoint => exact absurd rfl other
    | rollbackToSavepoint | releaseSavepoint =>
      simp only [perform] at h
      split at h <;> cases h
      · exact .inl rfl
      · exact .inr rfl
    | _ => exact absurd rfl plain

theorem saved_of_performAll {calls : List (Instant × Call)} {x y : Store × Transaction}
    {rs : List Answered} (h : performAll calls x = some (rs, y))
    (others : ∀ call ∈ calls, call.2 ≠ .savepoint) : y.2.saved = x.2.saved ∨ y.2.saved = none := by
  induction calls generalizing x rs with
  | nil =>
    cases h
    exact .inl rfl
  | cons call calls ih =>
    obtain ⟨clock, c⟩ := call
    obtain ⟨r, s', t', rs', perform, rest⟩ := of_performAll_cons h
    have first := saved_of_perform perform (others _ List.mem_cons_self)
    have later := ih rest fun call hc => others call (List.mem_cons_of_mem _ hc)
    rcases later with later | later
    · rw [later]
      exact first
    · exact .inr later

theorem unmarked_of_performAll {calls : List (Instant × Call)} {x y : Store × Transaction}
    {rs : List Answered} (h : performAll calls x = some (rs, y))
    (plain : ∀ call ∈ calls, call.2.isSavepoint = false) (unmarked : x.2.saved = none) :
    y.2.saved = none := by
  have others : ∀ call ∈ calls, call.2 ≠ .savepoint := by
    intro call hc marks
    have := plain call hc
    rw [marks] at this
    cases this
  have saved := saved_of_performAll h others
  rwa [unmarked, or_self] at saved

/-- What calls come to does not depend on the savepoint, if they are not about it. -/
theorem performAll_saved {calls : List (Instant × Call)}
    (plain : ∀ call ∈ calls, call.2.isSavepoint = false) (s : Store) (t : Transaction)
    (saved : Option Staging) : performAll calls (s, { t with saved }) =
      (performAll calls (s, t)).map fun left => (left.1, left.2.1, { left.2.2 with saved }) := by
  induction calls generalizing s t with
  | nil => rfl
  | cons call calls ih =>
    obtain ⟨clock, c⟩ := call
    simp only [performAll]
    rw [perform_saved t s clock (plain _ List.mem_cons_self)]
    cases t.perform s clock c with
    | none => rfl
    | some result =>
      obtain ⟨r, s', _ | t'⟩ := result
      · rfl
      · have later := ih (fun call hc => plain call (List.mem_cons_of_mem _ hc)) s' t'
        simp only [Option.map_some, later, Option.map_map]
        rfl

/-! ### Savepoints of a transaction that is alone -/

section Alone

variable {s : Store} {t : Transaction} (alone : Alone s t)
include alone

theorem Alone.twin : Twin (s, t) (s, t) := ⟨rfl, alone, alone, rfl, rfl⟩

/-- **Every call is answered** as long as the transaction is open. -/
theorem Alone.answered {calls : List (Instant × Call)}
    (stay : ∀ call ∈ calls, call.2 ≠ .commit ∧ call.2 ≠ .rollback) :
    (performAll calls (s, t)).isSome := by
  induction calls generalizing s t with
  | nil => rfl
  | cons call calls ih =>
    obtain ⟨clock, c⟩ := call
    obtain ⟨r, s', t', _, _, _, perform, -, -, left⟩ :=
      alone.twin.perform (stay _ List.mem_cons_self) clock clock
    simp only [performAll, perform, Option.isSome_map]
    exact ih left.left fun call hc => stay call (List.mem_cons_of_mem _ hc)

/-- **A rollback leaves what would be there without the calls that it takes back**, but for their
locks. -/
theorem Alone.twin_rollback (hs : s.Keyed) (ht : t.Confined) {segment : List (Instant × Call)}
    (latest : ∀ call ∈ segment, call.2 ≠ .savepoint) {clock clock' : Instant} {rs : List Answered}
    {x y : Store × Transaction} (made : performAll ((clock, .savepoint) :: segment) (s, t) =
      some (rs, x))
    (back : performAll [(clock', .rollbackToSavepoint)] x =
      some ([⟨.rollbackToSavepoint, .ok ()⟩], y)) :
    Twin (s, { t with saved := none }) y := by
  have marking : performAll ((clock, .savepoint) :: segment) (s, t) =
      (performAll segment (s, { t with saved := some t.staging })).map fun left =>
        (⟨.savepoint, .ok ()⟩ :: left.1, left.2) := rfl
  rw [marking] at made
  obtain ⟨⟨rs', x⟩, segment_made, heq⟩ := Option.map_eq_some_iff.1 made
  cases heq
  have marked : ({ t with saved := some t.staging } : Transaction).Confined :=
    ⟨ht.staging, fun g hg => Option.some.inj hg ▸ ht.staging⟩
  have kept := performAll_keeps hs marked segment_made
  cases saved : x.2.saved with
  | none =>
    simp only [performAll, perform, saved] at back
    cases back
  | some g =>
    rw [performAll_rollbackToSavepoint saved] at back
    cases back
    -- the point is still the one that was marked before the segment
    have point := saved_of_performAll segment_made latest
    rw [saved] at point
    obtain rfl : g = t.staging := Option.some.inj (point.resolve_right (by simp))
    exact ⟨kept.entries, alone, kept.alone alone, rfl, rfl⟩

/-- **A savepoint that is released in the end changes nothing.** -/
theorem Alone.rel_release (unmarked : t.saved = none) {calls calls' : List (Instant × Call)}
    (plain : ∀ call ∈ calls, call.2.isSavepoint = false) (same : SameCalls calls calls')
    (clock clock' : Instant) : Option.Rel
      (fun a b => b.1.map Answered.unstamped =
        ⟨.savepoint, .ok ()⟩ :: a.1.map Answered.unstamped ++ [⟨.releaseSavepoint, .ok ()⟩] ∧
        Twin a.2 b.2)
      (performAll calls (s, t))
      (performAll ((clock, .savepoint) :: calls' ++ [(clock', .releaseSavepoint)]) (s, t)) := by
  have plain' : ∀ call ∈ calls', call.2.isSavepoint = false := by
    intro call hc
    have listed : call.2 ∈ calls.map (·.2) := same ▸ List.mem_map_of_mem hc
    obtain ⟨call', hc', heq⟩ := List.mem_map.1 listed
    exact heq ▸ plain call' hc'
  have marking : performAll ((clock, .savepoint) :: calls' ++ [(clock', .releaseSavepoint)]) (s, t) =
      (performAll (calls' ++ [(clock', .releaseSavepoint)])
        (s, { t with saved := some t.staging })).map fun left =>
          (⟨.savepoint, .ok ()⟩ :: left.1, left.2) := rfl
  rw [marking, performAll_append, performAll_saved plain']
  have later := alone.twin.performAll same
  have still_unmarked : ∀ left, performAll calls' (s, t) = some left → left.2.2.saved = none :=
    fun _ made => unmarked_of_performAll made plain' unmarked
  generalize performAll calls (s, t) = a at later
  generalize performAll calls' (s, t) = b at later still_unmarked
  cases later with
  | none => exact .none
  | @some a b both =>
    obtain ⟨rs, s', t'⟩ := b
    -- forgetting the point leaves the transaction as it is without one
    have forgotten : ({ t' with saved := none } : Transaction) = t' := by
      rw [← show t'.saved = none from still_unmarked _ rfl]
    simp only [Option.map_some, Option.bind_some, performAll_releaseSavepoint, forgotten]
    refine .some ⟨?_, both.2⟩
    simp only [List.map_cons, List.map_append, both.1]
    rfl

end Alone

/-- What savepoints and rollbacks come to in a transaction, whatever is called on it. -/
structure Revocable (s : Store) (t : Transaction) : Prop where
  /-- No call waits. -/
  answered : ∀ calls, (∀ call ∈ calls, call.2 ≠ .commit ∧ call.2 ≠ .rollback) →
    (performAll calls (s, t)).isSome
  /-- A rollback leaves what would be there if nothing had been called since the savepoint, -/
  erased : ∀ segment, (∀ call ∈ segment, call.2 ≠ .savepoint) → ∀ clock clock' rs x y,
    performAll ((clock, .savepoint) :: segment) (s, t) = some (rs, x) →
    performAll [(clock', .rollbackToSavepoint)] x = some ([⟨.rollbackToSavepoint, .ok ()⟩], y) →
      ∃ z, performAll [(clock, .savepoint), (clock', .rollbackToSavepoint)] (s, t) =
        some ([⟨.savepoint, .ok ()⟩, ⟨.rollbackToSavepoint, .ok ()⟩], z) ∧ Indistinct z y
  /-- except that a lock, once taken, is there as long as the transaction is open. -/
  locked : ∀ calls later rs rs' x y, performAll calls (s, t) = some (rs, x) →
    performAll later x = some (rs', y) → ∀ id, x.2.held.contains id →
      y.2.held.contains id ∧ y.1.locked.contains id
  /-- To set a savepoint and to release it in the end changes nothing. -/
  released : t.saved = none → ∀ calls calls', (∀ call ∈ calls, call.2.isSavepoint = false) →
    SameCalls calls calls' → ∀ clock clock', Option.Rel
      (fun a b => b.1.map Answered.unstamped =
        ⟨.savepoint, .ok ()⟩ :: a.1.map Answered.unstamped ++ [⟨.releaseSavepoint, .ok ()⟩] ∧
        Indistinct a.2 b.2)
      (performAll calls (s, t))
      (performAll ((clock, .savepoint) :: calls' ++ [(clock', .releaseSavepoint)]) (s, t))
  /-- To give up leaves what was there before, and no lock. -/
  given_up : ∀ calls rs x, performAll calls (s, t) = some (rs, x) →
    x.2.unlock x.1 = ⟨s.entries, .empty⟩

theorem Alone.revocable {s : Store} {t : Transaction} (alone : Alone s t) (hs : s.Keyed)
    (ht : t.Confined) : Revocable s t where
  answered _ stay := alone.answered stay
  erased _ latest _ _ _ _ _ made back :=
    ⟨_, rfl, (alone.twin_rollback hs ht latest made back).indistinct⟩
  locked calls later rs rs' x y made made' id hid := by
    have kept := performAll_keeps hs ht made
    have kept' := performAll_keeps (hs.congr kept.entries) kept.confined made'
    have hid' := kept'.held id hid
    exact ⟨hid', (kept'.alone (kept.alone alone) id).2 hid'⟩
  released unmarked calls calls' plain same clock clock' := by
    have twins := alone.rel_release unmarked plain same clock clock'
    exact rel_mono (fun a b both => ⟨both.1, both.2.indistinct⟩) twins
  given_up calls rs x made := by
    have kept := performAll_keeps hs ht made
    rw [(kept.alone alone).unlock, kept.entries]

end Transaction

namespace World

open Transaction

variable {w : World} {tx : TxId} {t : Transaction}

theorem Reached.sound (reached : w.Reached) : w.shared.Sound := by
  obtain ⟨h, hw⟩ := reached.exists_history
  rw [hw]
  exact Shared.sound_after h

theorem Reached.keyed (reached : w.Reached) : w.store.Keyed := reached.sound.keyed

theorem working_of_find? (open_ : w.transactions.find? tx = some t) :
    w.shared.sessions.find? tx = some (.working t) := by
  rw [find?_shared, open_]
  rfl

theorem Reached.confined (reached : w.Reached) (open_ : w.transactions.find? tx = some t) :
    t.Confined :=
  reached.sound.confined t (working_of_find? open_)

/-- A transaction that no other one is open beside is alone on the store. -/
theorem Reached.alone (reached : w.Reached) (open_ : w.transactions.find? tx = some t)
    (sole : ∀ tx', w.transactions.contains tx' → tx' = tx) : Alone w.store t := by
  intro id
  have locked : w.store.locked.contains id ↔ _ := reached.sound.locked_iff
  refine locked.trans ⟨?_, fun hid => ⟨tx, _, working_of_find? open_, hid⟩⟩
  rintro ⟨tx', x, hx, hid⟩
  rw [find?_shared] at hx
  obtain ⟨t', ht', rfl⟩ := Option.map_eq_some_iff.1 hx
  obtain rfl := sole tx' (Table.contains_of_find? ht')
  obtain rfl := Option.some.inj (open_.symm.trans ht')
  exact hid

/-- Only a commit changes what is committed. -/
theorem Reached.entries_perform (reached : w.Reached) (open_ : w.transactions.find? tx = some t)
    {clock : Instant} {c : Call} {r : c.Result} {w' : World} (other : c ≠ .commit)
    (perform : w.perform tx clock c = some (r, w')) : w'.store.entries = w.store.entries := by
  by_cases anew : c = .begin
  · subst anew
    cases perform
    rw [World.abandon, open_]
    rfl
  · rw [perform_of_ne_begin anew, open_] at perform
    obtain ⟨⟨r', s', t'⟩, performed, heq⟩ := Option.map_eq_some_iff.1 perform
    cases heq
    cases t' with
    | some t' => exact (perform_effect reached.keyed (reached.confined open_) performed).entries
    | none =>
      obtain rfl := (t.ends_of_perform performed).resolve_left other
      cases performed
      rfl

/-- **A rollback to a savepoint erases what was called since**, in a transaction that runs alone;
and a transaction that is given up has changed nothing that is committed and leaves no lock, whoever
runs beside it. -/
theorem rollback_erases (reached : w.Reached) (open_ : w.transactions.find? tx = some t) :
    ((∀ tx', w.transactions.contains tx' → tx' = tx) → Revocable w.store t) ∧
    (∀ clock c r w', c ≠ .commit → w.perform tx clock c = some (r, w') →
      w'.store.entries = w.store.entries) ∧
    (∀ clock, w.perform tx clock .rollback = some (.ok (), w.abandon tx)) ∧
    (w.abandon tx).store.entries = w.store.entries ∧
    ∀ id, (w.abandon tx).store.locked.contains id ↔
      w.store.locked.contains id ∧ ¬t.held.contains id := by
  have given_up : w.abandon tx = w.put tx (t.unlock w.store) none := by
    rw [abandon, open_]
  refine ⟨fun sole => (reached.alone open_ sole).revocable reached.keyed (reached.confined open_),
    fun clock c r w' => reached.entries_perform open_, fun clock => ?_, ?_, fun id => ?_⟩
  · have rolled_back : w.perform tx clock .rollback = _ := perform_of_ne_begin (by simp)
    rw [open_] at rolled_back
    rw [given_up]
    exact rolled_back
  · rw [given_up]
    rfl
  · rw [given_up]
    show (t.held.keys.foldl (·.erase ·) w.store.locked).contains id ↔ _
    rw [Table.contains_foldl_erase, Table.mem_keys_iff]
    exact and_comm

/-- A rollout with one device, and a transaction on it that has just begun. -/
def opened : World :=
  ⟨(Store.empty.create .sample [⟨⟨Vector.replicate 8 0⟩, "meter"⟩]).2,
    Table.empty.insert 1 .fresh⟩

theorem reached_opened : opened.Reached := by
  have began : ({ ofStore .empty with
      store := (Store.empty.create .sample [⟨⟨Vector.replicate 8 0⟩, "meter"⟩]).2 } : World).perform
        1 .epoch .begin = some (.ok (), opened) := rfl
  exact .perform (.create .empty _ _) began

def segment : List (Instant × Call) :=
  [(.epoch, .recordOutcome Deployment.sample.id ⟨Vector.replicate 8 0⟩ .error "lost"),
    (.epoch, .claimDue 10 .epoch)]

/-- What there is after a savepoint and the segment. -/
def claimed : List Answered × Store × Transaction :=
  (performAll ((.epoch, .savepoint) :: segment) (opened.store, .fresh)).get (by decide +kernel)

/-- What there is after a rollback to the savepoint. -/
def returned : Store × Transaction :=
  (claimed.2.1, { claimed.2.2 with staging := Transaction.fresh.staging, saved := none })

/-- The device is reported lost and the rollout is claimed, both after a savepoint. After the
rollback the device is pending again, and the rollout is still locked. -/
theorem erased_of_opened :
    opened.Reached ∧ opened.transactions.find? 1 = some .fresh ∧
    (∀ tx', opened.transactions.contains tx' → tx' = 1) ∧
    claimed.2.2.pendingDevices claimed.2.1 Deployment.sample.id = [] ∧
    performAll [(.epoch, .rollbackToSavepoint)] claimed.2 =
      some ([⟨.rollbackToSavepoint, .ok ()⟩], returned) ∧
    returned.2.pendingDevices returned.1 Deployment.sample.id = [⟨Vector.replicate 8 0⟩] ∧
    returned.1.locked.contains Deployment.sample.id ∧
    ∃ z, performAll [(.epoch, .savepoint), (.epoch, .rollbackToSavepoint)] (opened.store, .fresh) =
      some ([⟨.savepoint, .ok ()⟩, ⟨.rollbackToSavepoint, .ok ()⟩], z) ∧
      Indistinct z returned := by
  have open_ : opened.transactions.find? 1 = some .fresh := rfl
  have sole : ∀ tx', opened.transactions.contains tx' → tx' = 1 := by
    intro tx' known
    by_cases other : 1 = tx'
    · exact other.symm
    · have absent : opened.transactions.find? tx' = none := Table.find?_insert_of_ne _ _ other
      rw [Table.contains_eq_false_iff.2 absent] at known
      cases known
  have made : performAll ((.epoch, .savepoint) :: segment) (opened.store, .fresh) = some claimed :=
    (Option.some_get _).symm
  have marked : claimed.2.2.saved = some Transaction.fresh.staging := by decide +kernel
  have back : performAll [(.epoch, .rollbackToSavepoint)] claimed.2 =
      some ([⟨.rollbackToSavepoint, .ok ()⟩], returned) :=
    performAll_rollbackToSavepoint marked .epoch
  have laws := (rollback_erases reached_opened open_).1 sole
  have held : claimed.2.2.held.contains Deployment.sample.id := by decide +kernel
  have latest : ∀ call ∈ segment, call.2 ≠ .savepoint := by simp [segment]
  exact ⟨reached_opened, open_, sole, by decide +kernel, back, by decide +kernel,
    (laws.locked _ _ _ _ _ _ made back _ held).2, laws.erased _ latest _ _ _ _ _ made back⟩

end World

end FirmwareRollout
