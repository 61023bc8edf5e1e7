import FirmwareRollout.Proofs.Store.Interleaving

/-!
Locks exclude. In every history the locks of a store are those of the transactions that are open,
no rollout is locked by two of them, and what a transaction has written or marked is of rollouts
that it has locked. The invariant is `Shared.Sound`; `Change` lists what an act can do, and
`Change.locked_iff` and `Change.free_of_new` are all that the locks need to know of it.

Main statement: `locks_exclude`.
-/

namespace FirmwareRollout

/-! ### What an act can do -/

/-- The call that an act carries out, as a whole or in its first part. -/
def Act.call? : Act → Option Call
  | call _ c => some c
  | acquire id => some (.lockedGet id)
  | _ => none

/-- **What an act can do** to its transaction and to the store. -/
inductive Change (x : Option Session) (s : Store) : Act → Option Session → Store → Prop where
  | nothing {a : Act} : Change x s a x s
  | begin (absent : x = none) : Change x s .begin (some (.working .fresh)) s
  | work {a : Act} {s' : Store} (c : Call) (t t' : Transaction) (working : x = some (.working t))
    (call : a.call? = some c) (effect : Transaction.Effect s t c s' t') :
    Change x s a (some (.working t')) s'
  | publish (t : Transaction) (working : x = some (.working t)) :
    Change x s .publish (some (.leaving t.held)) (t.publish s)
  | leave (y : Session) (present : x = some y) : Change x s .leave none (s.release y.held)

/-- What the transaction of a session keeps to itself is confined to its locks. -/
def Session.Confined (x : Option Session) : Prop := ∀ t, x = some (.working t) → t.Confined

variable {x x' : Option Session} {s s' : Store} {a : Act} {id : DeploymentId}

theorem Session.change_act (hs : s.Keyed) (hx : Session.Confined x) (a : Act) :
    Change x s a (act x s a).1 (act x s a).2 := by
  cases a with
  | begin =>
    cases x with
    | none => exact .begin rfl
    | some y => exact .nothing
  | call clock c =>
    simp only [act]
    split
    · next t =>
      split
      · next hperform => exact .work _ t _ rfl rfl (t.perform_effect hs (hx t rfl) hperform)
      · exact .nothing
    · exact .nothing
  | acquire id =>
    simp only [act]
    split
    · next t =>
      split
      · next htaken =>
        refine .work _ t _ rfl rfl (.lock [id] fun id' hid' => ?_)
        obtain rfl := List.mem_singleton.1 hid'
        exact Transaction.lockState_eq_taken_iff.1 htaken
      · exact .nothing
    · exact .nothing
  | publish =>
    simp only [act]
    split
    · next t => exact .publish t rfl
    · exact .nothing
  | leave =>
    cases x with
    | none => exact .nothing
    | some y => exact .leave y rfl

/-! ### Records stay under their identifiers -/

theorem Transaction.find?_publish_iff {t : Transaction} {e' : Entry} :
    (t.publish s).entries.find? id = some e' ↔
      ∃ e, s.entries.find? id = some e ∧ t.settleEntry id e = e' := by
  rw [publish, Table.find?_map, Option.map_eq_some_iff]

theorem Transaction.find?_settleEntry (t : Transaction) (id : DeploymentId) (e : Entry)
    (eui : DevEui) : (t.settleEntry id e).participants.find? eui =
      (e.participants.find? eui).map fun p =>
        ((t.staging.outcomes.find? (id, eui)).map (settle p)).getD p := by
  rw [settleEntry, Table.find?_map]
  cases t.staging.outcomes.find? (id, eui) <;> rfl

theorem Transaction.settle_keys (p : Participant) (outcome : Option StagedOutcome) :
    ((outcome.map (settle p)).getD p).deployment = p.deployment ∧
      ((outcome.map (settle p)).getD p).eui = p.eui := by
  cases outcome with
  | none => exact ⟨rfl, rfl⟩
  | some outcome =>
    simp only [Option.map_some, Option.getD_some, settle]
    split <;> exact ⟨rfl, rfl⟩

theorem Transaction.keyed_publish {t : Transaction} (hs : s.Keyed) (ht : t.Confined) :
    (t.publish s).Keyed where
  deployment := by
    intro id e' he'
    obtain ⟨e, he, rfl⟩ := find?_publish_iff.1 he'
    show ((t.staging.deployments.find? id).getD e.deployment).id = id
    cases hd : t.staging.deployments.find? id with
    | none => exact hs.deployment he
    | some d => exact ht.staging.keyed hd
  participant := by
    intro id e' eui p' he' hp'
    obtain ⟨e, he, rfl⟩ := find?_publish_iff.1 he'
    rw [find?_settleEntry] at hp'
    obtain ⟨p, hp, rfl⟩ := Option.map_eq_some_iff.1 hp'
    rw [(settle_keys _ _).1, (settle_keys _ _).2]
    exact hs.participant he hp

/-- Enrols devices next to those that are enrolled already. -/
def Store.enrolOnto (id : DeploymentId) (clock : Instant) (table : Table DevEui Participant)
    (devices : List EnrolledDevice) : Except DevEui (Table DevEui Participant) :=
  devices.foldlM (fun table device =>
    if table.contains device.eui then .error device.eui
    else .ok (table.insert device.eui (.enrol id clock device))) table

theorem Store.enrolOnto_cons (id : DeploymentId) (clock : Instant)
    (table : Table DevEui Participant) (device : EnrolledDevice) (devices : List EnrolledDevice) :
    enrolOnto id clock table (device :: devices) =
      if table.contains device.eui then .error device.eui
      else enrolOnto id clock (table.insert device.eui (.enrol id clock device)) devices := by
  unfold enrolOnto
  rw [List.foldlM_cons]
  split <;> rfl

theorem Store.of_enrolOnto {clock : Instant} {devices : List EnrolledDevice}
    {start table : Table DevEui Participant} (h : enrolOnto id clock start devices = .ok table)
    {eui : DevEui} {p : Participant} (hp : table.find? eui = some p) :
    start.find? eui = some p ∨
      ∃ device ∈ devices, device.eui = eui ∧ p = .enrol id clock device := by
  induction devices generalizing start with
  | nil =>
    cases h
    exact .inl hp
  | cons device devices ih =>
    rw [enrolOnto_cons] at h
    split at h
    · cases h
    · rcases ih h with h | ⟨device', hd, h⟩
      · rcases Table.find?_insert_eq_some_iff.1 h with ⟨rfl, rfl⟩ | ⟨-, h⟩
        · exact .inr ⟨device, List.mem_cons_self, rfl, rfl⟩
        · exact .inl h
      · exact .inr ⟨device', List.mem_cons_of_mem _ hd, h⟩

/-- Devices that are enrolled together stand under their EUIs. -/
theorem Store.of_enrolAll {clock : Instant} {devices : List EnrolledDevice}
    {table : Table DevEui Participant} (h : enrolAll id clock devices = .ok table) {eui : DevEui}
    {p : Participant} (hp : table.find? eui = some p) :
    ∃ device ∈ devices, device.eui = eui ∧ p = .enrol id clock device :=
  (of_enrolOnto h hp).resolve_left (by simp)

/-- A new rollout comes where there was none, or nothing happens. -/
theorem Store.create_cases (s : Store) (d : Deployment) (devices : List EnrolledDevice) :
    (∃ error, s.create d devices = (.error error, s)) ∨ s.entries.find? d.id = none ∧ ∃ table,
      enrolAll d.id d.createdAt devices = .ok table ∧
      s.create d devices = (.ok (), { s with entries := s.entries.insert d.id ⟨d, table⟩ }) := by
  unfold create
  split
  · exact .inl ⟨_, rfl⟩
  · next h =>
    cases enrolled : enrolAll d.id d.createdAt devices with
    | error eui => exact .inl ⟨_, rfl⟩
    | ok table =>
      exact .inr ⟨Table.contains_eq_false_iff.1 (by simpa using h), table, rfl, rfl⟩

theorem Store.find?_create_of_contains (hid : s.entries.contains id) (d : Deployment)
    (devices : List EnrolledDevice) :
    (s.create d devices).2.entries.find? id = s.entries.find? id := by
  rcases s.create_cases d devices with ⟨error, h⟩ | ⟨hnone, table, -, h⟩
  · rw [h]
  · rw [h]
    have hne : d.id ≠ id := by
      rintro rfl
      rw [Table.contains_eq_false_iff.2 hnone] at hid
      cases hid
    exact Table.find?_insert_of_ne _ _ hne

theorem Store.keyed_create (hs : s.Keyed) (d : Deployment) (devices : List EnrolledDevice) :
    (s.create d devices).2.Keyed := by
  rcases s.create_cases d devices with ⟨error, h⟩ | ⟨-, table, htable, h⟩
  · rwa [h]
  · rw [h]
    refine ⟨fun {id e} he => ?_, fun {id e eui p} he hp => ?_⟩
    · rcases Table.find?_insert_eq_some_iff.1 he with ⟨rfl, rfl⟩ | ⟨-, he⟩
      · rfl
      · exact hs.deployment he
    · rcases Table.find?_insert_eq_some_iff.1 he with ⟨rfl, rfl⟩ | ⟨-, he⟩
      · obtain ⟨device, -, rfl, rfl⟩ := of_enrolAll htable hp
        exact ⟨rfl, rfl⟩
      · exact hs.participant he hp

/-! ### Locks -/

/-- An act gives and takes the locks of its own transaction; those of others stay. -/
theorem Change.locked_iff (h : Change x s a x' s')
    (own : ∀ {id}, Session.Has x id → s.locked.contains id) :
    s'.locked.contains id ↔ Session.Has x' id ∨ s.locked.contains id ∧ ¬ Session.Has x id := by
  cases h with
  | nothing =>
    by_cases hid : Session.Has x id
    · simp [hid, own hid]
    · simp [hid]
  | begin absent =>
    subst absent
    simp [Session.Has, Session.held, Transaction.fresh]
  | work c t t' working call effect =>
    subst working
    obtain ⟨ids, -, hlocked, hheld⟩ := effect.locks
    by_cases hid : t.held.contains id
    · simp [Session.Has, Session.held, hlocked, hheld, hid, own ⟨_, rfl, hid⟩]
    · simp [Session.Has, Session.held, hlocked, hheld, hid]
  | publish t working =>
    subst working
    by_cases hid : t.held.contains id
    · simp [Session.Has, Session.held, Transaction.publish, hid, own ⟨_, rfl, hid⟩]
    · simp [Session.Has, Session.held, Transaction.publish, hid]
  | leave y present =>
    subst present
    simp [Session.Has, Store.release, Table.contains_foldl_erase, Table.mem_keys_iff, and_comm]

/-- A lock that an act takes is on a rollout that exists, and was free. -/
theorem Change.free_of_new (h : Change x s a x' s') (new : Session.Has x' id)
    (old : ¬ Session.Has x id) : s.entries.contains id ∧ s.locked.contains id = false := by
  cases h with
  | nothing => exact absurd new old
  | begin absent =>
    obtain ⟨y, hy, hid⟩ := new
    cases hy
    cases hid
  | work c t t' working call effect =>
    subst working
    obtain ⟨ids, free, -, hheld⟩ := effect.locks
    obtain ⟨y, hy, hid⟩ := new
    cases hy
    have hnot : ¬ t.held.contains id := fun h => old ⟨_, rfl, h⟩
    obtain ⟨known, hfree⟩ := free id (((hheld id).1 hid).resolve_right hnot)
    exact ⟨known, hfree.resolve_left hnot⟩
  | publish t working =>
    subst working
    obtain ⟨y, hy, hid⟩ := new
    cases hy
    exact absurd ⟨_, rfl, hid⟩ old
  | leave => exact absurd new nofun

theorem Change.keyed (h : Change x s a x' s') (hs : s.Keyed) (hx : Session.Confined x) :
    s'.Keyed := by
  cases h with
  | nothing => exact hs
  | begin => exact hs
  | work c t t' working call effect => exact hs.congr effect.entries
  | publish t working => exact Transaction.keyed_publish hs (hx t working)
  | leave => exact hs.congr rfl

theorem Change.confined (h : Change x s a x' s') (hx : Session.Confined x) :
    Session.Confined x' := by
  cases h with
  | nothing => exact hx
  | begin => exact fun t ht => by cases ht; exact Transaction.confined_fresh
  | work c t t' working call effect =>
    exact fun u hu => by cases hu; exact effect.confined (hx t working)
  | publish => exact nofun
  | leave => exact nofun

theorem Change.contains_entries (h : Change x s a x' s') (hid : s.entries.contains id) :
    s'.entries.contains id := by
  cases h with
  | publish t working =>
    obtain ⟨e, he⟩ := Table.contains_iff.1 hid
    exact Table.contains_of_find? (Transaction.find?_publish_iff.2 ⟨e, he, rfl⟩)
  | work c t t' working call effect => rwa [effect.entries]
  | _ => exact hid

/-- Only publishing changes what is committed. -/
theorem Change.entries (h : Change x s a x' s') (ha : a ≠ .publish) : s'.entries = s.entries := by
  cases h with
  | publish => exact absurd rfl ha
  | work c t t' working call effect => exact effect.entries
  | _ => rfl

/-! ### The invariant -/

namespace Shared

/-- **The invariant of a shared store.** The locks of the store are those of its transactions, no
two of which have one in common, and each transaction writes only what it has locked. -/
structure Sound (w : Shared) : Prop where
  keyed : w.store.Keyed
  locked_iff : ∀ {id}, w.store.locked.contains id ↔ ∃ tx, w.Holds tx id
  exclusive : ∀ {tx tx' id}, w.Holds tx id → w.Holds tx' id → tx = tx'
  known : ∀ {tx id}, w.Holds tx id → w.store.entries.contains id
  confined : ∀ {tx}, Session.Confined (w.sessions.find? tx)

variable {w : Shared} {tx tx' : TxId}

theorem sound_empty : empty.Sound where
  keyed := Store.keyed_empty
  locked_iff := ⟨nofun, fun ⟨_, _, h, _⟩ => nomatch h⟩
  exclusive := fun ⟨_, h, _⟩ => nomatch h
  known := fun ⟨_, h, _⟩ => nomatch h
  confined _ h := nomatch h

theorem holds_put_self : (w.put tx (x, s)).Holds tx id ↔ Session.Has x id := by
  unfold Holds
  rw [find?_put_self]

theorem holds_put_of_ne (h : tx ≠ tx') : (w.put tx (x, s)).Holds tx' id ↔ w.Holds tx' id := by
  unfold Holds
  rw [find?_put_of_ne _ h]

theorem Sound.put (hw : w.Sound) (h : Change (w.sessions.find? tx) w.store a x' s') :
    (w.put tx (x', s')).Sound := by
  have own : ∀ {id}, Session.Has (w.sessions.find? tx) id → w.store.locked.contains id :=
    fun hid => hw.locked_iff.2 ⟨tx, hid⟩
  -- a rollout that another transaction holds is neither held nor newly locked by this one
  have other : ∀ {tx' id}, tx ≠ tx' → w.Holds tx' id → ¬ Session.Has x' id := by
    intro tx' id hne hother hnew
    have hlocked := hw.locked_iff.2 ⟨tx', hother⟩
    by_cases hold : Session.Has (w.sessions.find? tx) id
    · exact hne (hw.exclusive hold hother)
    · rw [(h.free_of_new hnew hold).2] at hlocked
      cases hlocked
  refine ⟨?_, fun {id} => ?_, fun {tx₁ tx₂ id} h₁ h₂ => ?_, fun {tx' id} hid => ?_,
    fun {tx'} => ?_⟩
  · rw [store_put]
    exact h.keyed hw.keyed hw.confined
  · rw [store_put, h.locked_iff own]
    constructor
    · rintro (hid | ⟨hlocked, hnot⟩)
      · exact ⟨tx, holds_put_self.2 hid⟩
      · obtain ⟨tx', htx'⟩ := hw.locked_iff.1 hlocked
        have hne : tx ≠ tx' := fun heq => hnot (heq ▸ htx')
        exact ⟨tx', (holds_put_of_ne hne).2 htx'⟩
    · rintro ⟨tx', htx'⟩
      by_cases hne : tx = tx'
      · exact .inl (holds_put_self.1 (hne ▸ htx'))
      · have hold := (holds_put_of_ne hne).1 htx'
        exact .inr ⟨hw.locked_iff.2 ⟨tx', hold⟩, fun hown => hne (hw.exclusive hown hold)⟩
  · by_cases hne₁ : tx = tx₁ <;> by_cases hne₂ : tx = tx₂
    · exact hne₁.symm.trans hne₂
    · exact absurd (holds_put_self.1 (hne₁ ▸ h₁)) (other hne₂ ((holds_put_of_ne hne₂).1 h₂))
    · exact absurd (holds_put_self.1 (hne₂ ▸ h₂)) (other hne₁ ((holds_put_of_ne hne₁).1 h₁))
    · exact hw.exclusive ((holds_put_of_ne hne₁).1 h₁) ((holds_put_of_ne hne₂).1 h₂)
  · rw [store_put]
    by_cases hne : tx = tx'
    · by_cases hold : Session.Has (w.sessions.find? tx) id
      · exact h.contains_entries (hw.known hold)
      · exact h.contains_entries (h.free_of_new (holds_put_self.1 (hne ▸ hid)) hold).1
    · exact h.contains_entries (hw.known ((holds_put_of_ne hne).1 hid))
  · by_cases hne : tx = tx'
    · rw [← hne, find?_put_self]
      exact h.confined hw.confined
    · rw [find?_put_of_ne _ hne]
      exact hw.confined

/-- What the stroke of a transaction does to a shared store is a change of the one and the other. -/
theorem Sound.step_act (hw : w.Sound) (tx : TxId) (a : Act) : ∃ x' s',
    w.step (.act tx a) = w.put tx (x', s') ∧ Change (w.sessions.find? tx) w.store a x' s' :=
  ⟨_, _, rfl, Session.change_act hw.keyed hw.confined a⟩

theorem locked_create (s : Store) (d : Deployment) (devices : List EnrolledDevice) :
    (s.create d devices).2.locked = s.locked := by
  rcases s.create_cases d devices with ⟨error, h⟩ | ⟨-, table, -, h⟩ <;> rw [h]

theorem contains_create (hid : s.entries.contains id) (d : Deployment)
    (devices : List EnrolledDevice) : (s.create d devices).2.entries.contains id := by
  unfold Table.contains
  rwa [Store.find?_create_of_contains hid]

theorem Sound.step (hw : w.Sound) (m : Stroke) : (w.step m).Sound := by
  cases m with
  | act tx a =>
    obtain ⟨x', s', hstep, change⟩ := hw.step_act tx a
    rw [hstep]
    exact hw.put change
  | create d devices =>
    refine ⟨Store.keyed_create hw.keyed d devices, fun {id} => ?_, hw.exclusive,
      fun {tx id} hid => contains_create (hw.known hid) d devices, hw.confined⟩
    show (w.store.create d devices).2.locked.contains id ↔ _
    rw [locked_create]
    exact hw.locked_iff

theorem sound_after (h : List Stroke) : (after h).Sound := by
  induction h with
  | nil => exact sound_empty
  | cons m h ih => exact ih.step m

end Shared

/-! ### What a transaction is given -/

/-- The records that a call hands out together with their locks. -/
def Call.rows : (c : Call) → c.Result → List Deployment
  | .claimDue .., .ok ds => ds
  | .lockedGet _, .ok d => Option.toList d
  | _, _ => []

/-- The rollouts that a call gives to its transaction: those it hands out, and the one it writes. -/
def Call.given : (c : Call) → c.Result → List DeploymentId
  | .update _, .ok d => [Deployment.id d]
  | c, r => (c.rows r).map (·.id)

/-- What a call gives to its transaction is locked by it from then on. -/
theorem Transaction.held_of_given {t : Transaction} (hs : s.Keyed) (ht : t.Confined)
    {clock : Instant} {c : Call} {r : c.Result} {left : Option Transaction}
    (h : t.perform s clock c = some (r, s', left)) (hid : id ∈ c.given r) :
    ∃ t', left = some t' ∧ t'.held.contains id := by
  cases c with
  | claimDue limit now =>
    simp only [perform, claimDue, foldl_lock] at h
    cases h
    exact ⟨_, rfl, (IdSet.contains_addAll _ _ _).2 (.inl hid)⟩
  | lockedGet id' =>
    simp only [perform] at h
    split at h
    · cases h
      cases hid
    · cases h
    · cases h
      obtain ⟨d, hd, rfl⟩ := List.mem_map.1 hid
      have hview : t.view s id' = some d := by
        have := Option.mem_toList.1 hd
        exact this
      refine ⟨_, rfl, ?_⟩
      rw [id_of_view hs ht hview]
      exact Table.contains_insert.2 (.inl rfl)
  | update d =>
    simp only [perform] at h
    split at h
    · cases h
      cases hid
    · cases h
    · cases h
      obtain rfl := List.mem_singleton.1 hid
      exact ⟨_, rfl, Table.contains_insert.2 (.inl rfl)⟩
  | recordOutcome id' eui outcome message => cases hid
  | _ => cases hid

namespace Shared

/-- The rollouts that a stroke gives to the transaction `tx`. -/
def gives (w : Shared) (tx : TxId) : Stroke → List DeploymentId
  | .act tx' (.call clock c) =>
    if tx' = tx then
      match Session.answer (w.sessions.find? tx) w.store clock c with
      | some r => c.given r
      | none => []
    else []
  | _ => []

/-- The rollouts that the transaction `tx` was given since it began; none if it has ended. -/
def given (tx : TxId) : List Stroke → List DeploymentId
  | [] => []
  | m :: h =>
    if (after (m :: h)).sessions.contains tx then (after h).gives tx m ++ given tx h else []

variable {w : Shared} {tx tx' : TxId}

/-- A transaction keeps its locks until it ends. -/
theorem Sound.holds_step (hw : w.Sound) (hid : w.Holds tx id) (m : Stroke)
    (live : (w.step m).sessions.contains tx) : (w.step m).Holds tx id := by
  cases m with
  | create d devices => exact hid
  | act tx' a =>
    by_cases hne : tx' = tx
    · subst hne
      obtain ⟨x', s', hstep, change⟩ := hw.step_act tx' a
      rw [hstep, Table.contains, find?_put_self] at live
      rw [hstep, holds_put_self]
      obtain ⟨y, hy, hheld⟩ := hid
      rw [hy] at change
      cases change with
      | nothing => exact ⟨y, rfl, hheld⟩
      | begin absent => cases absent
      | work c t t' working call effect =>
        cases working
        exact ⟨_, rfl, effect.held_mono hheld⟩
      | publish t working =>
        cases working
        exact ⟨_, rfl, hheld⟩
      | leave => cases live
    · exact (holds_put_of_ne hne).2 hid

theorem Sound.holds_of_gives (hw : w.Sound) {m : Stroke} (hid : id ∈ w.gives tx m) :
    (w.step m).Holds tx id := by
  cases m with
  | create d devices => cases hid
  | act tx' a =>
    cases a with
    | call clock c =>
      simp only [gives] at hid
      split at hid
      · next heq =>
        subst heq
        split at hid
        · next r hr =>
          unfold Session.answer at hr
          split at hr
          · next t ht =>
            obtain ⟨⟨r, s', left⟩, hperform, rfl⟩ := Option.map_eq_some_iff.1 hr
            obtain ⟨t', rfl, hheld⟩ :=
              Transaction.held_of_given hw.keyed (hw.confined t ht) hperform hid
            unfold Shared.step
            rw [holds_put_self, ht]
            simp only [Session.act, hperform]
            exact ⟨_, rfl, hheld⟩
          · cases hr
        · cases hid
      · cases hid
    | _ => cases hid

theorem holds_of_given {h : List Stroke} (hid : id ∈ given tx h) : (after h).Holds tx id := by
  induction h with
  | nil => cases hid
  | cons m h ih =>
    unfold given at hid
    split at hid
    · next live =>
      rcases List.mem_append.1 hid with hid | hid
      · exact (sound_after h).holds_of_gives hid
      · exact (sound_after h).holds_step (ih hid) m live
    · cases hid

/-- **Locks exclude.** In every history: the locks of the store are those of the open transactions;
no two of these hold the same rollout; what a transaction has written, it holds; when it leaves, what
it held is locked by nobody; no two open transactions were given the same rollout; and without open
transactions nothing is locked. -/
theorem locks_exclude (h : List Stroke) :
    (∀ id, (after h).store.locked.contains id ↔ ∃ tx, (after h).Holds tx id) ∧
    (∀ tx tx' id, (after h).Holds tx id → (after h).Holds tx' id → tx = tx') ∧
    (∀ tx t, (after h).sessions.find? tx = some (.working t) →
      ∀ id, t.staging.deployments.contains id → t.held.contains id) ∧
    (∀ tx, (∀ id, ¬ (after (.act tx .leave :: h)).Holds tx id) ∧
      ∀ id, (after h).Holds tx id →
        (after (.act tx .leave :: h)).store.locked.contains id = false) ∧
    (∀ tx tx' id, id ∈ given tx h → id ∈ given tx' h → tx = tx') ∧
    ((∀ tx, (after h).sessions.find? tx = none) →
      ∀ id, (after h).store.locked.contains id = false) := by
  have sound := sound_after h
  have gone : ∀ tx id, ¬ (after (.act tx .leave :: h)).Holds tx id := by
    intro tx id hid
    have hid : (Shared.step _ _).Holds tx id := hid
    unfold Shared.step at hid
    rw [holds_put_self] at hid
    cases hx : (after h).sessions.find? tx <;> exact absurd (hx ▸ hid) nofun
  refine ⟨fun id => sound.locked_iff, fun tx tx' id => sound.exclusive,
    fun tx t ht id hid => ?_, fun tx => ⟨gone tx, fun id hid => ?_⟩,
    fun tx tx' id hid hid' => sound.exclusive (holds_of_given hid) (holds_of_given hid'),
    fun none id => ?_⟩
  · obtain ⟨d, hd⟩ := Table.contains_iff.1 hid
    exact (sound.confined t ht).staging.held hd
  · refine Bool.eq_false_iff.2 fun hlocked => ?_
    obtain ⟨tx', htx'⟩ := (sound_after (.act tx .leave :: h)).locked_iff.1 hlocked
    by_cases hne : tx = tx'
    · exact gone tx id (hne ▸ htx')
    · exact hne (sound.exclusive hid ((holds_put_of_ne hne).1 htx'))
  · refine Bool.eq_false_iff.2 fun hlocked => ?_
    obtain ⟨tx, y, hy, -⟩ := sound.locked_iff.1 hlocked
    rw [none tx] at hy
    cases hy

end Shared

end FirmwareRollout
