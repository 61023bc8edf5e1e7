import FirmwareRollout.Proofs.Store.Versions

/-!
Claiming what is due. The rollouts that a transaction may claim are described without the code
(`Shared.Claimable`), and a claim gives the first of them in the order of their times and
identifiers. There is one list of them in that order, whatever order their identifiers are found in
(`Transaction.dueAmong_eq_due`), since the order is strict on rollouts of different identifiers.

Main statement: `Shared.claim_is_due_selection`.
-/

namespace FirmwareRollout

/-! ### The order -/

/-- A strict order leaves one list with the same members. -/
theorem eq_of_ordered {α : Type} {before : α → α → Prop} {as bs : List α}
    (asymm : ∀ {a b}, before a b → ¬ before b a) (ha : as.Pairwise before) (hb : bs.Pairwise before)
    (same : ∀ a, a ∈ as ↔ a ∈ bs) : as = bs := by
  have nodup : ∀ {as : List α}, as.Pairwise before → as.Nodup := by
    refine fun h => h.imp fun {a b} hab heq => ?_
    subst heq
    exact asymm hab hab
  exact List.Perm.eq_of_pairwise (fun a b _ _ hab hba => absurd hba (asymm hab)) ha hb
    ((List.perm_ext_iff_of_nodup (nodup ha) (nodup hb)).2 same)

namespace Deployment

/-- `a` comes before `b`: its time is earlier, or it is the same and its identifier is smaller. -/
def Before (a b : Deployment) : Prop :=
  ¬ b.progress.nextStepAfter ≤ a.progress.nextStepAfter ∨
    a.progress.nextStepAfter = b.progress.nextStepAfter ∧ rank a.id < rank b.id

variable {a b c : Deployment}

theorem dueBefore_iff : dueBefore a b ↔ a.progress.nextStepAfter ≤ b.progress.nextStepAfter ∧
    (b.progress.nextStepAfter ≤ a.progress.nextStepAfter → rank a.id ≤ rank b.id) := by
  simp only [dueBefore, Bool.and_eq_true, Bool.or_eq_true, decide_eq_true_eq, Bool.not_eq_true',
    decide_eq_false_iff_not, Decidable.imp_iff_not_or]

theorem dueBefore_total (a b : Deployment) : dueBefore a b || dueBefore b a := by
  rw [Bool.or_eq_true, dueBefore_iff, dueBefore_iff]
  rcases Nat.le_total (rank a.id) (rank b.id) with hid | hid
  · by_cases hab : a.progress.nextStepAfter ≤ b.progress.nextStepAfter
    · exact .inl ⟨hab, fun _ => hid⟩
    · exact .inr ⟨(Instant.le_total _ _).resolve_left hab, fun h => absurd h hab⟩
  · by_cases hba : b.progress.nextStepAfter ≤ a.progress.nextStepAfter
    · exact .inr ⟨hba, fun _ => hid⟩
    · exact .inl ⟨(Instant.le_total _ _).resolve_right hba, fun h => absurd h hba⟩

theorem dueBefore_trans (hab : dueBefore a b) (hbc : dueBefore b c) : dueBefore a c := by
  rw [dueBefore_iff] at *
  refine ⟨Instant.le_trans hab.1 hbc.1, fun hca => ?_⟩
  exact Nat.le_trans (hab.2 (Instant.le_trans hbc.1 hca)) (hbc.2 (Instant.le_trans hca hab.1))

theorem before_of_dueBefore (h : dueBefore a b) (hne : a.id ≠ b.id) : Before a b := by
  rw [dueBefore_iff] at h
  by_cases hba : b.progress.nextStepAfter ≤ a.progress.nextStepAfter
  · have hlt : rank a.id < rank b.id := Nat.lt_of_le_of_ne (h.2 hba) fun heq => hne (rank_inj heq)
    exact .inr ⟨Instant.le_antisymm h.1 hba, hlt⟩
  · exact .inl hba

theorem Before.asymm (hab : Before a b) : ¬ Before b a := by
  rintro (hba | ⟨heq, hba⟩)
  · rcases hab with hab | ⟨heq, -⟩
    · exact (Instant.le_total _ _).elim hba hab
    · exact hba (heq ▸ Instant.le_refl _)
  · rcases hab with hab | ⟨-, hab⟩
    · exact hab (heq ▸ Instant.le_refl _)
    · exact Nat.lt_asymm hab hba

/-- **There is one list** of some rollouts in this order. -/
theorem eq_of_before {ds es : List Deployment} (hd : ds.Pairwise Before) (he : es.Pairwise Before)
    (same : ∀ d, d ∈ ds ↔ d ∈ es) : ds = es := eq_of_ordered Before.asymm hd he same

end Deployment

/-! ### What is due, however it is found -/

namespace Transaction

variable {s : Store} {t : Transaction} {ids : List DeploymentId} {now : Instant}

/-- The rollouts that the transaction may take, found among the identifiers in the given order. -/
def dueAmong (ids : List DeploymentId) (s : Store) (t : Transaction) (now : Instant) :
    List Deployment :=
  (((ids.filter fun id => t.held.contains id || !s.locked.contains id).filterMap
    (t.view s)).filter fun d => d.isDue now).mergeSort Deployment.dueBefore

/-- What is due comes once. -/
theorem nodup_dueAmong (hs : s.Keyed) (ht : t.Confined) (hids : ids.Nodup) (now : Instant) :
    ((dueAmong ids s t now).map (·.id)).Nodup := by
  have seen : ∀ ids : List DeploymentId, ((ids.filterMap (t.view s)).map (·.id)).Sublist ids := by
    intro ids
    induction ids with
    | nil => exact .slnil
    | cons id ids ih =>
      cases view : t.view s id with
      | none =>
        rw [List.filterMap_cons_none view]
        exact ih.cons id
      | some d =>
        rw [List.filterMap_cons_some view, List.map_cons, id_of_view hs ht view]
        exact ih.cons_cons id
  unfold dueAmong
  refine ((List.mergeSort_perm _ _).map _).nodup_iff.2 ?_
  have free : (ids.filter fun id => t.held.contains id || !s.locked.contains id).Nodup :=
    hids.sublist List.filter_sublist
  exact free.sublist ((List.filter_sublist.map _).trans (seen _))

theorem nodup_due (hs : s.Keyed) (ht : t.Confined) (now : Instant) :
    ((due s t now).map (·.id)).Nodup :=
  nodup_dueAmong hs ht (Table.nodup_keys _) now

theorem pairwise_dueAmong (hs : s.Keyed) (ht : t.Confined) (hids : ids.Nodup) (now : Instant) :
    (dueAmong ids s t now).Pairwise Deployment.Before := by
  have sorted : (dueAmong ids s t now).Pairwise fun a b => Deployment.dueBefore a b :=
    @List.pairwise_mergeSort _ Deployment.dueBefore
      (fun _ _ _ => Deployment.dueBefore_trans) Deployment.dueBefore_total _
  have distinct := List.pairwise_map.1 (nodup_dueAmong hs ht hids now)
  exact (sorted.and distinct).imp fun ⟨hle, hne⟩ => Deployment.before_of_dueBefore hle hne

theorem pairwise_due (hs : s.Keyed) (ht : t.Confined) (now : Instant) :
    (due s t now).Pairwise Deployment.Before :=
  pairwise_dueAmong hs ht (Table.nodup_keys _) now

theorem mem_dueAmong_iff (known : ∀ id, id ∈ ids ↔ s.entries.contains id) {d : Deployment} :
    d ∈ dueAmong ids s t now ↔ d ∈ due s t now := by
  simp only [due, dueAmong, List.mem_mergeSort, List.mem_filter, List.mem_filterMap, known,
    Table.mem_keys_iff]

/-- **The order of the search does not matter.** -/
theorem dueAmong_eq_due (hs : s.Keyed) (ht : t.Confined) (hids : ids.Nodup)
    (known : ∀ id, id ∈ ids ↔ s.entries.contains id) : dueAmong ids s t now = due s t now :=
  Deployment.eq_of_before (pairwise_dueAmong hs ht hids now) (pairwise_due hs ht now) fun _ =>
    mem_dueAmong_iff known

/-- What a claim gives, and what it locks. -/
theorem perform_claim (t : Transaction) (s : Store) (clock : Instant) (limit : UInt32)
    (now : Instant) : t.perform s clock (.claimDue limit now) =
      let claimed := (due s t now).take limit.toNat
      some (.ok claimed, { s with locked := s.locked.addAll (claimed.map (·.id)) },
        some { t with held := t.held.addAll (claimed.map (·.id)) }) := by
  simp only [perform, claimDue, foldl_lock]

end Transaction

/-! ### The order of creation -/

namespace Store

variable {s s' : Store} {id : DeploymentId} {d d' : Deployment}
  {devices devices' : List EnrolledDevice}

theorem ext (entries : s.entries = s'.entries) (locked : s.locked = s'.locked) : s = s' := by
  cases s
  cases s'
  exact congr (congrArg Store.mk entries) locked

theorem find?_create_of_ne (h : d.id ≠ id) :
    (s.create d devices).2.entries.find? id = s.entries.find? id := by
  rcases s.create_cases d devices with ⟨error, hcreate⟩ | ⟨-, table, -, hcreate⟩ <;> rw [hcreate]
  exact Table.find?_insert_of_ne _ _ h

/-- What a new rollout becomes depends on what stands under its identifier only. -/
theorem find?_create_self (same : s.entries.find? d.id = s'.entries.find? d.id) :
    (s.create d devices).2.entries.find? d.id = (s'.create d devices).2.entries.find? d.id := by
  unfold create Table.contains
  rw [same]
  split
  · exact same
  · cases enrolAll d.id d.createdAt devices with
    | error eui => exact same
    | ok table => rw [Table.find?_insert_self, Table.find?_insert_self]

theorem create_comm (h : d.id ≠ d'.id) : ((s.create d devices).2.create d' devices').2 =
    ((s.create d' devices').2.create d devices).2 := by
  have entries : ((s.create d devices).2.create d' devices').2.entries =
      ((s.create d' devices').2.create d devices).2.entries := by
    refine Table.ext fun id => ?_
    by_cases hd : d.id = id
    · subst hd
      rw [find?_create_of_ne h.symm]
      exact find?_create_self (find?_create_of_ne h.symm).symm
    · rw [find?_create_of_ne hd]
      by_cases hd' : d'.id = id
      · subst hd'
        exact find?_create_self (find?_create_of_ne h)
      · rw [find?_create_of_ne hd', find?_create_of_ne hd', find?_create_of_ne hd]
  have locked : ((s.create d devices).2.create d' devices').2.locked =
      ((s.create d' devices').2.create d devices).2.locked := by
    simp only [Shared.locked_create]
  exact ext entries locked

end Store

namespace Shared

/-- The creation of several rollouts, the latest first. -/
def creations (news : List (Deployment × List EnrolledDevice)) : List Stroke :=
  news.map fun new => .create new.1 new.2

/-- **Rollouts may be created in any order.** -/
theorem run_creations {news news' : List (Deployment × List EnrolledDevice)}
    (perm : news.Perm news') (distinct : (news.map (·.1.id)).Nodup) (w : Shared) :
    w.run (creations news) = w.run (creations news') := by
  induction perm with
  | nil => rfl
  | cons new perm ih =>
    exact congrArg (step · (.create new.1 new.2)) (ih (List.nodup_cons.1 distinct).2)
  | swap a b news =>
    have hne : a.1.id ≠ b.1.id := fun heq =>
      (List.nodup_cons.1 distinct).1 (List.mem_cons.2 (.inl heq.symm))
    exact congrArg (Shared.mk · _) (Store.create_comm hne)
  | trans perm _ ih ih' =>
    exact (ih distinct).trans (ih' ((perm.map _).nodup_iff.1 distinct))

/-! ### A claim -/

/-- **A rollout that the transaction `tx` may claim**: it is stored and no other transaction has
locked it, and what `tx` sees of it is not over, has a multicast group, and its time has come. -/
structure Claimable (w : Shared) (tx : TxId) (t : Transaction) (now : Instant) (d : Deployment) :
    Prop where
  stored : w.store.entries.contains d.id
  unlocked : ∀ tx', w.Holds tx' d.id → tx' = tx
  seen : t.view w.store d.id = some d
  unfinished : d.progress.stage ≠ .done
  grouped : d.plan.group ≠ none
  due : d.progress.nextStepAfter ≤ now

/-- **All that a claim changes**: the transaction `tx` has locked the rollouts as well. -/
structure LocksAlso (w w' : Shared) (tx : TxId) (t : Transaction) (ids : List DeploymentId) :
    Prop where
  entries : w'.store.entries = w.store.entries
  locked : ∀ id, w'.store.locked.contains id ↔ id ∈ ids ∨ w.store.locked.contains id
  own : ∃ t', w'.sessions.find? tx = some (.working t') ∧ t'.staging = t.staging ∧
    t'.saved = t.saved ∧ ∀ id, t'.held.contains id ↔ id ∈ ids ∨ t.held.contains id
  others : ∀ tx', tx ≠ tx' → w'.sessions.find? tx' = w.sessions.find? tx'

variable {w : Shared} {tx : TxId} {t : Transaction} {now clock : Instant}

theorem Sound.free_iff (hw : w.Sound) (live : w.sessions.find? tx = some (.working t))
    {id : DeploymentId} : Transaction.Free w.store t id ↔
      w.store.entries.contains id ∧ ∀ tx', w.Holds tx' id → tx' = tx := by
  have own : t.held.contains id ↔ w.Holds tx id := by
    unfold Holds Session.Has
    simp [live, Session.held]
  refine and_congr_right fun _ => ⟨fun free tx' other => ?_, fun only => ?_⟩
  · rcases free with held | free
    · exact hw.exclusive other (own.1 held)
    · rw [hw.locked_iff.2 ⟨tx', other⟩] at free
      cases free
  · cases locked : w.store.locked.contains id with
    | false => exact .inr rfl
    | true =>
      obtain ⟨tx', other⟩ := hw.locked_iff.1 locked
      exact .inl (own.2 (only tx' other ▸ other))

theorem Sound.mem_due_iff (hw : w.Sound) (live : w.sessions.find? tx = some (.working t))
    {d : Deployment} : d ∈ Transaction.due w.store t now ↔ w.Claimable tx t now d := by
  have due_iff : d.isDue now ↔ d.progress.stage ≠ .done ∧ d.plan.group ≠ none ∧
      d.progress.nextStepAfter ≤ now := by
    cases hstage : d.progress.stage <;>
      simp [Deployment.isDue, Stage.isTerminal, hstage, Option.isSome_iff_ne_none]
  rw [Transaction.mem_due_iff]
  constructor
  · rintro ⟨id, free, seen, due⟩
    obtain rfl := Transaction.id_of_view hw.keyed (hw.confined t live) seen
    obtain ⟨stored, unlocked⟩ := (hw.free_iff live).1 free
    obtain ⟨unfinished, grouped, time⟩ := due_iff.1 due
    exact ⟨stored, unlocked, seen, unfinished, grouped, time⟩
  · intro h
    exact ⟨d.id, (hw.free_iff live).2 ⟨h.stored, h.unlocked⟩, h.seen,
      due_iff.2 ⟨h.unfinished, h.grouped, h.due⟩⟩

theorem locksAlso_claim (live : w.sessions.find? tx = some (.working t)) (limit : UInt32) :
    w.LocksAlso (w.step (.act tx (.call clock (.claimDue limit now)))) tx t
      (((Transaction.due w.store t now).take limit.toNat).map (·.id)) := by
  rw [step, live]
  simp only [Session.act, Transaction.perform_claim]
  refine ⟨?_, fun id => ?_, ⟨_, find?_put_self _ _ _ _, rfl, rfl, fun id => ?_⟩,
    fun tx' hne => find?_put_of_ne _ hne _ _⟩
  · rw [store_put]
  · rw [store_put]
    exact IdSet.contains_addAll _ _ _
  · exact IdSet.contains_addAll _ _ _

/-- **A claim is the selection of what is due.** In every history, for every transaction at work:
there is one list of the rollouts that it may claim, each once, by time and identifier. A claim
gives its first rollouts, as many as asked for if there are as many, and locks them and changes
nothing else. The list is the same in whatever order the store's rollouts are looked through, and in
whatever order they were created. -/
theorem claim_is_due_selection (h : List Stroke) (tx : TxId) (t : Transaction)
    (live : (after h).sessions.find? tx = some (.working t)) (clock now : Instant)
    (limit : UInt32) : ∃ claimable : List Deployment,
    (∀ d, d ∈ claimable ↔ (after h).Claimable tx t now d) ∧
    claimable.Pairwise Deployment.Before ∧ (claimable.map (·.id)).Nodup ∧
    (∀ ds : List Deployment, (∀ d, d ∈ ds ↔ (after h).Claimable tx t now d) →
      ds.Pairwise Deployment.Before → ds = claimable) ∧
    Session.answer ((after h).sessions.find? tx) (after h).store clock (.claimDue limit now) =
      some (.ok (claimable.take limit.toNat)) ∧
    (after h).LocksAlso (after (.act tx (.call clock (.claimDue limit now)) :: h)) tx t
      ((claimable.take limit.toNat).map (·.id)) ∧
    (∀ ids : List DeploymentId, ids.Nodup →
      (∀ id, id ∈ ids ↔ (after h).store.entries.contains id) →
      Transaction.dueAmong ids (after h).store t now = claimable) ∧
    ∀ later earlier news news', h = later ++ creations news ++ earlier → news.Perm news' →
      (news.map (·.1.id)).Nodup → after (later ++ creations news' ++ earlier) = after h := by
  have sound := sound_after h
  have confined := sound.confined t live
  have sorted := Transaction.pairwise_due sound.keyed confined now
  refine ⟨Transaction.due (after h).store t now, fun d => sound.mem_due_iff live, sorted,
    Transaction.nodup_due sound.keyed confined now, fun ds members ordered => ?_, ?_,
    locksAlso_claim live limit,
    fun ids hids known => Transaction.dueAmong_eq_due sound.keyed confined hids known, ?_⟩
  · exact Deployment.eq_of_before ordered sorted fun d =>
      (members d).trans (sound.mem_due_iff live).symm
  · rw [live]
    simp only [Session.answer, Transaction.perform_claim, Option.map_some]
  · rintro later earlier news news' rfl perm distinct
    unfold after
    rw [List.append_assoc, List.append_assoc, run_append, run_append, run_append, run_append,
      run_creations perm distinct]

/-- A rollout that is not due before the last instant. -/
def lateSample : Deployment :=
  { Deployment.sample with
    id := ⟨Vector.replicate 16 2⟩, progress := ⟨.multicastSetup, .last, 0⟩ }

/-- A history in which one transaction has claimed what was due, and another one begins. -/
def contended : List Stroke :=
  [.act 1 .begin, .act 0 (.call .epoch (.claimDue 10 .epoch)), .act 0 .begin,
    .create lateSample [], .create .sample []]

theorem claim_of_contended :
    (after contended).sessions.find? 1 = some (.working .fresh) ∧
    (after contended).Claimable 1 .fresh .last lateSample ∧
    ¬ (after contended).Claimable 1 .fresh .last .sample ∧
    (after contended).LocksAlso
      (after (.act 1 (.call .epoch (.claimDue 10 .last)) :: contended)) 1 .fresh
      [lateSample.id] := by
  have live : (after contended).sessions.find? 1 = some (.working .fresh) := by decide +kernel
  have due : Transaction.due (after contended).store .fresh .last = [lateSample] := by
    decide +kernel
  obtain ⟨claimable, members, sorted, -, unique, -, locks, -⟩ :=
    claim_is_due_selection contended 1 .fresh live .epoch .last 10
  have listed : [lateSample] = claimable := by
    refine unique _ (fun d => ?_) (List.pairwise_singleton _ _)
    rw [← due]
    exact (sound_after contended).mem_due_iff live
  subst listed
  refine ⟨live, (members _).1 List.mem_cons_self, fun claimable => ?_, locks⟩
  have same := List.mem_singleton.1 ((members _).2 claimable)
  exact absurd same (by decide)

end Shared

end FirmwareRollout
