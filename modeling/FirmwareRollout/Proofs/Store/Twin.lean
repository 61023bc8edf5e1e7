import FirmwareRollout.Proofs.Store.Versions

/-!
Transactions that no call can tell apart. Calls are compared that are made at different times, so
that all comparisons are of what is `unstamped`. Two transactions and their stores are `Twin` if,
but for stamps and locks, the same is committed, staged and marked; where nobody else has locks
(`Alone`), no call tells twins apart, and so no sequence of calls does.

Main statements: `Twin.perform`, `Twin.indistinct`.
-/

namespace FirmwareRollout

/-! ### Stamps aside -/

/-- A rollout without the time of its last update. -/
def Deployment.unstamped (d : Deployment) : Deployment := { d with updatedAt := .epoch }

/-- A device without the time of its last update. -/
def Participant.unstamped (p : Participant) : Participant := { p with updatedAt := .epoch }

def Entry.unstamped (e : Entry) : Entry :=
  ⟨e.deployment.unstamped, e.participants.map fun _ p => p.unstamped⟩

def Store.unstamped (s : Store) : Store := { s with entries := s.entries.map fun _ e => e.unstamped }

def StagedOutcome.unstamped (o : StagedOutcome) : StagedOutcome := { o with stamp := .epoch }

def Staging.unstamped (g : Staging) : Staging :=
  ⟨g.deployments.map fun _ d => d.unstamped, g.outcomes.map fun _ o => o.unstamped⟩

theorem Staging.find?_deployments_unstamped {g g' : Staging} (same : g'.unstamped = g.unstamped)
    (id : DeploymentId) : (g'.deployments.find? id).map Deployment.unstamped =
      (g.deployments.find? id).map Deployment.unstamped := by
  have same := congrArg (fun g => g.deployments.find? id) same
  simpa only [unstamped, Table.find?_map] using same

theorem Staging.find?_outcomes_unstamped {g g' : Staging} (same : g'.unstamped = g.unstamped)
    (k : DeploymentId × DevEui) : (g'.outcomes.find? k).map StagedOutcome.unstamped =
      (g.outcomes.find? k).map StagedOutcome.unstamped := by
  have same := congrArg (fun g => g.outcomes.find? k) same
  simpa only [unstamped, Table.find?_map] using same

/-- Is the call about the savepoint? -/
def Call.isSavepoint : Call → Bool
  | savepoint | rollbackToSavepoint | releaseSavepoint => true
  | _ => false

/-- What a call comes to, without stamps. -/
def Call.unstamped : (c : Call) → c.Result → c.Result
  | .lockedGet _, r => Except.map (Option.map Deployment.unstamped) r
  | .claimDue .., r => Except.map (List.map Deployment.unstamped) r
  | .update _, r => Except.map Deployment.unstamped r
  | .begin, r | .recordOutcome .., r | .pendingDevices _, r | .failPending .., r | .savepoint, r
  | .rollbackToSavepoint, r | .releaseSavepoint, r | .commit, r | .rollback, r => r

/-! ### Sequences of calls -/

/-- A call that was made and what it came to. -/
structure Answered where
  call : Call
  result : call.Result

def Answered.unstamped (a : Answered) : Answered := ⟨a.call, a.call.unstamped a.result⟩

namespace Transaction

/-- Makes calls one after the other, each with what the clock reads then: what they come to, and
what they leave. There is nothing if one of them has to wait or ends the transaction. -/
def performAll : List (Instant × Call) → Store × Transaction →
    Option (List Answered × Store × Transaction)
  | [], x => some ([], x)
  | (clock, c) :: calls, x =>
    match x.2.perform x.1 clock c with
    | some (r, s, some t) =>
      (performAll calls (s, t)).map fun left => (⟨c, r⟩ :: left.1, left.2)
    | _ => none

theorem performAll_append (calls later : List (Instant × Call)) (x : Store × Transaction) :
    performAll (calls ++ later) x = (performAll calls x).bind fun first =>
      (performAll later first.2).map fun second => (first.1 ++ second.1, second.2) := by
  induction calls generalizing x with
  | nil => simp [performAll]
  | cons call calls ih =>
    obtain ⟨clock, c⟩ := call
    rw [List.cons_append, performAll, performAll]
    split
    · rw [ih, Option.map_bind, Option.bind_map]
      congr 1
      funext y
      simp [Function.comp_def, Option.map_map]
    · rfl

/-- The same calls, each made at some other time. -/
def SameCalls (calls calls' : List (Instant × Call)) : Prop := calls'.map (·.2) = calls.map (·.2)

/-- The same calls on both, whenever they are made, come to the same, without stamps, and so does
what is stored if the transaction commits then. -/
def Indistinct (x y : Store × Transaction) : Prop :=
  ∀ calls calls', SameCalls calls calls' → Option.Rel
    (fun a b => b.1.map Answered.unstamped = a.1.map Answered.unstamped ∧
      (commit b.2.1 b.2.2).unstamped = (commit a.2.1 a.2.2).unstamped)
    (performAll calls x) (performAll calls' y)

variable {s s' : Store} {t t' : Transaction} {id : DeploymentId}

theorem unstamped_write (t : Transaction) (d : Deployment) : (t.write d).staging.unstamped =
    ⟨t.staging.unstamped.deployments.insert d.id d.unstamped, t.staging.unstamped.outcomes⟩ := by
  unfold write Staging.unstamped
  rw [Table.map_insert]

theorem unstamped_stage (t : Transaction) (id : DeploymentId) (eui : DevEui) (o : StagedOutcome) :
    (t.stage id eui o).staging.unstamped =
      ⟨t.staging.unstamped.deployments,
        t.staging.unstamped.outcomes.insert (id, eui) o.unstamped⟩ := by
  unfold stage Staging.unstamped
  rw [Table.map_insert]

/-- Which state a device is in for a transaction has nothing to do with stamps. -/
theorem deviceState_of_unstamped (same : t'.staging.unstamped = t.staging.unstamped)
    (p : Participant) : t'.deviceState p = t.deviceState p := by
  have staged := Staging.find?_outcomes_unstamped same (p.deployment, p.eui)
  unfold Transaction.deviceState
  cases hx : t.staging.outcomes.find? (p.deployment, p.eui) with
  | none =>
    rw [hx, Option.map_none, Option.map_eq_none_iff] at staged
    rw [staged]
  | some o =>
    rw [hx, Option.map_some] at staged
    obtain ⟨o', ho', same⟩ := Option.map_eq_some_iff.1 staged
    rw [ho']
    show o'.unstamped.state = o.unstamped.state
    rw [same]

/-! ### Alone on a store -/

/-- Whatever is locked, the transaction has locked. -/
def Alone (s : Store) (t : Transaction) : Prop := ∀ id, s.locked.contains id ↔ t.held.contains id

theorem Alone.lock (h : Alone s t) (ids : List DeploymentId) :
    Alone { s with locked := s.locked.addAll ids } { t with held := t.held.addAll ids } := by
  intro id
  rw [IdSet.contains_addAll, IdSet.contains_addAll, h id]

/-- Nobody is waited for. -/
theorem Alone.lockState (h : Alone s t) (id : DeploymentId) :
    lockState s t id = if s.entries.contains id then .taken else .absent := by
  have own := h id
  unfold Transaction.lockState
  cases hs : s.locked.contains id <;> cases ht : t.held.contains id <;>
    cases s.entries.contains id <;> simp_all

theorem Alone.perform_lockedGet (h : Alone s t) (clock : Instant) (known : s.entries.contains id) :
    t.perform s clock (.lockedGet id) = some (.ok (t.view s id),
      { s with locked := s.locked.addAll [id] }, some { t with held := t.held.addAll [id] }) := by
  have taken := h.lockState id
  rw [if_pos known] at taken
  simp only [perform, taken]
  rfl

theorem Alone.perform_lockedGet_of_unknown (h : Alone s t) (clock : Instant)
    (unknown : ¬ s.entries.contains id) :
    t.perform s clock (.lockedGet id) = some (.ok (none : Option Deployment), s, some t) := by
  have absent := h.lockState id
  rw [if_neg unknown] at absent
  simp only [perform, absent]

theorem Alone.perform_update (h : Alone s t) (clock : Instant) {d : Deployment}
    (known : s.entries.contains d.id) :
    t.perform s clock (.update d) = some (.ok { d with updatedAt := clock.floorMicros },
      { s with locked := s.locked.addAll [d.id] },
      some ({ t with held := t.held.addAll [d.id] }.write
        { d with updatedAt := clock.floorMicros })) := by
  have taken := h.lockState d.id
  rw [if_pos known] at taken
  simp only [perform, taken]
  rfl

theorem Alone.perform_update_of_unknown (h : Alone s t) (clock : Instant) {d : Deployment}
    (unknown : ¬ s.entries.contains d.id) :
    t.perform s clock (.update d) =
      some (.error (.deploymentNotFound (toString d.id)), s, some t) := by
  have absent := h.lockState d.id
  rw [if_neg unknown] at absent
  simp only [perform, absent]

theorem Alone.unlock (h : Alone s t) : t.unlock s = ⟨s.entries, .empty⟩ := by
  have none_left : t.held.keys.foldl (·.erase ·) s.locked = .empty := by
    refine Table.ext fun id => ?_
    have gone : ¬ (t.held.keys.foldl (·.erase ·) s.locked).contains id := by
      rw [Table.contains_foldl_erase, Table.mem_keys_iff, h id]
      exact fun ⟨free, held⟩ => free held
    exact Table.contains_eq_false_iff.1 (Bool.eq_false_iff.2 gone)
  rw [Transaction.unlock, none_left]

theorem Alone.commit (h : Alone s t) : commit s t = ⟨s.entries.map t.settleEntry, .empty⟩ := by
  have alone : Alone { s with entries := s.entries.map t.settleEntry } t := h
  exact alone.unlock

theorem Alone.due (h : Alone s t) (now : Instant) : due s t now =
    ((s.entries.keys.filterMap (t.view s)).filter fun d => d.isDue now).mergeSort
      Deployment.dueBefore := by
  have all : (s.entries.keys.filter fun id => t.held.contains id || !s.locked.contains id) =
      s.entries.keys := by
    rw [List.filter_eq_self]
    intro id _
    have own := h id
    cases hs : s.locked.contains id <;> simp_all
  rw [Transaction.due, all]

/-! ### Twins -/

/-- Two transactions, each alone on its store, that differ in stamps and locks only. -/
structure Twin (x y : Store × Transaction) : Prop where
  entries : y.1.entries = x.1.entries
  left : Alone x.1 x.2
  right : Alone y.1 y.2
  staging : y.2.staging.unstamped = x.2.staging.unstamped
  saved : y.2.saved.map Staging.unstamped = x.2.saved.map Staging.unstamped

section Twin

variable (h : Twin (s, t) (s', t'))
include h

theorem Twin.view (id : DeploymentId) :
    (t'.view s' id).map Deployment.unstamped = (t.view s id).map Deployment.unstamped := by
  have staged := Staging.find?_deployments_unstamped h.staging id
  have stored : s'.get id = s.get id := Store.get_congr h.entries id
  rw [Transaction.view, Transaction.view, Option.map_or, Option.map_or, staged, stored]

theorem Twin.deviceState (p : Participant) : t'.deviceState p = t.deviceState p :=
  deviceState_of_unstamped h.staging p

theorem Twin.pendingDevices (id : DeploymentId) :
    t'.pendingDevices s' id = t.pendingDevices s id := by
  have known : s'.participants id = s.participants id := by
    unfold Store.participants
    rw [show s'.entries = s.entries from h.entries]
  unfold Transaction.pendingDevices
  rw [known]
  simp only [h.deviceState]

theorem Twin.due (now : Instant) :
    (due s' t' now).map Deployment.unstamped = (due s t now).map Deployment.unstamped := by
  have seen : (s'.entries.keys.filterMap (t'.view s')).map Deployment.unstamped =
      (s.entries.keys.filterMap (t.view s)).map Deployment.unstamped := by
    rw [List.map_filterMap, List.map_filterMap, show s'.entries = s.entries from h.entries]
    simp only [h.view]
  have sorted : ∀ ds : List Deployment,
      ((ds.filter fun d => d.isDue now).mergeSort Deployment.dueBefore).map Deployment.unstamped =
        ((ds.map Deployment.unstamped).filter fun d => d.isDue now).mergeSort
          Deployment.dueBefore := by
    intro ds
    rw [List.map_mergeSort (f := Deployment.unstamped) (r := Deployment.dueBefore)
      (s := Deployment.dueBefore) fun _ _ _ _ => rfl, List.filter_map]
    rfl
  rw [h.right.due, h.left.due, sorted, sorted, seen]

theorem Twin.saved_of_none (unmarked : t.saved = none) : t'.saved = none := by
  have same := h.saved
  rwa [show t.saved = none from unmarked, Option.map_none, Option.map_eq_none_iff] at same

theorem Twin.saved_of_some {g : Staging} (marked : t.saved = some g) :
    ∃ g', t'.saved = some g' ∧ g'.unstamped = g.unstamped := by
  have same := h.saved
  rw [show t.saved = some g from marked, Option.map_some] at same
  exact Option.map_eq_some_iff.1 same

end Twin

theorem Twin.lock (h : Twin (s, t) (s', t')) (ids ids' : List DeploymentId) :
    Twin ({ s with locked := s.locked.addAll ids }, { t with held := t.held.addAll ids })
      ({ s' with locked := s'.locked.addAll ids' }, { t' with held := t'.held.addAll ids' }) :=
  ⟨h.entries, h.left.lock ids, h.right.lock ids', h.staging, h.saved⟩

theorem Twin.write (h : Twin (s, t) (s', t')) {d d' : Deployment} (key : d'.id = d.id)
    (same : d'.unstamped = d.unstamped) : Twin (s, t.write d) (s', t'.write d') where
  entries := h.entries
  left := h.left
  right := h.right
  saved := h.saved
  staging := by
    have staging : t'.staging.unstamped = t.staging.unstamped := h.staging
    show (t'.write d').staging.unstamped = (t.write d).staging.unstamped
    rw [unstamped_write, unstamped_write, staging, key, same]

theorem Twin.stage (h : Twin (s, t) (s', t')) (id : DeploymentId) (eui : DevEui)
    {o o' : StagedOutcome} (same : o'.unstamped = o.unstamped) :
    Twin (s, t.stage id eui o) (s', t'.stage id eui o') where
  entries := h.entries
  left := h.left
  right := h.right
  saved := h.saved
  staging := by
    have staging : t'.staging.unstamped = t.staging.unstamped := h.staging
    show (t'.stage id eui o').staging.unstamped = (t.stage id eui o).staging.unstamped
    rw [unstamped_stage, unstamped_stage, staging, same]

theorem Twin.stageAll (h : Twin (s, t) (s', t')) (id : DeploymentId) (euis : List DevEui)
    {o o' : StagedOutcome} (same : o'.unstamped = o.unstamped) :
    Twin (s, t.stageAll id euis o) (s', t'.stageAll id euis o') := by
  unfold Transaction.stageAll
  induction euis generalizing t t' with
  | nil => exact h
  | cons eui euis ih => exact ih (h.stage id eui same)

/-- Both calls are carried out, come to the same without stamps, and leave twins. -/
def Agree (c : Call) (a b : Option (c.Result × Store × Option Transaction)) : Prop :=
  ∃ r s t r' s' t', a = some (r, s, some t) ∧ b = some (r', s', some t') ∧
    c.unstamped r' = c.unstamped r ∧ Twin (s, t) (s', t')

/-- **No call tells twins apart**, whatever the clock reads. -/
theorem Twin.perform (h : Twin (s, t) (s', t')) {c : Call} (stays : c ≠ .commit ∧ c ≠ .rollback)
    (clock clock' : Instant) : Agree c (t.perform s clock c) (t'.perform s' clock' c) := by
  have entries : s'.entries = s.entries := h.entries
  cases c with
  | begin => exact ⟨_, _, _, _, _, _, rfl, rfl, rfl, h⟩
  | commit => exact absurd rfl stays.1
  | rollback => exact absurd rfl stays.2
  | lockedGet id =>
    by_cases known : s.entries.contains id
    · rw [h.left.perform_lockedGet clock known, h.right.perform_lockedGet clock' (entries ▸ known)]
      exact ⟨_, _, _, _, _, _, rfl, rfl, congrArg Except.ok (h.view id), h.lock _ _⟩
    · rw [h.left.perform_lockedGet_of_unknown clock known,
        h.right.perform_lockedGet_of_unknown clock' (entries ▸ known)]
      exact ⟨_, _, _, _, _, _, rfl, rfl, rfl, h⟩
  | claimDue limit now =>
    simp only [Transaction.perform, Transaction.claimDue, foldl_lock]
    refine ⟨_, _, _, _, _, _, rfl, rfl, ?_, h.lock _ _⟩
    refine congrArg Except.ok ?_
    rw [List.map_take, List.map_take, h.due]
  | update d =>
    by_cases known : s.entries.contains d.id
    · rw [h.left.perform_update clock known, h.right.perform_update clock' (entries ▸ known)]
      exact ⟨_, _, _, _, _, _, rfl, rfl, rfl, (h.lock _ _).write rfl rfl⟩
    · rw [h.left.perform_update_of_unknown clock known,
        h.right.perform_update_of_unknown clock' (entries ▸ known)]
      exact ⟨_, _, _, _, _, _, rfl, rfl, rfl, h⟩
  | recordOutcome id eui outcome message =>
    have known : s'.participant? id eui = s.participant? id eui :=
      Store.participant?_congr entries id eui
    simp only [Transaction.perform, Transaction.recordOutcome, known]
    cases s.participant? id eui with
    | none => exact ⟨_, _, _, _, _, _, rfl, rfl, rfl, h⟩
    | some p =>
      simp only [h.deviceState]
      split
      · exact ⟨_, _, _, _, _, _, rfl, rfl, rfl, h⟩
      · exact ⟨_, _, _, _, _, _, rfl, rfl, rfl, h.stage id eui rfl⟩
  | pendingDevices id =>
    exact ⟨_, _, _, _, _, _, rfl, rfl, congrArg Except.ok (h.pendingDevices id), h⟩
  | failPending id message =>
    simp only [Transaction.perform, Transaction.failPending, h.pendingDevices id]
    exact ⟨_, _, _, _, _, _, rfl, rfl, rfl, h.stageAll id _ rfl⟩
  | savepoint =>
    exact ⟨_, _, _, _, _, _, rfl, rfl, rfl, h.entries, h.left, h.right, h.staging,
      congrArg some h.staging⟩
  | rollbackToSavepoint =>
    simp only [Transaction.perform]
    cases marked : t.saved with
    | none =>
      rw [h.saved_of_none marked]
      exact ⟨_, _, _, _, _, _, rfl, rfl, rfl, h⟩
    | some g =>
      obtain ⟨g', marked', same⟩ := h.saved_of_some marked
      rw [marked']
      exact ⟨_, _, _, _, _, _, rfl, rfl, rfl, h.entries, h.left, h.right, same, rfl⟩
  | releaseSavepoint =>
    simp only [Transaction.perform]
    cases marked : t.saved with
    | none =>
      rw [h.saved_of_none marked]
      exact ⟨_, _, _, _, _, _, rfl, rfl, rfl, h⟩
    | some g =>
      obtain ⟨g', marked', -⟩ := h.saved_of_some marked
      rw [marked']
      exact ⟨_, _, _, _, _, _, rfl, rfl, rfl, h.entries, h.left, h.right, h.staging, rfl⟩

theorem Twin.performAll {x y : Store × Transaction} (h : Twin x y)
    {calls calls' : List (Instant × Call)} (same : SameCalls calls calls') : Option.Rel
      (fun a b => b.1.map Answered.unstamped = a.1.map Answered.unstamped ∧ Twin a.2 b.2)
      (performAll calls x) (performAll calls' y) := by
  induction calls generalizing x y calls' with
  | nil =>
    obtain rfl : calls' = [] := List.map_eq_nil_iff.1 same
    exact .some ⟨rfl, h⟩
  | cons call calls ih =>
    obtain ⟨clock, c⟩ := call
    obtain ⟨⟨clock', c'⟩, calls', rfl, rfl, rest⟩ := List.map_eq_cons_iff.1 same
    by_cases ends : c' = .commit ∨ c' = .rollback
    · rcases ends with rfl | rfl <;> exact .none
    · rw [not_or] at ends
      obtain ⟨r, s, t, r', s', t', hx, hy, result, left⟩ := Twin.perform h ends clock clock'
      simp only [Transaction.performAll, hx, hy]
      have later := ih left rest
      generalize Transaction.performAll calls (s, t) = a at later
      generalize Transaction.performAll calls' (s', t') = b at later
      cases later with
      | none => exact .none
      | some both =>
        refine .some ⟨?_, both.2⟩
        show Answered.unstamped ⟨c', r'⟩ :: _ = Answered.unstamped ⟨c', r⟩ :: _
        rw [both.1, Answered.unstamped, Answered.unstamped, result]

theorem unstamped_settle (p : Participant) (o : StagedOutcome) :
    (settle p o).unstamped = (settle p o.unstamped).unstamped := by
  unfold settle
  split <;> rfl

theorem unstamped_settleEntry {t t' : Transaction}
    (same : t'.staging.unstamped = t.staging.unstamped) (id : DeploymentId) (e : Entry) :
    (t'.settleEntry id e).unstamped = (t.settleEntry id e).unstamped := by
  have record : ((t'.staging.deployments.find? id).getD e.deployment).unstamped =
      ((t.staging.deployments.find? id).getD e.deployment).unstamped := by
    have staged := Staging.find?_deployments_unstamped same id
    rw [← Option.getD_map Deployment.unstamped, ← Option.getD_map Deployment.unstamped, staged]
  have devices : ((t'.settleEntry id e).participants.map fun _ p => p.unstamped) =
      (t.settleEntry id e).participants.map fun _ p => p.unstamped := by
    refine Table.ext fun eui => ?_
    rw [Table.find?_map, Table.find?_map, find?_settleEntry, find?_settleEntry, Option.map_map,
      Option.map_map]
    congr 1
    funext p
    have staged := Staging.find?_outcomes_unstamped same (id, eui)
    have through : ∀ o? : Option StagedOutcome, ((o?.map (settle p)).getD p).unstamped =
        ((o?.map StagedOutcome.unstamped).map fun o => (settle p o).unstamped).getD p.unstamped := by
      rintro (_ | o)
      · rfl
      · exact unstamped_settle p o
    rw [Function.comp_apply, Function.comp_apply, through, through, staged]
  unfold Entry.unstamped
  rw [devices]
  exact congrArg (fun d => Entry.mk d _) record

theorem Twin.commit {s s' : Store} {t t' : Transaction} (h : Twin (s, t) (s', t')) :
    (commit s' t').unstamped = (commit s t).unstamped := by
  have entries : s'.entries = s.entries := h.entries
  rw [h.left.commit, h.right.commit, entries]
  unfold Store.unstamped
  have published : ((s.entries.map t'.settleEntry).map fun _ e => e.unstamped) =
      (s.entries.map t.settleEntry).map fun _ e => e.unstamped := by
    refine Table.ext fun id => ?_
    simp only [Table.find?_map, Option.map_map]
    congr 1
    funext e
    exact unstamped_settleEntry h.staging id e
  rw [published]

theorem rel_mono {α β : Type} {P Q : α → β → Prop} (weaker : ∀ a b, P a b → Q a b)
    {a : Option α} {b : Option β} (h : Option.Rel P a b) : Option.Rel Q a b := by
  cases h with
  | none => exact .none
  | some both => exact .some (weaker _ _ both)

theorem Twin.indistinct {x y : Store × Transaction} (h : Twin x y) : Indistinct x y :=
  fun _ _ same => rel_mono (fun _ _ both => ⟨both.1, both.2.commit⟩) (h.performAll same)

end Transaction

end FirmwareRollout
