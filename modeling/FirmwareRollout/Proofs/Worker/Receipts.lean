import FirmwareRollout.Proofs.Worker.Devices

/-!
What becomes of an outcome that a transaction was told is recorded. Each such answer is a `Receipt`,
and the `Ledger` of a transaction holds those that no rollback to a savepoint has taken back. What
it holds the transaction keeps staged until it publishes (`Ledger.Backed`). No lock guards a device,
though: between the receipt and the commit another transaction can publish an outcome of the same
device, and then this one's is dropped while its commit succeeds (`acknowledged_outcome_dropped`).
That is the only way to lose an outcome.

Main statement: `outcome_kept_or_overtaken`.
-/

namespace FirmwareRollout

/-- The answer that an outcome of a device is recorded. -/
structure Receipt where
  id : DeploymentId
  eui : DevEui
  outcome : Outcome
  message : String
deriving DecidableEq

/-- The outcome is among what is staged. -/
def Receipt.In (r : Receipt) (g : Staging) : Prop :=
  ∃ stamp, g.outcomes.find? (r.id, r.eui) = some ⟨r.outcome.state, r.message, stamp⟩

/-- Who publishes takes no calls afterwards. -/
theorem Session.act_publish_ne_working (x : Option Session) (s : Store) (t : Transaction) :
    (act x s .publish).1 ≠ some (.working t) := by
  intro h
  rcases x with _ | t | held <;> cases h

/-- The receipts of a transaction that stand, the latest first, and those that stood at its
savepoint. -/
structure Ledger where
  standing : List Receipt
  marked : Option (List Receipt)
deriving DecidableEq

namespace Ledger

/-- A ledger without receipts. -/
def blank : Ledger := ⟨[], none⟩

/-- The ledger after a call and what it came to. -/
def note (l : Ledger) : (c : Call) → c.Result → Ledger
  | .recordOutcome id eui outcome message, .ok _ =>
    { l with standing := ⟨id, eui, outcome, message⟩ :: l.standing }
  | .savepoint, .ok _ => { l with marked := some l.standing }
  | .rollbackToSavepoint, .ok _ => ⟨l.marked.getD [], none⟩
  | .releaseSavepoint, .ok _ => { l with marked := none }
  | _, _ => l

/-- The ledger after an act of the transaction. -/
def follow (l : Ledger) (x : Option Session) (s : Store) : Act → Ledger
  | .begin => if x.isNone then blank else l
  | .call clock c =>
    match Session.answer x s clock c with
    | some r => l.note c r
    | none => l
  | _ => l

/-- **What a ledger says is staged**, and what it says of the savepoint is what was staged there. -/
structure Backed (l : Ledger) (t : Transaction) : Prop where
  standing : ∀ r ∈ l.standing, r.In t.staging
  marked : ∀ rs, l.marked = some rs → ∃ g, t.saved = some g ∧ ∀ r ∈ rs, r.In g
  among : ∀ rs, l.marked = some rs → rs ⊆ l.standing

/-- Without a savepoint there is nothing to it but what stands. -/
theorem Backed.of_unmarked {l : Ledger} {t : Transaction} (unmarked : l.marked = none)
    (standing : ∀ r ∈ l.standing, r.In t.staging) : l.Backed t where
  standing := standing
  marked rs hrs := by cases unmarked.symm.trans hrs
  among rs hrs := by cases unmarked.symm.trans hrs

theorem backed_blank (t : Transaction) : blank.Backed t := .of_unmarked rfl nofun

variable {l : Ledger} {s s' : Store} {t t' : Transaction}

theorem Backed.of_more (h : l.Backed t) (more : ∀ r : Receipt, r.In t.staging → r.In t'.staging)
    (saved : t'.saved = t.saved) : l.Backed t' where
  standing r hr := more r (h.standing r hr)
  marked rs hrs := saved ▸ h.marked rs hrs
  among := h.among

/-- An outcome that is staged is not staged over: the device is not pending any more. -/
theorem in_stageAll (hs : s.Keyed) {r : Receipt} (hr : r.In t.staging) {id : DeploymentId}
    {euis : List DevEui} {outcome : StagedOutcome}
    (pending : ∀ eui ∈ euis, ∃ p, s.participant? id eui = some p ∧ t.deviceState p = .pending) :
    r.In (t.stageAll id euis outcome).staging := by
  obtain ⟨stamp, staged⟩ := hr
  refine ⟨stamp, ?_⟩
  rw [Transaction.find?_outcomes_stageAll, if_neg, staged]
  rintro ⟨rfl, heui⟩
  obtain ⟨p, hp, open_⟩ := pending _ heui
  obtain ⟨hid, heui⟩ := hs.of_participant? hp
  rw [Transaction.deviceState, hid, heui, staged] at open_
  cases hout : r.outcome <;> rw [hout] at open_ <;> cases open_

/-- The outcome of a pending device is staged with its receipt. -/
theorem Backed.record (h : l.Backed t) (hs : s.Keyed) {r : Receipt} {p : Participant}
    (known : s.participant? r.id r.eui = some p) (pending : t.deviceState p = .pending)
    (stamp : Instant) : Backed { l with standing := r :: l.standing }
      (t.stage r.id r.eui ⟨r.outcome.state, r.message, stamp⟩) := by
  refine ⟨fun r' hr' => ?_, h.marked, fun rs hrs => ?_⟩
  · rcases List.mem_cons.1 hr' with rfl | hr'
    · exact ⟨stamp, Table.find?_insert_self _ _ _⟩
    · have alone : ∀ eui ∈ [r.eui], ∃ p, s.participant? r.id eui = some p ∧
          t.deviceState p = .pending := by
        intro eui heui
        obtain rfl := List.mem_singleton.1 heui
        exact ⟨p, known, pending⟩
      exact in_stageAll hs (h.standing r' hr') alone
  · exact List.subset_cons_of_subset _ (h.among rs hrs)

/-- Back at the savepoint there is staged what the ledger says was staged there. -/
theorem Backed.back (h : l.Backed t) {g : Staging} (saved : t.saved = some g) :
    Backed ⟨l.marked.getD [], none⟩ { t with staging := g, saved := none } := by
  refine .of_unmarked rfl fun r hr => ?_
  have hr : r ∈ l.marked.getD [] := hr
  cases marked : l.marked with
  | none =>
    rw [marked] at hr
    cases hr
  | some rs =>
    rw [marked] at hr
    obtain ⟨g', saved', staged⟩ := h.marked rs marked
    obtain rfl := Option.some.inj (saved.symm.trans saved')
    exact staged r hr

/-- **A call keeps the ledger backed.** -/
theorem Backed.note (h : l.Backed t) (hs : s.Keyed) {clock : Instant} {c : Call} {r : c.Result}
    (perform : t.perform s clock c = some (r, s', some t')) : (l.note c r).Backed t' := by
  cases c with
  | begin | pendingDevices => cases perform; exact h
  | commit | rollback => cases perform
  | lockedGet id =>
    simp only [Transaction.perform] at perform
    split at perform <;> cases perform
    · exact h
    · exact h.of_more (fun _ hr => hr) rfl
  | claimDue limit now =>
    simp only [Transaction.perform, Transaction.claimDue, Transaction.foldl_lock] at perform
    cases perform
    exact h.of_more (fun _ hr => hr) rfl
  | update d =>
    simp only [Transaction.perform] at perform
    split at perform <;> cases perform
    · exact h
    · exact h.of_more (fun _ hr => hr) rfl
  | recordOutcome id eui outcome message =>
    obtain ⟨-, ⟨e, rfl, -, left⟩ | ⟨p, known, pending, rfl, left⟩⟩ :=
      Transaction.perform_recordOutcome_cases perform <;> obtain rfl := Option.some.inj left
    · exact h
    · exact h.record hs (r := ⟨id, eui, outcome, message⟩) known pending _
  | failPending id message =>
    cases perform
    refine h.of_more (fun r hr => in_stageAll hs hr fun eui heui => ?_) ?_
    · exact (Transaction.mem_pendingDevices_iff_participant? hs).1 heui
    · show (t.stageAll _ _ _).saved = _
      rw [Transaction.stageAll_eq]
  | savepoint =>
    cases perform
    refine ⟨h.standing, fun rs hrs => ?_, fun rs hrs => ?_⟩
    · cases hrs
      exact ⟨t.staging, rfl, h.standing⟩
    · cases hrs
      exact List.Subset.refl _
  | rollbackToSavepoint =>
    simp only [Transaction.perform] at perform
    split at perform
    · cases perform
      exact h
    · next g saved =>
      cases perform
      exact h.back saved
  | releaseSavepoint =>
    simp only [Transaction.perform] at perform
    split at perform
    · cases perform
      exact h
    · cases perform
      exact .of_unmarked rfl h.standing

/-- A receipt that stands after a call stood before, or it was given for a device that is
pending. -/
theorem Backed.of_mem_note (h : l.Backed t) (ht : t.Confined) {clock : Instant} {c : Call}
    {r : c.Result} (perform : t.perform s clock c = some (r, s', some t')) {receipt : Receipt}
    (hr : receipt ∈ (l.note c r).standing) : receipt ∈ l.standing ∨
      ∃ p, s.participant? receipt.id receipt.eui = some p ∧ p.state = .pending := by
  cases c with
  | recordOutcome id eui outcome message =>
    obtain ⟨-, ⟨e, rfl, -, left⟩ | ⟨p, known, pending, rfl, left⟩⟩ :=
      Transaction.perform_recordOutcome_cases perform <;> obtain rfl := Option.some.inj left
    · exact .inl hr
    · rcases List.mem_cons.1 hr with rfl | hr
      · refine .inr ⟨p, known, ?_⟩
        -- what is staged is final, so that this device is pending in the store
        cases staged : t.staging.outcomes.find? (p.deployment, p.eui) with
        | none => rwa [Transaction.deviceState, staged] at pending
        | some o =>
          rw [Transaction.deviceState, staged] at pending
          have final := ht.staging.terminal staged
          rw [show o.state = .pending from pending] at final
          cases final
      · exact .inl hr
  | rollbackToSavepoint =>
    cases r with
    | error e => exact .inl hr
    | ok u =>
      have hr : receipt ∈ l.marked.getD [] := hr
      cases marked : l.marked with
      | none =>
        rw [marked] at hr
        cases hr
      | some rs =>
        rw [marked] at hr
        exact .inl (h.among rs marked hr)
  | savepoint => cases perform; exact .inl hr
  | releaseSavepoint => cases r <;> exact .inl hr
  | _ => exact .inl hr

/-- How the ledger follows an act that leaves the transaction at work: the transaction has begun, or
the act writes no outcome, or it is a call. -/
theorem follow_cases (l : Ledger) {x : Option Session} {a : Act}
    (left : (Session.act x s a).1 = some (.working t')) : l.follow x s a = blank ∨
      ∃ t, x = some (.working t) ∧
        (l.follow x s a = l ∧ t'.staging = t.staging ∧ t'.saved = t.saved ∨
          ∃ clock c r s', t.perform s clock c = some (r, s', some t') ∧
            l.follow x s a = l.note c r) := by
  cases a with
  | begin =>
    cases x with
    | none => exact .inl rfl
    | some x => exact .inr ⟨t', left, .inl ⟨rfl, rfl, rfl⟩⟩
  | call clock c =>
    match x with
    | none => cases left
    | some (.leaving held) => cases left
    | some (.working t) =>
      refine .inr ⟨t, rfl, ?_⟩
      simp only [Session.act] at left
      simp only [follow, Session.answer]
      cases perform : t.perform s clock c with
      | none =>
        rw [perform] at left
        cases left
        exact .inl ⟨rfl, rfl, rfl⟩
      | some result =>
        obtain ⟨r, s', _ | t''⟩ := result
        · -- these calls end a transaction only as strokes of their own
          rw [perform] at left
          have ends := t.ends_of_perform perform
          cases left
          rcases ends with rfl | rfl <;> exact .inl ⟨rfl, rfl, rfl⟩
        · rw [perform] at left
          cases left
          exact .inr ⟨clock, c, r, s', perform, rfl⟩
  | acquire id =>
    rcases x with _ | t | held
    · cases left
    · refine .inr ⟨t, rfl, .inl ⟨rfl, ?_⟩⟩
      simp only [Session.act] at left
      split at left <;> cases left <;> exact ⟨rfl, rfl⟩
    · cases left
  | publish => exact (Session.act_publish_ne_working x s t' left).elim
  | leave => cases x <;> cases left

end Ledger

/-! ### The ledger of a history -/

namespace Shared

variable {w : Shared} {tx : TxId} {r : Receipt} {h : List Stroke}

/-- The ledger of the transaction `tx`, by what its calls came to since it began. -/
def ledger (tx : TxId) : List Stroke → Ledger
  | [] => .blank
  | .create .. :: h => ledger tx h
  | .act tx' a :: h =>
    if tx' = tx then (ledger tx h).follow ((after h).sessions.find? tx) (after h).store a
    else ledger tx h

/-- **The ledger of a transaction that takes calls is backed.** -/
theorem backed_ledger {t : Transaction} (ht : (after h).sessions.find? tx = some (.working t)) :
    (ledger tx h).Backed t := by
  induction h generalizing t with
  | nil => cases ht
  | cons m h ih =>
    have step : ((after h).step m).sessions.find? tx = some (.working t) := ht
    cases m with
    | create d devices => exact ih step
    | act tx' a =>
      by_cases own : tx' = tx
      · subst own
        rw [Shared.step, find?_put_self] at step
        rw [ledger, if_pos rfl]
        rcases (ledger tx' h).follow_cases step with
          blank | ⟨t₀, ht₀, ⟨same, staging, saved⟩ | ⟨clock, c, r, s', perform, noted⟩⟩
        · rw [blank]
          exact Ledger.backed_blank t
        · rw [same]
          exact (ih ht₀).of_more (fun r hr => staging ▸ hr) saved
        · rw [noted]
          exact (ih ht₀).note (sound_after h).keyed perform
      · rw [Shared.step, find?_put_of_ne _ own] at step
        rw [ledger, if_neg own]
        exact ih step

/-- A receipt that stands stood before the latest stroke, or that stroke of its transaction has
given it for a device that is pending. -/
theorem of_mem_ledger {m : Stroke} {t : Transaction}
    (ht : (after (m :: h)).sessions.find? tx = some (.working t))
    (hr : r ∈ (ledger tx (m :: h)).standing) :
    (∃ t₀, (after h).sessions.find? tx = some (.working t₀)) ∧
      (r ∈ (ledger tx h).standing ∨ (∃ a, m = .act tx a) ∧
        ∃ p, (after h).store.participant? r.id r.eui = some p ∧ p.state = .pending) := by
  have step : ((after h).step m).sessions.find? tx = some (.working t) := ht
  cases m with
  | create d devices => exact ⟨⟨t, step⟩, .inl hr⟩
  | act tx' a =>
    by_cases own : tx' = tx
    · subst own
      rw [Shared.step, find?_put_self] at step
      rw [ledger, if_pos rfl] at hr
      rcases (ledger tx' h).follow_cases step with
        blank | ⟨t₀, ht₀, ⟨same, -, -⟩ | ⟨clock, c, r', s', perform, noted⟩⟩
      · rw [blank] at hr
        cases hr
      · exact ⟨⟨t₀, ht₀⟩, .inl (same ▸ hr)⟩
      · rw [noted] at hr
        have noted := (backed_ledger ht₀).of_mem_note ((sound_after h).confined t₀ ht₀) perform hr
        exact ⟨⟨t₀, ht₀⟩, noted.imp_right fun new => ⟨⟨a, rfl⟩, new⟩⟩
    · rw [Shared.step, find?_put_of_ne _ own] at step
      rw [ledger, if_neg own] at hr
      exact ⟨⟨t, step⟩, .inl hr⟩

/-! ### Losing an outcome -/

variable {id : DeploymentId} {eui : DevEui} {p : Participant}

/-- A device stays as it is, or it was pending and a transaction publishes its outcome. -/
theorem Sound.participant?_step (hw : w.Sound) (hp : w.store.participant? id eui = some p)
    (m : Stroke) : ∃ p', (w.step m).store.participant? id eui = some p' ∧
      (p' = p ∨ p.state = .pending ∧ p'.state.isTerminal ∧ ∃ tx, m = .act tx .publish) := by
  obtain ⟨e, he, -⟩ := Store.participant?_eq_some_iff.1 hp
  have known := Table.contains_of_find? he
  by_cases published : ∃ tx, m = .act tx .publish
  · have related := (hw.onward m).devices known eui
    rw [hp] at related
    generalize (w.step m).store.participant? id eui = p'? at related
    cases related with
    | @some _ p' onward =>
      refine ⟨p', rfl, ?_⟩
      by_cases moved : p' = p
      · exact .inl moved
      · have open_ : p.state = .pending := by
          refine Decidable.of_not_not fun settled => moved (onward.settled ?_)
          simpa [DeviceState.isTerminal] using settled
        exact .inr ⟨open_, onward.moved.resolve_left moved, published⟩
  · refine ⟨p, ?_, .inl rfl⟩
    cases m with
    | create d devices =>
      rw [← hp]
      show (w.store.create d devices).2.participant? id eui = _
      rw [Store.participant?, Store.find?_create_of_contains known]
      rfl
    | act tx a =>
      obtain ⟨x', s', hstep, change⟩ := hw.step_act tx a
      rw [hstep, store_put, ← hp]
      exact Store.participant?_congr (change.entries fun ha => published ⟨tx, ha ▸ rfl⟩) id eui

/-- A transaction that takes calls after a stroke has not published by it. -/
theorem not_publish {m : Stroke} {t : Transaction}
    (ht : (after (m :: h)).sessions.find? tx = some (.working t)) : m ≠ .act tx .publish := by
  rintro rfl
  have step : ((after h).step (.act tx .publish)).sessions.find? tx = some (.working t) := ht
  rw [Shared.step, find?_put_self] at step
  exact Session.act_publish_ne_working _ _ t step

/-- **The outcome of a receipt was overtaken**: while the receipt stood and the device was pending,
another transaction has published what the device is now. -/
def Overtaken (tx : TxId) (r : Receipt) (p : Participant) (h : List Stroke) : Prop :=
  ∃ h' tx' h₀, h = h' ++ .act tx' .publish :: h₀ ∧ tx' ≠ tx ∧ r ∈ (ledger tx h₀).standing ∧
    (∃ p₀, (after h₀).store.participant? r.id r.eui = some p₀ ∧ p₀.state = .pending) ∧
    (after (.act tx' .publish :: h₀)).store.participant? r.id r.eui = some p ∧ p.state.isTerminal

/-- The device of a receipt that stands is pending, or the receipt was overtaken. -/
theorem pending_or_overtaken {t : Transaction}
    (ht : (after h).sessions.find? tx = some (.working t)) (hr : r ∈ (ledger tx h).standing) :
    ∃ p, (after h).store.participant? r.id r.eui = some p ∧
      (p.state = .pending ∨ Overtaken tx r p h) := by
  induction h generalizing t with
  | nil => cases ht
  | cons m h ih =>
    have sound := sound_after h
    obtain ⟨⟨t₀, ht₀⟩, before⟩ := of_mem_ledger ht hr
    rcases before with stood | ⟨⟨a, rfl⟩, p, hp, pending⟩
    · obtain ⟨p, hp, known⟩ := ih ht₀ stood
      obtain ⟨p', hp', same | ⟨pending, final, tx', rfl⟩⟩ := sound.participant?_step hp m
      · subst same
        refine ⟨p', hp', known.imp_right ?_⟩
        rintro ⟨h', tx', h₀, rfl, rest⟩
        exact ⟨m :: h', tx', h₀, rfl, rest⟩
      · have other : tx' ≠ tx := fun heq => not_publish ht (heq ▸ rfl)
        exact ⟨p', hp', .inr ⟨[], tx', h, rfl, other, stood, ⟨p, hp, pending⟩, hp', final⟩⟩
    · obtain ⟨p', hp', same | ⟨-, -, tx', published⟩⟩ := sound.participant?_step hp (.act tx a)
      · exact ⟨p', hp', .inl (same ▸ pending)⟩
      · obtain ⟨rfl, -⟩ := Stroke.act.inj published
        exact absurd published (not_publish ht)

/-- **An outcome is kept, or another one came first.** Take a transaction at any moment of any
history, and an outcome that it was told is recorded and has not taken back. If the device is
pending then, the commit gives it that outcome and message, and it keeps them through whatever comes
after. If it is not, then another transaction has published its outcome since the receipt was given; the
device keeps that one, and the commit succeeds without a word. What workers and trackers do to a
store in any order is such a history (`Crew.shared_after`). -/
theorem outcome_kept_or_overtaken (h : List Stroke) (tx : TxId) (r : Receipt)
    (working : ((after h).working? tx).isSome) (hr : r ∈ (ledger tx h).standing) :
    ∃ p, (after h).store.participant? r.id r.eui = some p ∧
      (p.state = .pending → ∃ stamp, ∀ h',
        (after (h' ++ .act tx .publish :: h)).store.participant? r.id r.eui =
          some { p with state := r.outcome.state, errorMessage := r.message, updatedAt := stamp }) ∧
      (p.state ≠ .pending → Overtaken tx r p h ∧ ∀ h',
        (after (h' ++ .act tx .publish :: h)).store.participant? r.id r.eui = some p) := by
  obtain ⟨t, working⟩ := Option.isSome_iff_exists.1 working
  have ht := working?_eq_some_iff.1 working
  obtain ⟨p, hp, known⟩ := pending_or_overtaken ht hr
  have published : (after (.act tx .publish :: h)).store = t.publish (after h).store := by
    show ((after h).step (.act tx .publish)).store = _
    rw [Shared.step, ht, store_put]
    rfl
  obtain ⟨stamp, staged⟩ := (backed_ledger ht).standing r hr
  have settled := Transaction.participant?_publish t (after h).store r.id r.eui
  rw [← published, hp, staged] at settled
  refine ⟨p, hp, fun pending => ⟨stamp, fun h' => ?_⟩, fun final => ⟨known.resolve_left final,
    fun h' => ?_⟩⟩
  · refine (onward_after _ h').settled (settled.trans ?_) (DeviceState.isTerminal_outcome r.outcome)
    simp [Transaction.settle, pending, DeviceState.isTerminal]
  · have terminal : p.state.isTerminal := by simpa [DeviceState.isTerminal] using final
    refine (onward_after _ h').settled (settled.trans ?_) terminal
    simp [Transaction.settle, terminal]

/-- The receipts of two transactions for the same device. -/
def rivalReceipts : Receipt × Receipt :=
  (⟨Deployment.sample.id, ⟨Vector.replicate 8 0⟩, .success, ""⟩,
    ⟨Deployment.sample.id, ⟨Vector.replicate 8 0⟩, .error, "lost"⟩)

/-- A history in which both transactions record an outcome of the device before either commits, and
the first one has committed. -/
def rivals : List Stroke :=
  [.act 1 .leave, .act 1 .publish,
    .act 2 (.call .epoch (.recordOutcome Deployment.sample.id ⟨Vector.replicate 8 0⟩ .error "lost")),
    .act 1 (.call .epoch (.recordOutcome Deployment.sample.id ⟨Vector.replicate 8 0⟩ .success "")),
    .act 2 .begin, .act 1 .begin, .create .sample [⟨⟨Vector.replicate 8 0⟩, "meter"⟩]]

/-- Before the second commit the second receipt stands. -/
theorem rival_stands : ((after rivals).working? 2).isSome ∧
    rivalReceipts.2 ∈ (ledger 2 rivals).standing := by
  decide +kernel

theorem rival_overtaken : ∃ p, (after rivals).store.participant? Deployment.sample.id
      ⟨Vector.replicate 8 0⟩ = some p ∧ p.state = .success ∧ Overtaken 2 rivalReceipts.2 p rivals := by
  obtain ⟨working, stands⟩ := rival_stands
  obtain ⟨p, hp, -, overtaken⟩ :=
    outcome_kept_or_overtaken rivals 2 rivalReceipts.2 working stands
  have state : ((after rivals).store.participant? Deployment.sample.id
      ⟨Vector.replicate 8 0⟩).map (·.state) = some .success := by decide +kernel
  have first : p.state = .success := by
    have hp : (after rivals).store.participant? Deployment.sample.id ⟨Vector.replicate 8 0⟩ =
      some p := hp
    rw [hp] at state
    exact Option.some.inj state
  exact ⟨p, hp, first, (overtaken (by rw [first]; decide)).1⟩

/-- **A commit can drop an outcome that was acknowledged.** Both transactions were told that their
outcome is recorded, and took nothing back; both commit; the second one's outcome is not what the
device ends with. -/
theorem acknowledged_outcome_dropped :
    rivalReceipts.1 ∈ (ledger 1 (rivals.drop 2)).standing ∧
    ((after (rivals.drop 2)).working? 1).isSome ∧
    rivalReceipts.2 ∈ (ledger 2 rivals).standing ∧ ((after rivals).working? 2).isSome ∧
    ((after (.act 2 .leave :: .act 2 .publish :: rivals)).store.participant? Deployment.sample.id
      ⟨Vector.replicate 8 0⟩).map (fun p => (p.state, p.errorMessage)) = some (.success, "") ∧
    ¬∀ (h : List Stroke) (tx : TxId) (r : Receipt), ((after h).working? tx).isSome →
      r ∈ (ledger tx h).standing → ∃ p,
        (after (.act tx .publish :: h)).store.participant? r.id r.eui = some p ∧
          p.state = r.outcome.state ∧ p.errorMessage = r.message := by
  obtain ⟨working, stands⟩ := rival_stands
  refine ⟨by decide +kernel, by decide +kernel, stands, working, by decide +kernel,
    fun always => ?_⟩
  obtain ⟨p, hp, state, -⟩ := always rivals 2 rivalReceipts.2 working stands
  have kept : ((after (.act 2 .publish :: rivals)).store.participant? Deployment.sample.id
      ⟨Vector.replicate 8 0⟩).map (·.state) = some .success := by decide +kernel
  have hp : (after (.act 2 .publish :: rivals)).store.participant? Deployment.sample.id
    ⟨Vector.replicate 8 0⟩ = some p := hp
  rw [hp, Option.map_some, state] at kept
  cases kept

end Shared

end FirmwareRollout
