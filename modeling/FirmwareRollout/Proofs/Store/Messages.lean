import FirmwareRollout.Proofs.Store.Onward

/-!
Messages on their way to the store. What is told is a relation between devices and messages: that
the device has succeeded, with that message. If every call of a history that records a success
records one that was told (`Stroke.Faithful`), then the message of every success that is stored, or
stands among the outcomes of a transaction, was told; and there is no message without an outcome.

Main statement: `told_after`.
-/

namespace FirmwareRollout

/-! ### Messages in a store -/

/-- There is no message without an outcome, and the message of a success was told. -/
structure Participant.Fits (told : DevEui → String → Prop) (eui : DevEui) (p : Participant) :
    Prop where
  pending : p.state = .pending → p.errorMessage = ""
  success : p.state = .success → told eui p.errorMessage

/-- The messages of successes were told. -/
def Staging.Told (told : DevEui → String → Prop) (g : Staging) : Prop :=
  ∀ id eui o, g.outcomes.find? (id, eui) = some o → o.state = .success → told eui o.message

/-- The messages of all successes that a transaction keeps to itself were told. -/
structure Transaction.Told (told : DevEui → String → Prop) (t : Transaction) : Prop where
  staging : t.staging.Told told
  saved : ∀ g, t.saved = some g → g.Told told

/-- The messages of all successes that are still to be published were told. -/
def Session.Told (told : DevEui → String → Prop) (x : Option Session) : Prop :=
  ∀ t, x = some (.working t) → t.Told told

/-- The call records no success that was not told. -/
def Call.Faithful (told : DevEui → String → Prop) (c : Call) : Prop :=
  ∀ id eui message, c = .recordOutcome id eui .success message → told eui message

section Store

variable {told : DevEui → String → Prop} {s s' : Store} {t t' : Transaction} {id : DeploymentId}
  {eui : DevEui} {p : Participant}

theorem Call.faithful_recordOutcome {outcome : Outcome} {message : String}
    (h : outcome = .success → told eui message) (id : DeploymentId) :
    Call.Faithful told (.recordOutcome id eui outcome message) := by
  intro id' eui' message' same
  injection same with _ heui success hmessage
  exact heui ▸ hmessage ▸ h success

theorem Participant.fits_enrol (id : DeploymentId) (clock : Instant) (device : EnrolledDevice) :
    (Participant.enrol id clock device).Fits told eui :=
  ⟨fun _ => rfl, nofun⟩

theorem Participant.Fits.settle (h : p.Fits told eui) {o : StagedOutcome}
    (terminal : o.state.isTerminal) (success : o.state = .success → told eui o.message) :
    (Transaction.settle p o).Fits told eui := by
  unfold Transaction.settle
  split
  · exact h
  · refine ⟨fun pending => ?_, success⟩
    have pending : o.state = .pending := pending
    rw [pending] at terminal
    cases terminal

namespace Transaction

theorem told_fresh : fresh.Told told where
  staging _ _ _ h := nomatch h
  saved _ h := nomatch h

theorem Told.stageAll (h : t.Told told) (id : DeploymentId) (euis : List DevEui)
    {o : StagedOutcome} (success : o.state = .success → ∀ eui ∈ euis, told eui o.message) :
    (t.stageAll id euis o).Told told := by
  constructor
  · intro id' eui o' ho'
    rw [find?_outcomes_stageAll] at ho'
    split at ho'
    · next listed =>
      obtain rfl := Option.some.inj ho'
      exact fun succeeded => success succeeded eui listed.2
    · exact h.staging id' eui o' ho'
  · rw [stageAll_eq]
    exact h.saved

theorem Told.working (h : t.Told told) : Session.Told told (some (.working t)) := by
  rintro t ⟨⟩
  exact h

/-- A transaction writes no success that was not told. -/
theorem Told.perform (h : t.Told told) {clock : Instant} {c : Call} (faithful : c.Faithful told)
    {r : c.Result} (perform : t.perform s clock c = some (r, s', some t')) : t'.Told told := by
  cases c with
  | begin | pendingDevices => cases perform; exact h
  | commit | rollback => cases perform
  | lockedGet | update =>
    simp only [Transaction.perform] at perform
    split at perform
    · cases perform; exact h
    · cases perform
    · cases perform; exact ⟨h.staging, h.saved⟩
  | claimDue limit now =>
    simp only [Transaction.perform, claimDue, foldl_lock] at perform
    cases perform
    exact ⟨h.staging, h.saved⟩
  | recordOutcome id eui outcome message =>
    obtain ⟨-, ⟨_, -, -, left⟩ | ⟨_, -, -, -, left⟩⟩ := perform_recordOutcome_cases perform <;>
      obtain rfl := Option.some.inj left
    · exact h
    · refine h.stageAll id [eui] fun success eui' heui' => ?_
      obtain rfl := List.mem_singleton.1 heui'
      cases outcome with
      | success => exact faithful _ _ _ rfl
      | error => cases success
  | failPending id message =>
    cases perform
    exact h.stageAll id _ (by simp)
  | savepoint =>
    cases perform
    exact ⟨h.staging, fun g hg => Option.some.inj hg ▸ h.staging⟩
  | rollbackToSavepoint =>
    simp only [Transaction.perform] at perform
    split at perform
    · cases perform; exact h
    · next g hg => cases perform; exact ⟨h.saved g hg, by simp⟩
  | releaseSavepoint =>
    simp only [Transaction.perform] at perform
    split at perform
    · cases perform; exact h
    · cases perform; exact ⟨h.staging, by simp⟩

end Transaction

end Store

/-! ### Histories of strokes -/

/-- The call of a stroke, if it has one, records no success that was not told. -/
def Stroke.Faithful (told : DevEui → String → Prop) (m : Stroke) : Prop :=
  ∀ tx clock c, m = .act tx (.call clock c) → c.Faithful told

namespace Shared

/-- **The invariant of messages**, stored or about to be. -/
structure Told (told : DevEui → String → Prop) (w : Shared) : Prop where
  stored : ∀ id eui p, w.store.participant? id eui = some p → p.Fits told eui
  staged : ∀ tx, Session.Told told (w.sessions.find? tx)

variable {told : DevEui → String → Prop} {w : Shared}

theorem told_empty : empty.Told told where
  stored _ _ _ h := nomatch h
  staged _ _ h := nomatch h

theorem Told.create (h : w.Told told) (d : Deployment) (devices : List EnrolledDevice) :
    (w.step (.create d devices)).Told told := by
  refine ⟨fun id eui p hp => ?_, h.staged⟩
  have hp : (w.store.create d devices).2.participant? id eui = some p := hp
  rcases w.store.create_cases d devices with ⟨error, same⟩ | ⟨-, table, enrolled, created⟩
  · rw [same] at hp
    exact h.stored id eui p hp
  · rw [created] at hp
    obtain ⟨e, he, hp⟩ := Store.participant?_eq_some_iff.1 hp
    rcases Table.find?_insert_eq_some_iff.1 he with ⟨-, rfl⟩ | ⟨-, he⟩
    · obtain ⟨device, -, -, rfl⟩ := Store.of_enrolAll enrolled hp
      exact Participant.fits_enrol d.id d.createdAt device
    · exact h.stored id eui p (Store.participant?_eq_some_iff.2 ⟨e, he, hp⟩)

theorem Told.publish (hw : w.Sound) (h : w.Told told) {tx : TxId} {t : Transaction}
    (working : w.sessions.find? tx = some (.working t)) {id : DeploymentId} {eui : DevEui}
    {p' : Participant} (hp : (t.publish w.store).participant? id eui = some p') :
    p'.Fits told eui := by
  rw [Transaction.participant?_publish] at hp
  obtain ⟨p, stored, rfl⟩ := Option.map_eq_some_iff.1 hp
  have before := h.stored id eui p stored
  cases staged : t.staging.outcomes.find? (id, eui) with
  | none => exact before
  | some o =>
    exact before.settle ((hw.confined t working).staging.terminal staged)
      ((h.staged tx t working).staging id eui o staged)

/-- What an act leaves of its own transaction and of the store. -/
theorem Told.act (hw : w.Sound) (h : w.Told told) (tx : TxId) {a : Act}
    (faithful : ∀ clock c, a = .call clock c → c.Faithful told) :
    Session.Told told (Session.act (w.sessions.find? tx) w.store a).1 ∧
      ∀ id eui p, (Session.act (w.sessions.find? tx) w.store a).2.participant? id eui = some p →
        p.Fits told eui := by
  have same : ∀ s : Store, s.entries = w.store.entries → ∀ id eui p,
      s.participant? id eui = some p → p.Fits told eui := by
    intro s entries id eui p hp
    rw [Store.participant?_congr entries] at hp
    exact h.stored id eui p hp
  have ended : Session.Told told none := by simp [Session.Told]
  have own := h.staged tx
  cases hx : w.sessions.find? tx with
  | none =>
    cases a with
    | begin => exact ⟨Transaction.told_fresh.working, h.stored⟩
    | _ => exact ⟨ended, h.stored⟩
  | some x =>
    rw [hx] at own
    cases x with
    | leaving held =>
      cases a with
      | leave => exact ⟨ended, same _ rfl⟩
      | _ => exact ⟨own, h.stored⟩
    | working t =>
      have told := own t rfl
      cases a with
      | begin => exact ⟨own, h.stored⟩
      | call clock c =>
        simp only [Session.act]
        split
        · next r s' t' perform =>
          have effect := Transaction.perform_effect hw.keyed (hw.confined t hx) perform
          exact ⟨(told.perform (faithful clock c rfl) perform).working, same s' effect.entries⟩
        · exact ⟨own, h.stored⟩
      | acquire id =>
        simp only [Session.act]
        split
        · have locked : (Transaction.lock (w.store, t) id).2.Told _ := ⟨told.staging, told.saved⟩
          exact ⟨locked.working, same _ rfl⟩
        · exact ⟨own, h.stored⟩
      | publish =>
        exact ⟨by simp [Session.act, Session.Told], fun _ _ _ hp => h.publish hw hx hp⟩
      | leave => exact ⟨ended, same _ rfl⟩

theorem Told.step (hw : w.Sound) (h : w.Told told) {m : Stroke} (faithful : m.Faithful told) :
    (w.step m).Told told := by
  cases m with
  | create d devices => exact h.create d devices
  | act tx a =>
    obtain ⟨own, stored⟩ := h.act hw tx fun clock c ha => faithful tx clock c (ha ▸ rfl)
    refine ⟨fun id eui p hp => ?_, fun tx' => ?_⟩
    · rw [Shared.step, store_put] at hp
      exact stored id eui p hp
    · rw [Shared.step]
      by_cases same : tx = tx'
      · obtain rfl := same
        rw [find?_put_self]
        exact own
      · rw [find?_put_of_ne _ same]
        exact h.staged tx'

theorem told_after {h : List Stroke} (faithful : ∀ m ∈ h, m.Faithful told) :
    (after h).Told told := by
  induction h with
  | nil => exact told_empty
  | cons m h ih =>
    obtain ⟨first, rest⟩ := List.forall_mem_cons.1 faithful
    exact (ih rest).step (sound_after h) first

end Shared

end FirmwareRollout
