import FirmwareRollout.Proofs.Store.Onward

/-!
No update is lost. While a transaction holds a rollout, nobody but the transaction itself can change
what is stored of it, and that only by publishing (`get_step_of_holds`). So what it has read under
the lock is what it overwrites. `versions` lists what was ever stored of a rollout, each version
with what its transaction had read, and in a history in which every transaction reads what it writes
(`ReadsFirst`) these versions follow one another (`Serial`).

Main statement: `no_update_lost`.
-/

namespace FirmwareRollout

variable {s s' : Store} {id : DeploymentId}

/-! ### What a transaction has read -/

/-- What a transaction gets under a lock without having written it is what is stored. -/
theorem Transaction.stored_of_rows {t : Transaction} (hs : s.Keyed) (ht : t.Confined)
    {clock : Instant} {c : Call} {r : c.Result} {left : Option Transaction}
    (h : t.perform s clock c = some (r, s', left)) {d : Deployment} (hd : d ∈ c.rows r)
    (unwritten : t.staging.deployments.find? d.id = none) : s.get d.id = some d := by
  have stored : t.view s d.id = some d → s.get d.id = some d := by
    intro hview
    rwa [view, unwritten, Option.none_or] at hview
  cases c with
  | claimDue limit now =>
    simp only [perform] at h
    cases h
    exact stored (of_mem_claimDue hs ht hd).2.1
  | lockedGet id' =>
    simp only [perform] at h
    split at h
    · cases h
      cases hd
    · cases h
    · cases h
      have hview : t.view s id' = some d := Option.mem_toList.1 hd
      obtain rfl := id_of_view hs ht hview
      exact stored hview
  | _ => cases hd

namespace Shared

variable {w : Shared} {tx : TxId}

/-- The transaction `tx`, if it takes calls. -/
def working? (w : Shared) (tx : TxId) : Option Transaction :=
  match w.sessions.find? tx with
  | some (.working t) => some t
  | _ => none

theorem working?_eq_some_iff {t : Transaction} :
    w.working? tx = some t ↔ w.sessions.find? tx = some (.working t) := by
  unfold working?
  split
  · next h => rw [h, Option.some.injEq, Option.some.injEq, Session.working.injEq]
  · next h => exact ⟨nofun, fun h' => absurd h' (h t)⟩

theorem Sound.get_step_act (hw : w.Sound) (a : Act) (ha : a ≠ .publish) :
    (w.step (.act tx a)).store.get id = w.store.get id := by
  obtain ⟨x', s', hstep, change⟩ := hw.step_act tx a
  rw [hstep, store_put]
  exact Store.get_congr (change.entries ha) id

/-- **A lock keeps a record as it is**: of a rollout that a transaction holds, nothing changes what
is stored, but the publishing of that transaction. -/
theorem Sound.get_step_of_holds (hw : w.Sound) (hid : w.Holds tx id) {m : Stroke}
    (hm : m ≠ .act tx .publish) : (w.step m).store.get id = w.store.get id := by
  by_cases own : ∃ a, m = .act tx a
  · obtain ⟨a, rfl⟩ := own
    exact hw.get_step_act a fun ha => hm (ha ▸ rfl)
  · exact (hw.onward_step fun a ha => own ⟨a, ha⟩).get_eq hid

/-- The record of a rollout that a stroke hands out to the transaction `tx` under the lock, if `tx`
has not written the rollout itself. -/
def obtains (w : Shared) (tx : TxId) (id : DeploymentId) : Stroke → Option Deployment
  | .act tx' (.call clock c) =>
    match w.working? tx with
    | some t =>
      if tx' = tx ∧ t.staging.deployments.contains id = false then
        match t.perform w.store clock c with
        | some (r, _) => (c.rows r).find? (·.id = id)
        | none => none
      else none
    | none => none
  | _ => none

/-- The record of a rollout that the transaction `tx` obtained first under the lock; none if it has
ended. -/
def read? (tx : TxId) (id : DeploymentId) : List Stroke → Option Deployment
  | [] => none
  | m :: h =>
    if ((after (m :: h)).working? tx).isSome then
      (read? tx id h).or ((after h).obtains tx id m)
    else none

theorem Sound.of_obtains (hw : w.Sound) {m : Stroke} {d : Deployment}
    (h : w.obtains tx id m = some d) : id ∈ w.gives tx m ∧ w.store.get id = some d ∧
      ∃ clock c, m = .act tx (.call clock c) := by
  cases m with
  | create d devices => cases h
  | act tx' a =>
    cases a with
    | call clock c =>
      simp only [obtains] at h
      split at h
      · next t ht =>
        rw [working?_eq_some_iff] at ht
        split at h
        · next hcond =>
          obtain ⟨rfl, unwritten⟩ := hcond
          split at h
          · next r rest hperform =>
            obtain rfl : d.id = id := by simpa using List.find?_some h
            have hd := List.mem_of_find?_eq_some h
            refine ⟨?_, ?_, clock, c, rfl⟩
            · simp only [gives, if_pos, Session.answer, ht, hperform, Option.map_some]
              cases c with
              | update d => cases hd
              | _ => exact List.mem_map_of_mem hd
            · exact Transaction.stored_of_rows hw.keyed (hw.confined t ht) hperform hd
                (Table.contains_eq_false_iff.1 unwritten)
          · cases h
        · cases h
      · cases h
    | _ => cases h

/-- **What a transaction has read stays what is stored**, as long as it takes calls. -/
theorem get_of_read? {h : List Stroke} {d : Deployment} (hd : read? tx id h = some d) :
    (after h).Holds tx id ∧ (after h).store.get id = some d := by
  induction h generalizing d with
  | nil => cases hd
  | cons m h ih =>
    have sound := sound_after h
    unfold read? at hd
    split at hd
    · next live =>
      obtain ⟨t, ht⟩ := Option.isSome_iff_exists.1 live
      have hsession := working?_eq_some_iff.1 ht
      -- it still takes calls, so that it has not published
      have kept : m ≠ .act tx .publish := by
        rintro rfl
        have hsession : (Shared.step (after h) _).sessions.find? tx = _ := hsession
        rw [Shared.step, find?_put_self] at hsession
        simp only [Session.act] at hsession
        split at hsession
        · cases hsession
        · next hx => exact hx t hsession
      rcases Option.or_eq_some_iff.1 hd with hd | ⟨-, hd⟩
      · obtain ⟨hid, hget⟩ := ih hd
        exact ⟨sound.holds_step hid m (Table.contains_of_find? hsession),
          (sound.get_step_of_holds hid kept).trans hget⟩
      · obtain ⟨hid, hget, clock, c, rfl⟩ := sound.of_obtains hd
        exact ⟨sound.holds_of_gives hid, (sound.get_step_act (.call clock c) (by simp)).trans hget⟩
    · cases hd

/-- What a stroke hands out counts as read. -/
theorem read?_of_obtains {h : List Stroke} {m : Stroke} {d : Deployment}
    (hd : (after h).obtains tx id m = some d) : read? tx id (m :: h) = some d := by
  have sound := sound_after h
  obtain ⟨hid, hget, clock, c, rfl⟩ := sound.of_obtains hd
  obtain ⟨y, hy, -⟩ := sound.holds_of_gives hid
  have live : ((after (.act tx (.call clock c) :: h)).working? tx).isSome := by
    have working : ((after h).working? tx).isSome := by
      simp only [obtains] at hd
      split at hd
      · next t ht => rw [ht]; rfl
      · cases hd
    obtain ⟨t, ht⟩ := Option.isSome_iff_exists.1 working
    rw [working?_eq_some_iff] at ht
    have step : ((after h).step (.act tx (.call clock c))).sessions.find? tx = some y := hy
    rw [Shared.step, find?_put_self, ht] at step
    simp only [Session.act] at step
    rw [Option.isSome_iff_exists]
    split at step
    · next t' _ => exact ⟨t', working?_eq_some_iff.2 (hy.trans step.symm)⟩
    · exact ⟨t, working?_eq_some_iff.2 (hy.trans step.symm)⟩
  rw [read?, if_pos live]
  cases hread : read? tx id h with
  | none => exact hd
  | some d' => exact (get_of_read? hread).2.symm.trans hget

/-! ### Versions -/

/-- A record that was stored of a rollout, and the one that its transaction had read; none is read
when the rollout is created. -/
structure Version where
  read : Option Deployment
  written : Deployment
deriving DecidableEq

/-- What the publishing of the transaction `tx` makes of the record of a rollout, if it has written
that rollout. -/
def writes (w : Shared) (tx : TxId) (id : DeploymentId) : Option Deployment :=
  (w.working? tx).bind (·.staging.deployments.find? id)

/-- Publishing puts what the transaction has written over what was stored. -/
theorem Sound.get_publish (hw : w.Sound) :
    (w.step (.act tx .publish)).store.get id = (w.writes tx id).or (w.store.get id) := by
  rw [Shared.step, store_put, writes]
  cases ht : w.working? tx with
  | none =>
    have same : (Session.act (w.sessions.find? tx) w.store .publish).2 = w.store := by
      simp only [Session.act]
      split
      · next hx => rw [working?_eq_some_iff.2 hx] at ht; cases ht
      · rfl
    rw [same]
    rfl
  | some t =>
    have hx := working?_eq_some_iff.1 ht
    rw [hx]
    show (t.publish w.store).get id = (t.staging.deployments.find? id).or _
    rw [Transaction.get_publish]
    cases hd : t.staging.deployments.find? id with
    | none => exact Option.map_id'
    | some d =>
      -- what is written is held, so it is stored
      have known := hw.known ⟨_, hx, (hw.confined t hx).staging.held hd⟩
      obtain ⟨e, he⟩ := Table.contains_iff.1 known
      rw [Store.get_of_find? he]
      rfl

/-- All that was ever stored of a rollout, the latest version first. -/
def versions (id : DeploymentId) : List Stroke → List Version
  | [] => []
  | .create d devices :: h =>
    if d.id = id ∧ ((after h).store.create d devices).1.isOk then ⟨none, d⟩ :: versions id h
    else versions id h
  | .act tx .publish :: h =>
    match (after h).writes tx id with
    | some d => ⟨read? tx id h, d⟩ :: versions id h
    | none => versions id h
  | .act _ _ :: h => versions id h

theorem versions_act {a : Act} (ha : a ≠ .publish) (h : List Stroke) :
    versions id (.act tx a :: h) = versions id h := by
  cases a <;> first | rfl | exact absurd rfl ha

/-- **Every change of a record is a version of it.** -/
theorem get_after (id : DeploymentId) (h : List Stroke) :
    (after h).store.get id = (versions id h).head?.map (·.written) := by
  induction h with
  | nil => rfl
  | cons m h ih =>
    have sound := sound_after h
    cases m with
    | create d devices =>
      show ((after h).store.create d devices).2.get id = _
      rw [versions]
      rcases (after h).store.create_cases d devices with ⟨error, hsame⟩ | ⟨-, table, -, hcreate⟩
      · rw [hsame]
        simpa [Except.isOk, Except.toBool] using ih
      · rw [hcreate]
        by_cases hid : d.id = id
        · subst hid
          simp [Store.get, Except.isOk, Except.toBool]
        · simpa [Store.get, hid] using ih
    | act tx a =>
      by_cases ha : a = .publish
      · subst ha
        refine (sound.get_publish).trans ?_
        rw [versions]
        cases (after h).writes tx id with
        | none => exact ih
        | some d => rfl
      · rw [versions_act ha, ← ih]
        exact sound.get_step_act a ha

/-! ### Transactions that read what they write -/

/-- In the history every transaction had read a rollout under the lock before it wrote it. -/
def ReadsFirst : List Stroke → Prop
  | [] => True
  | m :: h =>
    (∀ tx clock d, m = .act tx (.call clock (.update d)) → d.id ∈ (after h).gives tx m →
      (read? tx d.id h).isSome) ∧ ReadsFirst h

/-- Versions that follow one another: the first is created, and each of the others was written by a
transaction that had read the one before it. -/
inductive Serial : List Version → Prop where
  | nil : Serial []
  | created (d : Deployment) : Serial [⟨none, d⟩]
  | next {v : Version} {vs : List Version} (d : Deployment) (earlier : Serial (v :: vs)) :
    Serial (⟨some v.written, d⟩ :: v :: vs)

end Shared

/-- The transaction has written the rollout, now or before the point it has marked. -/
def Transaction.Wrote (t : Transaction) (id : DeploymentId) : Prop :=
  t.staging.deployments.contains id ∨ ∃ g, t.saved = some g ∧ g.deployments.contains id

theorem Transaction.Effect.wrote {t t' : Transaction} {c : Call} (h : Effect s t c s' t')
    (hid : t'.Wrote id) : t.Wrote id ∨ ∃ d, c = .update d ∧ d.id = id ∧ Free s t id := by
  cases h with
  | nothing => exact .inl hid
  | lock => exact .inl hid
  | write d clock free =>
    rcases hid with hid | ⟨g, hg, hid⟩
    · rcases Table.contains_insert.1 hid with rfl | hid
      · exact .inr ⟨d, rfl, rfl, free⟩
      · exact .inl (.inl hid)
    · exact .inl (.inr ⟨g, hg, hid⟩)
  | stage id' euis outcome terminal pending =>
    rw [stageAll_eq] at hid
    exact .inl hid
  | mark =>
    rcases hid with hid | ⟨g, hg, hid⟩
    · exact .inl (.inl hid)
    · cases hg
      exact .inl (.inl hid)
  | back g hg =>
    rcases hid with hid | ⟨g', hg', -⟩
    · exact .inl (.inr ⟨g, hg, hid⟩)
    · cases hg'
  | forget =>
    rcases hid with hid | ⟨g', hg', -⟩
    · exact .inl (.inl hid)
    · cases hg'

namespace Shared

variable {w : Shared} {tx : TxId}

theorem isSome_read?_cons {m : Stroke} {h : List Stroke} {t : Transaction}
    (ht : (after (m :: h)).working? tx = some t) (hid : (read? tx id h).isSome) :
    (read? tx id (m :: h)).isSome := by
  rw [read?, ht]
  obtain ⟨d, hd⟩ := Option.isSome_iff_exists.1 hid
  rw [hd]
  rfl

theorem mem_gives_update {t : Transaction} (ht : w.sessions.find? tx = some (.working t))
    {d : Deployment} (free : Transaction.Free w.store t d.id) (clock : Instant) :
    d.id ∈ w.gives tx (.act tx (.call clock (.update d))) := by
  simp only [gives, if_pos, Session.answer, ht, Transaction.perform,
    Transaction.lockState_eq_taken_iff.2 free, Option.map_some]
  exact List.mem_singleton.2 rfl

/-- What a transaction has written it has read before. -/
theorem isSome_read?_of_wrote {h : List Stroke} (reads : ReadsFirst h) {t : Transaction}
    (ht : (after h).working? tx = some t) (hid : t.Wrote id) : (read? tx id h).isSome := by
  induction h generalizing t with
  | nil => cases ht
  | cons m h ih =>
    obtain ⟨first, reads⟩ := reads
    refine isSome_read?_cons ht ?_
    rw [working?_eq_some_iff] at ht
    have sound := sound_after h
    cases m with
    | create d devices => exact ih reads (working?_eq_some_iff.2 ht) hid
    | act tx' a =>
      have ht : ((after h).step (.act tx' a)).sessions.find? tx = some (.working t) := ht
      by_cases hne : tx' = tx
      · subst hne
        obtain ⟨x', s', hstep, change⟩ := sound.step_act tx' a
        rw [hstep, find?_put_self] at ht
        generalize hx : (after h).sessions.find? tx' = x at change
        subst ht
        cases change with
        | nothing => exact ih reads (working?_eq_some_iff.2 hx) hid
        | begin absent => rcases hid with hid | ⟨g, hg, -⟩ <;> contradiction
        | work c t₀ t working call effect =>
          rw [working] at hx
          rcases effect.wrote hid with hid | ⟨d, rfl, rfl, free⟩
          · exact ih reads (working?_eq_some_iff.2 hx) hid
          · cases a with
            | call clock c =>
              cases call
              exact first tx' clock d rfl (mem_gives_update hx free clock)
            | _ => cases call
      · rw [Shared.step, find?_put_of_ne _ hne] at ht
        exact ih reads (working?_eq_some_iff.2 ht) hid

/-- Transactions that read what they write leave versions that follow one another. -/
theorem serial_versions {h : List Stroke} (reads : ReadsFirst h) (id : DeploymentId) :
    Serial (versions id h) := by
  induction h with
  | nil => exact .nil
  | cons m h ih =>
    have earlier := ih reads.2
    have stored := get_after id h
    cases m with
    | create d devices =>
      rw [versions]
      split
      · next hcond =>
        obtain ⟨rfl, created⟩ := hcond
        rcases (after h).store.create_cases d devices with ⟨error, hsame⟩ | ⟨hnone, -⟩
        · rw [hsame] at created
          cases created
        · rw [Store.get, hnone] at stored
          rw [List.head?_eq_none_iff.1 (Option.map_eq_none_iff.1 stored.symm)]
          exact .created d
      · exact earlier
    | act tx a =>
      by_cases ha : a = .publish
      · subst ha
        rw [versions]
        split
        · next d hd =>
          obtain ⟨t, ht, hd⟩ := Option.bind_eq_some_iff.1 hd
          have written : t.Wrote id := .inl (Table.contains_of_find? hd)
          -- what it has read is what is stored, and that is the latest version
          obtain ⟨read, hread⟩ :=
            Option.isSome_iff_exists.1 (isSome_read?_of_wrote reads.2 ht written)
          rw [(get_of_read? hread).2] at stored
          obtain ⟨v, hv, rfl⟩ := Option.map_eq_some_iff.1 stored.symm
          obtain ⟨vs, hvs⟩ := List.head?_eq_some_iff.1 hv
          rw [hread, hvs]
          exact .next d (hvs ▸ earlier)
        · exact earlier
      · rwa [versions_act ha]

/-- **No update is lost.** In every history: a transaction holds a rollout until it ends, and
meanwhile only its own publishing changes the record; what is handed out to a transaction counts as
read, and what it has read it holds, and that is what is stored as long as it takes calls. If every
transaction reads what it writes, then publishing a rollout overwrites exactly what the transaction
has read of it, and all that was ever stored of a rollout is one series of versions, each written
upon having read the one before. -/
theorem no_update_lost (h : List Stroke) :
    (∀ tx id m, (after h).Holds tx id →
      ((after (m :: h)).sessions.contains tx → (after (m :: h)).Holds tx id) ∧
      (m ≠ .act tx .publish → (after (m :: h)).store.get id = (after h).store.get id)) ∧
    (∀ tx id m d, (after h).obtains tx id m = some d → read? tx id (m :: h) = some d) ∧
    (∀ tx id d, read? tx id h = some d →
      (after h).Holds tx id ∧ (after h).store.get id = some d) ∧
    (ReadsFirst h → ∀ id,
      (∀ tx d, (after h).writes tx id = some d →
        (read? tx id h).isSome ∧ (after h).store.get id = read? tx id h ∧
          (after (.act tx .publish :: h)).store.get id = some d) ∧
      Serial (versions id h) ∧
      (after h).store.get id = (versions id h).head?.map (·.written)) := by
  have sound := sound_after h
  refine ⟨fun tx id m hid => ⟨sound.holds_step hid m, sound.get_step_of_holds hid⟩,
    fun tx id m d => read?_of_obtains, fun tx id d => get_of_read?,
    fun reads id => ⟨fun tx d hd => ?_, serial_versions reads id, get_after id h⟩⟩
  obtain ⟨t, ht, hfind⟩ := Option.bind_eq_some_iff.1 hd
  have read := isSome_read?_of_wrote reads ht (.inl (Table.contains_of_find? hfind))
  obtain ⟨r, hr⟩ := Option.isSome_iff_exists.1 read
  refine ⟨read, ?_, ?_⟩
  · rw [hr, (get_of_read? hr).2]
  · show ((after h).step _).store.get id = some d
    rw [sound.get_publish, hd]
    rfl

end Shared

/-- A rollout that is due from the start of 1970 on. -/
def Deployment.sample : Deployment where
  id := ⟨Vector.replicate 16 0⟩
  createdAt := .epoch
  updatedAt := .epoch
  plan := ⟨"sample", some ⟨Vector.replicate 16 1⟩, 0, Vector.replicate 4 0, [], 64, 0, 0, 0, .zero⟩
  progress := ⟨.multicastSetup, .epoch, 0⟩

namespace Shared

/-- A history in which a transaction reads a rollout, writes it, and is about to commit. -/
def rewrite : List Stroke :=
  [.act 1 (.call .epoch (.update { Deployment.sample with progress := ⟨.enqueue, .epoch, 0⟩ })),
    .act 1 (.call .epoch (.lockedGet Deployment.sample.id)), .act 1 .begin, .create .sample []]

theorem readsFirst_rewrite : ReadsFirst rewrite := by
  refine ⟨?_, by simp, by simp, by simp, trivial⟩
  rintro tx clock d heq -
  obtain ⟨rfl, rfl, rfl⟩ : tx = 1 ∧ clock = .epoch ∧ d = _ := by simpa [eq_comm] using heq
  decide +kernel

theorem no_update_lost_of_rewrite : ReadsFirst rewrite ∧
    ((after rewrite).writes 1 Deployment.sample.id).isSome ∧
    (after rewrite).store.get Deployment.sample.id = read? 1 Deployment.sample.id rewrite := by
  have written : ((after rewrite).writes 1 Deployment.sample.id).isSome := by decide +kernel
  obtain ⟨d, hd⟩ := Option.isSome_iff_exists.1 written
  have serial := (no_update_lost rewrite).2.2.2 readsFirst_rewrite Deployment.sample.id
  exact ⟨readsFirst_rewrite, written, (serial.1 1 d hd).2.1⟩

end Shared

end FirmwareRollout
