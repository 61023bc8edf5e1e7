import FirmwareRollout.Proofs.Database.Aborting
import FirmwareRollout.Proofs.Time.Micros
import Mathlib.Data.List.Nodup

/-!
A claim whose rows cannot all be read. The rows are parted into the rollouts that they hold and the
identifiers of those that hold none (`sortClaim_eq`); the former are claimed, the latter are put off
for an hour by one statement. In the last hour before the last instant there is no such time: a
claim that meets an unreadable row breaks off there (`claim_breaks_off`).

Main statement: `claim_parts_rows`.
-/

namespace FirmwareRollout

/-! ### An hour later, as the database keeps it -/

namespace Instant

variable {now t : Instant}

/-- The cut toward the start of 2000 moves an instant by less than a microsecond. -/
theorem nanos_cutToward2000 (h : t.nanos ≤ last.nanos) :
    t.nanos < t.cutToward2000.nanos + 1000 ∧ t.cutToward2000.nanos < t.nanos + 1000 := by
  have hepoch : databaseEpoch = 946684800000000000 := rfl
  have lower := t.second_ge
  have whole : t.nanos = t.second * 1000000000 + t.nano := rfl
  have near : t.nanos - databaseEpoch < (t.nanos - databaseEpoch).tdiv 1000 * 1000 + 1000 ∧
      (t.nanos - databaseEpoch).tdiv 1000 * 1000 < t.nanos - databaseEpoch + 1000 := by
    rw [Int.tdiv_eq_ediv]
    have one : Int.sign 1000 = 1 := rfl
    split <;> omega
  unfold cutToward2000
  rw [nanos_ofNanos (by omega)]
  omega

/-- The time that is set for rows that cannot be read: an hour later, as the database keeps it. That
is after `now` and after what the database has of `now`. -/
structure HourLater (now t : Instant) : Prop where
  hour : ∃ later : Instant, later.second = now.second + 3600 ∧
    later.nano = now.nano % 1000000000 ∧ t = later.cutToward2000
  after : ¬ t ≤ now
  not_due : ¬ t ≤ now.cutToward2000

theorem hourLater_of_anHourLater? {later : Instant} (h : now.anHourLater? = some later) :
    HourLater now later.cutToward2000 := by
  obtain ⟨hsecond, hnano⟩ : later.second = now.second + 3600 ∧
      later.nano = now.nano % 1000000000 := by
    unfold anHourLater? ofParts? at h
    split at h
    · cases h
      exact ⟨rfl, rfl⟩
    · cases h
  have hlast : last.nanos = 8210266876799999999999 := by decide
  have bound := later.second_le
  have counted : later.nano < 1000000000 := by omega
  have inside : later.nanos ≤ last.nanos := by
    rw [hlast, nanos]
    omega
  have cut := (nanos_cutToward2000 inside).1
  -- a leap second takes less than two seconds, and the cut of `now` less than a microsecond
  have before : now.nanos ≤ last.nanos := by
    have := now.nano_ok
    rw [hlast, nanos]
    omega
  have kept := (nanos_cutToward2000 before).2
  have small := nano_ofNanos_lt (databaseEpoch + (later.nanos - databaseEpoch).tdiv 1000 * 1000)
  change later.cutToward2000.nano < 1000000000 at small
  refine ⟨⟨later, hsecond, hnano, rfl⟩, ?_, ?_⟩ <;>
  · rw [le_iff]
    unfold nanos at *
    have := now.nano_ok
    omega

theorem exists_anHourLater (h : now.second + 3600 ≤ last.second) :
    ∃ later, now.anHourLater? = some later := by
  have bound : last.second = 8210266876799 := rfl
  have lower := now.second_ge
  unfold anHourLater? ofParts?
  rw [dif_pos (by omega)]
  exact ⟨_, rfl⟩

theorem anHourLater?_eq_none (h : last.second < now.second + 3600) : now.anHourLater? = none := by
  have bound : last.second = 8210266876799 := rfl
  unfold anHourLater? ofParts?
  rw [dif_neg (by omega)]

end Instant

namespace Database

/-! ### Parting rows -/

/-- The rollouts of the rows that can be read, in the order of the rows. -/
def readable (rows : List DeploymentRow) : List Deployment :=
  rows.filterMap fun row => row.decode.toOption

/-- The identifiers of the rows that cannot be read, in the order of the rows. -/
def unreadable (rows : List DeploymentRow) : List Uuid :=
  rows.filterMap fun row => if row.decode.toOption.isSome then none else row.id

variable {rows : List DeploymentRow} {row : DeploymentRow} {d : Deployment} {id : Uuid}

theorem toOption_decode_iff : row.decode.toOption = some d ↔ row.decode = .ok d := by
  cases row.decode <;> simp [Except.toOption]

theorem mem_readable_iff : d ∈ readable rows ↔ ∃ row ∈ rows, row.decode = .ok d := by
  simp only [readable, List.mem_filterMap, toOption_decode_iff]

theorem mem_unreadable_iff :
    id ∈ unreadable rows ↔ ∃ row ∈ rows, row.id = some id ∧ ∀ d, row.decode ≠ .ok d := by
  unfold unreadable
  rw [List.mem_filterMap]
  refine exists_congr fun row => and_congr_right fun _ => ?_
  cases row.decode <;> simp [Except.toOption]

/-- A rollout that is read, if there is one, has that identifier. -/
def Identified (id : Uuid) (result : Except Error Deployment) : Prop :=
  ∀ d, result = .ok d → d.id = id

theorem Identified.bind {α : Type} {column : Except Error α} {rest : α → Except Error Deployment}
    (h : ∀ a, Identified id (rest a)) : Identified id (column >>= rest) := by
  intro d hd
  cases column with
  | error e => cases hd
  | ok a => exact h a d hd

/-- A rollout has the identifier of the row that it is read from. -/
theorem id_of_decode (h : row.decode = .ok d) : row.id = some d.id := by
  cases hid : row.id with
  | none =>
    rw [DeploymentRow.decode, hid] at h
    cases h
  | some id =>
    have identified : Identified id row.decode := by
      have known : required "id" (some id) = pure id := rfl
      rw [DeploymentRow.decode, hid, known, pure_bind]
      repeat refine .bind fun _ => ?_
      intro d hd
      cases hd
      rfl
    rw [identified d h]

/-- **Rows are parted** into those that can be read and the others. -/
theorem sortClaim_eq (identified : ∀ row ∈ rows, row.id.isSome) :
    sortClaim rows = .ok (readable rows, unreadable rows) := by
  induction rows with
  | nil => rfl
  | cons row rows ih =>
    obtain ⟨first, rest⟩ := List.forall_mem_cons.1 identified
    obtain ⟨id, hid⟩ := Option.isSome_iff_exists.1 first
    cases hrow : row.decode with
    | ok d =>
      have good : readable (row :: rows) = d :: readable rows := by
        simp [readable, hrow, Except.toOption]
      have bad : unreadable (row :: rows) = unreadable rows := by
        simp [unreadable, hrow, Except.toOption]
      rw [good, bad, sortClaim, hrow, ih rest]
      rfl
    | error e =>
      have good : readable (row :: rows) = readable rows := by
        simp [readable, hrow, Except.toOption]
      have bad : unreadable (row :: rows) = id :: unreadable rows := by
        simp [unreadable, hrow, hid, Except.toOption]
      rw [good, bad, sortClaim, hrow, ih rest, hid]
      rfl

theorem nodup_readable (distinct : (rows.map (·.id)).Nodup) :
    ((readable rows).map (·.id)).Nodup := by
  unfold readable List.Nodup
  rw [List.pairwise_map, List.pairwise_filterMap]
  refine (List.pairwise_map.1 distinct).imp fun {row row'} hne d hd d' hd' heq => hne ?_
  rw [id_of_decode (toOption_decode_iff.1 hd), id_of_decode (toOption_decode_iff.1 hd'), heq]

theorem nodup_unreadable (distinct : (rows.map (·.id)).Nodup) : (unreadable rows).Nodup := by
  unfold unreadable List.Nodup
  rw [List.pairwise_filterMap]
  refine (List.pairwise_map.1 distinct).imp fun {row row'} hne id hid id' hid' heq => hne ?_
  split at hid <;> split at hid' <;> simp_all

/-- No row that can be read is taken for one that cannot. -/
theorem not_mem_unreadable (distinct : (rows.map (·.id)).Nodup) (hd : d ∈ readable rows) :
    d.id ∉ unreadable rows := by
  intro hid
  obtain ⟨row, hrow, decoded⟩ := mem_readable_iff.1 hd
  obtain ⟨row', hrow', same, undecoded⟩ := mem_unreadable_iff.1 hid
  have heq : row = row' :=
    List.inj_on_of_nodup_map distinct hrow hrow' ((id_of_decode decoded).trans same.symm)
  exact undecoded d (heq ▸ decoded)

/-! ### The claim -/

/-- A server that replies as given, and notes what it is sent. -/
def noting (reply : (s : Statement) → s.Result) (s : Statement) (sent : List Statement) :
    s.Result × List Statement := (reply s, sent ++ [s])

/-- What a claim comes to and the statements that it sends; nothing if it breaks off. -/
def claimed (reply : (s : Statement) → s.Result) (limit : UInt32) (now : Instant) :
    Option (Except Error (List Deployment) × List Statement) :=
  (claimDue limit now).run.eval (serve (noting reply)) []

section Claim

variable {reply : (s : Statement) → s.Result} {limit : UInt32} {now : Instant}
  (received : reply (.selectDue now.cutToward2000 limit) = .ok rows)
  (identified : ∀ row ∈ rows, row.id.isSome)
include received identified

/-- A claim puts off the rows that cannot be read, and gives the others. -/
theorem claimed_eq : claimed reply limit now =
    (quarantine (unreadable rows) now >>= fun _ => pure (readable rows)).run.eval
      (serve (noting reply)) [.selectDue now.cutToward2000 limit] := by
  have selected : (execute (.selectDue now.cutToward2000 limit)).run.eval
      (serve (noting reply)) [] = some (.ok rows, [.selectDue now.cutToward2000 limit]) :=
    congrArg (fun r => some (r, _)) received
  have sorted : (reading (sortClaim rows)).run.eval (serve (noting reply))
      [.selectDue now.cutToward2000 limit] =
        some (.ok (readable rows, unreadable rows), [.selectDue now.cutToward2000 limit]) := by
    rw [sortClaim_eq identified]
    rfl
  exact (Program.eval_bind_ok selected).trans (Program.eval_bind_ok sorted)

theorem claimed_of_readable (all : unreadable rows = []) : claimed reply limit now =
    some (.ok (readable rows), [.selectDue now.cutToward2000 limit]) := by
  rw [claimed_eq received identified, all]
  rfl

theorem claimed_of_unreadable (unread : unreadable rows ≠ []) {later : Instant}
    (hour : now.anHourLater? = some later) :
    let put := Statement.quarantine (unreadable rows) later.cutToward2000
    claimed reply limit now = some ((reply put).map fun _ => readable rows,
      [.selectDue now.cutToward2000 limit, put]) := by
  intro put
  rw [claimed_eq received identified, quarantine, if_neg (by simpa using unread), hour]
  have sent (r : put.Result) (answered : reply put = r) :
      (execute put).run.eval (serve (noting reply)) [.selectDue now.cutToward2000 limit] =
        some (r, [.selectDue now.cutToward2000 limit, put]) :=
    congrArg (fun r => some (r, _)) answered
  cases answered : reply put with
  | error e => exact Program.eval_bind_error (Program.eval_bind_error (sent _ answered))
  | ok n => exact Program.eval_bind_ok (Program.eval_bind_ok (sent _ answered))

/-- **In the last hour** a claim that meets an unreadable row breaks off. -/
theorem claim_breaks_off (unread : unreadable rows ≠ []) (late : now.anHourLater? = none) :
    claimed reply limit now = none := by
  rw [claimed_eq received identified, quarantine, if_neg (by simpa using unread), late]
  rfl

end Claim

/-- **What a claim makes of its rows**, whose identifiers are there and differ. The rollouts of the
rows that can be read and the identifiers of the others are apart, each is there once. With all rows
read, the claim gives the rollouts and sends nothing else. Otherwise it sends one statement, which
sets a later time for the others, if there is such a time; without one it breaks off. -/
theorem claim_parts_rows (reply : (s : Statement) → s.Result) (limit : UInt32) (now : Instant)
    (rows : List DeploymentRow)
    (received : reply (.selectDue now.cutToward2000 limit) = .ok rows)
    (identified : ∀ row ∈ rows, row.id.isSome) (distinct : (rows.map (·.id)).Nodup) :
    let select := Statement.selectDue now.cutToward2000 limit
    (∀ d, d ∈ readable rows ↔ ∃ row ∈ rows, row.decode = .ok d) ∧
    (∀ id, id ∈ unreadable rows ↔ ∃ row ∈ rows, row.id = some id ∧ ∀ d, row.decode ≠ .ok d) ∧
    ((readable rows).map (·.id)).Nodup ∧ (unreadable rows).Nodup ∧
    (∀ d ∈ readable rows, d.id ∉ unreadable rows) ∧
    (unreadable rows = [] → claimed reply limit now = some (.ok (readable rows), [select])) ∧
    (unreadable rows ≠ [] → now.second + 3600 ≤ Instant.last.second →
      ∃ t, Instant.HourLater now t ∧ claimed reply limit now =
        some ((reply (.quarantine (unreadable rows) t)).map fun _ => readable rows,
          [select, .quarantine (unreadable rows) t])) ∧
    (unreadable rows ≠ [] → Instant.last.second < now.second + 3600 →
      claimed reply limit now = none) := by
  intro select
  refine ⟨fun d => mem_readable_iff, fun id => mem_unreadable_iff, nodup_readable distinct,
    nodup_unreadable distinct, fun d => not_mem_unreadable distinct,
    claimed_of_readable received identified, fun unread inTime => ?_, fun unread late => ?_⟩
  · obtain ⟨later, hour⟩ := Instant.exists_anHourLater inTime
    exact ⟨later.cutToward2000, Instant.hourLater_of_anHourLater? hour,
      claimed_of_unreadable received identified unread hour⟩
  · exact claim_breaks_off received identified unread (Instant.anHourLater?_eq_none late)

/-- A row that holds a rollout. -/
def soundRow : DeploymentRow where
  id := some ⟨Vector.replicate 16 8⟩
  createdAt := some .epoch
  updatedAt := some .epoch
  name := some "sample"
  group := some ⟨Vector.replicate 16 1⟩
  matrix := some [3]
  descriptor := some [1, 2, 3, 4]
  payload := some [5, 6, 7, 8]
  stage := some "MC_SETUP"
  nextStepAfter := some .epoch
  fragSize := some 0
  redundancy := some 0
  blockAckDelay := some 0
  multicastTimeout := some 0
  unicastTimeoutNanos := some 60000000000
  retryCount := some 0

/-- A row whose state is no stage. -/
def brokenRow : DeploymentRow :=
  { soundRow with id := some ⟨Vector.replicate 16 1⟩, stage := some "NOPE" }

/-- A server on which two rows are due, one of which cannot be read, and both statements succeed. -/
def mixedReply : (s : Statement) → s.Result
  | .selectDue .. => .ok [soundRow, brokenRow]
  | .quarantine ids _ => .ok ids.length
  | _ => .error Connection.failure

theorem mixed_rows :
    (∀ row ∈ [soundRow, brokenRow], row.id.isSome) ∧ ([soundRow, brokenRow].map (·.id)).Nodup ∧
    (readable [soundRow, brokenRow]).map (·.id) = [⟨Vector.replicate 16 8⟩] ∧
    unreadable [soundRow, brokenRow] = [⟨Vector.replicate 16 1⟩] := by
  decide +kernel

theorem mixed_rows_parted : ∃ t, Instant.HourLater .epoch t ∧
    claimed mixedReply 10 .epoch = some (.ok (readable [soundRow, brokenRow]),
      [.selectDue Instant.epoch.cutToward2000 10, .quarantine [⟨Vector.replicate 16 1⟩] t]) ∧
    (readable [soundRow, brokenRow]).map (·.id) = [⟨Vector.replicate 16 8⟩] := by
  obtain ⟨identified, distinct, good, bad⟩ := mixed_rows
  obtain ⟨-, -, -, -, -, -, parted, -⟩ :=
    claim_parts_rows mixedReply 10 .epoch [soundRow, brokenRow] rfl identified distinct
  rw [bad] at parted
  obtain ⟨t, hour, run⟩ := parted (List.cons_ne_nil _ _) (by decide)
  exact ⟨t, hour, run, good⟩

/-- **A claim need not come to an end** although its rows have identifiers that differ, its
statements succeed, and there is a later instant. -/
theorem last_hour_breaks_off :
    let now : Instant := ⟨8210266875000, 0, by decide, by decide, .inl (by decide)⟩
    mixedReply (.selectDue now.cutToward2000 2) = .ok [soundRow, brokenRow] ∧
    (∀ row ∈ [soundRow, brokenRow], row.id.isSome) ∧ ([soundRow, brokenRow].map (·.id)).Nodup ∧
    (∀ ids t, ∃ n, mixedReply (.quarantine ids t) = .ok n) ∧ ¬ Instant.last ≤ now ∧
    claimed mixedReply 2 now = none := by
  intro now
  obtain ⟨identified, distinct, -, bad⟩ := mixed_rows
  refine ⟨rfl, identified, distinct, fun ids t => ⟨_, rfl⟩, by decide, ?_⟩
  have unread : unreadable [soundRow, brokenRow] ≠ [] := by
    rw [bad]
    exact List.cons_ne_nil _ _
  exact claim_breaks_off rfl identified unread (by decide)

end Database

end FirmwareRollout
