import FirmwareRollout.Proofs.Database.Aborting
import FirmwareRollout.Proofs.Store.Versions
import FirmwareRollout.Proofs.Time.Micros

/-!
What a database keeps of a rollout. An insertion names sixteen columns and gives each of them a
parameter, an update gives parameters to all but two; the row that comes of it is read back by
`DeploymentRow.decode`. `DeploymentRow.fill` forms that row from the parameters in their order, so
that a parameter in another one's place would show.

Main statement: `rows_round_trip`.
-/

namespace FirmwareRollout

/-! ### Statements that are sent -/

namespace Program

variable {Op : Type} {Reply : Op → Type} {α β : Type} {op : Op}

/-- With some replies a program comes to make that call. -/
def Makes (op : Op) : Program Op Reply α → Prop
  | done _ => False
  | step op' resume => op' = op ∨ ∃ r, Makes op (resume r)

theorem Makes.bind {p : Program Op Reply α} {f : α → Program Op Reply β}
    (h : (p.bind f).Makes op) : p.Makes op ∨ ∃ a, (f a).Makes op := by
  induction p with
  | done a => exact .inr ⟨a, h⟩
  | step op' resume ih =>
    obtain rfl | ⟨r, rest⟩ := h
    · exact .inl (.inl rfl)
    · exact (ih r rest).imp (fun h => .inr ⟨r, h⟩) id

theorem Makes.andThen {task : ExceptT Error (Program Op Reply) α}
    {f : α → ExceptT Error (Program Op Reply) β} (h : (task >>= f).run.Makes op) :
    task.run.Makes op ∨ ∃ a, (f a).run.Makes op := by
  refine (Makes.bind h).imp_right ?_
  rintro ⟨r | a, rest⟩
  · exact rest.elim
  · exact ⟨a, rest⟩

end Program

namespace Database

open Program

/-! ### Parameters in columns -/

/-- The columns of the table of rollouts. -/
inductive Column where
  | id | createdAt | updatedAt | name | group | matrix | descriptor | payload | stage
  | nextStepAfter | fragSize | redundancy | blockAckDelay | multicastTimeout | unicastTimeoutNanos
  | retryCount
deriving DecidableEq

/-- The columns that an insertion names, in the order of its parameters. -/
def insertedColumns : List Column :=
  [.id, .createdAt, .updatedAt, .name, .group, .matrix, .descriptor, .payload, .stage,
    .nextStepAfter, .fragSize, .redundancy, .blockAckDelay, .multicastTimeout,
    .unicastTimeoutNanos, .retryCount]

/-- The columns that an update names, in the order of its parameters after the first one, which is
the identifier of the row. -/
def updatedColumns : List Column :=
  [.updatedAt, .name, .group, .matrix, .descriptor, .payload, .stage, .nextStepAfter, .fragSize,
    .redundancy, .blockAckDelay, .multicastTimeout, .unicastTimeoutNanos, .retryCount]

namespace Statement.Param

/-- What a parameter is in a column of identifiers, if it is fit for one. -/
def uuid? : Param → Option (Option Uuid)
  | .uuid id => some (some id)
  | .null => some none
  | _ => none

/-- What a parameter is in a column of times. -/
def time? : Param → Option (Option Instant)
  | .time t => some (some t)
  | .null => some none
  | _ => none

/-- What a parameter is in a column of texts. -/
def text? : Param → Option (Option String)
  | .text s => some (some s)
  | .null => some none
  | _ => none

/-- What a parameter is in a column of byte strings. -/
def bytes? : Param → Option (Option (List UInt8))
  | .bytes b => some (some b)
  | .null => some none
  | _ => none

/-- What a parameter is in a column of 64-bit integers. -/
def word? : Param → Option (Option Int64)
  | .integer n =>
    if -9223372036854775808 ≤ n ∧ n ≤ 9223372036854775807 then some (some (.ofInt n)) else none
  | .null => some none
  | _ => none

@[simp] theorem uuid?_orNull (id? : Option Uuid) : uuid? (.orNull .uuid id?) = some id? := by
  cases id? <;> rfl

@[simp] theorem time?_orNull (t? : Option Instant) : time? (.orNull .time t?) = some t? := by
  cases t? <;> rfl

@[simp] theorem text?_orNull (s? : Option String) : text? (.orNull .text s?) = some s? := by
  cases s? <;> rfl

@[simp] theorem bytes?_orNull (b? : Option (List UInt8)) :
    bytes? (.orNull .bytes b?) = some b? := by
  cases b? <;> rfl

@[simp] theorem word?_orNull (n? : Option Int64) : word? (.orNull word n?) = some n? := by
  cases n? with
  | none => rfl
  | some n =>
    have range := And.intro n.le_toInt n.toInt_lt
    show (if _ then _ else _) = _
    rw [if_pos (by omega), Int64.ofInt_toInt]

end Statement.Param

namespace DeploymentRow

open Statement (Param)

/-- A row without values. -/
def blank : DeploymentRow :=
  ⟨none, none, none, none, none, none, none, none, none, none, none, none, none, none, none, none⟩

/-- The row with that parameter in that column, if it is fit for it. -/
def set (row : DeploymentRow) (p : Param) : Column → Option DeploymentRow
  | .id => p.uuid?.map fun id => { row with id }
  | .createdAt => p.time?.map fun createdAt => { row with createdAt }
  | .updatedAt => p.time?.map fun updatedAt => { row with updatedAt }
  | .name => p.text?.map fun name => { row with name }
  | .group => p.uuid?.map fun group => { row with group }
  | .matrix => p.bytes?.map fun matrix => { row with matrix }
  | .descriptor => p.bytes?.map fun descriptor => { row with descriptor }
  | .payload => p.bytes?.map fun payload => { row with payload }
  | .stage => p.text?.map fun stage => { row with stage }
  | .nextStepAfter => p.time?.map fun nextStepAfter => { row with nextStepAfter }
  | .fragSize => p.word?.map fun fragSize => { row with fragSize }
  | .redundancy => p.word?.map fun redundancy => { row with redundancy }
  | .blockAckDelay => p.word?.map fun blockAckDelay => { row with blockAckDelay }
  | .multicastTimeout => p.word?.map fun multicastTimeout => { row with multicastTimeout }
  | .unicastTimeoutNanos => p.word?.map fun unicastTimeoutNanos => { row with unicastTimeoutNanos }
  | .retryCount => p.word?.map fun retryCount => { row with retryCount }

/-- The row with the parameters in the columns, in their order. There is one for each column. -/
def fill (row : DeploymentRow) : List Column → List Param → Option DeploymentRow
  | [], [] => some row
  | column :: columns, p :: params => (row.set p column).bind fun row => row.fill columns params
  | _, _ => none

/-- The row after an update that is sent with these parameters. The first of them says which row. -/
def rewrite (row : DeploymentRow) : List Param → Option DeploymentRow
  | key :: params => if key.uuid? = some row.id then row.fill updatedColumns params else none
  | [] => none

/-- **An insertion** gives every column the value that it holds in the row. -/
theorem fill_inserted (row : DeploymentRow) :
    blank.fill insertedColumns (Statement.insertDeployment row).params = some row := by
  simp [fill, set, insertedColumns, Statement.params, Statement.contents]

/-- **An update** of a row leaves its identifier and the time of its creation. -/
theorem rewrite_updated {old new : DeploymentRow} (same : old.id = new.id) :
    old.rewrite (Statement.updateDeployment new).params = some (old.overwrite new) := by
  simp [rewrite, fill, set, updatedColumns, Statement.params, Statement.contents, overwrite, same]

/-! ### Reading back -/

theorem required_some {α : Type} (column : String) (a : α) : required column (some a) = .ok a := rfl

theorem toInt_ofCount (n : UInt32) : (ofCount n).toInt = n.toNat := by
  have small := n.toNat_lt
  exact Int64.toInt_ofNat_of_lt (by omega)

theorem count32_ofCount (column : String) (n : UInt32) :
    count32 column (some (ofCount n)) = .ok n := by
  have small := n.toNat_lt
  have back := toInt_ofCount n
  show (if 0 ≤ (ofCount n).toInt ∧ (ofCount n).toInt < 4294967296 then
    Except.ok (UInt32.ofNat (ofCount n).toInt.toNat) else _) = _
  rw [back, if_pos (by omega), Int.toNat_natCast, UInt32.ofNat_toNat]

theorem descriptorBytes_toList (id : Uuid) (v : Vector UInt8 4) :
    descriptorBytes id v.toList = .ok v := by
  rw [descriptorBytes, Identity.ofBytes?_toList]

theorem stageOf_tag (id : Uuid) (s : Stage) : stageOf id s.tag = .ok s := by
  rw [stageOf, Stage.ofTag?_tag]

theorem timeoutOf_ofNat (id : Uuid) {timeout : Duration}
    (fits : timeout.nanos < 9223372036854775808) :
    timeoutOf id (.ofNat timeout.nanos) = .ok timeout := by
  have back : (Int64.ofNat timeout.nanos).toInt = timeout.nanos := Int64.toInt_ofNat_of_lt fits
  rw [timeoutOf, back, if_pos (Int.natCast_nonneg _), Int.toNat_natCast]
  refine congrArg Except.ok (Duration.ext ?_)
  exact Nat.min_eq_left timeout.nanos_le

/-- A rollout has a row exactly if its timeout fits into a column. -/
theorem encode_eq_ok (d : Deployment) (fits : d.plan.unicastTimeout.nanos < 9223372036854775808) :
    ∃ row, encode d = .ok row := by
  rw [encode, timeoutNanos, if_pos fits]
  exact ⟨_, rfl⟩

theorem encode_eq_error (d : Deployment)
    (large : ¬d.plan.unicastTimeout.nanos < 9223372036854775808) :
    encode d = .error (.internal ("unicast timeout " ++ d.plan.unicastTimeout.text ++
      " of deployment " ++ toString d.id ++ " does not fit in storage")) := by
  rw [encode, timeoutNanos, if_neg large]
  rfl

theorem fits_of_encode {d : Deployment} {row : DeploymentRow} (h : encode d = .ok row) :
    d.plan.unicastTimeout.nanos < 9223372036854775808 := by
  refine Decidable.of_not_not fun large => ?_
  rw [encode_eq_error d large] at h
  cases h

theorem createdAt_encode {d : Deployment} {row : DeploymentRow} (h : encode d = .ok row) :
    row.createdAt = some d.createdAt.cutToward2000 := by
  rw [encode, timeoutNanos, if_pos (fits_of_encode h)] at h
  obtain rfl := Except.ok.inj h
  rfl

/-- A row that is written over another is read back as the rollout with its times cut, but for the
time of creation, which is that of the other. -/
theorem decode_overwrite {d : Deployment} {old new : DeploymentRow} {t : Instant}
    (encoded : encode d = .ok new) (created : old.createdAt = some t) :
    (old.overwrite new).decode = .ok { d with
      createdAt := t
      updatedAt := d.updatedAt.cutToward2000
      progress := { d.progress with nextStepAfter := d.progress.nextStepAfter.cutToward2000 } } := by
  have fits := fits_of_encode encoded
  rw [encode, timeoutNanos, if_pos fits] at encoded
  obtain rfl := Except.ok.inj encoded
  simp only [decode, overwrite, created, required_some, count32_ofCount, bind, Except.bind,
    matrixByte, descriptorBytes_toList, stageOf_tag, timeoutOf_ofNat _ fits]
  rfl

/-- **A row is read back** as the rollout that it was made of, if its times are whole
microseconds. -/
theorem decode_of_encode {d : Deployment} {row : DeploymentRow} (whole : d.WholeMicros)
    (encoded : encode d = .ok row) : row.decode = .ok d := by
  have back := decode_overwrite encoded (createdAt_encode encoded)
  rw [Instant.cutToward2000_eq_self_iff.2 whole.createdAt,
    Instant.cutToward2000_eq_self_iff.2 whole.updatedAt,
    Instant.cutToward2000_eq_self_iff.2 whole.nextStepAfter] at back
  exact back

end DeploymentRow

/-! ### The two operations that write rollouts -/

variable {d : Deployment} {devices : List EnrolledDevice} {clock : Instant} {row : DeploymentRow}
  {α β : Type}

theorem makes_execute {s : Statement} {op : Move} (h : (execute s).run.Makes op) :
    .execute s = op := by
  obtain same | ⟨r, none⟩ := h
  · exact same
  · exact none.elim

theorem Makes.reading {r : Except Error α} {f : α → Operation β} {op : Move} {a : α}
    (read : r = .ok a) (h : (Database.reading r >>= f).run.Makes op) : (f a).run.Makes op := by
  subst read
  exact h

/-- Devices are enrolled by other statements. -/
theorem not_makes_enrolment {id : DeploymentId} {t : Instant} :
    ¬Makes (.execute (.insertDeployment row)) (devices.forM fun device => do
      let _ ← execute (.insertDevice id device t) : Operation Unit).run := by
  induction devices with
  | nil => exact not_false
  | cons device devices ih =>
    intro h
    obtain enrols | ⟨_, rest⟩ := h.andThen
    · obtain inserts | ⟨_, none⟩ := Makes.andThen enrols
      · cases makes_execute inserts
      · exact none
    · exact ih rest

/-- **A creation inserts its row** and no other one. -/
theorem makes_create {row' : DeploymentRow} (encoded : DeploymentRow.encode d = .ok row) :
    (create d devices).run.Makes (.execute (.insertDeployment row')) ↔ row' = row := by
  constructor
  · intro h
    obtain begins | ⟨_, h⟩ := (Makes.reading encoded h).andThen
    · cases makes_execute begins
    obtain inserts | ⟨_, h⟩ := h.andThen
    · cases makes_execute inserts
      rfl
    obtain enrols | ⟨_, h⟩ := h.andThen
    · exact (not_makes_enrolment enrols).elim
    obtain commits | ⟨_, none⟩ := h.andThen
    · cases makes_execute commits
    · exact none.elim
  · rintro rfl
    rw [create, encoded]
    exact .inr ⟨.ok (), .inl rfl⟩

/-- **An update writes its row** and no other one. -/
theorem makes_update {row' : DeploymentRow}
    (encoded : DeploymentRow.encode { d with updatedAt := clock.floorMicros } = .ok row) :
    (update clock d).run.Makes (.execute (.updateDeployment row')) ↔ row' = row := by
  constructor
  · intro h
    obtain writes | ⟨changed, h⟩ := (Makes.reading encoded h).andThen
    · cases makes_execute writes
      rfl
    · change Makes _ (ExceptT.run (if (show Nat from changed) = 0 then _ else _)) at h
      split at h
      · exact h.elim
      · exact h.elim
  · rintro rfl
    rw [update]
    simp only [encoded]
    exact .inl rfl

/-- **Rollouts come back as they were stored.** The row that a creation inserts is formed from the
parameters of its statement and read back as the rollout itself, and the row that an update writes
over one with its identifier as the rollout with the time of creation of the old row, if the timeout
is at most 2⁶³ - 1 nanoseconds and the times are whole microseconds. With a longer timeout both fail
before they send anything. Transitions at whole microseconds keep the times whole. -/
theorem rows_round_trip (d : Deployment) (devices : List EnrolledDevice) (clock : Instant)
    (counted : clock.nano < 1000000000) :
    (d.plan.unicastTimeout.nanos ≤ 9223372036854775807 → d.WholeMicros →
      (∃ row, (∀ row', (create d devices).run.Makes (.execute (.insertDeployment row')) ↔
          row' = row) ∧
        ∃ formed, DeploymentRow.blank.fill insertedColumns
            (Statement.insertDeployment row).params = some formed ∧ formed.decode = .ok d) ∧
      ∃ row, (∀ row', (update clock d).run.Makes (.execute (.updateDeployment row')) ↔
          row' = row) ∧
        ∀ (old : DeploymentRow) (t : Instant), old.id = some d.id → old.createdAt = some t →
          ∃ formed, old.rewrite (Statement.updateDeployment row).params = some formed ∧
            formed.decode = .ok { d with createdAt := t, updatedAt := clock.floorMicros }) ∧
    (9223372036854775807 < d.plan.unicastTimeout.nanos →
      ∃ message, message = "unicast timeout " ++ d.plan.unicastTimeout.text ++ " of deployment " ++
          toString d.id ++ " does not fit in storage" ∧
        (create d devices).run = .done (.error (.internal message)) ∧
        (update clock d).run = .done (.error (.internal message))) ∧
    (d.WholeMicros → ∀ (m : Machine) (o : Nat → Occasion), (∀ n, (o n).now.WholeMicros) →
      ∀ n, (m.walk d o n).WholeMicros) := by
  refine ⟨fun small whole => ⟨?_, ?_⟩, fun large => ?_, fun whole m o hnow n =>
    Machine.wholeMicros_walk whole hnow n⟩
  · have fits : d.plan.unicastTimeout.nanos < 9223372036854775808 := by omega
    obtain ⟨row, encoded⟩ := DeploymentRow.encode_eq_ok d fits
    exact ⟨row, fun row' => makes_create encoded, row, row.fill_inserted,
      DeploymentRow.decode_of_encode whole encoded⟩
  · have fits : d.plan.unicastTimeout.nanos < 9223372036854775808 := by omega
    obtain ⟨row, encoded⟩ :=
      DeploymentRow.encode_eq_ok { d with updatedAt := clock.floorMicros } fits
    refine ⟨row, fun row' => makes_update encoded, fun old t hid created => ?_⟩
    have same : old.id = row.id := hid.trans (DeploymentRow.id_encode encoded).symm
    refine ⟨old.overwrite row, DeploymentRow.rewrite_updated same, ?_⟩
    have stamp := Instant.wholeMicros_floorMicros counted
    rw [DeploymentRow.decode_overwrite encoded created, Instant.cutToward2000_eq_self_iff.2 stamp,
      Instant.cutToward2000_eq_self_iff.2 whole.nextStepAfter]
  · have error := DeploymentRow.encode_eq_error d (by omega)
    refine ⟨_, rfl, ?_, ?_⟩
    · rw [create, error]
      rfl
    · have error' := DeploymentRow.encode_eq_error { d with updatedAt := clock.floorMicros }
        (by show ¬d.plan.unicastTimeout.nanos < _; omega)
      rw [update]
      simp only [error']
      rfl

theorem sample_comes_back : ∃ row formed,
    (create .sample []).run.Makes (.execute (.insertDeployment row)) ∧
    DeploymentRow.blank.fill insertedColumns (Statement.insertDeployment row).params = some formed ∧
    formed.decode = .ok .sample := by
  have whole : Deployment.sample.WholeMicros := ⟨by decide, by decide, by decide⟩
  obtain ⟨⟨row, inserts, formed, fills, back⟩, -⟩ :=
    (rows_round_trip .sample [] .epoch (by decide)).1 (by decide) whole
  exact ⟨row, formed, (inserts row).2 rfl, fills, back⟩

end Database

end FirmwareRollout
