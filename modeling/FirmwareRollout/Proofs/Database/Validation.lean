import FirmwareRollout.Proofs.Database.RoundTrip

/-!
Which rows are read as rollouts. A row of the table has a value of the declared type in every
column, and only the group may be missing: these values are the `Cells`. Nine things can be wrong
with them, and reading looks for them in the order of `Flaw.all`. Each is found by one check
(`Check`), and what comes of a chain of checks (`Validated`) is built up from its end.

Main statement: `rows_are_checked`.
-/

namespace FirmwareRollout.Database

/-- What the columns of a rollout hold. A database keeps whole microseconds. -/
structure Cells where
  id : Uuid
  createdAt : Instant
  updatedAt : Instant
  name : String
  group : Option Uuid
  matrix : List UInt8
  descriptor : List UInt8
  payload : List UInt8
  stage : String
  nextStepAfter : Instant
  fragSize : Int64
  redundancy : Int64
  blockAckDelay : Int64
  multicastTimeout : Int64
  unicastTimeoutNanos : Int64
  retryCount : Int64
  whole : createdAt.WholeMicros ∧ updatedAt.WholeMicros ∧ nextStepAfter.WholeMicros

/-- The columns that hold 32-bit counts, in the order in which they are read. -/
inductive Count where
  | fragSize | redundancy | blockAckDelay | multicastTimeout | retryCount
deriving DecidableEq

/-- The name of the column. -/
def Count.column : Count → String
  | fragSize => "frag_size"
  | redundancy => "redundancy"
  | blockAckDelay => "block_ack_delay"
  | multicastTimeout => "multicast_timeout"
  | retryCount => "retry_count"

/-- The count in a rollout. -/
def Count.of (d : Deployment) : Count → UInt32
  | fragSize => d.plan.fragSize
  | redundancy => d.plan.redundancy
  | blockAckDelay => d.plan.blockAckDelay
  | multicastTimeout => d.plan.multicastTimeout
  | retryCount => d.progress.retryCount

/-- What can be wrong with a row. -/
inductive Flaw where
  | matrix | descriptor | stage | unicastTimeout
  | count (n : Count)
deriving DecidableEq

/-- The flaws in the order in which they are looked for. -/
def Flaw.all : List Flaw :=
  [.matrix, .descriptor, .stage, .unicastTimeout, .count .fragSize, .count .redundancy,
    .count .blockAckDelay, .count .multicastTimeout, .count .retryCount]

theorem Flaw.mem_all (f : Flaw) : f ∈ all := by
  cases f with
  | count n => cases n <;> decide
  | _ => decide

namespace Cells

/-- The values as a row. -/
def row (c : Cells) : DeploymentRow where
  id := some c.id
  createdAt := some c.createdAt
  updatedAt := some c.updatedAt
  name := some c.name
  group := c.group
  matrix := some c.matrix
  descriptor := some c.descriptor
  payload := some c.payload
  stage := some c.stage
  nextStepAfter := some c.nextStepAfter
  fragSize := some c.fragSize
  redundancy := some c.redundancy
  blockAckDelay := some c.blockAckDelay
  multicastTimeout := some c.multicastTimeout
  unicastTimeoutNanos := some c.unicastTimeoutNanos
  retryCount := some c.retryCount

/-- What the column of a count holds. -/
def count (c : Cells) : Count → Int64
  | .fragSize => c.fragSize
  | .redundancy => c.redundancy
  | .blockAckDelay => c.blockAckDelay
  | .multicastTimeout => c.multicastTimeout
  | .retryCount => c.retryCount

/-- Do the values have the flaw? -/
def Has (c : Cells) : Flaw → Prop
  | .matrix => c.matrix.length ≠ 1
  | .descriptor => c.descriptor.length ≠ 4
  | .stage => c.stage ∉ Stage.all.map Stage.tag
  | .unicastTimeout => c.unicastTimeoutNanos.toInt < 0
  | .count n => ¬(0 ≤ (c.count n).toInt ∧ (c.count n).toInt ≤ 4294967295)

instance (c : Cells) : DecidablePred c.Has
  | .matrix | .descriptor | .stage | .unicastTimeout | .count _ => by
    unfold Has
    infer_instance

/-- What is said of a flaw. -/
def message (c : Cells) : Flaw → String
  | .matrix => "fragmentation_matrix of deployment " ++ toString c.id ++ " is " ++
      toString c.matrix.length ++ " bytes, expected 1"
  | .descriptor => "descriptor of deployment " ++ toString c.id ++ " is " ++
      toString c.descriptor.length ++ " bytes, expected 4"
  | .stage => "deployment " ++ toString c.id ++ " has invalid state: " ++
      Stage.unknownTag c.stage
  | .unicastTimeout => "deployment " ++ toString c.id ++ " has negative unicast timeout " ++
      toString c.unicastTimeoutNanos.toInt
  | .count n => n.column ++ " out of range: " ++ toString (c.count n).toInt

/-- The rollout says what the columns say, to the last bit. -/
structure Tells (c : Cells) (d : Deployment) : Prop where
  id : d.id = c.id
  createdAt : d.createdAt = c.createdAt
  updatedAt : d.updatedAt = c.updatedAt
  name : d.plan.name = c.name
  group : d.plan.group = c.group
  matrix : [d.plan.matrix] = c.matrix
  descriptor : d.plan.descriptor.toList = c.descriptor
  payload : d.plan.payload = c.payload
  stage : d.progress.stage.tag = c.stage
  nextStepAfter : d.progress.nextStepAfter = c.nextStepAfter
  unicastTimeout : (d.plan.unicastTimeout.nanos : Int) = c.unicastTimeoutNanos.toInt
  count (n : Count) : ((n.of d).toNat : Int) = (c.count n).toInt

theorem flawless_iff (c : Cells) : (∀ f, ¬c.Has f) ↔ c.matrix.length = 1 ∧
    c.descriptor.length = 4 ∧ (∃ s : Stage, c.stage = s.tag) ∧ 0 ≤ c.unicastTimeoutNanos.toInt ∧
    ∀ n : Count, 0 ≤ (c.count n).toInt ∧ (c.count n).toInt ≤ 4294967295 := by
  constructor
  · intro flawless
    have tagged : c.stage ∈ Stage.all.map Stage.tag := Decidable.of_not_not (flawless .stage)
    obtain ⟨s, -, tag⟩ := List.mem_map.1 tagged
    exact ⟨Decidable.of_not_not (flawless .matrix), Decidable.of_not_not (flawless .descriptor),
      ⟨s, tag.symm⟩, Int.not_lt.1 (flawless .unicastTimeout),
      fun n => Decidable.of_not_not (flawless (.count n))⟩
  · rintro ⟨matrix, descriptor, ⟨s, tag⟩, timeout, counts⟩ f flaw
    cases f with
    | matrix => exact flaw matrix
    | descriptor => exact flaw descriptor
    | stage =>
      have untagged : c.stage ∉ Stage.all.map Stage.tag := flaw
      exact untagged (tag ▸ List.mem_map_of_mem s.mem_all)
    | unicastTimeout => exact Int.not_lt.2 timeout flaw
    | count n => exact flaw (counts n)

/-! ### Checks -/

theorem count32_some (column : String) (n : Int64) : count32 column (some n) =
    if 0 ≤ n.toInt ∧ n.toInt < 4294967296 then .ok (.ofNat n.toInt.toNat)
    else .error (.integrity (column ++ " out of range: " ++ toString n.toInt)) := rfl

/-- The result of a check for a flaw: an error that says so, or a value without it. -/
structure Check (c : Cells) (f : Flaw) {α : Type} (r : Except Error α) (good : α → Prop) : Prop where
  error : c.Has f → r = .error (.integrity (c.message f))
  ok : ¬c.Has f → ∃ a, r = .ok a ∧ good a

variable (c : Cells)

theorem check_matrix : c.Check .matrix (matrixByte c.id c.matrix) fun b => [b] = c.matrix where
  error flaw := by
    have other : ∀ bytes : List UInt8, bytes.length ≠ 1 → matrixByte c.id bytes = .error (.integrity
        ("fragmentation_matrix of deployment " ++ toString c.id ++ " is " ++
          toString bytes.length ++ " bytes, expected 1")) := by
      intro bytes width
      unfold matrixByte
      split
      · exact absurd rfl width
      · rfl
    exact other c.matrix flaw
  ok flawless := by
    obtain ⟨b, one⟩ := List.length_eq_one_iff.1 (Decidable.of_not_not flawless)
    rw [one]
    exact ⟨b, rfl, rfl⟩

theorem check_descriptor :
    c.Check .descriptor (descriptorBytes c.id c.descriptor) fun v => v.toList = c.descriptor where
  error flaw := by
    have none : Identity.ofBytes? 4 c.descriptor = none := dif_neg flaw
    rw [descriptorBytes, none]
    rfl
  ok flawless := by
    have some : Identity.ofBytes? 4 c.descriptor = some _ := dif_pos (Decidable.of_not_not flawless)
    rw [descriptorBytes, some]
    exact ⟨_, rfl, Identity.toList_of_ofBytes? some⟩

theorem check_stage : c.Check .stage (stageOf c.id c.stage) fun s => s.tag = c.stage where
  error flaw := by
    have untagged : c.stage ∉ Stage.all.map Stage.tag := flaw
    have none : Stage.ofTag? c.stage = none := by
      refine List.find?_eq_none.2 fun s hs same => untagged ?_
      exact List.mem_map.2 ⟨s, hs, of_decide_eq_true same⟩
    rw [stageOf, none]
    rfl
  ok flawless := by
    have tagged : c.stage ∈ Stage.all.map Stage.tag := Decidable.of_not_not flawless
    obtain ⟨s, -, tag⟩ := List.mem_map.1 tagged
    rw [← tag, DeploymentRow.stageOf_tag]
    exact ⟨s, rfl, rfl⟩

theorem check_unicastTimeout : c.Check .unicastTimeout (timeoutOf c.id c.unicastTimeoutNanos)
    fun t => (t.nanos : Int) = c.unicastTimeoutNanos.toInt where
  error flaw := by
    have negative : c.unicastTimeoutNanos.toInt < 0 := flaw
    rw [timeoutOf, if_neg (by omega)]
    rfl
  ok flawless := by
    have counted : ¬c.unicastTimeoutNanos.toInt < 0 := flawless
    rw [timeoutOf, if_pos (by omega)]
    refine ⟨_, rfl, ?_⟩
    have small := c.unicastTimeoutNanos.toInt_lt
    rw [Duration.nanos_ofNanos, Nat.min_eq_left (by unfold Duration.maxNanos; omega)]
    omega

theorem check_count (n : Count) : c.Check (.count n) (count32 n.column (some (c.count n)))
    fun m => (m.toNat : Int) = (c.count n).toInt where
  error flaw := by
    have outside : ¬(0 ≤ (c.count n).toInt ∧ (c.count n).toInt ≤ 4294967295) := flaw
    rw [count32_some, if_neg (by omega)]
    rfl
  ok flawless := by
    have inside : 0 ≤ (c.count n).toInt ∧ (c.count n).toInt ≤ 4294967295 :=
      Decidable.of_not_not flawless
    rw [count32_some, if_pos (by omega)]
    refine ⟨_, rfl, ?_⟩
    rw [UInt32.toNat_ofNat_of_lt' (by show _ < 4294967296; omega)]
    omega

/-! ### Chains of checks -/

/-- What comes of looking for these flaws, one after the other: an error that names the first, or a
rollout that says what the columns say. -/
structure Validated (flaws : List Flaw) (r : Except Error Deployment) : Prop where
  error : ∀ f, flaws.find? (fun f => c.Has f) = some f → r = .error (.integrity (c.message f))
  ok : (∀ f ∈ flaws, ¬c.Has f) → ∃ d, r = .ok d ∧ c.Tells d

variable {c} {α : Type}

theorem Check.andThen {f : Flaw} {r : Except Error α} {good : α → Prop} (check : c.Check f r good)
    {flaws : List Flaw} {k : α → Except Error Deployment}
    (rest : ∀ a, good a → c.Validated flaws (k a)) : c.Validated (f :: flaws) (r >>= k) := by
  by_cases flaw : c.Has f
  · have error : (r >>= k) = .error (.integrity (c.message f)) := by
      rw [check.error flaw]
      rfl
    refine ⟨fun first h => ?_, fun none => absurd flaw (none f List.mem_cons_self)⟩
    rw [List.find?_cons_of_pos (by simpa using flaw)] at h
    obtain rfl := Option.some.inj h
    exact error
  · obtain ⟨a, ok, value⟩ := check.ok flaw
    have later := rest a value
    rw [ok]
    refine ⟨fun first h => ?_, fun none => later.ok fun f' hf => none f' (List.mem_cons_of_mem _ hf)⟩
    rw [List.find?_cons_of_neg (by simpa using flaw)] at h
    exact later.error first h

theorem Tells.validated {d : Deployment} (tells : c.Tells d) : c.Validated [] (.ok d) :=
  ⟨fun _ none => (by cases none), fun _ => ⟨d, rfl, tells⟩⟩

theorem validated_decode (c : Cells) : c.Validated Flaw.all c.row.decode := by
  refine c.check_matrix.andThen fun matrix hmatrix => ?_
  refine c.check_descriptor.andThen fun descriptor hdescriptor => ?_
  refine c.check_stage.andThen fun stage hstage => ?_
  refine c.check_unicastTimeout.andThen fun timeout htimeout => ?_
  refine (c.check_count .fragSize).andThen fun fragSize hfragSize => ?_
  refine (c.check_count .redundancy).andThen fun redundancy hredundancy => ?_
  refine (c.check_count .blockAckDelay).andThen fun blockAckDelay hblockAckDelay => ?_
  refine (c.check_count .multicastTimeout).andThen fun multicastTimeout hmulticastTimeout => ?_
  refine (c.check_count .retryCount).andThen fun retryCount hretryCount => ?_
  refine Tells.validated ⟨rfl, rfl, rfl, rfl, rfl, hmatrix, hdescriptor, rfl, hstage, rfl, htimeout,
    fun n => ?_⟩
  cases n with
  | fragSize => exact hfragSize
  | redundancy => exact hredundancy
  | blockAckDelay => exact hblockAckDelay
  | multicastTimeout => exact hmulticastTimeout
  | retryCount => exact hretryCount

/-! ### Writing back -/

theorem ofNat_of_toInt {n : Nat} {i : Int64} (same : (n : Int) = i.toInt) : Int64.ofNat n = i := by
  have small := i.toInt_lt
  refine Int64.toInt.inj ?_
  rw [Int64.toInt_ofNat_of_lt (by omega), same]

theorem Tells.encode {d : Deployment} (tells : c.Tells d) : DeploymentRow.encode d = .ok c.row := by
  have small := c.unicastTimeoutNanos.toInt_lt
  have timeout := tells.unicastTimeout
  have fits : d.plan.unicastTimeout.nanos < 9223372036854775808 := by omega
  have count (n : Count) : DeploymentRow.ofCount (n.of d) = c.count n :=
    ofNat_of_toInt (tells.count n)
  have created := Instant.cutToward2000_eq_self_iff.2 c.whole.1
  have updated := Instant.cutToward2000_eq_self_iff.2 c.whole.2.1
  have next := Instant.cutToward2000_eq_self_iff.2 c.whole.2.2
  have fragSize : DeploymentRow.ofCount d.plan.fragSize = c.fragSize := count .fragSize
  have redundancy : DeploymentRow.ofCount d.plan.redundancy = c.redundancy := count .redundancy
  have blockAckDelay : DeploymentRow.ofCount d.plan.blockAckDelay = c.blockAckDelay :=
    count .blockAckDelay
  have multicastTimeout : DeploymentRow.ofCount d.plan.multicastTimeout = c.multicastTimeout :=
    count .multicastTimeout
  have retryCount : DeploymentRow.ofCount d.progress.retryCount = c.retryCount := count .retryCount
  rw [DeploymentRow.encode, DeploymentRow.timeoutNanos, if_pos fits, ofNat_of_toInt timeout,
    tells.id, tells.createdAt, tells.updatedAt, tells.name, tells.group, tells.matrix,
    tells.descriptor, tells.payload, tells.stage, tells.nextStepAfter, created, updated, next,
    fragSize, redundancy, blockAckDelay, multicastTimeout, retryCount]
  rfl

/-! ### The columns of a rollout -/

/-- What the columns hold of a rollout whose times a database keeps as they are. -/
def ofDeployment (d : Deployment) (whole : d.WholeMicros) : Cells where
  id := d.id
  createdAt := d.createdAt
  updatedAt := d.updatedAt
  name := d.plan.name
  group := d.plan.group
  matrix := [d.plan.matrix]
  descriptor := d.plan.descriptor.toList
  payload := d.plan.payload
  stage := d.progress.stage.tag
  nextStepAfter := d.progress.nextStepAfter
  fragSize := DeploymentRow.ofCount d.plan.fragSize
  redundancy := DeploymentRow.ofCount d.plan.redundancy
  blockAckDelay := DeploymentRow.ofCount d.plan.blockAckDelay
  multicastTimeout := DeploymentRow.ofCount d.plan.multicastTimeout
  unicastTimeoutNanos := .ofNat d.plan.unicastTimeout.nanos
  retryCount := DeploymentRow.ofCount d.progress.retryCount
  whole := ⟨whole.createdAt, whole.updatedAt, whole.nextStepAfter⟩

theorem tells_ofDeployment {d : Deployment} (whole : d.WholeMicros)
    (fits : d.plan.unicastTimeout.nanos < 9223372036854775808) :
    (ofDeployment d whole).Tells d where
  id := rfl
  createdAt := rfl
  updatedAt := rfl
  name := rfl
  group := rfl
  matrix := rfl
  descriptor := rfl
  payload := rfl
  stage := rfl
  nextStepAfter := rfl
  unicastTimeout := (Int64.toInt_ofNat_of_lt fits).symm
  count n := by cases n <;> exact (DeploymentRow.toInt_ofCount _).symm

/-- **All rows that are written are rows of cells**, and what a database keeps of them says what the
rollout said. -/
theorem encode_eq_row {d : Deployment} (whole : d.WholeMicros)
    (fits : d.plan.unicastTimeout.nanos < 9223372036854775808) :
    DeploymentRow.encode d = .ok (ofDeployment d whole).row :=
  (tells_ofDeployment whole fits).encode

/-- The cells of a rollout after two slips: a byte of the descriptor is missing, and the timeout is
negative. -/
def slipped : Cells :=
  { ofDeployment .sample ⟨by decide, by decide, by decide⟩ with
    descriptor := [0, 0, 0]
    unicastTimeoutNanos := -1 }

end Cells

/-- **Rows are checked.** A row is read as a rollout exactly if its byte strings have the right
length, its state is the tag of a stage, its timeout is not negative and its counts have 32 bits.
Otherwise the error names the first thing that is wrong, in the order of `Flaw.all`. A rollout that
is read says what the columns say, and is written as the row that it was read from. -/
theorem rows_are_checked (c : Cells) :
    ((∃ d, c.row.decode = .ok d) ↔ c.matrix.length = 1 ∧ c.descriptor.length = 4 ∧
      (∃ s : Stage, c.stage = s.tag) ∧ 0 ≤ c.unicastTimeoutNanos.toInt ∧
      ∀ n : Count, 0 ≤ (c.count n).toInt ∧ (c.count n).toInt ≤ 4294967295) ∧
    (∀ e, c.row.decode = .error e → ∃ f, Flaw.all.find? (fun f => c.Has f) = some f ∧
      e = .integrity (c.message f)) ∧
    ∀ d, c.row.decode = .ok d → c.Tells d ∧ DeploymentRow.encode d = .ok c.row := by
  have validated := c.validated_decode
  have flawless := c.flawless_iff
  have read : ∀ d, c.row.decode = .ok d → ∀ f, ¬c.Has f := by
    intro d ok f flaw
    cases first : Flaw.all.find? fun f => c.Has f with
    | none => exact List.find?_eq_none.1 first f f.mem_all (decide_eq_true flaw)
    | some f' =>
      rw [validated.error f' first] at ok
      cases ok
  refine ⟨⟨?_, fun good => ?_⟩, fun e error => ?_, fun d ok => ?_⟩
  · rintro ⟨d, ok⟩
    exact flawless.1 (read d ok)
  · obtain ⟨d, ok, -⟩ := validated.ok fun f _ => flawless.2 good f
    exact ⟨d, ok⟩
  · cases first : Flaw.all.find? fun f => c.Has f with
    | none =>
      obtain ⟨d, ok, -⟩ := validated.ok fun f hf flaw =>
        List.find?_eq_none.1 first f hf (decide_eq_true flaw)
      rw [ok] at error
      cases error
    | some f =>
      rw [validated.error f first] at error
      exact ⟨f, rfl, (Except.error.inj error).symm⟩
  · obtain ⟨d', ok', tells⟩ := validated.ok fun f _ => read d ok f
    obtain rfl := Except.ok.inj (ok.symm.trans ok')
    exact ⟨tells, tells.encode⟩

/-- Of two flaws the one is named that is looked for first. -/
example : Flaw.all.filter (fun f => Cells.slipped.Has f) = [.descriptor, .unicastTimeout] ∧
    Cells.slipped.row.decode = .error (.integrity (Cells.slipped.message .descriptor)) :=
  ⟨by decide, rfl⟩

end FirmwareRollout.Database
