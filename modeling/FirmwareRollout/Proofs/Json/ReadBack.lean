import FirmwareRollout.Bridge.Message
import FirmwareRollout.Proofs.Json.Text
import FirmwareRollout.Proofs.Time.Rfc3339

/-!
Every value of the data model read back from its JSON. A writer and a reader belong together if the
reader takes whatever the writer makes back to what it was made of (`Undoes`); the scalars do, and so
do arrays, optional values and records of what does.

Main statement: `text_reads_back`.
-/

namespace FirmwareRollout

namespace Json

/-- The reader undoes the writer. -/
def Undoes {α : Type} (read : Value → Option α) (write : α → Value) : Prop :=
  ∀ a, read (write a) = some a

/-! ### Scalars -/

theorem undoes_string : Undoes (·.string?) .ofString := fun _ => rfl

theorem natural?_natural {n top : Nat} (h : n ≤ top) : (Value.natural n).natural? top = some n :=
  if_pos h

theorem undoes_uint8 : Undoes uint8? ofUInt8 := fun n => by
  have := n.toNat_lt
  rw [uint8?, ofUInt8, natural?_natural (by omega), Option.map_some, UInt8.ofNat_toNat]

theorem undoes_uint32 : Undoes uint32? ofUInt32 := fun n => by
  have := n.toNat_lt
  rw [uint32?, ofUInt32, natural?_natural (by omega), Option.map_some, UInt32.ofNat_toNat]

theorem undoes_uint64 : Undoes uint64? ofUInt64 := fun n => by
  have := n.toNat_lt
  rw [uint64?, ofUInt64, natural?_natural (by omega), Option.map_some, UInt64.ofNat_toNat]

theorem mapM_map {α : Type} {read : Value → Option α} {write : α → Value} (h : Undoes read write)
    (as : List α) : (as.map write).mapM read = some as := by
  induction as with
  | nil => rfl
  | cons a as ih =>
    rw [List.map_cons, List.mapM_cons, h a, ih]
    rfl

theorem Undoes.array {α : Type} {read : Value → Option α} {write : α → Value}
    (h : Undoes read write) : Undoes (·.array? read) fun as => .array (as.map write) :=
  mapM_map h

/-- Nothing is null, and what there is is not. -/
theorem Undoes.option {α : Type} {read : Value → Option α} {write : α → Value}
    (h : Undoes read write) (some_value : ∀ a, write a ≠ .null) :
    Undoes (·.nullable? read) (ofOption write) := by
  rintro (_ | a)
  · rfl
  · show (write a).nullable? read = _
    unfold Value.nullable?
    split
    · next null => exact absurd null (some_value a)
    · rw [h a, Option.map_some]

theorem undoes_bytes : Undoes bytes? ofBytes := undoes_uint8.array

theorem undoes_fourBytes : Undoes fourBytes? fun bytes => ofBytes bytes.toList := fun bytes => by
  rw [fourBytes?, undoes_bytes, Option.bind_some, Identity.ofBytes?_toList]

theorem undoes_hex : Undoes hex? ofHex := fun bytes => by
  simp [hex?, ofHex, Value.ofString, Value.string?, Hex.decode_encode, Except.toOption]

theorem undoes_uuid : Undoes uuid? ofUuid := fun u => by
  rw [uuid?, ofUuid, Value.ofString, Value.string?, Option.bind_some, Uuid.parse?_toString]

theorem undoes_devEui : Undoes devEui? ofDevEui := fun e => by
  simp [devEui?, ofDevEui, Value.ofString, Value.string?, DevEui.parse_toString, Except.toOption]

theorem undoes_instant : Undoes instant? ofInstant := fun t => by
  simp [instant?, ofInstant, Value.ofString, Value.string?, Rfc3339.parse?_text]

/-! ### Records -/

theorem known_members {fields : List String} {members : List (String × Value)}
    (h : ∀ m ∈ members, m.1 ∈ fields) :
    Record.known fields (members.map fun m => (some m.1, m.2)) = some members := by
  induction members with
  | nil => rfl
  | cons m rest ih =>
    rw [List.map_cons, Record.known, ih fun m hm => h m (by simp [hm]), Option.map_some,
      if_pos (h m (by simp))]

theorem repeats_eq_false {members : List (String × Value)} (h : (members.map (·.1)).Nodup) :
    Record.repeats members = false := by
  induction members with
  | nil => rfl
  | cons m rest ih =>
    obtain ⟨hm, hrest⟩ := List.nodup_cons.mp h
    rw [Record.repeats, ih hrest, Bool.or_false, List.any_eq_false]
    intro m' hm'
    have other : m'.1 ≠ m.1 := fun heq => hm (heq ▸ List.mem_map_of_mem hm' : m.1 ∈ _)
    simpa using other

/-- A record is read from an object with some of its fields in their order. -/
theorem read?_ofMembers {fields : List String} {members : List (String × Value)}
    (once : fields.Nodup) (keys : (members.map (·.1)).Sublist fields) :
    Record.read? fields (.ofMembers members) = some ⟨true, members⟩ := by
  have among : ∀ m ∈ members, m.1 ∈ fields := fun m hm => keys.subset (List.mem_map_of_mem hm)
  unfold Value.ofMembers Record.read?
  simp only [known_members among, repeats_eq_false (keys.nodup once)]
  rfl

theorem readExactly?_ofMembers {fields : List String} {members : List (String × Value)}
    (once : fields.Nodup) (keys : (members.map (·.1)).Sublist fields) :
    Record.readExactly? fields (.ofMembers members) = some ⟨true, members⟩ := by
  have all : (members.map fun m => (some m.1, m.2)).all
      (fun m => m.1.any (· ∈ fields)) = true := by
    rw [List.all_eq_true]
    intro m hm
    obtain ⟨m', hm', rfl⟩ := List.mem_map.mp hm
    simpa using keys.subset (List.mem_map_of_mem hm')
  rw [← read?_ofMembers once keys]
  exact if_pos all

theorem slot?_cons {named : Bool} {key field : String} {v : Value} {rest : List (String × Value)} :
    (Record.mk named ((key, v) :: rest)).slot? field =
      if field = key then some v else (Record.mk named rest).slot? field := by
  unfold Record.slot?
  rw [List.lookup_cons]
  split <;> simp_all

theorem undoes_duration : Undoes duration? ofDuration := fun d => by
  have seconds : d.seconds ≤ 18446744073709551615 := by
    have := d.nanos_lt
    unfold Duration.seconds
    omega
  have subsecond : d.subsecond ≤ 4294967295 := by
    unfold Duration.subsecond
    omega
  have record : Record.readExactly? ["secs", "nanos"] (ofDuration d) =
      some ⟨true, [("secs", .natural d.seconds), ("nanos", .natural d.subsecond)]⟩ :=
    readExactly?_ofMembers (by decide) (.refl _)
  unfold duration?
  rw [record]
  simp only [Option.bind_eq_bind, Option.bind_some, Record.required, slot?_cons, String.reduceEq,
    if_true, if_false]
  rw [natural?_natural seconds, natural?_natural subsecond, Option.bind_some, Option.bind_some,
    Duration.ofParts?_parts]

end Json

open Json

/-! ### The data model -/

theorem Stage.ofJson?_json : Undoes Stage.ofJson? Stage.json := ofTag?_tag

theorem DeviceState.ofJson?_json : Undoes DeviceState.ofJson? DeviceState.json := ofTag?_tag

theorem Outcome.ofJson?_json : Undoes Outcome.ofJson? Outcome.json := ofTag?_tag

theorem ActionStatus.ofJson?_json : Undoes ActionStatus.ofJson? ActionStatus.json := ofTag?_tag

theorem undoes_group : Undoes (·.nullable? uuid?) (ofOption ofUuid) :=
  undoes_uuid.option fun _ => by simp [ofUuid, Value.ofString]

theorem EnrolledDevice.ofJson?_json : Undoes ofJson? json := fun d => by
  unfold ofJson? json
  rw [read?_ofMembers (by decide) (by exact .refl _)]
  simp only [Option.bind_eq_bind, Option.bind_some, Record.required, slot?_cons, String.reduceEq,
    if_true, if_false, undoes_devEui _, undoes_string _]
  rfl

theorem Participant.ofJson?_json : Undoes ofJson? json := fun p => by
  unfold ofJson? json
  rw [read?_ofMembers (by decide) (by exact .refl _)]
  simp only [Option.bind_eq_bind, Option.bind_some, Record.required, slot?_cons, String.reduceEq,
    if_true, if_false, undoes_uuid _, undoes_devEui _, undoes_string _, undoes_instant _,
    DeviceState.ofJson?_json _]
  rfl

theorem Plan.ofJson?_json : Undoes ofJson? json := fun p => by
  unfold ofJson? json
  rw [read?_ofMembers (by decide) (by exact .refl _)]
  simp only [Option.bind_eq_bind, Option.bind_some, ofRecord?, members, Record.required,
    Record.orElse, slot?_cons, String.reduceEq, if_true, if_false, undoes_string _, undoes_group _,
    undoes_uint8 _, undoes_fourBytes _, undoes_bytes _, undoes_uint32 _, undoes_duration _]
  rfl

theorem Deployment.ofJson?_json : Undoes ofJson? json := fun d => by
  unfold ofJson? json
  rw [read?_ofMembers (by decide) (by exact .refl _)]
  simp only [Plan.members, List.cons_append, List.nil_append, Option.bind_eq_bind,
    Option.bind_some, Plan.ofRecord?, Record.required, Record.optional, slot?_cons,
    String.reduceEq, if_true, if_false, undoes_uuid _, undoes_instant _, undoes_string _,
    undoes_group _, undoes_uint8 _, undoes_fourBytes _, undoes_bytes _, undoes_uint32 _,
    undoes_duration _, Stage.ofJson?_json _]
  rfl

theorem StepRequest.ofJson?_json : Undoes ofJson? json := fun q => by
  unfold ofJson? json
  rw [read?_ofMembers (by decide) (by exact .refl _)]
  simp only [Option.bind_eq_bind, Option.bind_some, Record.required, Record.optional, slot?_cons,
    String.reduceEq, if_true, if_false, Stage.ofJson?_json _, undoes_uuid _, undoes_group _,
    undoes_hex _, undoes_uint8 _, undoes_fourBytes _, undoes_uint32 _, undoes_uint64 _,
    undoes_devEui.array _]
  rfl

theorem DeviceReport.ofJson?_json : Undoes ofJson? json := fun r => by
  unfold ofJson? json
  rw [read?_ofMembers (by decide) (by exact .refl _)]
  simp only [Option.bind_eq_bind, Option.bind_some, Record.required, Record.orElse, slot?_cons,
    String.reduceEq, if_true, if_false, undoes_devEui _, Outcome.ofJson?_json _, undoes_string _]
  rfl

/-- A reason that is missing is left out, and one that is there is not null. -/
theorem ActionReport.ofJson?_json : Undoes ofJson? json := fun r => by
  obtain ⟨status, reason, devices⟩ := r
  unfold ofJson? json
  cases reason with
  | none =>
    rw [read?_ofMembers (by decide) (by exact .cons_cons _ (.cons _ (.refl _)))]
    simp only [Option.toList_none, List.map_nil, List.nil_append, List.cons_append,
      Option.bind_eq_bind, Option.bind_some, Record.required, Record.orElse, slot?_cons,
      String.reduceEq, if_true, if_false, ActionStatus.ofJson?_json _,
      DeviceReport.ofJson?_json.array _]
    rfl
  | some reason =>
    rw [read?_ofMembers (by decide) (by exact .refl _)]
    simp only [Option.toList_some, List.map_cons, List.map_nil, List.nil_append, List.cons_append,
      Option.bind_eq_bind, Option.bind_some, Record.required, Record.orElse, slot?_cons,
      String.reduceEq, if_true, if_false, ActionStatus.ofJson?_json _,
      DeviceReport.ofJson?_json.array _]
    rfl

/-- The text of a value is read back as the value that was written. -/
theorem Json.Undoes.text {α : Type} {read : Value → Option α} {write : α → Value}
    (h : Undoes read write) (a : α) : (Value.ofText? (write a).text).bind read = some a := by
  rw [Value.ofText?_text, Option.bind_some, h a]

/-- **Reading back.** For every value of the data model, parsing the compact text that is printed
for it gives that value: deployments, plans, enrolled devices, participants, requests and reports. -/
theorem text_reads_back :
    (∀ d : Deployment, (Value.ofText? d.json.text).bind Deployment.ofJson? = some d) ∧
      (∀ p : Plan, (Value.ofText? p.json.text).bind Plan.ofJson? = some p) ∧
      (∀ d : EnrolledDevice, (Value.ofText? d.json.text).bind EnrolledDevice.ofJson? = some d) ∧
      (∀ p : Participant, (Value.ofText? p.json.text).bind Participant.ofJson? = some p) ∧
      (∀ q : StepRequest, (Value.ofText? q.json.text).bind StepRequest.ofJson? = some q) ∧
      (∀ r : DeviceReport, (Value.ofText? r.json.text).bind DeviceReport.ofJson? = some r) ∧
      ∀ r : ActionReport, (Value.ofText? r.json.text).bind ActionReport.ofJson? = some r :=
  ⟨Deployment.ofJson?_json.text, Plan.ofJson?_json.text, EnrolledDevice.ofJson?_json.text,
    Participant.ofJson?_json.text, StepRequest.ofJson?_json.text, DeviceReport.ofJson?_json.text,
    ActionReport.ofJson?_json.text⟩

end FirmwareRollout
