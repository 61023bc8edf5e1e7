import FirmwareRollout.Settings.Environment

/-!
What members laid over others give for a key of a table. Where the members are tables, a key of one
of them has the later value if there is one and else the earlier (`outline_at?_mergeMembers`), up to
what is in it if it is a table itself: tables are merged all the way down. Variables are laid over
each other one by one, so the last that names a key counts.

Main statement: `Environment.members_eq`.
-/

namespace FirmwareRollout

namespace Datum

/-! ### Members by name -/

theorem find?_cons (m : String × Datum) (ms : Members) (name : String) :
    find? (m :: ms) name = if m.1 = name then some m.2 else find? ms name := by
  rw [find?, List.find?_cons]
  split <;> simp_all [find?]

theorem find?_put (d : Datum) (ms : Members) (name other : String) :
    find? (put name d ms) other = if name = other then some d else find? ms other := by
  induction ms with
  | nil => rw [put, find?_cons]
  | cons m ms ih =>
    rw [put]
    by_cases hm : m.1 = name
    · rw [if_pos hm, find?_cons, find?_cons, hm]
      split <;> rfl
    · rw [if_neg hm, find?_cons, find?_cons, ih]
      by_cases ho : m.1 = other
      · rw [if_pos ho, if_neg fun same => hm (ho.trans same.symm), if_pos ho]
      · rw [if_neg ho, if_neg ho]

theorem find?_eq_none_of_not_mem {ms : Members} {name : String} (h : name ∉ ms.map (·.1)) :
    find? ms name = none := by
  rw [find?, List.find?_eq_none.2, Option.map_none]
  intro m hm same
  exact h (List.mem_map.2 ⟨m, hm, of_decide_eq_true same⟩)

/-- Where no name comes twice, a name finds what it is given to. -/
theorem find?_eq_some_iff_mem {ms : Members} (distinct : (ms.map (·.1)).Nodup) {name : String}
    {d : Datum} : find? ms name = some d ↔ (name, d) ∈ ms := by
  induction ms with
  | nil => simp [find?]
  | cons m ms ih =>
    obtain ⟨first, others⟩ := List.nodup_cons.1 distinct
    rw [find?_cons, List.mem_cons]
    by_cases hm : m.1 = name
    · subst hm
      have fresh : (m.1, d) ∉ ms := fun later => first (List.mem_map.2 ⟨_, later, rfl⟩)
      rw [if_pos rfl, or_iff_left fresh, Option.some.injEq, Prod.ext_iff]
      exact ⟨fun h => ⟨rfl, h.symm⟩, fun h => h.2.symm⟩
    · rw [if_neg hm, ih others, or_iff_right fun h => hm (congrArg Prod.fst h).symm]

theorem mergeMembers_cons (lower : Members) (name : String) (d : Datum) (rest : Members) :
    ∃ laid, (find? lower name).merge merge (some d) = some laid ∧
      mergeMembers lower ((name, d) :: rest) = mergeMembers (put name laid lower) rest := by
  rw [mergeMembers]
  cases find? lower name <;> exact ⟨_, rfl, rfl⟩

/-- Members laid over others, name by name. -/
theorem find?_mergeMembers (lower : Members) {upper : Members} (distinct : (upper.map (·.1)).Nodup)
    (name : String) :
    find? (mergeMembers lower upper) name =
      (find? lower name).merge merge (find? upper name) := by
  induction upper generalizing lower with
  | nil =>
    rw [mergeMembers, find?]
    exact (Option.merge_none_right ..).symm
  | cons m upper ih =>
    obtain ⟨first, others⟩ := List.nodup_cons.1 distinct
    obtain ⟨laid, hlaid, h⟩ := mergeMembers_cons lower m.1 m.2 upper
    rw [h, ih _ others, find?_put, find?_cons]
    by_cases hm : m.1 = name
    · subst hm
      rw [if_pos rfl, if_pos rfl, find?_eq_none_of_not_mem first, hlaid]
      rfl
    · rw [if_neg hm, if_neg hm]

/-! ### Keys of tables -/

/-- What is in a table of that name. -/
def contents (ms : Members) (table : String) : Members :=
  match find? ms table with
  | some (.table members) => members
  | _ => []

/-- What is given for a key of a table. -/
def at? (ms : Members) (table key : String) : Option Datum := find? (contents ms table) key

/-- The name has a table, or nothing. -/
def IsTable (ms : Members) (table : String) : Prop :=
  ∀ d, find? ms table = some d → ∃ members, d = .table members

def isTable : Datum → Bool
  | table _ => true
  | _ => false

instance (ms : Members) (name : String) : Decidable (IsTable ms name) :=
  decidable_of_iff ((find? ms name).all isTable) <| by
    cases found : find? ms name with
    | none => simp [IsTable, found]
    | some d => cases d <;> simp [IsTable, found, isTable]

/-- Tables only, with nothing twice in them or among them. -/
structure Tidy (ms : Members) : Prop where
  distinct : (ms.map (·.1)).Nodup
  tables : ∀ table, IsTable ms table
  inside : ∀ table, ((contents ms table).map (·.1)).Nodup

/-- A value, but of a table only that it is one. -/
def outline : Datum → Datum
  | table _ => table []
  | d => d

theorem outline_merge (lower d : Datum) : (merge lower d).outline = d.outline := by
  cases d with
  | table upper => cases lower <;> simp only [merge, outline]
  | _ => simp only [merge]

variable {ms lower upper members : Members} {table : String}

theorem contents_of_find? (h : find? ms table = some (.table members)) :
    contents ms table = members := by
  rw [contents, h]

theorem at?_eq_some_iff {key : String} {d : Datum} : at? ms table key = some d ↔
    ∃ members, find? ms table = some (.table members) ∧ find? members key = some d := by
  constructor
  · intro h
    rw [at?, contents] at h
    split at h
    · next members found => exact ⟨members, found, h⟩
    · cases h
  · rintro ⟨members, found, h⟩
    rwa [at?, contents_of_find? found]

theorem find?_of_isTable (h : IsTable ms table) :
    find? ms table = none ∧ contents ms table = [] ∨
      find? ms table = some (.table (contents ms table)) := by
  cases found : find? ms table with
  | none => exact .inl ⟨rfl, by rw [contents, found]⟩
  | some d =>
    obtain ⟨members, rfl⟩ := h d found
    exact .inr (by rw [contents_of_find? found])

/-- A new name comes last. -/
theorem names_put (d : Datum) (ms : Members) (name : String) : (put name d ms).map (·.1) =
    if name ∈ ms.map (·.1) then ms.map (·.1) else ms.map (·.1) ++ [name] := by
  induction ms with
  | nil => rfl
  | cons m ms ih =>
    rw [put]
    by_cases same : m.1 = name
    · simp [same]
    · have later : name ∈ m.1 :: ms.map (·.1) ↔ name ∈ ms.map (·.1) := by
        rw [List.mem_cons, or_iff_right (Ne.symm same)]
      rw [if_neg same, List.map_cons, ih, List.map_cons]
      simp only [later]
      split <;> rfl

theorem nodup_put (d : Datum) (name : String) (distinct : (ms.map (·.1)).Nodup) :
    ((put name d ms).map (·.1)).Nodup := by
  rw [names_put]
  split
  · exact distinct
  · next absent =>
    rw [(List.perm_append_singleton ..).nodup_iff]
    exact List.nodup_cons.2 ⟨absent, distinct⟩

theorem nodup_mergeMembers (upper : Members) (distinct : (lower.map (·.1)).Nodup) :
    ((mergeMembers lower upper).map (·.1)).Nodup := by
  induction upper generalizing lower with
  | nil => rwa [mergeMembers]
  | cons m upper ih =>
    obtain ⟨laid, -, h⟩ := mergeMembers_cons lower m.1 m.2 upper
    rw [h]
    exact ih (nodup_put laid m.1 distinct)

/-! ### Tables laid over tables -/

section Laid

variable (distinct : (upper.map (·.1)).Nodup) (hl : IsTable lower table) (hu : IsTable upper table)
include distinct hl hu

/-- Tables are laid over each other, and stay as they are where there is only one. -/
theorem mergeMembers_cases :
    find? (mergeMembers lower upper) table = find? lower table ∧ contents upper table = [] ∨
    find? (mergeMembers lower upper) table = find? upper table ∧ contents lower table = [] ∨
    find? (mergeMembers lower upper) table =
      some (.table (mergeMembers (contents lower table) (contents upper table))) := by
  rw [find?_mergeMembers lower distinct]
  rcases find?_of_isTable hu with ⟨none, empty⟩ | hu
  · exact .inl ⟨by rw [none, Option.merge_none_right], empty⟩
  · rcases find?_of_isTable hl with ⟨none, empty⟩ | hl
    · exact .inr (.inl ⟨by rw [none, Option.merge_none_left], empty⟩)
    · rw [hl, hu]
      exact .inr (.inr (congrArg some (by rw [merge])))

theorem IsTable.mergeMembers : IsTable (mergeMembers lower upper) table := by
  intro d hd
  rcases mergeMembers_cases distinct hl hu with ⟨h, -⟩ | ⟨h, -⟩ | h <;> rw [h] at hd
  · exact hl d hd
  · exact hu d hd
  · exact ⟨_, (Option.some.inj hd).symm⟩

theorem contents_mergeMembers_cases :
    contents (mergeMembers lower upper) table = contents lower table ∧ contents upper table = [] ∨
    contents (mergeMembers lower upper) table = contents upper table ∧ contents lower table = [] ∨
    contents (mergeMembers lower upper) table =
      mergeMembers (contents lower table) (contents upper table) := by
  rcases mergeMembers_cases distinct hl hu with ⟨h, empty⟩ | ⟨h, empty⟩ | h
  · exact .inl ⟨by rw [contents, h, contents], empty⟩
  · exact .inr (.inl ⟨by rw [contents, h, contents], empty⟩)
  · exact .inr (.inr (contents_of_find? h))

theorem at?_mergeMembers (inside : ((contents upper table).map (·.1)).Nodup) (key : String) :
    at? (mergeMembers lower upper) table key =
      (at? lower table key).merge merge (at? upper table key) := by
  rw [at?, at?, at?]
  rcases contents_mergeMembers_cases distinct hl hu with ⟨h, empty⟩ | ⟨h, empty⟩ | h
  · rw [h, empty]
    exact Option.merge_none_right.symm
  · rw [h, empty]
    exact Option.merge_none_left.symm
  · rw [h, find?_mergeMembers _ inside]

end Laid

theorem Tidy.mergeMembers (hl : Tidy lower) (hu : Tidy upper) :
    Tidy (mergeMembers lower upper) where
  distinct := nodup_mergeMembers upper hl.distinct
  tables table := (hl.tables table).mergeMembers hu.distinct (hu.tables table)
  inside table := by
    rcases contents_mergeMembers_cases hu.distinct (hl.tables table) (hu.tables table) with
      ⟨h, -⟩ | ⟨h, -⟩ | h <;> rw [h]
    · exact hl.inside table
    · exact hu.inside table
    · exact nodup_mergeMembers _ (hl.inside table)

/-- **Layers**: a key of a table has its value from above, if there is one, and else from below. -/
theorem outline_at?_mergeMembers (hl : IsTable lower table) (hu : Tidy upper) (key : String) :
    (at? (mergeMembers lower upper) table key).map outline =
      ((at? upper table key).or (at? lower table key)).map outline := by
  rw [at?_mergeMembers hu.distinct hl (hu.tables table) (hu.inside table)]
  cases at? lower table key with
  | none => cases at? upper table key <;> rfl
  | some l =>
    cases at? upper table key with
    | none => rfl
    | some d => exact congrArg some (outline_merge l d)

/-! ### A single key -/

theorem contents_single (members : Members) (table other : String) :
    contents [(table, .table members)] other = if table = other then members else [] := by
  rw [contents, find?_cons]
  by_cases h : table = other
  · rw [if_pos h, if_pos h]
  · rw [if_neg h, if_neg h]
    rfl

theorem tidy_single (d : Datum) (table key : String) : Tidy [(table, .table [(key, d)])] where
  distinct := by simp
  tables other found := by
    rw [find?_cons]
    split
    · rintro ⟨⟩
      exact ⟨_, rfl⟩
    · exact nofun
  inside other := by
    rw [contents_single]
    split <;> simp

/-- A single key has its value, and no other has one. -/
theorem at?_single (d : Datum) (table key other name : String) :
    at? [(table, .table [(key, d)])] other name =
      if some [table, key] = some [other, name] then some d else none := by
  rw [at?, contents_single]
  by_cases ht : table = other
  · rw [if_pos ht, find?_cons]
    simp [ht, find?]
  · simp [ht, find?]

end Datum

namespace Environment

open Datum

/-- What the last variable that names a key of a table gives for it. -/
def named (environment : List (String × String)) (table key : String) : Option Datum :=
  environment.reverse.findSome? fun v =>
    if path? v.1 = some [table, key] then some (datum v.2) else none

variable {environment : List (String × String)}

/-- Every variable that counts names a key of a table. -/
def TwoParts (environment : List (String × String)) : Prop :=
  ∀ v ∈ environment, ∀ path, path? v.1 = some path → ∃ table key, path = [table, key]

theorem named_cons (v : String × String) (environment : List (String × String))
    (table key : String) : named (v :: environment) table key =
      (named environment table key).or
        (if path? v.1 = some [table, key] then some (datum v.2) else none) := by
  rw [named, List.reverse_cons, List.findSome?_append, named]
  congr 1
  rw [List.findSome?_singleton]

/-- A variable is laid over what others say. -/
theorem overlay_eq {v : String × String}
    (h : ∀ path, path? v.1 = some path → ∃ table key, path = [table, key]) {ms : Members}
    (tidy : Tidy ms) :
    ∃ laid, overlay ms v = some laid ∧ Tidy laid ∧ ∀ table key, (at? laid table key).map outline =
      ((if path? v.1 = some [table, key] then some (datum v.2) else none).or
        (at? ms table key)).map outline := by
  cases hp : path? v.1 with
  | none => exact ⟨ms, by rw [overlay, hp], tidy, fun _ _ => rfl⟩
  | some path =>
    obtain ⟨table, key, rfl⟩ := h path hp
    have single := tidy_single (datum v.2) table key
    refine ⟨mergeMembers ms [(table, .table [(key, datum v.2)])], by rw [overlay, hp]; rfl,
      tidy.mergeMembers single, fun other name => ?_⟩
    rw [outline_at?_mergeMembers (tidy.tables other) single, at?_single]

theorem foldlM_overlay (h : TwoParts environment) {ms : Members} (tidy : Tidy ms) :
    ∃ all, environment.foldlM overlay ms = some all ∧ Tidy all ∧
      ∀ table key, (at? all table key).map outline =
        ((named environment table key).or (at? ms table key)).map outline := by
  induction environment generalizing ms with
  | nil => exact ⟨ms, rfl, tidy, fun _ _ => rfl⟩
  | cons v environment ih =>
    obtain ⟨two, others⟩ := List.forall_mem_cons.1 h
    obtain ⟨laid, hlaid, tidyLaid, own⟩ := overlay_eq two tidy
    obtain ⟨all, hall, tidyAll, given⟩ := ih others tidyLaid
    refine ⟨all, by rw [List.foldlM_cons, hlaid]; exact hall, tidyAll, fun table key => ?_⟩
    rw [given, Option.map_or, own, ← Option.map_or, named_cons, Option.or_assoc]

/-- **Variables**: what the environment says for a key is what the last variable that names it
gives. -/
theorem members_eq (h : TwoParts environment) :
    ∃ all, members environment = some all ∧ Tidy all ∧
      ∀ table key, (at? all table key).map outline =
        (named environment table key).map outline := by
  have tidy : Tidy [] := ⟨.nil, fun _ => nofun, fun _ => .nil⟩
  obtain ⟨all, hall, tidy, given⟩ := foldlM_overlay h tidy
  refine ⟨all, hall, tidy, fun table key => ?_⟩
  rw [given]
  exact congrArg _ Option.or_none

end Environment

end FirmwareRollout
