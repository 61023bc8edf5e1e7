import FirmwareRollout.Identity.Rank

/-!
Finite tables: at most one value for each key, the rows in ascending order of the keys. A table is
determined by its lookups (`Table.ext`), so two ways of filling one that agree on every key give the
same table, whatever the order of the writes.
-/

namespace FirmwareRollout

/-- A finite table whose rows are in strictly ascending order of their keys. -/
structure Table (κ ν : Type) [Ranked κ] where
  rows : List (κ × ν)
  sorted : rows.Pairwise fun a b => rank a.1 < rank b.1

namespace Table

variable {κ ν : Type} [Ranked κ]

def empty : Table κ ν := ⟨[], .nil⟩

instance : Inhabited (Table κ ν) := ⟨empty⟩

instance [DecidableEq κ] [DecidableEq ν] : DecidableEq (Table κ ν) := fun a b =>
  decidable_of_iff (a.rows = b.rows) ⟨fun h => by cases a; cases b; simpa using h, fun h => h ▸ rfl⟩

/-! ### Looking up -/

/-- The value in the row of `k` of a list of rows. -/
def lookup (k : κ) : List (κ × ν) → Option ν
  | [] => none
  | row :: rest => if rank row.1 = rank k then some row.2 else lookup k rest

def find? (t : Table κ ν) (k : κ) : Option ν := lookup k t.rows

def contains (t : Table κ ν) (k : κ) : Bool := (t.find? k).isSome

/-- The keys in ascending order. -/
def keys (t : Table κ ν) : List κ := t.rows.map (·.1)

/-- The values in the order of their keys. -/
def values (t : Table κ ν) : List ν := t.rows.map (·.2)

/-! ### Writing -/

/-- Puts the row of `k` where the order wants it, in place of an earlier row of `k`. -/
def place (k : κ) (v : ν) : List (κ × ν) → List (κ × ν)
  | [] => [(k, v)]
  | row :: rest =>
    if rank k < rank row.1 then (k, v) :: row :: rest
    else if rank k = rank row.1 then (k, v) :: rest
    else row :: place k v rest

theorem mem_place {k : κ} {v : ν} {rows : List (κ × ν)} {row : κ × ν}
    (h : row ∈ place k v rows) : row = (k, v) ∨ row ∈ rows := by
  induction rows with
  | nil => exact .inl (List.mem_singleton.1 h)
  | cons r rest ih =>
    unfold place at h
    split at h
    · exact List.mem_cons.1 h
    · split at h
      · exact (List.mem_cons.1 h).imp_right (List.mem_cons_of_mem _)
      · rcases List.mem_cons.1 h with h | h
        · exact .inr (h ▸ List.mem_cons_self)
        · exact (ih h).imp_right (List.mem_cons_of_mem _)

theorem sorted_place {k : κ} {v : ν} {rows : List (κ × ν)}
    (h : rows.Pairwise fun a b => rank a.1 < rank b.1) :
    (place k v rows).Pairwise fun a b => rank a.1 < rank b.1 := by
  induction rows with
  | nil => exact List.pairwise_singleton _ _
  | cons r rest ih =>
    obtain ⟨hr, hrest⟩ := List.pairwise_cons.1 h
    unfold place
    split
    · next hk =>
      refine List.pairwise_cons.2 ⟨fun a ha => ?_, h⟩
      rcases List.mem_cons.1 ha with rfl | ha
      · exact hk
      · exact Nat.lt_trans hk (hr a ha)
    · split
      · next hk => exact List.pairwise_cons.2 ⟨fun a ha => hk ▸ hr a ha, hrest⟩
      · next hk =>
        refine List.pairwise_cons.2 ⟨fun a ha => ?_, ih hrest⟩
        rcases mem_place ha with rfl | ha
        · show rank r.1 < rank k
          omega
        · exact hr a ha

def insert (t : Table κ ν) (k : κ) (v : ν) : Table κ ν := ⟨place k v t.rows, sorted_place t.sorted⟩

/-- Replaces every value by a function of its key and itself. -/
def map {μ : Type} (t : Table κ ν) (f : κ → ν → μ) : Table κ μ :=
  ⟨t.rows.map fun row => (row.1, f row.1 row.2), by
    rw [List.pairwise_map]
    exact t.sorted⟩

/-- Replaces the value of `k`, if it has one. -/
def modify (t : Table κ ν) (k : κ) (f : ν → ν) : Table κ ν :=
  t.map fun k' v => if rank k' = rank k then f v else v

def erase (t : Table κ ν) (k : κ) : Table κ ν :=
  ⟨t.rows.filter fun row => rank row.1 ≠ rank k, t.sorted.filter _⟩

/-! ### What a write does to a lookup -/

theorem lookup_place (k k' : κ) (v : ν) (rows : List (κ × ν)) :
    lookup k' (place k v rows) = if rank k = rank k' then some v else lookup k' rows := by
  induction rows with
  | nil => rfl
  | cons r rest ih =>
    unfold place
    split
    · rfl
    · split
      · next hk => simp only [lookup]; split <;> simp_all
      · next hk =>
        simp only [lookup, ih]
        split
        · next h => rw [if_neg (by omega)]
        · rfl

@[simp] theorem find?_empty (k : κ) : (empty : Table κ ν).find? k = none := rfl

@[simp] theorem find?_insert (t : Table κ ν) (k k' : κ) (v : ν) :
    (t.insert k v).find? k' = if rank k = rank k' then some v else t.find? k' :=
  lookup_place k k' v t.rows

theorem lookup_map {μ : Type} (f : κ → ν → μ) (k : κ) (rows : List (κ × ν)) :
    lookup k (rows.map fun row => (row.1, f row.1 row.2)) = (lookup k rows).map (f k) := by
  induction rows with
  | nil => rfl
  | cons r rest ih =>
    simp only [List.map_cons, lookup]
    split
    · next h => rw [rank_inj h]; rfl
    · exact ih

@[simp] theorem find?_map {μ : Type} (t : Table κ ν) (f : κ → ν → μ) (k : κ) :
    (t.map f).find? k = (t.find? k).map (f k) :=
  lookup_map f k t.rows

theorem find?_modify (t : Table κ ν) (k k' : κ) (f : ν → ν) :
    (t.modify k f).find? k' = if rank k' = rank k then (t.find? k').map f else t.find? k' := by
  rw [modify, find?_map]
  split <;> simp [*]

theorem lookup_filter (k k' : κ) (rows : List (κ × ν)) :
    lookup k' (rows.filter fun row => rank row.1 ≠ rank k) =
      if rank k' = rank k then none else lookup k' rows := by
  induction rows with
  | nil => simp [lookup]
  | cons r rest ih =>
    by_cases h : rank r.1 = rank k
    · rw [List.filter_cons_of_neg (by simpa using h), ih, lookup]
      split
      · rfl
      · rw [if_neg (by omega)]
    · rw [List.filter_cons_of_pos (by simpa using h), lookup, ih, lookup]
      split
      · next h' => rw [if_neg (by omega)]
      · rfl

theorem find?_erase (t : Table κ ν) (k k' : κ) :
    (t.erase k).find? k' = if rank k' = rank k then none else t.find? k' :=
  lookup_filter k k' t.rows

theorem lookup_eq_some_of_mem {rows : List (κ × ν)}
    (hs : rows.Pairwise fun a b => rank a.1 < rank b.1) {row : κ × ν} (h : row ∈ rows) :
    lookup row.1 rows = some row.2 := by
  induction rows with
  | nil => cases h
  | cons r rest ih =>
    obtain ⟨hr, hrest⟩ := List.pairwise_cons.1 hs
    rcases List.mem_cons.1 h with rfl | h
    · simp [lookup]
    · have := hr row h
      rw [lookup, if_neg (by omega), ih hrest h]

theorem mem_of_lookup_eq_some {rows : List (κ × ν)} {k : κ} {v : ν} (h : lookup k rows = some v) :
    (k, v) ∈ rows := by
  induction rows with
  | nil => cases h
  | cons r rest ih =>
    rw [lookup] at h
    split at h
    · next hk =>
      cases h
      rw [← rank_inj hk]
      exact List.mem_cons_self
    · exact List.mem_cons_of_mem _ (ih h)

/-- A row is in the table exactly if its key has its value. -/
theorem mem_rows_iff {t : Table κ ν} {k : κ} {v : ν} : (k, v) ∈ t.rows ↔ t.find? k = some v :=
  ⟨fun h => lookup_eq_some_of_mem t.sorted h, mem_of_lookup_eq_some⟩

/-- **A table is determined by its lookups.** -/
theorem ext {s t : Table κ ν} (h : ∀ k, s.find? k = t.find? k) : s = t := by
  have rows_eq : ∀ {xs ys : List (κ × ν)}, (xs.Pairwise fun a b => rank a.1 < rank b.1) →
      (ys.Pairwise fun a b => rank a.1 < rank b.1) → (∀ row, row ∈ xs ↔ row ∈ ys) → xs = ys := by
    intro xs
    induction xs with
    | nil =>
      intro ys _ _ hm
      exact (List.eq_nil_iff_forall_not_mem.2 fun r hr => by simpa using (hm r).2 hr).symm
    | cons x xs ih =>
      intro ys hx hy hm
      obtain ⟨hx0, hx1⟩ := List.pairwise_cons.1 hx
      match ys, hy, hm with
      | [], _, hm => simpa using (hm x).1 List.mem_cons_self
      | y :: ys, hy, hm =>
        obtain ⟨hy0, hy1⟩ := List.pairwise_cons.1 hy
        have hxy : x = y := by
          rcases List.mem_cons.1 ((hm x).1 List.mem_cons_self) with h | h
          · exact h
          · rcases List.mem_cons.1 ((hm y).2 List.mem_cons_self) with h' | h'
            · exact h'.symm
            · have := hy0 x h
              have := hx0 y h'
              omega
        subst hxy
        congr 1
        refine ih hx1 hy1 fun row => ⟨fun hr => ?_, fun hr => ?_⟩
        · rcases List.mem_cons.1 ((hm row).1 (List.mem_cons_of_mem _ hr)) with rfl | h
          · have := hx0 row hr; omega
          · exact h
        · rcases List.mem_cons.1 ((hm row).2 (List.mem_cons_of_mem _ hr)) with rfl | h
          · have := hy0 row hr; omega
          · exact h
  have rows := rows_eq s.sorted t.sorted fun (k, v) => by rw [mem_rows_iff, mem_rows_iff, h k]
  cases s
  cases t
  cases rows
  rfl

/-! ### Tables as sets of keys -/

theorem contains_iff {t : Table κ ν} {k : κ} : t.contains k ↔ ∃ v, t.find? k = some v :=
  Option.isSome_iff_exists

theorem contains_eq_false_iff {t : Table κ ν} {k : κ} : t.contains k = false ↔ t.find? k = none :=
  Option.isSome_eq_false_iff.trans Option.isNone_iff_eq_none

theorem contains_of_find? {t : Table κ ν} {k : κ} {v : ν} (h : t.find? k = some v) : t.contains k :=
  contains_iff.2 ⟨v, h⟩

@[simp] theorem contains_empty (k : κ) : (empty : Table κ ν).contains k = false := rfl

theorem find?_insert_self (t : Table κ ν) (k : κ) (v : ν) : (t.insert k v).find? k = some v := by
  simp

theorem find?_insert_of_ne (t : Table κ ν) {k k' : κ} (v : ν) (h : k ≠ k') :
    (t.insert k v).find? k' = t.find? k' := by
  simp [h]

theorem find?_erase_self (t : Table κ ν) (k : κ) : (t.erase k).find? k = none := by
  simp [find?_erase]

theorem find?_erase_of_ne (t : Table κ ν) {k k' : κ} (h : k ≠ k') :
    (t.erase k).find? k' = t.find? k' := by
  simp [find?_erase, h.symm]

theorem find?_insert_eq_some_iff {t : Table κ ν} {k k' : κ} {v v' : ν} :
    (t.insert k v).find? k' = some v' ↔ k = k' ∧ v = v' ∨ k ≠ k' ∧ t.find? k' = some v' := by
  by_cases h : k = k' <;> simp [h]

theorem find?_insert_eq_none_iff {t : Table κ ν} {k k' : κ} {v : ν} :
    (t.insert k v).find? k' = none ↔ k ≠ k' ∧ t.find? k' = none := by
  by_cases h : k = k' <;> simp [h]

theorem find?_erase_eq_some_iff {t : Table κ ν} {k k' : κ} {v : ν} :
    (t.erase k).find? k' = some v ↔ k ≠ k' ∧ t.find? k' = some v := by
  by_cases h : k = k' <;> simp [find?_erase, h, eq_comm]

@[simp] theorem contains_insert {t : Table κ ν} {k k' : κ} {v : ν} :
    (t.insert k v).contains k' ↔ k = k' ∨ t.contains k' := by
  unfold contains
  by_cases h : k = k' <;> simp [h]

@[simp] theorem contains_erase {t : Table κ ν} {k k' : κ} :
    (t.erase k).contains k' ↔ k' ≠ k ∧ t.contains k' := by
  unfold contains
  by_cases h : k' = k <;> simp [find?_erase, h]

theorem mem_keys_iff {t : Table κ ν} {k : κ} : k ∈ t.keys ↔ t.contains k := by
  rw [contains_iff, keys, List.mem_map]
  constructor
  · rintro ⟨⟨k', v⟩, hrow, rfl⟩
    exact ⟨v, mem_rows_iff.1 hrow⟩
  · rintro ⟨v, hv⟩
    exact ⟨(k, v), mem_rows_iff.2 hv, rfl⟩

theorem mem_values_iff {t : Table κ ν} {v : ν} : v ∈ t.values ↔ ∃ k, t.find? k = some v := by
  rw [values, List.mem_map]
  constructor
  · rintro ⟨⟨k, v'⟩, hrow, rfl⟩
    exact ⟨k, mem_rows_iff.1 hrow⟩
  · rintro ⟨k, hk⟩
    exact ⟨(k, v), mem_rows_iff.2 hk, rfl⟩

theorem nodup_keys (t : Table κ ν) : t.keys.Nodup := by
  unfold keys List.Nodup
  rw [List.pairwise_map]
  refine t.sorted.imp fun {a b} hlt heq => ?_
  rw [heq] at hlt
  exact Nat.lt_irrefl _ hlt

theorem values_map {μ : Type} (t : Table κ ν) (f : ν → μ) :
    (t.map fun _ v => f v).values = t.values.map f := by
  simp [map, values]

theorem map_insert {μ : Type} (t : Table κ ν) (f : κ → ν → μ) (k : κ) (v : ν) :
    (t.insert k v).map f = (t.map f).insert k (f k v) := by
  refine ext fun k' => ?_
  rw [find?_map]
  by_cases h : k = k'
  · subst h
    rw [find?_insert_self, find?_insert_self]
    rfl
  · rw [find?_insert_of_ne _ _ h, find?_insert_of_ne _ _ h, find?_map]

theorem insert_of_find? {t : Table κ ν} {k : κ} {v : ν} (h : t.find? k = some v) :
    t.insert k v = t := by
  refine ext fun k' => ?_
  by_cases hk : k = k'
  · rw [← hk, find?_insert_self, h]
  · rw [find?_insert_of_ne _ _ hk]

theorem erase_of_find? {t : Table κ ν} {k : κ} (h : t.find? k = none) : t.erase k = t := by
  refine ext fun k' => ?_
  by_cases hk : k = k'
  · rw [← hk, find?_erase_self, h]
  · rw [find?_erase_of_ne _ hk]

theorem contains_foldl_erase (ks : List κ) (t : Table κ ν) (k : κ) :
    (ks.foldl (·.erase ·) t).contains k ↔ k ∉ ks ∧ t.contains k := by
  induction ks generalizing t with
  | nil => simp
  | cons k' ks ih =>
    rw [List.foldl_cons, ih, contains_erase, List.mem_cons, not_or]
    constructor
    · rintro ⟨hks, hk, ht⟩
      exact ⟨⟨hk, hks⟩, ht⟩
    · rintro ⟨⟨hk, hks⟩, ht⟩
      exact ⟨hks, hk, ht⟩

end Table

end FirmwareRollout
