import FirmwareRollout.Proofs.Toml.Written

/-!
Documents that are written out: tables one after the other, each as a header and a line for each of
its keys. A reader goes through them line by line, and has after each what was written up to there
(`Tree.ofSections`), so that it gets back the whole of it.

Main statement: `parse?_render`.
-/

namespace FirmwareRollout.Toml

/-! ### Writing -/

/-- A key and its value, on a line. -/
def entryLine (e : String × Scalar) : Chars :=
  e.1.toList ++ ' ' :: '=' :: ' ' :: (e.2.written ++ ['\n'])

/-- The name of a table and what it holds. -/
abbrev Section := String × List (String × Scalar)

/-- The header of a table and the lines of its keys. -/
def sectionLines (t : Section) : Chars := '[' :: (t.1.toList ++ ']' :: '\n' :: t.2.flatMap entryLine)

def render (doc : List Section) : String := String.ofList (doc.flatMap sectionLines)

/-- What a document says. -/
def meaning (doc : List Section) : Datum.Members :=
  doc.map fun t => (t.1, .table (t.2.map fun e => (e.1, e.2.datum)))

/-- Nothing has two values, all names are bare, and all numbers fit. -/
structure WellFormed (doc : List Section) : Prop where
  tables : (doc.map (·.1)).Nodup
  keys : ∀ t ∈ doc, (t.2.map (·.1)).Nodup
  named : ∀ t ∈ doc, BareName t.1
  entries : ∀ t ∈ doc, ∀ e ∈ t.2, BareName e.1 ∧ e.2.Fits

instance (doc : List Section) : Decidable (WellFormed doc) :=
  decidable_of_iff ((doc.map (·.1)).Nodup ∧ (∀ t ∈ doc, (t.2.map (·.1)).Nodup) ∧
      (∀ t ∈ doc, BareName t.1) ∧ ∀ t ∈ doc, ∀ e ∈ t.2, BareName e.1 ∧ e.2.Fits)
    ⟨fun h => ⟨h.1, h.2.1, h.2.2.1, h.2.2.2⟩, fun h => ⟨h.tables, h.keys, h.named, h.entries⟩⟩

variable {name : String}

/-! ### Tables while they are put together -/

namespace Tree

variable {t t' : Tree} {done : List (String × Tree)}

theorem find?_of_not_mem (new : name ∉ done.map (·.1)) : find? done name = none := by
  rw [find?, List.find?_eq_none.2, Option.map_none]
  intro m hm same
  exact new (List.mem_map.2 ⟨m, hm, of_decide_eq_true same⟩)

theorem put_of_not_mem (new : name ∉ done.map (·.1)) (t : Tree) :
    put name t done = done ++ [(name, t)] := by
  induction done with
  | nil => rfl
  | cons m done ih =>
    rw [List.map_cons, List.mem_cons, not_or] at new
    rw [put, if_neg (Ne.symm new.1), ih new.2, List.cons_append]

theorem find?_last (new : name ∉ done.map (·.1)) : find? (done ++ [(name, t)]) name = some t := by
  induction done with
  | nil => simp [find?]
  | cons m done ih =>
    rw [List.map_cons, List.mem_cons, not_or] at new
    rw [find?, List.cons_append, List.find?_cons_of_neg (by simpa using Ne.symm new.1)]
    exact ih new.2

theorem put_last (new : name ∉ done.map (·.1)) :
    put name t' (done ++ [(name, t)]) = done ++ [(name, t')] := by
  induction done with
  | nil => exact if_pos rfl
  | cons m done ih =>
    rw [List.map_cons, List.mem_cons, not_or] at new
    rw [List.cons_append, put, if_neg (Ne.symm new.1), ih new.2, List.cons_append]

/-- A table that a header has opened, with values only. -/
def ofEntries (es : List (String × Scalar)) : Tree :=
  table false false (es.map fun e => (e.1, leaf e.2.datum))

/-- A document of such tables. -/
def ofSections (doc : List Section) : Tree :=
  table false false (doc.map fun t => (t.1, ofEntries t.2))

variable {doc : List Section} {es es' : List (String × Scalar)} {e : String × Scalar}

theorem ofSections_snoc (doc : List Section) (t : Section) :
    ofSections (doc ++ [t]) =
      table false false (doc.map (fun t => (t.1, ofEntries t.2)) ++ [(t.1, ofEntries t.2)]) := by
  rw [ofSections, List.map_append, List.map_singleton]

theorem new_section (new : name ∉ doc.map (·.1)) :
    name ∉ (doc.map fun t => (t.1, ofEntries t.2)).map (·.1) := by
  rwa [List.map_map]

/-- A line adds its key to the table. -/
theorem assign_ofEntries (new : e.1 ∉ es.map (·.1)) :
    assign [e.1] e.2.datum (ofEntries es) = some (ofEntries (es ++ [e])) := by
  have fresh : e.1 ∉ (es.map fun e => (e.1, leaf e.2.datum)).map (·.1) := by
    rwa [List.map_map]
  show define false e.1 e.2.datum (ofEntries es) = _
  rw [ofEntries, define, find?_of_not_mem fresh, put_of_not_mem fresh, ofEntries, List.map_append,
    List.map_singleton]
  rfl

/-- A header adds its table to the document. -/
theorem openTable_ofSections (new : name ∉ doc.map (·.1)) :
    openTable name (ofSections doc) = some (ofSections (doc ++ [(name, [])])) := by
  rw [ofSections, openTable, find?_of_not_mem (new_section new), put_of_not_mem (new_section new),
    ofSections_snoc]
  rfl

/-- What is done to the last table is done to it alone. -/
theorem within_ofSections (new : name ∉ doc.map (·.1)) {f : Tree → Option Tree}
    (change : f (ofEntries es) = some (ofEntries es')) :
    within false [name] f (ofSections (doc ++ [(name, es)])) =
      some (ofSections (doc ++ [(name, es')])) := by
  have found : find? (doc.map (fun t => (t.1, ofEntries t.2)) ++ [(name, ofEntries es)]) name =
    some (ofEntries es) := find?_last (new_section new)
  rw [ofSections_snoc, ofSections_snoc, within]
  simp only [found, Option.getD_some]
  show (f (ofEntries es)).bind _ = _
  rw [change, Option.bind_some, put_last (new_section new)]
  rfl

theorem memberData_eq (ms : List (String × Tree)) :
    memberData ms = ms.map fun m => (m.1, m.2.datum) := by
  induction ms with
  | nil => rfl
  | cons m ms ih => rw [memberData, ih, List.map_cons]

theorem datum_ofSections (doc : List Section) : (ofSections doc).datum = .table (meaning doc) := by
  have entries (es : List (String × Scalar)) :
      (ofEntries es).datum = .table (es.map fun e => (e.1, e.2.datum)) := by
    rw [ofEntries, datum, memberData_eq, List.map_map]
    rfl
  rw [ofSections, datum, memberData_eq, List.map_map, meaning]
  simp only [Function.comp_def, entries]

end Tree

/-! ### Lines -/

variable {doc : List Section} {es : List (String × Scalar)} {e : String × Scalar} {fuel : Nat}

theorem entryLine_append (e : String × Scalar) (rest : Chars) : entryLine e ++ rest =
    e.1.toList ++ ' ' :: '=' :: ' ' :: (e.2.written ++ '\n' :: rest) := by
  simp [entryLine]

theorem header?_written (bare : BareName name) (new : name ∉ doc.map (·.1)) (current : List String)
    (rest : Chars) : header? ⟨.ofSections doc, current⟩ (name.toList ++ ']' :: '\n' :: rest) =
      some (⟨.ofSections (doc ++ [(name, [])]), [name]⟩, rest) := by
  have path : key? depthLimit (name.toList ++ ']' :: '\n' :: rest) =
    some ([name], ']' :: '\n' :: rest) := bare.key? (by decide) rfl (by decide) _
  unfold header?
  split
  · next heq =>
    split at heq
    · next heq' => exact absurd heq' (bare.ne_cons (by decide) _ _)
    · cases heq
      rw [path]
      show (Tree.openTable name (.ofSections doc)).bind _ = _
      rw [Tree.openTable_ofSections new]
      rfl

theorem assignment?_written (bare : BareName e.1) (fits : e.2.Fits) (newTable : name ∉ doc.map (·.1))
    (newKey : e.1 ∉ es.map (·.1)) (rest : Chars) :
    assignment? ⟨.ofSections (doc ++ [(name, es)]), [name]⟩ (entryLine e ++ rest) =
      some (⟨.ofSections (doc ++ [(name, es ++ [e])]), [name]⟩, rest) := by
  have key : key? depthLimit (e.1.toList ++ ' ' :: '=' :: ' ' :: (e.2.written ++ '\n' :: rest)) =
    some ([e.1], '=' :: ' ' :: (e.2.written ++ '\n' :: rest)) :=
      bare.key? (by decide) rfl (by decide) _
  have value : value? depthLimit (skipGaps (' ' :: (e.2.written ++ '\n' :: rest))) =
      some (e.2.datum, '\n' :: rest) := by
    have gap : skipGaps (' ' :: (e.2.written ++ '\n' :: rest)) =
      skipGaps (e.2.written ++ '\n' :: rest) := rfl
    rw [gap, skipGaps_written]
    exact value?_written _ e.2 fits rest
  have pair : pair? (value? depthLimit) (entryLine e ++ rest) =
      some (([e.1], e.2.datum), '\n' :: rest) := by
    rw [pair?, entryLine_append, key]
    show (value? depthLimit (skipGaps (' ' :: (e.2.written ++ '\n' :: rest)))).bind _ = _
    rw [value]
    rfl
  rw [assignment?, pair]
  show (Tree.within false [name] (Tree.assign [e.1] e.2.datum) _).bind _ = _
  rw [Tree.within_ofSections newTable (Tree.assign_ofEntries newKey)]
  rfl

/-! ### Documents -/

theorem lines_header (bare : BareName name) (new : name ∉ doc.map (·.1)) (current : List String)
    (rest : Chars) (fuel : Nat) :
    lines (fuel + 1) ⟨.ofSections doc, current⟩ ('[' :: (name.toList ++ ']' :: '\n' :: rest)) =
      lines fuel ⟨.ofSections (doc ++ [(name, [])]), [name]⟩ rest := by
  show (header? ⟨.ofSections doc, current⟩ (name.toList ++ ']' :: '\n' :: rest)).bind _ = _
  rw [header?_written bare new]
  rfl

theorem lines_entry (bare : BareName e.1) (fits : e.2.Fits) (newTable : name ∉ doc.map (·.1))
    (newKey : e.1 ∉ es.map (·.1)) (rest : Chars) (fuel : Nat) :
    lines (fuel + 1) ⟨.ofSections (doc ++ [(name, es)]), [name]⟩ (entryLine e ++ rest) =
      lines fuel ⟨.ofSections (doc ++ [(name, es ++ [e])]), [name]⟩ rest := by
  have read := assignment?_written bare fits newTable newKey rest
  rw [entryLine_append] at read ⊢
  have noBreak : newline? (e.1.toList ++ ' ' :: '=' :: ' ' :: (e.2.written ++ '\n' :: rest)) =
      none := by
    unfold newline?
    split
    · next heq => exact absurd heq (bare.ne_cons (by decide) _ _)
    · next heq => exact absurd heq (bare.ne_cons (by decide) _ _)
    · rfl
  rw [lines.eq_def]
  simp only [bare.skipGaps]
  split
  · next empty => simp at empty
  · next heq => exact absurd heq (bare.ne_cons (by decide) _ _)
  · next heq => exact absurd heq (bare.ne_cons (by decide) _ _)
  · rw [noBreak]
    simp only [read]
    rfl

/-- Where no name comes twice, what is next has a name that was not there before. -/
theorem not_mem_of_nodup {α : Type} {done more : List (String × α)} {next : String × α}
    (distinct : ((done ++ next :: more).map (·.1)).Nodup) : next.1 ∉ done.map (·.1) := by
  rw [List.map_append, List.map_cons] at distinct
  intro old
  exact (List.nodup_append.1 distinct).2.2 _ old _ List.mem_cons_self rfl

/-- The lines of the keys of a table, one after the other. -/
theorem lines_entries (newTable : name ∉ doc.map (·.1)) (more : List (String × Scalar))
    (good : ∀ e ∈ more, BareName e.1 ∧ e.2.Fits) (distinct : ((es ++ more).map (·.1)).Nodup)
    (rest : Chars) (enough : (more.flatMap entryLine ++ rest).length < fuel) :
    ∃ left, rest.length < left ∧
      lines fuel ⟨.ofSections (doc ++ [(name, es)]), [name]⟩ (more.flatMap entryLine ++ rest) =
        lines left ⟨.ofSections (doc ++ [(name, es ++ more)]), [name]⟩ rest := by
  induction more generalizing es fuel with
  | nil => exact ⟨fuel, enough, by rw [List.append_nil]; rfl⟩
  | cons e more ih =>
    obtain ⟨⟨bare, fits⟩, others⟩ := List.forall_mem_cons.1 good
    have newKey := not_mem_of_nodup distinct
    have apart : ((es ++ [e] ++ more).map (·.1)).Nodup := by
      rwa [List.append_assoc, List.singleton_append]
    rw [List.flatMap_cons, List.append_assoc] at enough ⊢
    have long : 0 < (entryLine e).length := by
      simp only [entryLine, List.length_append, List.length_cons]
      omega
    rw [List.length_append] at enough
    obtain ⟨fuel, rfl⟩ : ∃ n, fuel = n + 1 := ⟨fuel - 1, by omega⟩
    obtain ⟨left, enough', read⟩ := @ih (es ++ [e]) fuel others apart (by omega)
    refine ⟨left, enough', ?_⟩
    rw [lines_entry bare fits newTable newKey, read, List.append_assoc, List.singleton_append]

/-- The lines of the tables of a document, one after the other. -/
theorem lines_sections (more : List Section) (good : WellFormed (doc ++ more))
    (current : List String) (enough : (more.flatMap sectionLines).length < fuel) :
    lines fuel ⟨.ofSections doc, current⟩ (more.flatMap sectionLines) =
      some (.ofSections (doc ++ more)) := by
  induction more generalizing doc current fuel with
  | nil =>
    obtain ⟨fuel, rfl⟩ : ∃ n, fuel = n + 1 := ⟨fuel - 1, by omega⟩
    rw [List.append_nil]
    rfl
  | cons t more ih =>
    obtain ⟨name, es⟩ := t
    have member : (name, es) ∈ doc ++ (name, es) :: more := by simp
    have newTable := not_mem_of_nodup good.tables
    have text : ((name, es) :: more).flatMap sectionLines = '[' :: (name.toList ++ ']' :: '\n' ::
        (es.flatMap entryLine ++ more.flatMap sectionLines)) := by
      simp [sectionLines]
    rw [text] at enough ⊢
    simp only [List.length_cons, List.length_append] at enough
    obtain ⟨fuel, rfl⟩ : ∃ n, fuel = n + 1 := ⟨fuel - 1, by omega⟩
    rw [lines_header (good.named _ member) newTable]
    have inside : (es.flatMap entryLine ++ more.flatMap sectionLines).length < fuel := by
      rw [List.length_append]
      omega
    have keys : ((([] : List (String × Scalar)) ++ es).map (·.1)).Nodup := good.keys _ member
    obtain ⟨left, enough', read⟩ :=
      lines_entries newTable es (good.entries _ member) keys _ inside
    have rest : doc ++ (name, es) :: more = doc ++ [(name, es)] ++ more := by simp
    rw [read, List.nil_append, rest]
    exact @ih (doc ++ [(name, es)]) left (rest ▸ good) [name] enough'

/-- **What is written is read back**, whatever characters the texts are of. -/
theorem parse?_render {doc : List Section} (h : WellFormed doc) :
    parse? (render doc) = some (meaning doc) := by
  have text : (render doc).toList = doc.flatMap sectionLines := String.toList_ofList
  have noMark : ∀ more, (render doc).toList ≠ '\uFEFF' :: more := by
    intro more heq
    rw [text] at heq
    cases doc with
    | nil => cases heq
    | cons t doc => exact absurd (List.cons.inj heq).1 (by decide)
  have whole : WellFormed ([] ++ doc) := h
  have read : lines ((doc.flatMap sectionLines).length + 1) ⟨.empty, []⟩
      (doc.flatMap sectionLines) = some (.ofSections doc) :=
    lines_sections doc whole [] (Nat.lt_succ_self _)
  unfold parse?
  split
  · next heq => exact absurd heq (noMark _)
  · simp only [text, read, Option.bind_eq_bind, Option.bind_some, Tree.datum_ofSections]

end FirmwareRollout.Toml
