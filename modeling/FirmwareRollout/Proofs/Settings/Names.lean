import FirmwareRollout.Settings.Environment

/-!
The names of environment variables. A name that is the mark, a section, two underscores and a key,
in any mixture of cases, spells the path of that key in that section: lower case goes through the
steps that take the name apart, and the parts have nothing in them that would part them further.

Main statement: `path?_of_spells`.
-/

namespace FirmwareRollout.Environment

/-! ### Lower case -/

/-- Lower case changes only letters, and makes letters of them. -/
theorem lower_facts (c : Char) : Text.isBlank (lower c) = Text.isBlank c ∧
    (lower c = '_' ↔ c = '_') ∧ (lower c = '.' ↔ c = '.') := by
  have letters : ∀ n < 91, 65 ≤ n →
      Text.isBlank (Char.ofNat (n + 32)) = Text.isBlank (Char.ofNat n) ∧
      (Char.ofNat (n + 32) = '_' ↔ Char.ofNat n = '_') ∧
      (Char.ofNat (n + 32) = '.' ↔ Char.ofNat n = '.') := by decide
  unfold lower
  split
  · next h =>
    have all := letters c.toNat (by omega) h.1
    rwa [Char.ofNat_toNat] at all
  · exact ⟨rfl, .rfl, .rfl⟩

theorem map_lower_dots (cs : List Char) : (dots cs).map lower = dots (cs.map lower) := by
  fun_induction dots cs with
  | case1 rest ih =>
    show lower '.' :: (dots rest).map lower = dots (lower '_' :: lower '_' :: rest.map lower)
    rw [ih]
    rfl
  | case2 c rest single ih =>
    rw [List.map_cons, List.map_cons, ih, dots]
    intro tail hc hrest
    obtain ⟨d, tail, rfl⟩ : ∃ d tail, rest = d :: tail := by
      cases rest with
      | nil => cases hrest
      | cons d tail => exact ⟨d, tail, rfl⟩
    have hd : lower d = '_' := (List.cons.inj hrest).1
    exact single tail ((lower_facts c).2.1.1 hc) (by rw [(lower_facts d).2.1.1 hd])
  | case3 => rfl

theorem map_lower_trimStart (cs : List Char) :
    (Text.trimStart cs).map lower = Text.trimStart (cs.map lower) := by
  have blank : Text.isBlank ∘ lower = Text.isBlank := funext fun c => (lower_facts c).1
  rw [Text.trimStart, Text.trimStart, List.dropWhile_map, blank]

theorem map_lower_trim (cs : List Char) : (Text.trim cs).map lower = Text.trim (cs.map lower) := by
  rw [Text.trim, Text.trim, List.map_reverse, map_lower_trimStart, List.map_reverse,
    map_lower_trimStart]

/-! ### Parts -/

/-- A text that can be a section or a key: no dot, no white space, no two underscores side by side,
and none at the end. -/
structure IsPart (cs : List Char) : Prop where
  nonempty : cs ≠ []
  solid : ∀ c ∈ cs, c ≠ '.' ∧ Text.isBlank c = false
  single : ∀ front rest, cs ≠ front ++ '_' :: '_' :: rest
  ended : ∀ front, cs ≠ front ++ ['_']

/-- A name that starts with the mark, in any mixture of cases. -/
def Marked (name : String) : Prop := (name.toList.take marker.length).map lower = marker

/-- A name that is the mark, a table, two underscores and a key, in any mixture of cases. -/
def Spells (name : String) (table key : String) : Prop :=
  IsPart table.toList ∧ IsPart key.toList ∧
    name.toList.map lower = marker ++ table.toList ++ '_' :: '_' :: key.toList

variable {cs rest : List Char}

theorem dots_append (single : ∀ front rest, cs ≠ front ++ '_' :: '_' :: rest)
    (ended : ∀ front, cs ≠ front ++ ['_']) : dots (cs ++ rest) = cs ++ dots rest := by
  induction cs with
  | nil => rfl
  | cons c cs ih =>
    rw [List.cons_append, dots, ih, List.cons_append]
    · exact fun front rest h => single (c :: front) rest (by rw [h, List.cons_append])
    · exact fun front h => ended (c :: front) (by rw [h, List.cons_append])
    · -- A second underscore would be in the part itself, or the first would end it.
      rintro tail rfl h
      cases cs with
      | nil => exact ended [] rfl
      | cons d cs =>
        rw [List.cons_append, List.cons.injEq] at h
        exact single [] cs (by rw [h.1]; rfl)

theorem trimStart_of_solid (solid : ∀ c ∈ cs, Text.isBlank c = false) : Text.trimStart cs = cs := by
  cases cs with
  | nil => rfl
  | cons c cs => rw [Text.trimStart, List.dropWhile_cons_of_neg (by simp [solid c])]

theorem trim_of_solid (solid : ∀ c ∈ cs, Text.isBlank c = false) : Text.trim cs = cs := by
  rw [Text.trim, trimStart_of_solid solid,
    trimStart_of_solid fun c hc => solid c (List.mem_reverse.1 hc), List.reverse_reverse]

theorem parts_of_solid (solid : ∀ c ∈ cs, c ≠ '.') : parts cs = [cs] := by
  induction cs with
  | nil => rfl
  | cons c cs ih =>
    simp [parts, ih fun d hd => solid d (List.mem_cons_of_mem c hd), solid c]

theorem parts_ne_nil (cs : List Char) : parts cs ≠ [] := by
  cases cs with
  | nil => nofun
  | cons c cs =>
    rw [parts]
    split
    · nofun
    · split <;> nofun

theorem parts_append (solid : ∀ c ∈ cs, c ≠ '.') :
    parts (cs ++ '.' :: rest) = cs :: parts rest := by
  induction cs with
  | nil =>
    obtain ⟨part, others, h⟩ := List.exists_cons_of_ne_nil (parts_ne_nil rest)
    simp [parts, h]
  | cons c cs ih =>
    simp [parts, ih fun d hd => solid d (List.mem_cons_of_mem c hd), solid c]

theorem path?_of_not_marked {name : String} (h : ¬ Marked name) : path? name = none := by
  rw [path?, if_pos (.inl h)]

/-- **Names of variables**: the mark, a table, two underscores and a key, in any mixture of cases,
are the path of that key in that table. -/
theorem path?_of_spells {name table key : String} (h : Spells name table key) :
    path? name = some [table, key] := by
  obtain ⟨ht, hk, spelt⟩ := h
  have mark : Marked name := by
    rw [Marked, List.map_take, spelt, List.append_assoc, List.take_left]
  have inner : (Text.trim (dots (name.toList.drop marker.length))).map lower =
      table.toList ++ '.' :: key.toList := by
    have whole : dots key.toList = key.toList := by
      have alone : dots (key.toList ++ []) = key.toList ++ dots [] :=
        dots_append hk.single hk.ended
      rwa [List.append_nil, dots, List.append_nil] at alone
    rw [map_lower_trim, map_lower_dots, List.map_drop, spelt, List.append_assoc, List.drop_left,
      dots_append ht.single ht.ended, dots, whole, trim_of_solid]
    intro c hc
    rcases List.mem_append.1 hc with hc | hc
    · exact (ht.solid c hc).2
    · rcases List.mem_cons.1 hc with rfl | hc
      · rfl
      · exact (hk.solid c hc).2
  have two : parts (table.toList ++ '.' :: key.toList) = [table.toList, key.toList] := by
    rw [parts_append fun c hc => (ht.solid c hc).1, parts_of_solid fun c hc => (hk.solid c hc).1]
  rw [Marked] at mark
  rw [path?, mark, inner, if_neg (by simp), two]
  simp [ht.nonempty, hk.nonempty]

end FirmwareRollout.Environment
