import FirmwareRollout.Text.Hex
import FirmwareRollout.Toml.Document

/-!
Parts of documents that are written out: texts, truth values and natural numbers, and the names that
they are given to. A reader gets back what was written, whatever characters a text is of. The readers
are followed from the inside out, from strings and numbers to values (`value?_written`) and names
(`BareName.key?`); what follows a part is left open, up to its first character.
-/

namespace FirmwareRollout.Toml

/-! ### Writing -/

/-- A value without parts. -/
inductive Scalar where
  | text (s : String)
  | flag (b : Bool)
  | natural (n : Nat)
deriving DecidableEq

/-- A character of a string in double quotes: a quote or a backslash after a backslash, a control
character by its number, and any other as it is. -/
def escaped (c : Char) : Chars :=
  if c = '"' ∨ c = '\\' then ['\\', c]
  else if isPlain c then [c]
  else ['\\', 'u', '0', '0', Hex.digit (c.toNat / 16), Hex.digit (c.toNat % 16)]

namespace Scalar

def written : Scalar → Chars
  | text s => '"' :: (s.toList.flatMap escaped ++ ['"'])
  | flag true => ['t', 'r', 'u', 'e']
  | flag false => ['f', 'a', 'l', 's', 'e']
  | natural n => Decimal.digits n

/-- The value as a reader has it. -/
def datum : Scalar → Datum
  | text s => .text s
  | flag b => .flag b
  | natural n => .integer n

/-- Numbers have to fit 64 bits with a sign. -/
def Fits : Scalar → Prop
  | natural n => n < 9223372036854775808
  | text _ | flag _ => True

instance : DecidablePred Fits
  | natural n => inferInstanceAs (Decidable (n < 9223372036854775808))
  | text _ | flag _ => .isTrue trivial

end Scalar

/-- A name that needs no quotes. -/
structure BareName (name : String) : Prop where
  nonempty : name.toList ≠ []
  bare : ∀ c ∈ name.toList, isBare c = true

instance (name : String) : Decidable (BareName name) :=
  decidable_of_iff (name.toList ≠ [] ∧ name.toList.all isBare = true)
    ⟨fun h => ⟨h.1, List.all_eq_true.1 h.2⟩, fun h => ⟨h.nonempty, List.all_eq_true.2 h.bare⟩⟩

/-! ### Strings -/

theorem unicode?_control {n : Nat} (h : n < 128) :
    unicode? ['0', '0', Hex.digit (n / 16), Hex.digit (n % 16)] = some (Char.ofNat n) := by
  have : ∀ n < 128, unicode? ['0', '0', Hex.digit (n / 16), Hex.digit (n % 16)] =
    some (Char.ofNat n) := by decide
  exact this n h

/-- **An escaped character is read as itself.** -/
theorem basic_escaped (c : Char) (rest : Chars) :
    basic (escaped c ++ rest) = prepend c (basic rest) := by
  unfold escaped
  split
  · next special => rcases special with rfl | rfl <;> rfl
  · next ordinary =>
    obtain ⟨noQuote, noSlash⟩ := not_or.1 ordinary
    split
    · next plain =>
      rw [List.singleton_append, basic.eq_def]
      split <;> simp_all
    · next control =>
      have small : c.toNat < 128 := by
        simp only [isPlain, Bool.or_eq_true, Bool.and_eq_true, decide_eq_true_eq] at control
        omega
      show prepend (unicode? _) (basic rest) = _
      rw [unicode?_control small, Char.ofNat_toNat]

theorem basic_written (cs rest : Chars) :
    basic (cs.flatMap escaped ++ '"' :: rest) = some (cs, rest) := by
  induction cs with
  | nil => rfl
  | cons c cs ih =>
    rw [List.flatMap_cons, List.append_assoc, basic_escaped, ih]
    rfl

/-- What is written of a text starts with two quotes only if it is empty, and then a line break
follows. -/
theorem string?_written (s : String) (rest : Chars) :
    string? (Scalar.written (.text s) ++ '\n' :: rest) = some (s, '\n' :: rest) := by
  have single : string? (Scalar.written (.text s) ++ '\n' :: rest) =
      (basic (s.toList.flatMap escaped ++ '"' :: '\n' :: rest)).map fun r =>
        (String.ofList r.1, r.2) := by
    rw [Scalar.written, List.cons_append, List.append_assoc, List.singleton_append]
    cases s.toList with
    | nil => rfl
    | cons c cs =>
      rw [List.flatMap_cons, List.append_assoc]
      unfold escaped
      split
      · rfl
      · next ordinary =>
        obtain ⟨noQuote, -⟩ := not_or.1 ordinary
        split
        · rw [List.singleton_append, string?.eq_def]
          split <;> simp_all
        · rfl
  rw [single, basic_written, Option.map_some, String.ofList_toList]

/-! ### Numbers -/

/-- Digits and then the end of a line. -/
def Digits (s rest : Chars) : Prop :=
  ∃ ds, (∀ c ∈ ds, Decimal.isDigit c = true) ∧ s = ds ++ '\n' :: rest

variable {s rest : Chars} {c : Char}

theorem digitIn?_of_isDigit (h : Decimal.isDigit c = true) :
    digitIn? 10 c = some (Decimal.digitValue c) := by
  simp only [Decimal.isDigit, Bool.and_eq_true, decide_eq_true_eq] at h
  simp only [digitIn?, Decimal.digitValue, if_pos h]
  rw [if_pos (by omega)]

theorem digitRun_digits {ds : Chars} (all : ∀ c ∈ ds, Decimal.isDigit c = true) (rest : Chars) :
    digitRun 10 (ds ++ '\n' :: rest) = (ds.map Decimal.digitValue, '\n' :: rest) := by
  induction ds with
  | nil => rfl
  | cons c ds ih =>
    obtain ⟨first, others⟩ := List.forall_mem_cons.1 all
    rw [List.cons_append, digitRun.eq_def]
    split
    · next heq =>
      rw [(List.cons.inj heq).1] at first
      exact absurd first (by decide)
    · next heq =>
      obtain ⟨rfl, rfl⟩ := List.cons.inj heq
      rw [digitIn?_of_isDigit first, ih others]
      rfl
    · next heq => cases heq

/-- Only zero starts with a zero. -/
theorem digits_ne_zero_cons {n : Nat} (positive : n ≠ 0) (rest more : Chars) :
    Decimal.digits n ++ '\n' :: rest ≠ '0' :: more := by
  intro heq
  cases spelling : Decimal.digits n with
  | nil => exact Decimal.digits_ne_nil n spelling
  | cons c ds =>
    rw [spelling] at heq
    rw [(List.cons.inj heq).1] at spelling
    exact positive (Decimal.digits_of_zero spelling)

theorem digits?_digits (n : Nat) (rest : Chars) : digits? 10 (Decimal.digits n ++ '\n' :: rest) =
    some ((Decimal.digits n).map Decimal.digitValue, '\n' :: rest) := by
  have all : ∀ c ∈ Decimal.digits n, Decimal.isDigit c = true :=
    fun _ => Decimal.isDigit_of_mem_digits
  have run := digitRun_digits all rest
  cases spelling : Decimal.digits n with
  | nil => exact absurd spelling (Decimal.digits_ne_nil n)
  | cons c ds =>
    have digit : digitIn? 10 c = some _ := digitIn?_of_isDigit (all c (by simp [spelling]))
    rw [spelling, List.cons_append] at run
    rw [List.cons_append, digits?, digit, run]
    rfl

/-- **A number is read as it is written**, up to the end of its line. -/
theorem decimal?_digits (n : Nat) (rest : Chars) : ∃ ds, spelt 10 ds = n ∧
    decimal? (Decimal.digits n ++ '\n' :: rest) = some (ds, '\n' :: rest) := by
  by_cases zero : n = 0
  · subst zero
    rw [Decimal.digits_zero]
    exact ⟨[0], rfl, rfl⟩
  · refine ⟨(Decimal.digits n).map Decimal.digitValue, ?_, ?_⟩
    · rw [spelt, List.foldl_map]
      exact Decimal.value_digits n
    · unfold decimal?
      split
      · next heq => exact absurd heq (digits_ne_zero_cons zero rest _)
      · exact digits?_digits n rest

/-- Such a text starts with nothing but digits and line breaks. -/
theorem Digits.ne_cons (h : Digits s rest) {mark : Char} (noDigit : Decimal.isDigit mark = false)
    (noBreak : mark ≠ '\n') (more : Chars) : s ≠ mark :: more := by
  obtain ⟨ds, all, rfl⟩ := h
  intro heq
  cases ds with
  | nil => exact noBreak (List.cons.inj heq).1.symm
  | cons c ds =>
    have first := all c List.mem_cons_self
    rw [(List.cons.inj heq).1, noDigit] at first
    cases first

theorem Digits.sign (h : Digits s rest) : Toml.sign s = (false, s) := by
  unfold Toml.sign
  split
  · exact absurd rfl (h.ne_cons (by decide) (by decide) _)
  · exact absurd rfl (h.ne_cons (by decide) (by decide) _)
  · rfl

/-- The parts of points in time end with marks that numbers do not have. -/
theorem Digits.after? (h : Digits s rest) {mark : Char} (noDigit : Decimal.isDigit mark = false)
    (noBreak : mark ≠ '\n') : Toml.after? mark s = none := by
  unfold Toml.after?
  split
  · refine if_neg ?_
    rintro rfl
    exact h.ne_cons noDigit noBreak _ rfl
  · rfl

theorem isSome_of_mapM {cs : Chars} {ds : List Nat} (h : cs.mapM (digitIn? 10) = some ds) :
    ∀ c ∈ cs, (digitIn? 10 c).isSome := by
  induction cs generalizing ds with
  | nil => exact fun c hc => absurd hc List.not_mem_nil
  | cons c cs ih =>
    rw [List.mapM_cons] at h
    obtain ⟨d, first, others⟩ := Option.bind_eq_some_iff.1 h
    obtain ⟨ds, others, -⟩ := Option.bind_eq_some_iff.1 others
    exact List.forall_mem_cons.2 ⟨by rw [first]; rfl, ih others⟩

/-- After a field of digits there are digits left, or the end of the line. -/
theorem Digits.field? (h : Digits s rest) {width low high n : Nat} {s' : Chars}
    (read : Toml.field? width low high s = some (n, s')) : Digits s' rest := by
  obtain ⟨ds, all, rfl⟩ := h
  obtain ⟨values, digits, inside⟩ := Option.bind_eq_some_iff.1 read
  have left : s' = (ds ++ '\n' :: rest).drop width := by
    simp only at inside
    split at inside <;> cases inside
    rfl
  have fits : width ≤ ds.length := by
    -- a field that goes on beyond the digits has a line break in it
    refine Nat.le_of_not_lt fun beyond => ?_
    obtain ⟨k, rfl⟩ := Nat.exists_eq_add_of_lt beyond
    have inField : '\n' ∈ (ds ++ '\n' :: rest).take (ds.length + k + 1) := by
      rw [Nat.add_assoc, List.take_length_add_append]
      exact List.mem_append_right _ List.mem_cons_self
    exact absurd (isSome_of_mapM digits _ inField) (by decide)
  refine ⟨ds.drop width, fun c hc => all c (List.mem_of_mem_drop hc), ?_⟩
  rw [left, List.drop_append_of_le_length fits]

theorem Digits.moment? (h : Digits s rest) : Toml.moment? s = none := by
  have noDate : date? s = none := by
    cases year : Toml.field? 4 0 9999 s with
    | none => rw [date?, year]; rfl
    | some r =>
      obtain ⟨y, s'⟩ := r
      rw [date?, year]
      show (Toml.after? '-' s').bind _ = none
      rw [(h.field? year).after? (by decide) (by decide)]
      rfl
  have noTime : time? s = none := by
    cases hour : Toml.field? 2 0 23 s with
    | none => rw [time?, hour]; rfl
    | some r =>
      obtain ⟨y, s'⟩ := r
      rw [time?, hour]
      show (Toml.after? ':' s').bind _ = none
      rw [(h.field? hour).after? (by decide) (by decide)]
      rfl
  rw [Toml.moment?, noDate, noTime]
  rfl

theorem digits_digits (n : Nat) (rest : Chars) : Digits (Decimal.digits n ++ '\n' :: rest) rest :=
  ⟨_, fun _ => Decimal.isDigit_of_mem_digits, rfl⟩

theorem fraction?_digits (n : Nat) (rest : Chars) :
    fraction? (Decimal.digits n ++ '\n' :: rest) = none := by
  obtain ⟨ds, -, read⟩ := decimal?_digits n rest
  rw [fraction?, (digits_digits n rest).sign]
  simp only [read]
  rfl

theorem Digits.special? (h : Digits s rest) : Toml.special? s = none := by
  rw [Toml.special?, h.sign]
  simp only
  split
  · exact absurd rfl (h.ne_cons (by decide) (by decide) _)
  · exact absurd rfl (h.ne_cons (by decide) (by decide) _)
  · rfl

theorem integer?_digits {n : Nat} (small : n < 9223372036854775808) (rest : Chars) :
    integer? (Decimal.digits n ++ '\n' :: rest) = some (.integer n, '\n' :: rest) := by
  obtain ⟨ds, value, read⟩ := decimal?_digits n rest
  have fits : fitting false n = some (.integer n) := by
    rw [fitting, if_neg (by decide), if_pos small]
  by_cases zero : n = 0
  · subst zero
    rw [Decimal.digits_zero]
    rfl
  · unfold integer?
    simp only
    split
    · next heq => exact absurd heq (digits_ne_zero_cons zero rest _)
    · next heq => exact absurd heq (digits_ne_zero_cons zero rest _)
    · next heq => exact absurd heq (digits_ne_zero_cons zero rest _)
    · rw [(digits_digits n rest).sign, read]
      show (fitting false (spelt 10 ds)).bind _ = _
      rw [value, fits]
      rfl

/-! ### Values -/

theorem skipGaps_eq_self (space : ∀ more, s ≠ ' ' :: more) (tab : ∀ more, s ≠ '\t' :: more) :
    skipGaps s = s := by
  cases s with
  | nil => rfl
  | cons c cs =>
    have noGap : isGap c = false := by
      rw [Bool.eq_false_iff]
      intro gap
      simp only [isGap, Bool.or_eq_true, decide_eq_true_eq] at gap
      rcases gap with rfl | rfl
      · exact space cs rfl
      · exact tab cs rfl
    rw [skipGaps, List.dropWhile_cons, noGap]
    rfl

theorem skipGaps_written (v : Scalar) (rest : Chars) :
    skipGaps (v.written ++ '\n' :: rest) = v.written ++ '\n' :: rest := by
  cases v with
  | text s => rfl
  | flag b => cases b <;> rfl
  | natural n =>
    have digits := digits_digits n rest
    exact skipGaps_eq_self (digits.ne_cons (by decide) (by decide))
      (digits.ne_cons (by decide) (by decide))

theorem scalar?_written (v : Scalar) (fits : v.Fits) (rest : Chars) :
    scalar? (v.written ++ '\n' :: rest) = some (v.datum, '\n' :: rest) := by
  cases v with
  | text s =>
    have quoted : scalar? (Scalar.written (.text s) ++ '\n' :: rest) =
      (string? (Scalar.written (.text s) ++ '\n' :: rest)).map fun r => (.text r.1, r.2) := rfl
    rw [quoted, string?_written]
    rfl
  | flag b => cases b <;> rfl
  | natural n =>
    have digits := digits_digits n rest
    show scalar? (Decimal.digits n ++ '\n' :: rest) = _
    unfold scalar?
    split
    · next heq => exact absurd heq (digits.ne_cons (by decide) (by decide) _)
    · next heq => exact absurd heq (digits.ne_cons (by decide) (by decide) _)
    · next c cs _ _ heq =>
      have unquoted : ¬(c = '"' ∨ c = '\'') := by
        rintro (rfl | rfl)
        · exact digits.ne_cons (by decide) (by decide) _ heq
        · exact digits.ne_cons (by decide) (by decide) _ heq
      rw [if_neg unquoted, digits.moment?, fraction?_digits, digits.special?, Option.none_or,
        Option.none_or, Option.none_or]
      exact integer?_digits fits rest
    · next heq => simp at heq

/-- **A value is read as it is written**, up to the end of its line. -/
theorem value?_written (depth : Nat) (v : Scalar) (fits : v.Fits) (rest : Chars) :
    value? (depth + 1) (v.written ++ '\n' :: rest) = some (v.datum, '\n' :: rest) := by
  rw [← scalar?_written v fits rest]
  cases v with
  | text s => rfl
  | flag b => cases b <;> rfl
  | natural n =>
    have digits := digits_digits n rest
    show value? (depth + 1) (Decimal.digits n ++ '\n' :: rest) = _
    rw [value?.eq_def]
    simp only
    split
    · next heq => exact absurd heq (digits.ne_cons (by decide) (by decide) _)
    · next heq => exact absurd heq (digits.ne_cons (by decide) (by decide) _)
    · rfl

/-! ### Names -/

variable {name : String}

/-- A bare name starts with no mark. -/
theorem BareName.ne_cons (h : BareName name) {mark : Char} (noBare : isBare mark = false)
    (tail more : Chars) : name.toList ++ tail ≠ mark :: more := by
  intro heq
  cases spelling : name.toList with
  | nil => exact h.nonempty spelling
  | cons c cs =>
    have first := h.bare c (by simp [spelling])
    rw [spelling] at heq
    rw [(List.cons.inj heq).1, noBare] at first
    cases first

theorem BareName.skipGaps (h : BareName name) (tail : Chars) :
    Toml.skipGaps (name.toList ++ tail) = name.toList ++ tail :=
  skipGaps_eq_self (h.ne_cons (by decide) tail) (h.ne_cons (by decide) tail)

/-- **A bare name is read as it is written**, up to what does not belong to it. -/
theorem BareName.keyPart? (h : BareName name) {mark : Char} (noBare : isBare mark = false)
    (rest : Chars) : Toml.keyPart? (name.toList ++ mark :: rest) = some (name, mark :: rest) := by
  unfold Toml.keyPart?
  split
  · next heq => exact absurd heq (h.ne_cons (by decide) _ _)
  · next heq => exact absurd heq (h.ne_cons (by decide) _ _)
  · have front : (name.toList ++ mark :: rest).takeWhile isBare = name.toList := by
      rw [List.takeWhile_append_of_pos h.bare, List.takeWhile_cons, noBare]
      simp
    have back : (name.toList ++ mark :: rest).dropWhile isBare = mark :: rest := by
      rw [List.dropWhile_append_of_pos h.bare, List.dropWhile_cons, noBare]
      simp
    rw [front, back]
    split
    · next empty => exact absurd empty h.nonempty
    · rw [String.ofList_toList]

theorem BareName.key? (h : BareName name) {mark after : Char} (noBare : isBare mark = false)
    {rest rest' : Chars} (gaps : Toml.skipGaps (mark :: rest) = after :: rest')
    (last : after ≠ '.') (limit : Nat) :
    Toml.key? (limit + 1) (name.toList ++ mark :: rest) = some ([name], after :: rest') := by
  rw [Toml.key?, h.skipGaps, h.keyPart? noBare]
  simp only [Option.bind_eq_bind, Option.bind_some, gaps]
  split
  · next heq => exact absurd (List.cons.inj heq).1 last
  · rfl

end FirmwareRollout.Toml
