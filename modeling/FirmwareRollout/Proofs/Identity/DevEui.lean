import FirmwareRollout.Identity.DevEui
import FirmwareRollout.Proofs.Text.Utf8

/-!
The text of a device's EUI, read from any text. The reader goes by bytes, and what it says of them
is put in terms of characters here: the texts that it takes are those of sixteen digits, and of the
others it makes the first of three complaints that fits.

Main statement: `parse_is_exact`.
-/

namespace FirmwareRollout

namespace Hex

/-- The hexadecimal digits of either case. -/
def digits : List Char := "0123456789abcdefABCDEF".toList

/-- The value of a hexadecimal digit of either case: its place among the lower-case ones. -/
def digitValue (c : Char) : Nat := "0123456789abcdef".toList.idxOf c.toLower

/-- A byte that is a digit by itself. -/
def IsDigit (b : UInt8) : Prop := Char.ofNat b.toNat ∈ digits

/-- The bytes that digits spell, two digits each. -/
def spelt : List Char → List UInt8
  | [] => []
  | [_] => []
  | a :: b :: rest => UInt8.ofNat (16 * digitValue a + digitValue b) :: spelt rest

variable {b : UInt8} {cs : List Char} {front rest : List UInt8}

/-! ### Digits as characters and as bytes -/

theorem digit_facts {c : Char} (h : c ∈ digits) : c.toNat < 128 ∧ digitValue c < 16 ∧
    value? (UInt8.ofNat c.toNat) = some (digitValue c) ∧ digit (digitValue c) = c.toLower := by
  have all : digits.all (fun c => c.toNat < 128 ∧ digitValue c < 16 ∧
      value? (UInt8.ofNat c.toNat) = some (digitValue c) ∧
      digit (digitValue c) = c.toLower) := by decide
  exact of_decide_eq_true (List.all_eq_true.1 all c h)

theorem byte_facts (b : UInt8) :
    ((value? b).isSome ↔ IsDigit b) ∧ (IsDigit b → b.toNat < 128) := by
  have all : ∀ n < 256, ((value? (UInt8.ofNat n)).isSome ↔
      Char.ofNat (UInt8.ofNat n).toNat ∈ digits) ∧
      (Char.ofNat (UInt8.ofNat n).toNat ∈ digits → (UInt8.ofNat n).toNat < 128) := by
    decide +kernel
  have h := all b.toNat b.toNat_lt
  rwa [UInt8.ofNat_toNat] at h

/-- **Digits as bytes**: the bytes of a text are digits exactly if its characters are. -/
theorem forall_isDigit_encode_iff : (∀ b ∈ Utf8.encode cs, IsDigit b) ↔ ∀ c ∈ cs, c ∈ digits := by
  have own {c : Char} (small : c.toNat < 128) : Char.ofNat (UInt8.ofNat c.toNat).toNat = c := by
    rw [UInt8.toNat_ofNat_of_lt' (by exact Nat.lt_trans small (by decide)), Char.ofNat_toNat]
  constructor
  · intro h c hc
    have ascii := Utf8.ascii_of_encode fun b hb => (byte_facts b).2 (h b hb)
    rw [Utf8.encode_of_ascii ascii] at h
    have digit := h _ (List.mem_map_of_mem hc)
    rwa [IsDigit, own (ascii c hc)] at digit
  · intro h b hb
    have ascii : ∀ c ∈ cs, c.toNat < 128 := fun c hc => (digit_facts (h c hc)).1
    rw [Utf8.encode_of_ascii ascii] at hb
    obtain ⟨c, hc, rfl⟩ := List.mem_map.1 hb
    rw [IsDigit, own (ascii c hc)]
    exact h c hc

theorem length_encode_of_digits (h : ∀ c ∈ cs, c ∈ digits) :
    (Utf8.encode cs).length = cs.length := by
  rw [Utf8.encode_of_ascii fun c hc => (digit_facts (h c hc)).1, List.length_map]

/-! ### Reading in pairs -/

theorem value_of_isDigit (h : IsDigit b) : ∃ v, value? b = some v :=
  Option.isSome_iff_exists.1 ((byte_facts b).1.2 h)

theorem value_of_not_isDigit (h : ¬ IsDigit b) : value? b = none := by
  rw [← (byte_facts b).1] at h
  exact Option.not_isSome_iff_eq_none.1 h

/-- Digits are read, two for a byte. -/
theorem decodePairs_of_digits (h : ∀ c ∈ cs, c ∈ digits) (even : cs.length % 2 = 0)
    (position : Nat) :
    decodePairs position (cs.map fun c => UInt8.ofNat c.toNat) = .ok (spelt cs) := by
  fun_induction spelt cs generalizing position with
  | case1 => rfl
  | case2 a => cases even
  | case3 a b rest ih =>
    obtain ⟨ha, hb, others⟩ : a ∈ digits ∧ b ∈ digits ∧ ∀ c ∈ rest, c ∈ digits := by simpa using h
    simp only [List.map_cons, decodePairs, (digit_facts ha).2.2.1, (digit_facts hb).2.2.1]
    rw [ih others (by rw [List.length_cons, List.length_cons] at even; omega)]
    rfl

/-- The first byte that is no digit is the one that is named. -/
theorem decodePairs_of_bad (bad : ¬ IsDigit b) : ∀ (front : List UInt8) (position : Nat),
    (∀ x ∈ front, IsDigit x) → (front ++ b :: rest).length % 2 = 0 →
      decodePairs position (front ++ b :: rest) = .error (.badByte b (position + front.length))
  | [], position, _, even => by
    cases rest with
    | nil => cases even
    | cons c rest => simp [decodePairs, value_of_not_isDigit bad]
  | [x], position, digits, _ => by
    obtain ⟨v, hv⟩ := value_of_isDigit (digits x (by simp))
    simp [decodePairs, hv, value_of_not_isDigit bad]
  | x :: y :: front, position, digits, even => by
    obtain ⟨v, hv⟩ := value_of_isDigit (digits x (by simp))
    obtain ⟨w, hw⟩ := value_of_isDigit (digits y (by simp))
    have shorter : (front ++ b :: rest).length % 2 = 0 := by
      rw [List.cons_append, List.cons_append, List.length_cons, List.length_cons] at even
      omega
    have later := decodePairs_of_bad bad front (position + 2)
      (fun z hz => digits z (List.mem_cons_of_mem _ (List.mem_cons_of_mem _ hz))) shorter
    simp only [List.cons_append, decodePairs, hv, hw, later, Except.map, List.length_cons]
    rw [Nat.add_assoc, Nat.add_comm 2]

/-- A byte sequence is all digits, or one of its bytes is the first that is none. -/
theorem digits_or_bad (bytes : List UInt8) : (∀ b ∈ bytes, IsDigit b) ∨
    ∃ front b rest, bytes = front ++ b :: rest ∧ (∀ x ∈ front, IsDigit x) ∧ ¬ IsDigit b := by
  induction bytes with
  | nil => exact .inl nofun
  | cons x bytes ih =>
    by_cases hx : IsDigit x
    · rcases ih with all | ⟨front, b, rest, rfl, before, bad⟩
      · exact .inl (List.forall_mem_cons.2 ⟨hx, all⟩)
      · exact .inr ⟨x :: front, b, rest, rfl, List.forall_mem_cons.2 ⟨hx, before⟩, bad⟩
    · exact .inr ⟨[], x, bytes, rfl, nofun, hx⟩

/-! ### Digits in lower case -/

theorem length_spelt (cs : List Char) : (spelt cs).length = cs.length / 2 := by
  fun_induction spelt cs with
  | case1 => rfl
  | case2 a => simp
  | case3 a b rest ih =>
    rw [List.length_cons, ih, List.length_cons, List.length_cons]
    omega

/-- Bytes are written as the digits that spell them, in lower case. -/
theorem encode_spelt (h : ∀ c ∈ cs, c ∈ digits) (even : cs.length % 2 = 0) :
    encode (spelt cs) = cs.map Char.toLower := by
  fun_induction spelt cs with
  | case1 => rfl
  | case2 a => cases even
  | case3 a b rest ih =>
    obtain ⟨ha, hb, others⟩ : a ∈ digits ∧ b ∈ digits ∧ ∀ c ∈ rest, c ∈ digits := by simpa using h
    obtain ⟨-, va, -, la⟩ := digit_facts ha
    obtain ⟨-, vb, -, lb⟩ := digit_facts hb
    have pair : ofByte (UInt8.ofNat (16 * digitValue a + digitValue b)) = [a.toLower, b.toLower] := by
      have small : 16 * digitValue a + digitValue b < 256 := by omega
      rw [ofByte, UInt8.toNat_ofNat_of_lt' small,
        show (16 * digitValue a + digitValue b) / 16 = digitValue a by omega,
        show (16 * digitValue a + digitValue b) % 16 = digitValue b by omega, la, lb]
    show ofByte _ ++ encode (spelt rest) = _
    rw [pair, ih others (by rw [List.length_cons, List.length_cons] at even; omega)]
    rfl

theorem getElem?_spelt (cs : List Char) : ∀ (i : Nat) (a b : Char), cs[2 * i]? = some a →
    cs[2 * i + 1]? = some b →
      (spelt cs)[i]? = some (UInt8.ofNat (16 * digitValue a + digitValue b)) := by
  fun_induction spelt cs with
  | case1 => exact fun i a b ha _ => nomatch ha
  | case2 x =>
    intro i a b _ hb
    simp at hb
  | case3 x y rest ih =>
    intro i a b ha hb
    cases i with
    | zero =>
      cases ha
      cases hb
      rfl
    | succ i => exact ih i a b ha hb

end Hex

/-- The decimal digits of a number are those of its usual text. -/
theorem Decimal.ofList_digits (n : Nat) : String.ofList (Decimal.digits n) = toString n := by
  rw [Nat.toString_eq_ofList_toDigits]
  congr 1
  have same : ∀ d < 10, Decimal.digitChar d = d.digitChar := by decide
  fun_induction Decimal.digits n with
  | case1 n small =>
    rw [Nat.toDigits_of_lt_base small, same n small]
  | case2 n large ih =>
    rw [Nat.toDigits_of_base_le (by decide) (Nat.le_of_not_lt large), ih,
      same _ (Nat.mod_lt _ (by decide))]

namespace DevEui

variable {s : String}

/-! ### The three complaints -/

theorem parse_of_odd (h : (Utf8.encode s.toList).length % 2 = 1) :
    parse s = .error (.digits .oddLength) := by
  rw [parse, Hex.decode, if_pos h]

theorem parse_of_bad {front rest : List UInt8} {b : UInt8}
    (even : (Utf8.encode s.toList).length % 2 = 0)
    (bytes : Utf8.encode s.toList = front ++ b :: rest) (before : ∀ x ∈ front, Hex.IsDigit x)
    (bad : ¬ Hex.IsDigit b) : parse s = .error (.digits (.badByte b front.length)) := by
  rw [parse, Hex.decode, if_neg (by omega), bytes,
    Hex.decodePairs_of_bad bad front 0 before (bytes ▸ even), Nat.zero_add]

theorem decode_of_digits (h : ∀ c ∈ s.toList, c ∈ Hex.digits) (even : s.toList.length % 2 = 0) :
    Hex.decode s.toList = .ok (Hex.spelt s.toList) := by
  have bytes : Utf8.encode s.toList = s.toList.map fun c => UInt8.ofNat c.toNat :=
    Utf8.encode_of_ascii fun c hc => (Hex.digit_facts (h c hc)).1
  rw [Hex.decode, bytes, List.length_map, if_neg (by omega), Hex.decodePairs_of_digits h even]

theorem parse_of_width (h : ∀ c ∈ s.toList, c ∈ Hex.digits) (even : s.toList.length % 2 = 0)
    (width : s.toList.length ≠ 16) : parse s = .error .width := by
  have none : ofBytes? (Hex.spelt s.toList) = none := by
    rw [ofBytes?, Identity.ofBytes?, dif_neg (by rw [Hex.length_spelt]; omega), Option.map_none]
  simp only [parse, decode_of_digits h even, none]

theorem parse_of_sixteen (h : ∀ c ∈ s.toList, c ∈ Hex.digits) (width : s.toList.length = 16) :
    ∃ e, parse s = .ok e ∧ e.bytes.toList = Hex.spelt s.toList := by
  have eight : (Hex.spelt s.toList).length = 8 := by rw [Hex.length_spelt, width]
  obtain ⟨v, hv⟩ : ∃ v, Identity.ofBytes? 8 (Hex.spelt s.toList) = some v := ⟨_, dif_pos eight⟩
  have some : ofBytes? (Hex.spelt s.toList) = some ⟨v⟩ := by
    rw [ofBytes?, hv, Option.map_some]
  refine ⟨⟨v⟩, ?_, Identity.toList_of_ofBytes? hv⟩
  simp only [parse, decode_of_digits h (by rw [width]), some]

/-- What there is to read in a text, and what comes of it. -/
inductive Reads (s : String) : Except Fault DevEui → Prop where
  | odd (odd : (Utf8.encode s.toList).length % 2 = 1) : Reads s (.error (.digits .oddLength))
  | bad {front rest : List UInt8} {b : UInt8} (even : (Utf8.encode s.toList).length % 2 = 0)
    (bytes : Utf8.encode s.toList = front ++ b :: rest) (before : ∀ x ∈ front, Hex.IsDigit x)
    (bad : ¬ Hex.IsDigit b) : Reads s (.error (.digits (.badByte b front.length)))
  | width (digits : ∀ c ∈ s.toList, c ∈ Hex.digits) (even : s.toList.length % 2 = 0)
    (width : s.toList.length ≠ 16) : Reads s (.error .width)
  | eui {e : DevEui} (digits : ∀ c ∈ s.toList, c ∈ Hex.digits) (width : s.toList.length = 16)
    (bytes : e.bytes.toList = Hex.spelt s.toList) : Reads s (.ok e)

theorem reads_parse (s : String) : Reads s (parse s) := by
  rcases Nat.mod_two_eq_zero_or_one (Utf8.encode s.toList).length with even | odd
  · rcases Hex.digits_or_bad (Utf8.encode s.toList) with all | ⟨front, b, rest, bytes, before, bad⟩
    · have digits := Hex.forall_isDigit_encode_iff.1 all
      rw [Hex.length_encode_of_digits digits] at even
      by_cases width : s.toList.length = 16
      · obtain ⟨e, he, bytes⟩ := parse_of_sixteen digits width
        exact he ▸ .eui digits width bytes
      · exact parse_of_width digits even width ▸ .width digits even width
    · exact parse_of_bad even bytes before bad ▸ .bad even bytes before bad
  · exact parse_of_odd odd ▸ .odd odd

/-- **Texts of EUIs.** A text names a device exactly if it is sixteen hexadecimal digits; then the
device's text is the same in lower case, and each of its bytes has the value of two digits. The text
of every EUI names it. For every other text the message names the text and says what is wrong with
its bytes: that their number is odd, else which of them is the first that is no digit, and where,
and else that they are not sixteen. -/
theorem parse_is_exact (s : String) :
    ((∃ e, parse s = .ok e) ↔ s.toList.length = 16 ∧ ∀ c ∈ s.toList, c ∈ Hex.digits) ∧
    (∀ e, parse s = .ok e → e.toString.toList = s.toList.map Char.toLower ∧
      ∀ i a b, s.toList[2 * i]? = some a → s.toList[2 * i + 1]? = some b →
        e.bytes.toList[i]? = some (UInt8.ofNat (16 * Hex.digitValue a + Hex.digitValue b))) ∧
    (∀ e : DevEui, parse e.toString = .ok e) ∧
    (parse s = .error (.digits .oddLength) ↔ (Utf8.encode s.toList).length % 2 = 1) ∧
    (∀ b i, parse s = .error (.digits (.badByte b i)) ↔
      (Utf8.encode s.toList).length % 2 = 0 ∧ ∃ front rest,
        Utf8.encode s.toList = front ++ b :: rest ∧ front.length = i ∧
          (∀ x ∈ front, Hex.IsDigit x) ∧ ¬ Hex.IsDigit b) ∧
    (parse s = .error .width ↔ (Utf8.encode s.toList).length % 2 = 0 ∧
      (Utf8.encode s.toList).length ≠ 16 ∧ ∀ b ∈ Utf8.encode s.toList, Hex.IsDigit b) ∧
    Fault.message s (.digits .oddLength) =
      "invalid DevEUI '" ++ s ++ "': " ++ "Odd number of digits" ∧
    (∀ b i, Fault.message s (.digits (.badByte b i)) = "invalid DevEUI '" ++ s ++ "': " ++
      ("Invalid character " ++ Hex.quoted b ++ " at position " ++ toString i)) ∧
    Fault.message s .width = "invalid DevEUI '" ++ s ++ "': " ++ "expected 8 bytes" := by
  have reads {r : Except Fault DevEui} (h : parse s = r) : Reads s r := h ▸ reads_parse s
  refine ⟨⟨?_, ?_⟩, fun e he => ?_, parse_toString,
    ⟨fun h => ?_, parse_of_odd⟩, fun b i => ⟨fun h => ?_, ?_⟩, ⟨fun h => ?_, ?_⟩, rfl,
    fun b i => ?_, rfl⟩
  · rintro ⟨e, he⟩
    cases reads he with
    | eui digits width bytes => exact ⟨width, digits⟩
  · rintro ⟨width, digits⟩
    obtain ⟨e, he, -⟩ := parse_of_sixteen digits width
    exact ⟨e, he⟩
  · cases reads he with
    | eui digits width bytes =>
      rw [DevEui.toString, bytes, String.toList_ofList, Hex.encode_spelt digits (by rw [width])]
      exact ⟨rfl, Hex.getElem?_spelt s.toList⟩
  · cases reads h with
    | odd odd => exact odd
  · cases reads h with
    | bad even bytes before bad => exact ⟨even, _, _, bytes, rfl, before, bad⟩
  · rintro ⟨even, front, rest, bytes, rfl, before, bad⟩
    exact parse_of_bad even bytes before bad
  · cases reads h with
    | width digits even width =>
      rw [Hex.length_encode_of_digits digits]
      exact ⟨even, width, Hex.forall_isDigit_encode_iff.2 digits⟩
  · rintro ⟨even, width, all⟩
    have digits := Hex.forall_isDigit_encode_iff.1 all
    rw [Hex.length_encode_of_digits digits] at even width
    exact parse_of_width digits even width
  · rw [← Decimal.ofList_digits]
    rfl

/-- Five characters, but six bytes: the fifth of them is no digit. -/
example : parse "0000é" = .error (.digits (.badByte 0xC3 4)) := rfl

end DevEui

end FirmwareRollout
