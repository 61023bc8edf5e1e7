/-!
Decimal text of natural numbers. A number is written with no leading zero, or padded with zeros
to a width. Main statements: `value_digits` and `value_padded`, reading what was written gives the
number back.
-/

namespace FirmwareRollout.Decimal

/-- The character of a digit below ten. -/
def digitChar (d : Nat) : Char := Char.ofNat (48 + d)

/-- An ASCII digit; the digits of other scripts are none. -/
def isDigit (c : Char) : Bool := 48 ≤ c.toNat && c.toNat ≤ 57

def digitValue (c : Char) : Nat := c.toNat - 48

/-- The digits of a number, without leading zeros; zero is one digit. -/
def digits (n : Nat) : List Char :=
  if n < 10 then [digitChar n] else digits (n / 10) ++ [digitChar (n % 10)]

/-- The last `width` digits of a number, with leading zeros. -/
def padded : Nat → Nat → List Char
  | 0, _ => []
  | width + 1, n => padded width (n / 10) ++ [digitChar (n % 10)]

def value (cs : List Char) : Nat := cs.foldl (fun v c => 10 * v + digitValue c) 0

/-! ### Reading what was written -/

theorem digitValue_digitChar {d : Nat} (h : d < 10) : digitValue (digitChar d) = d := by
  have : ∀ d < 10, digitValue (digitChar d) = d := by decide
  exact this d h

theorem isDigit_digitChar {d : Nat} (h : d < 10) : isDigit (digitChar d) = true := by
  have : ∀ d < 10, isDigit (digitChar d) = true := by decide
  exact this d h

theorem value_snoc (cs : List Char) (c : Char) :
    value (cs ++ [c]) = 10 * value cs + digitValue c := by
  simp [value]

theorem value_digits (n : Nat) : value (digits n) = n := by
  fun_induction digits n with
  | case1 n h => simp [value, digitValue_digitChar h]
  | case2 n h ih =>
    rw [value_snoc, ih, digitValue_digitChar (Nat.mod_lt _ (by omega))]
    omega

theorem isDigit_of_mem_digits {n : Nat} {c : Char} (h : c ∈ digits n) : isDigit c = true := by
  fun_induction digits n with
  | case1 n hn =>
    rw [List.mem_singleton.1 h]
    exact isDigit_digitChar hn
  | case2 n hn ih =>
    rcases List.mem_append.1 h with h | h
    · exact ih h
    · rw [List.mem_singleton.1 h]
      exact isDigit_digitChar (Nat.mod_lt _ (by omega))

/-! ### Leading zeros -/

theorem digits_ne_nil (n : Nat) : digits n ≠ [] := by
  rw [digits]
  split <;> simp

theorem digits_zero : digits 0 = ['0'] := by
  rw [digits, if_pos (by decide)]
  rfl

theorem digitChar_eq_zero : ∀ d < 10, digitChar d = '0' → d = 0 := by
  decide

/-- Only zero starts with the digit zero. -/
theorem digits_of_zero {n : Nat} {ds : List Char} (h : digits n = '0' :: ds) : n = 0 := by
  fun_induction digits n generalizing ds with
  | case1 n hn => exact digitChar_eq_zero n hn (List.cons.inj h).1
  | case2 n hn ih =>
    cases hd : digits (n / 10) with
    | nil => exact absurd hd (digits_ne_nil _)
    | cons c cs =>
      rw [hd, List.cons_append] at h
      have := ih (hd.trans (by rw [(List.cons.inj h).1]))
      omega

/-! ### Padded numbers -/

theorem padded_length (width n : Nat) : (padded width n).length = width := by
  induction width generalizing n with
  | zero => rfl
  | succ w ih => simp [padded, ih]

theorem value_padded (width n : Nat) : value (padded width n) = n % Nat.pow 10 width := by
  induction width generalizing n with
  | zero => simp [padded, value, Nat.mod_one]
  | succ w ih =>
    rw [padded, value_snoc, ih, digitValue_digitChar (Nat.mod_lt _ (by omega))]
    show _ = n % (Nat.pow 10 w * 10)
    rw [Nat.mul_comm (Nat.pow 10 w) 10, Nat.mod_mul]
    omega

theorem isDigit_of_mem_padded {width n : Nat} {c : Char} (h : c ∈ padded width n) :
    isDigit c = true := by
  induction width generalizing n with
  | zero => simp [padded] at h
  | succ w ih =>
    rcases List.mem_append.1 h with h | h
    · exact ih h
    · rw [List.mem_singleton.1 h]
      exact isDigit_digitChar (Nat.mod_lt _ (by omega))

end FirmwareRollout.Decimal
