import FirmwareRollout.Text.Unicode

/-!
The bytes of a text. Of two characters the one with the smaller number has the smaller bytes, and
these differ before either of them ends; so texts are in the order of their bytes exactly if they
are in the order of their characters. Bytes below 128 are characters by themselves, and no part of
others.

Main statements: `encode_lt_iff`, `encode_of_ascii`, `ascii_of_encode`.
-/

namespace FirmwareRollout.Utf8

variable {c d : Char} {cs ds : List Char}

theorem encode_cons (c : Char) (cs : List Char) :
    encode (c :: cs) = String.utf8EncodeChar c ++ encode cs := List.flatMap_cons

/-! ### Order -/

/-- The bytes of a smaller character are smaller, whatever follows them. -/
theorem utf8EncodeChar_append_lt (h : c < d) (xs ys : List UInt8) :
    String.utf8EncodeChar c ++ xs < String.utf8EncodeChar d ++ ys := by
  have less : c.val.toNat < d.val.toNat := h
  have bound : d.val.toNat < 0x110000 := by
    rcases d.valid with hd | ⟨-, hd⟩
    · exact Nat.lt_trans hd (by decide)
    · exact hd
  -- The bytes after the first are digits of base 64, so every quotient is written as one by 64.
  have quotients (n : Nat) : n / 4096 = n / 64 / 64 ∧ n / 262144 = n / 64 / 64 / 64 := by omega
  unfold String.utf8EncodeChar
  generalize c.val.toNat = m at less
  generalize d.val.toNat = n at less bound
  dsimp only
  rw [(quotients m).1, (quotients m).2, (quotients n).1, (quotients n).2]
  repeat' split
  all_goals
    simp only [List.cons_append, List.nil_append, List.cons_lt_cons_iff, UInt8.lt_iff_toNat_lt,
      ← UInt8.toNat_inj, UInt8.toNat_ofNat']
    omega

theorem encode_lt (h : cs < ds) : encode cs < encode ds := by
  replace h : List.Lex (· < ·) cs ds := List.lex_lt.2 h
  induction h with
  | @nil d ds =>
    obtain ⟨b, bs, bytes⟩ := List.exists_cons_of_ne_nil (String.utf8EncodeChar_ne_nil (c := d))
    rw [encode_cons, bytes]
    exact List.nil_lt_cons ..
  | cons _ ih =>
    rw [encode_cons, encode_cons]
    exact List.append_left_lt ih
  | rel less =>
    rw [encode_cons, encode_cons]
    exact utf8EncodeChar_append_lt less ..

/-- **Texts are in the order of their bytes** exactly if they are in that of their characters. -/
theorem encode_lt_iff : encode cs < encode ds ↔ cs < ds := by
  refine ⟨fun h => ?_, encode_lt⟩
  rcases Std.lt_trichotomy cs ds with less | same | greater
  · exact less
  · exact absurd (same ▸ h) (List.lt_irrefl _)
  · exact absurd h (List.lt_asymm (encode_lt greater))

/-! ### Characters of one byte -/

theorem utf8EncodeChar_of_ascii (h : c.toNat < 128) :
    String.utf8EncodeChar c = [UInt8.ofNat c.toNat] := by
  unfold String.utf8EncodeChar
  exact if_pos (Nat.le_of_lt_succ h)

/-- Other characters have no byte below 128. -/
theorem le_of_mem_utf8EncodeChar (h : 128 ≤ c.toNat) {b : UInt8}
    (mem : b ∈ String.utf8EncodeChar c) : 128 ≤ b.toNat := by
  unfold String.utf8EncodeChar at mem
  have large : ¬ c.val.toNat ≤ 127 := Nat.not_le_of_lt h
  dsimp only at mem
  rw [if_neg large] at mem
  repeat' split at mem
  all_goals
    simp only [List.mem_cons, List.not_mem_nil, or_false, ← UInt8.toNat_inj,
      UInt8.toNat_ofNat'] at mem
    omega

theorem encode_of_ascii (h : ∀ c ∈ cs, c.toNat < 128) :
    encode cs = cs.map fun c => UInt8.ofNat c.toNat := by
  induction cs with
  | nil => rfl
  | cons c cs ih =>
    obtain ⟨first, others⟩ := List.forall_mem_cons.1 h
    rw [encode_cons, utf8EncodeChar_of_ascii first, ih others]
    rfl

/-- Text whose bytes are below 128 has no other characters. -/
theorem ascii_of_encode (h : ∀ b ∈ encode cs, b.toNat < 128) : ∀ c ∈ cs, c.toNat < 128 := by
  intro c hc
  obtain ⟨b, bs, bytes⟩ := List.exists_cons_of_ne_nil (String.utf8EncodeChar_ne_nil (c := c))
  have own : b ∈ String.utf8EncodeChar c := bytes ▸ List.mem_cons_self
  have small : b.toNat < 128 := h b (List.mem_flatMap.2 ⟨c, hc, own⟩)
  exact Nat.lt_of_not_le fun large => Nat.not_le_of_lt small (le_of_mem_utf8EncodeChar large own)

end FirmwareRollout.Utf8
