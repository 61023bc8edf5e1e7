/-!
Identifiers are fixed-width byte strings. They are ordered by their bytes, the first byte weighing
most, which is the order of the numbers that the bytes spell. `Ranked` names that number, and
`Identity.bigEndian_inj` says that it determines the bytes.
-/

namespace FirmwareRollout

/-- A kind of identifier whose order is that of a number that determines the identifier. -/
class Ranked (κ : Type) where
  rank : κ → Nat
  rank_inj : ∀ {a b : κ}, rank a = rank b → a = b

export Ranked (rank rank_inj)

@[simp] theorem rank_eq_iff {κ : Type} [Ranked κ] {a b : κ} : rank a = rank b ↔ a = b :=
  ⟨rank_inj, congrArg rank⟩

namespace Identity

/-- The number that a byte string spells, first byte most significant. -/
def bigEndian (bytes : List UInt8) : Nat := bytes.foldl (fun v b => 256 * v + b.toNat) 0

theorem bigEndian_snoc (bytes : List UInt8) (b : UInt8) :
    bigEndian (bytes ++ [b]) = 256 * bigEndian bytes + b.toNat := by
  simp [bigEndian]

theorem bigEndian_lt (bytes : List UInt8) : bigEndian bytes < Nat.pow 256 bytes.length := by
  have go : ∀ (bytes : List UInt8) (v : Nat),
      bytes.foldl (fun v b => 256 * v + b.toNat) v < (v + 1) * Nat.pow 256 bytes.length := by
    intro bytes
    induction bytes with
    | nil => intro v; simp
    | cons b rest ih =>
      intro v
      have hb := b.toNat_lt
      have h := ih (256 * v + b.toNat)
      rw [List.foldl_cons, List.length_cons]
      show _ < (v + 1) * (Nat.pow 256 rest.length * 256)
      rw [Nat.mul_comm (Nat.pow 256 _) 256, ← Nat.mul_assoc]
      exact Nat.lt_of_lt_of_le h (Nat.mul_le_mul_right _ (by omega))
  simpa [bigEndian] using go bytes 0

/-- Byte strings of one length that spell the same number are the same. -/
theorem bigEndian_inj {n : Nat} : ∀ {xs ys : List UInt8}, xs.length = n → ys.length = n →
    bigEndian xs = bigEndian ys → xs = ys := by
  induction n with
  | zero =>
    intro xs ys hx hy _
    rw [List.length_eq_zero_iff.1 hx, List.length_eq_zero_iff.1 hy]
  | succ n ih =>
    intro xs ys hx hy h
    obtain ⟨xs, x, rfl⟩ : ∃ xs' x, xs = xs' ++ [x] :=
      ⟨xs.dropLast, xs.getLast (by rintro rfl; simp at hx), (List.dropLast_concat_getLast _).symm⟩
    obtain ⟨ys, y, rfl⟩ : ∃ ys' y, ys = ys' ++ [y] :=
      ⟨ys.dropLast, ys.getLast (by rintro rfl; simp at hy), (List.dropLast_concat_getLast _).symm⟩
    rw [List.length_append, List.length_singleton] at hx hy
    rw [bigEndian_snoc, bigEndian_snoc] at h
    have hx' := x.toNat_lt
    have hy' := y.toNat_lt
    have hxy : x = y := UInt8.toNat_inj.1 (by omega)
    rw [@ih xs ys (by omega) (by omega) (by omega), hxy]

/-- The byte string as a vector, if it has that many bytes. -/
def ofBytes? (n : Nat) (bytes : List UInt8) : Option (Vector UInt8 n) :=
  if h : bytes.length = n then some ⟨bytes.toArray, by simpa using h⟩ else none

theorem ofBytes?_toList {n : Nat} (v : Vector UInt8 n) : ofBytes? n v.toList = some v := by
  obtain ⟨a, rfl⟩ := v
  simp [ofBytes?, Vector.toList]

theorem toList_of_ofBytes? {n : Nat} {bytes : List UInt8} {v : Vector UInt8 n}
    (h : ofBytes? n bytes = some v) : v.toList = bytes := by
  unfold ofBytes? at h
  split at h
  · cases h; simp
  · cases h

end Identity

end FirmwareRollout
