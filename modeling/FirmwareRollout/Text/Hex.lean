import FirmwareRollout.Text.Unicode
import FirmwareRollout.Text.Decimal

/-!
Hexadecimal text of bytes: two digits a byte, lower case when written, either case when read. The
reader works on the UTF-8 bytes of a text and names the first fault: an odd number of bytes before
anything else, then the first byte that is no digit. Main statement: `decode_encode`.
-/

namespace FirmwareRollout.Hex

/-- The lower-case digit of a number below sixteen. -/
def digit (n : Nat) : Char := Char.ofNat (if n < 10 then 48 + n else 87 + n)

def ofByte (b : UInt8) : List Char := [digit (b.toNat / 16), digit (b.toNat % 16)]

def encode (bytes : List UInt8) : List Char := bytes.flatMap ofByte

/-- The value of a byte that is an ASCII hexadecimal digit. -/
def value? (b : UInt8) : Option Nat :=
  let n := b.toNat
  if 48 ≤ n ∧ n ≤ 57 then some (n - 48)
  else if 97 ≤ n ∧ n ≤ 102 then some (n - 87)
  else if 65 ≤ n ∧ n ≤ 70 then some (n - 55)
  else none

/-- Why a text spells no bytes. -/
inductive Fault where
  /-- The text has an odd number of UTF-8 bytes. -/
  | oddLength
  /-- The byte at `position` is no digit. -/
  | badByte (byte : UInt8) (position : Nat)
deriving DecidableEq, Repr

/-- Reads digits in pairs; `position` is the index of the first. -/
def decodePairs (position : Nat) : List UInt8 → Except Fault (List UInt8)
  | [] => .ok []
  | [_] => .error .oddLength
  | a :: b :: rest =>
    match value? a, value? b with
    | none, _ => .error (.badByte a position)
    | some _, none => .error (.badByte b (position + 1))
    | some x, some y =>
      (decodePairs (position + 2) rest).map (UInt8.ofNat (16 * x + y) :: ·)

def decode (text : List Char) : Except Fault (List UInt8) :=
  let bytes := Utf8.encode text
  if bytes.length % 2 = 1 then .error .oddLength else decodePairs 0 bytes

/-! ### Messages -/

/-- A byte as the character of that code between single quotes. What does not show on paper is
written as an escape. -/
def quoted (b : UInt8) : String :=
  let n := b.toNat
  let inner :=
    if n = 0 then "\\0"
    else if n = 9 then "\\t"
    else if n = 10 then "\\n"
    else if n = 13 then "\\r"
    else if n = 39 then "\\'"
    else if n = 92 then "\\\\"
    else if n < 32 ∨ (127 ≤ n ∧ n ≤ 160) ∨ n = 173 then
      "\\u\x7b" ++ String.ofList (if n < 16 then [digit n] else ofByte b) ++ "\x7d"
    else String.singleton (Char.ofNat n)
  "'" ++ inner ++ "'"

def Fault.message : Fault → String
  | .oddLength => "Odd number of digits"
  | .badByte b i =>
    "Invalid character " ++ quoted b ++ " at position " ++ String.ofList (Decimal.digits i)

/-! ### Reading what was written -/

theorem utf8Encode_digit {n : Nat} (h : n < 16) :
    String.utf8EncodeChar (digit n) = [UInt8.ofNat (digit n).toNat] := by
  have : ∀ n < 16, String.utf8EncodeChar (digit n) = [UInt8.ofNat (digit n).toNat] := by decide
  exact this n h

theorem value_digit {n : Nat} (h : n < 16) :
    value? (UInt8.ofNat (digit n).toNat) = some n := by
  have : ∀ n < 16, value? (UInt8.ofNat (digit n).toNat) = some n := by decide
  exact this n h

theorem utf8_encode (bytes : List UInt8) : Utf8.encode (encode bytes) =
    bytes.flatMap fun b => [UInt8.ofNat (digit (b.toNat / 16)).toNat,
      UInt8.ofNat (digit (b.toNat % 16)).toNat] := by
  have hb (b : UInt8) : Utf8.encode (ofByte b) = [UInt8.ofNat (digit (b.toNat / 16)).toNat,
      UInt8.ofNat (digit (b.toNat % 16)).toNat] := by
    have h := b.toNat_lt
    simp [Utf8.encode, ofByte, utf8Encode_digit (show b.toNat / 16 < 16 by omega),
      utf8Encode_digit (show b.toNat % 16 < 16 by omega)]
  rw [Utf8.encode, encode, List.flatMap_assoc]
  exact congrArg bytes.flatMap (funext hb)

theorem decodePairs_digits (bytes : List UInt8) (position : Nat) :
    decodePairs position (bytes.flatMap fun b => [UInt8.ofNat (digit (b.toNat / 16)).toNat,
      UInt8.ofNat (digit (b.toNat % 16)).toNat]) = .ok bytes := by
  induction bytes generalizing position with
  | nil => rfl
  | cons b rest ih =>
    have h := b.toNat_lt
    simp only [List.flatMap_cons, List.cons_append, List.nil_append, decodePairs,
      value_digit (show b.toNat / 16 < 16 by omega), value_digit (show b.toNat % 16 < 16 by omega),
      ih, Except.map]
    rw [show 16 * (b.toNat / 16) + b.toNat % 16 = b.toNat by omega, UInt8.ofNat_toNat]

/-- **Reading back.** The digits of a byte sequence spell that byte sequence. -/
theorem decode_encode (bytes : List UInt8) : decode (encode bytes) = .ok bytes := by
  have hlen : (Utf8.encode (encode bytes)).length % 2 = 0 := by
    rw [utf8_encode]
    induction bytes with
    | nil => rfl
    | cons b rest ih => simp only [List.flatMap_cons, List.length_append, List.length_cons,
        List.length_nil]; omega
  rw [decode]
  simp only [hlen]
  rw [if_neg (by decide), utf8_encode, decodePairs_digits]

end FirmwareRollout.Hex
