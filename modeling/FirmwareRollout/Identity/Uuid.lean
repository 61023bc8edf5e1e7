import FirmwareRollout.Identity.Rank
import FirmwareRollout.Text.Hex

/-!
Universally unique identifiers. The text of one is hyphenated: groups of four, two, two, two and six
bytes in lower-case hexadecimal digits. Read are the hyphenated form, bare or in braces or after
`urn:uuid:`, and thirty-two digits without hyphens. Main statement: `parse?_toString`.
-/

namespace FirmwareRollout

/-- A universally unique identifier. -/
structure Uuid where
  bytes : Vector UInt8 16
deriving DecidableEq

abbrev DeploymentId := Uuid

abbrev GroupId := Uuid

namespace Uuid

instance : Ranked Uuid where
  rank u := Identity.bigEndian u.bytes.toList
  rank_inj {a b} h := by
    have := Identity.bigEndian_inj (Vector.length_toList) (Vector.length_toList) h
    cases a; cases b
    simpa [Vector.toList_inj] using this

/-- Cuts thirty-two digits into the five groups. -/
def hyphenate (digits : List Char) : List Char :=
  digits.take 8 ++ '-' :: (digits.drop 8).take 4 ++ '-' :: (digits.drop 12).take 4 ++
    '-' :: (digits.drop 16).take 4 ++ '-' :: digits.drop 20

/-- The hyphenated text of an identifier. -/
protected def toString (u : Uuid) : String :=
  String.ofList (hyphenate (Hex.encode u.bytes.toList))

instance : ToString Uuid := ⟨Uuid.toString⟩

def ofDigits? (digits : List Char) : Option Uuid :=
  match Hex.decode digits with
  | .error _ => none
  | .ok bytes => (Identity.ofBytes? 16 bytes).map Uuid.mk

/-- Reads the hyphenated form: thirty-six characters with hyphens at four places. -/
def ofHyphenated? (text : List Char) : Option Uuid :=
  let digits := text.take 8 ++ (text.drop 9).take 4 ++ (text.drop 14).take 4 ++
    (text.drop 19).take 4 ++ text.drop 24
  if hyphenate digits = text then ofDigits? digits else none

/-- Reads an identifier in any of its forms. The scheme of a URN may be in either case. -/
def parse? (text : String) : Option Uuid :=
  let cs := text.toList
  if cs.length = 32 then ofDigits? cs
  else if cs.length = 36 then ofHyphenated? cs
  else if cs.length = 38 ∧ cs.head? = some '{' ∧ cs.getLast? = some '}' then
    ofHyphenated? (cs.drop 1).dropLast
  else if cs.length = 45 ∧ (cs.take 9).map Char.toLower = "urn:uuid:".toList then
    ofHyphenated? (cs.drop 9)
  else none

/-- The version field: the high half of the seventh byte. -/
def version (u : Uuid) : Nat := u.bytes[6].toNat / 16

/-- A version 4 identifier from random bytes: the version and the variant bits are set, the other
122 bits are kept. -/
def ofRandom (bytes : Vector UInt8 16) : Uuid :=
  ⟨(bytes.set 6 (UInt8.ofNat (bytes[6].toNat % 16 + 0x40))).set 8
    (UInt8.ofNat (bytes[8].toNat % 64 + 0x80))⟩

/-! ### Reading back -/

theorem encode_length (bytes : List UInt8) : (Hex.encode bytes).length = 2 * bytes.length := by
  induction bytes with
  | nil => rfl
  | cons b rest ih =>
    simp only [Hex.encode, List.flatMap_cons, List.length_append, List.length_cons] at ih ⊢
    rw [ih]
    simp [Hex.ofByte]
    omega

theorem ofDigits?_encode (u : Uuid) : ofDigits? (Hex.encode u.bytes.toList) = some u := by
  simp [ofDigits?, Hex.decode_encode, Identity.ofBytes?_toList]

theorem hyphenate_length {digits : List Char} (h : digits.length = 32) :
    (hyphenate digits).length = 36 := by
  simp [hyphenate, h]

/-- Taking the hyphens out again gives the digits. -/
theorem ofHyphenated?_hyphenate {digits : List Char} (h : digits.length = 32) :
    ofHyphenated? (hyphenate digits) = ofDigits? digits := by
  have cut : (hyphenate digits).take 8 ++ ((hyphenate digits).drop 9).take 4 ++
      ((hyphenate digits).drop 14).take 4 ++ ((hyphenate digits).drop 19).take 4 ++
      (hyphenate digits).drop 24 = digits := by
    match digits, h with
    | [a0, a1, a2, a3, a4, a5, a6, a7, b0, b1, b2, b3, c0, c1, c2, c3, d0, d1, d2, d3,
        e0, e1, e2, e3, e4, e5, e6, e7, e8, e9, e10, e11], _ => rfl
  rw [ofHyphenated?]
  simp only [cut, if_true]

/-- **Reading back.** The text of an identifier names that identifier. -/
theorem parse?_toString (u : Uuid) : parse? u.toString = some u := by
  have hd : (Hex.encode u.bytes.toList).length = 32 := by rw [encode_length]; simp
  have hl := hyphenate_length hd
  simp only [parse?, Uuid.toString, String.toList_ofList]
  rw [if_neg (by omega), if_pos hl, ofHyphenated?_hyphenate hd, ofDigits?_encode]

end Uuid

end FirmwareRollout
