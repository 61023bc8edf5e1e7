/-!
Unicode text: its white space, and its bytes in UTF-8. Encoding is total. Decoding keeps one mark,
`none`, for each ill-formed sequence, so that a reader may refuse it or put a replacement in its
place. An ill-formed sequence ends before the first byte that cannot continue it, and so never
swallows an ASCII character.
-/

/-! ### White space -/

namespace FirmwareRollout.Text

/-- The characters of the Unicode property `White_Space`. -/
def isBlank (c : Char) : Bool :=
  let n := c.toNat
  (9 ≤ n && n ≤ 13) || n = 0x20 || n = 0x85 || n = 0xA0 || n = 0x1680 ||
    (0x2000 ≤ n && n ≤ 0x200A) || n = 0x2028 || n = 0x2029 || n = 0x202F || n = 0x205F ||
    n = 0x3000

def trimStart (cs : List Char) : List Char := cs.dropWhile isBlank

def trim (cs : List Char) : List Char := (trimStart (trimStart cs).reverse).reverse

end FirmwareRollout.Text

/-! ### UTF-8 -/

namespace FirmwareRollout.Utf8

def encode (cs : List Char) : List UInt8 := cs.flatMap String.utf8EncodeChar

/-- The number of continuation bytes that a first byte asks for, the range of the first of them,
and the bits that the first byte itself gives. -/
def lead (b : Nat) : Option (Nat × Nat × Nat × Nat) :=
  if b < 0xC2 then none
  else if b < 0xE0 then some (1, 0x80, 0xBF, b - 0xC0)
  else if b = 0xE0 then some (2, 0xA0, 0xBF, 0)
  else if b = 0xED then some (2, 0x80, 0x9F, 0xD)
  else if b < 0xF0 then some (2, 0x80, 0xBF, b - 0xE0)
  else if b = 0xF0 then some (3, 0x90, 0xBF, 0)
  else if b < 0xF4 then some (3, 0x80, 0xBF, b - 0xF0)
  else if b = 0xF4 then some (3, 0x80, 0x8F, 4)
  else none

/-- Takes `count` continuation bytes, the first of them in the range `low` to `high`, and adds
their bits to `bits`. Gives the character, or `none` where a byte is missing or out of range, and
the number of bytes taken. -/
def extend (count low high bits : Nat) : List UInt8 → Option Char × Nat
  | rest =>
    match count with
    | 0 => (some (Char.ofNat bits), 0)
    | count + 1 =>
      match rest with
      | [] => (none, 0)
      | b :: rest =>
        if low ≤ b.toNat ∧ b.toNat ≤ high then
          let (c, taken) := extend count 0x80 0xBF (bits * 64 + (b.toNat - 0x80)) rest
          (c, taken + 1)
        else (none, 0)

/-- The characters of a byte sequence, with `none` for each ill-formed sequence. -/
def decode : List UInt8 → List (Option Char)
  | [] => []
  | b :: rest =>
    if b.toNat < 0x80 then some (Char.ofNat b.toNat) :: decode rest
    else
      match lead b.toNat with
      | none => none :: decode rest
      | some (count, low, high, bits) =>
        let (c, taken) := extend count low high bits rest
        c :: decode (rest.drop taken)
  termination_by bytes => bytes.length
  decreasing_by all_goals (simp only [List.length_cons, List.length_drop]; omega)

/-- The characters of a byte sequence, with U+FFFD for each ill-formed sequence. -/
def decodeLossy (bytes : List UInt8) : List Char := (decode bytes).map (·.getD '\uFFFD')

/-! ### Text with a byte order mark -/

/-- The code units of UTF-16 in a byte sequence, the high byte first or second, with `none` for a
byte that is left over. -/
def units (highFirst : Bool) : List UInt8 → List (Option Nat)
  | [] => []
  | [_] => [none]
  | a :: b :: rest =>
    some (if highFirst then a.toNat * 256 + b.toNat else b.toNat * 256 + a.toNat) ::
      units highFirst rest

/-- The characters that code units of UTF-16 spell, with U+FFFD for what spells none. -/
def ofUnits : List (Option Nat) → List Char
  | [] => []
  | none :: rest => '\uFFFD' :: ofUnits rest
  | some n :: rest =>
    if n < 0xD800 ∨ 0xDFFF < n then Char.ofNat n :: ofUnits rest
    else if n < 0xDC00 then
      match rest with
      | some m :: rest' =>
        if 0xDC00 ≤ m ∧ m ≤ 0xDFFF then
          Char.ofNat (0x10000 + (n - 0xD800) * 0x400 + (m - 0xDC00)) :: ofUnits rest'
        else '\uFFFD' :: ofUnits (some m :: rest')
      | rest => '\uFFFD' :: ofUnits rest
    else '\uFFFD' :: ofUnits rest

/-- The characters of a text that may start with a byte order mark: the mark says which encoding
follows and is no part of the text; without one the encoding is UTF-8. -/
def decodeMarked : List UInt8 → List Char
  | 0xEF :: 0xBB :: 0xBF :: rest => decodeLossy rest
  | 0xFE :: 0xFF :: rest => ofUnits (units true rest)
  | 0xFF :: 0xFE :: rest => ofUnits (units false rest)
  | bytes => decodeLossy bytes

end FirmwareRollout.Utf8
