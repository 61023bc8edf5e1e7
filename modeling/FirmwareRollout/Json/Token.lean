import FirmwareRollout.Text.Decimal
import FirmwareRollout.Text.Hex

/-!
The tokens of JSON text after RFC 8259. The text is read as characters, with `none` where a byte
sequence was no UTF-8. A string that spells no text, because it holds such a place or half a
surrogate pair, is a token all the same: it may stand where nobody reads it.
-/

namespace FirmwareRollout.Json

open Decimal (isDigit value)

/-- The characters of a document, with `none` for what is no character. -/
abbrev Source := List (Option Char)

/-- A token. Of numbers that are no natural number, only their being numbers matters here. -/
inductive Token where
  | beginArray
  | endArray
  | beginObject
  | endObject
  | comma
  | colon
  | null
  | bool (b : Bool)
  | natural (n : Nat)
  | otherNumber
  /-- A string, or `none` if it spells no text. -/
  | string (text : Option String)
deriving DecidableEq

/-! ### Strings -/

/-- What a string literal consists of. -/
inductive Piece where
  | char (c : Char)
  /-- A code unit of UTF-16, given by its number. -/
  | unit (n : Nat)
  /-- What is no character. -/
  | unreadable
deriving DecidableEq

/-- The value of a character that is a hexadecimal digit. -/
def hexValue? (c : Option Char) : Option Nat :=
  match c with
  | some c => if c.toNat < 128 then Hex.value? (UInt8.ofNat c.toNat) else none
  | none => none

def unit? (a b c d : Option Char) : Option Nat := do
  return ((((← hexValue? a) * 16 + (← hexValue? b)) * 16 + (← hexValue? c)) * 16 + (← hexValue? d))

def escaped? : Char → Option Char
  | '"' => some '"'
  | '\\' => some '\\'
  | '/' => some '/'
  | 'b' => some '\x08'
  | 'f' => some '\x0c'
  | 'n' => some '\n'
  | 'r' => some '\r'
  | 't' => some '\t'
  | _ => none

/-- The pieces of a string up to its closing quote, and what comes after that. Control characters
must be escaped. -/
def pieces : Source → Option (List Piece × Source)
  | [] => none
  | none :: rest => (pieces rest).map fun (ps, rest) => (.unreadable :: ps, rest)
  | some c :: rest =>
    if c = '"' then some ([], rest)
    else if c = '\\' then
      match rest with
      | some 'u' :: u1 :: u2 :: u3 :: u4 :: rest =>
        match unit? u1 u2 u3 u4 with
        | some n => (pieces rest).map fun (ps, rest) => (.unit n :: ps, rest)
        | none => none
      | some e :: rest =>
        match escaped? e with
        | some c => (pieces rest).map fun (ps, rest) => (.char c :: ps, rest)
        | none => none
      | _ => none
    else if c.toNat < 0x20 then none
    else (pieces rest).map fun (ps, rest) => (.char c :: ps, rest)

/-- The text that pieces spell. A code unit of the high half of a pair must be followed by one of
the low half. -/
def spell : List Piece → Option (List Char)
  | [] => some []
  | .char c :: rest => (spell rest).map (c :: ·)
  | .unreadable :: _ => none
  | .unit n :: rest =>
    if n < 0xD800 ∨ 0xDFFF < n then (spell rest).map (Char.ofNat n :: ·)
    else if n < 0xDC00 then
      match rest with
      | .unit m :: rest =>
        if 0xDC00 ≤ m ∧ m ≤ 0xDFFF then
          (spell rest).map (Char.ofNat (0x10000 + (n - 0xD800) * 0x400 + (m - 0xDC00)) :: ·)
        else none
      | _ => none
    else none

theorem pieces_length {cs rest : Source} {ps : List Piece} (h : pieces cs = some (ps, rest)) :
    rest.length < cs.length := by
  fun_induction pieces cs generalizing ps rest <;> simp_all <;> grind

/-! ### Numbers -/

/-- The digits at the head of a document, and what comes after them. -/
def digitRun : Source → List Char × Source
  | some c :: rest =>
    if isDigit c then let (ds, rest) := digitRun rest; (c :: ds, rest) else ([], some c :: rest)
  | cs => ([], cs)

/-- The digits at the head of a document, of which there is at least one. -/
def someDigits (cs : Source) : Option (List Char × Source) :=
  if (digitRun cs).1 = [] then none else some (digitRun cs)

/-- A fraction or nothing: was there one, and what comes after it? -/
def fractionPart : Source → Option (Bool × Source)
  | some '.' :: rest => (someDigits rest).map fun (_, rest) => (true, rest)
  | cs => some (false, cs)

/-- What comes after a sign, if there is one. -/
def dropSign : Source → Source
  | some '+' :: rest => rest
  | some '-' :: rest => rest
  | cs => cs

/-- An exponent or nothing: was there one, and what comes after it? -/
def exponentPart : Source → Option (Bool × Source)
  | some 'e' :: rest => (someDigits (dropSign rest)).map fun (_, rest) => (true, rest)
  | some 'E' :: rest => (someDigits (dropSign rest)).map fun (_, rest) => (true, rest)
  | cs => some (false, cs)

/-- The whole part of a number. A leading zero stands alone. -/
def wholePart : Source → Option (Nat × Source)
  | some '0' :: rest => some (0, rest)
  | cs => (someDigits cs).map fun (ds, rest) => (value ds, rest)

/-- A number without its sign: is it a natural number, and which? -/
def unsigned (cs : Source) : Option (Option Nat × Source) :=
  match wholePart cs with
  | none => none
  | some (n, rest) =>
    match fractionPart rest with
    | none => none
    | some (fraction, rest) =>
      (exponentPart rest).map fun (exponent, rest) =>
        (if fraction || exponent then none else some n, rest)

theorem digitRun_length (cs : Source) :
    (digitRun cs).2.length + (digitRun cs).1.length = cs.length := by
  fun_induction digitRun cs <;> grind

theorem someDigits_length {cs rest : Source} {ds : List Char}
    (h : someDigits cs = some (ds, rest)) : rest.length < cs.length := by
  unfold someDigits at h
  split at h
  · cases h
  · next hne =>
    have := digitRun_length cs
    have := List.length_pos_iff.2 hne
    rw [Option.some.injEq] at h
    rw [h] at *
    simp only at *
    omega

theorem fractionPart_length {cs rest : Source} {b : Bool} (h : fractionPart cs = some (b, rest)) :
    rest.length ≤ cs.length := by
  unfold fractionPart at h
  split at h
  · next r =>
    obtain ⟨⟨ds, r'⟩, hd, he⟩ := Option.map_eq_some_iff.1 h
    cases he
    have := someDigits_length hd
    rw [List.length_cons]
    omega
  · cases h; exact Nat.le_refl _

theorem dropSign_length (cs : Source) : (dropSign cs).length ≤ cs.length := by
  unfold dropSign
  split <;> simp

theorem exponentPart_length {cs rest : Source} {b : Bool} (h : exponentPart cs = some (b, rest)) :
    rest.length ≤ cs.length := by
  unfold exponentPart at h
  split at h
  case h_3 => cases h; exact Nat.le_refl _
  all_goals
    next r =>
    obtain ⟨⟨ds, r'⟩, hd, he⟩ := Option.map_eq_some_iff.1 h
    cases he
    have := someDigits_length hd
    have := dropSign_length r
    rw [List.length_cons]
    omega

theorem wholePart_length {cs rest : Source} {n : Nat} (h : wholePart cs = some (n, rest)) :
    rest.length < cs.length := by
  unfold wholePart at h
  split at h
  · cases h; simp
  · obtain ⟨⟨ds, r'⟩, hd, he⟩ := Option.map_eq_some_iff.1 h
    cases he
    exact someDigits_length hd

theorem unsigned_length {cs rest : Source} {n : Option Nat} (h : unsigned cs = some (n, rest)) :
    rest.length < cs.length := by
  unfold unsigned at h
  split at h
  · cases h
  · next hw =>
    split at h
    · cases h
    · next hf =>
      obtain ⟨⟨b, r⟩, he, hr⟩ := Option.map_eq_some_iff.1 h
      cases hr
      have := wholePart_length hw
      have := fractionPart_length hf
      have := exponentPart_length he
      omega

/-! ### Tokens -/

/-- The token that a run of characters starts with, and what comes after it. Blanks are skipped by
the caller. -/
def first (c : Char) (rest : Source) : Option (Token × Source) :=
  match c with
  | '[' => some (.beginArray, rest)
  | ']' => some (.endArray, rest)
  | '{' => some (.beginObject, rest)
  | '}' => some (.endObject, rest)
  | ',' => some (.comma, rest)
  | ':' => some (.colon, rest)
  | '"' => (pieces rest).map fun (ps, rest) => (.string ((spell ps).map String.ofList), rest)
  | '-' => (unsigned rest).map fun (_, rest) => (.otherNumber, rest)
  | 'n' => word "ull" .null
  | 't' => word "rue" (.bool true)
  | 'f' => word "alse" (.bool false)
  | c => (unsigned (some c :: rest)).map fun (n, rest) => ((n.map .natural).getD .otherNumber, rest)
where
  /-- The rest of a literal name. -/
  word (name : String) (token : Token) : Option (Token × Source) :=
    if rest.take name.length = name.toList.map some then some (token, rest.drop name.length)
    else none

theorem first_length {c : Char} {rest rest' : Source} {t : Token}
    (h : first c rest = some (t, rest')) : rest'.length ≤ rest.length := by
  have word {name : String} {token : Token} (h : first.word rest name token = some (t, rest')) :
      rest'.length ≤ rest.length := by
    unfold first.word at h
    split at h
    · cases h; simp
    · cases h
  unfold first at h
  split at h
  case h_7 =>
    obtain ⟨⟨ps, r⟩, hp, he⟩ := Option.map_eq_some_iff.1 h
    cases he
    exact Nat.le_of_lt (pieces_length hp)
  case h_8 =>
    obtain ⟨⟨n, r⟩, hn, he⟩ := Option.map_eq_some_iff.1 h
    cases he
    exact Nat.le_of_lt (unsigned_length hn)
  case h_12 =>
    obtain ⟨⟨n, r⟩, hn, he⟩ := Option.map_eq_some_iff.1 h
    cases he
    exact Nat.le_of_lt_succ (unsigned_length hn)
  case h_9 | h_10 | h_11 => exact word h
  all_goals cases h; exact Nat.le_refl _

/-- Is the character one of the four blanks of JSON? -/
def isBlank (c : Char) : Bool := c = ' ' || c = '\t' || c = '\n' || c = '\r'

def scan : Source → Option (List Token)
  | [] => some []
  | none :: _ => none
  | some c :: rest =>
    if isBlank c then scan rest
    else
      match _h : first c rest with
      | none => none
      | some (token, rest) => (scan rest).map (token :: ·)
  termination_by cs => cs.length
  decreasing_by
    · simp
    · exact Nat.lt_succ_of_le (first_length _h)

end FirmwareRollout.Json
