/-!
What a source of settings says: values by name, of a few kinds. A source that comes later is laid
over an earlier one, name by name (`merge`). A setting is read from a value of its kind.
-/

namespace FirmwareRollout

/-- A value that a source of settings gives. -/
inductive Datum where
  | text (s : String)
  | character (c : Char)
  | flag (b : Bool)
  | integer (n : Int)
  /-- A number with a fraction or an exponent. No setting is one, so its value does not matter. -/
  | fraction
  | list (items : List Datum)
  | table (members : List (String × Datum))

namespace Datum

abbrev Members := List (String × Datum)

instance : Inhabited Datum := ⟨table []⟩

def find? (members : Members) (name : String) : Option Datum :=
  (members.find? fun m => m.1 = name).map (·.2)

/-- Gives a name a value, in the place of an earlier one. -/
def put (name : String) (d : Datum) : Members → Members
  | [] => [(name, d)]
  | m :: rest => if m.1 = name then (name, d) :: rest else m :: put name d rest

/-! ### Layers -/

mutual

/-- Lays a value over another. Tables are merged name by name; anything else is replaced. -/
def merge (lower : Datum) : Datum → Datum
  | table upper =>
    match lower with
    | table members => table (mergeMembers members upper)
    | _ => table upper
  | d => d

/-- Lays the members of a table over those of another. -/
def mergeMembers (lower : Members) : Members → Members
  | [] => lower
  | (name, d) :: rest =>
    mergeMembers
      (put name (match find? lower name with
        | some under => merge under d
        | none => d) lower) rest

end

/-! ### Kinds of values -/

def natBelow? (bound : Nat) : Datum → Option Nat
  | integer n => if 0 ≤ n ∧ n < bound then some n.toNat else none
  | _ => none

def word32? (d : Datum) : Option UInt32 := (d.natBelow? 4294967296).map .ofNat

def word64? (d : Datum) : Option UInt64 := (d.natBelow? 18446744073709551616).map .ofNat

/-- A text, which may be a single character. -/
def string? : Datum → Option String
  | text s => some s
  | character c => some (String.singleton c)
  | _ => none

/-- The parts of a section by name and position: those of a table have names, those of a list come
in the order in which the section has them. -/
def part? : Datum → Option (String → Nat → Option Datum)
  | table members => some fun name _ => find? members name
  | list items => some fun _ position => items[position]?
  | _ => none

end Datum

end FirmwareRollout
