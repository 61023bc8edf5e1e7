import FirmwareRollout.Json.Value
import FirmwareRollout.Identity.Uuid
import FirmwareRollout.Identity.DevEui
import FirmwareRollout.Time.Rfc3339

/-!
Records in JSON, and the forms of what stands in their fields. A record is an object by field names,
or an array of its fields in order. Fields that a record does not know are skipped in an object; an
array must not be longer than the record. A known field must not come twice. Numbers, bytes,
identifiers, durations and instants are read from exactly the values that are written for them, or
from another spelling of one of these.
-/

namespace FirmwareRollout.Json

/-- The fields of a record that are there, and whether they were given by name. -/
structure Record where
  named : Bool
  slots : List (String × Value)

namespace Record

/-- Does a list of members name some field twice? -/
def repeats : List (String × Value) → Bool
  | [] => false
  | (key, _) :: rest => rest.any (·.1 = key) || repeats rest

/-- The members whose keys are among `fields`; every key must spell a text. -/
def known (fields : List String) : List (Option String × Value) → Option (List (String × Value))
  | [] => some []
  | (none, _) :: _ => none
  | (some key, v) :: rest =>
    (known fields rest).map fun slots => if key ∈ fields then (key, v) :: slots else slots

/-- Reads a value as a record with those fields. -/
def read? (fields : List String) : Value → Option Record
  | .object members =>
    match known fields members with
    | none => none
    | some slots => if repeats slots then none else some ⟨true, slots⟩
  | .array items =>
    if items.length ≤ fields.length then some ⟨false, fields.zip items⟩ else none
  | _ => none

/-- Reads a value as a record with those fields and no others. -/
def readExactly? (fields : List String) (v : Value) : Option Record :=
  match v with
  | .object members =>
    if members.all fun m => m.1.any (· ∈ fields) then read? fields v else none
  | v => read? fields v

def slot? (r : Record) (field : String) : Option Value := r.slots.lookup field

def required {α : Type} (r : Record) (field : String) (f : Value → Option α) : Option α :=
  (r.slot? field).bind f

/-- A field that has a value of its own when it is missing. -/
def orElse {α : Type} (r : Record) (field : String) (default : α) (f : Value → Option α) :
    Option α :=
  match r.slot? field with
  | some v => f v
  | none => some default

/-- A field that may be null, and in an object missing. -/
def optional {α : Type} (r : Record) (field : String) (f : Value → Option α) : Option (Option α) :=
  match r.slot? field with
  | some v => v.nullable? f
  | none => if r.named then some none else none

end Record

/-! ### Numbers, bytes, identifiers and times -/

def ofUInt8 (n : UInt8) : Value := .natural n.toNat

def uint8? (v : Value) : Option UInt8 := (v.natural? 255).map .ofNat

def ofUInt32 (n : UInt32) : Value := .natural n.toNat

def uint32? (v : Value) : Option UInt32 := (v.natural? 4294967295).map .ofNat

def ofUInt64 (n : UInt64) : Value := .natural n.toNat

def uint64? (v : Value) : Option UInt64 := (v.natural? 18446744073709551615).map .ofNat

def ofBytes (bytes : List UInt8) : Value := .array (bytes.map ofUInt8)

/-- Bytes that were written as an array of numbers. -/
def bytes? (v : Value) : Option (List UInt8) := v.array? uint8?

def fourBytes? (v : Value) : Option (Vector UInt8 4) := (bytes? v).bind (Identity.ofBytes? 4)

def ofHex (bytes : List UInt8) : Value := .ofString (String.ofList (Hex.encode bytes))

def hex? (v : Value) : Option (List UInt8) := do (Hex.decode (← v.string?).toList).toOption

def ofUuid (u : Uuid) : Value := .ofString u.toString

def uuid? (v : Value) : Option Uuid := v.string?.bind Uuid.parse?

def ofDevEui (e : DevEui) : Value := .ofString e.toString

def devEui? (v : Value) : Option DevEui := do (DevEui.parse (← v.string?)).toOption

/-- A duration is a record of whole seconds and nanoseconds. -/
def ofDuration (d : Duration) : Value :=
  .ofMembers [("secs", .natural d.seconds), ("nanos", .natural d.subsecond)]

/-- Both fields must be there and no other; nanoseconds above a second carry over. -/
def duration? (v : Value) : Option Duration := do
  let r ← Record.readExactly? ["secs", "nanos"] v
  Duration.ofParts? (← r.required "secs" (·.natural? 18446744073709551615))
    (← r.required "nanos" (·.natural? 4294967295))

def ofInstant (t : Instant) : Value := .ofString (String.ofList (Rfc3339.text t))

def instant? (v : Value) : Option Instant := do Rfc3339.parse? (← v.string?).toList

def ofOption {α : Type} (f : α → Value) : Option α → Value
  | some a => f a
  | none => .null

end FirmwareRollout.Json
