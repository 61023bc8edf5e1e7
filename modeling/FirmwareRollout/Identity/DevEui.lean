import FirmwareRollout.Identity.Rank
import FirmwareRollout.Text.Hex

/-!
The EUI-64 that names a device. Its text is sixteen lower-case hexadecimal digits; either case is
read. Main statement: `parse_toString`.
-/

namespace FirmwareRollout

/-- The globally unique identifier of a device. -/
structure DevEui where
  bytes : Vector UInt8 8
deriving DecidableEq

namespace DevEui

instance : Ranked DevEui where
  rank e := Identity.bigEndian e.bytes.toList
  rank_inj {a b} h := by
    have := Identity.bigEndian_inj (Vector.length_toList) (Vector.length_toList) h
    cases a; cases b
    simpa [Vector.toList_inj] using this

/-- The EUI that a byte string is, if it has eight bytes. -/
def ofBytes? (bytes : List UInt8) : Option DevEui := (Identity.ofBytes? 8 bytes).map DevEui.mk

/-- The text of an EUI: sixteen lower-case hexadecimal digits. -/
protected def toString (e : DevEui) : String := String.ofList (Hex.encode e.bytes.toList)

instance : ToString DevEui := ⟨DevEui.toString⟩

/-- Why a text names no device. -/
inductive Fault where
  /-- The text is no sequence of hexadecimal digit pairs. -/
  | digits (fault : Hex.Fault)
  /-- The digits spell another number of bytes than eight. -/
  | width
deriving DecidableEq, Repr

def parse (text : String) : Except Fault DevEui :=
  match Hex.decode text.toList with
  | .error fault => .error (.digits fault)
  | .ok bytes =>
    match ofBytes? bytes with
    | none => .error .width
    | some e => .ok e

def Fault.message (text : String) (fault : Fault) : String :=
  "invalid DevEUI '" ++ text ++ "': " ++
    match fault with
    | .digits fault => fault.message
    | .width => "expected 8 bytes"

theorem ofBytes?_bytes (e : DevEui) : ofBytes? e.bytes.toList = some e := by
  simp [ofBytes?, Identity.ofBytes?_toList]

/-- **Reading back.** The text of an EUI names that EUI. -/
theorem parse_toString (e : DevEui) : parse e.toString = .ok e := by
  simp [parse, DevEui.toString, Hex.decode_encode, ofBytes?_bytes]

end DevEui

end FirmwareRollout
