import FirmwareRollout.Json.Token

/-!
JSON values: a tree built from tokens by a machine with a stack, so that reading needs no more than
one pass and nesting has no limit, and the compact text of a tree.
-/

namespace FirmwareRollout.Json

/-- A JSON value. Members keep their order and may repeat a key; a string or key that spells no text
is `none`. -/
inductive Value where
  | null
  | bool (b : Bool)
  | natural (n : Nat)
  | otherNumber
  | string (text : Option String)
  | array (items : List Value)
  | object (members : List (Option String × Value))

/-! ### From tokens -/

/-- A container that is being read, with what it holds so far in reverse. -/
inductive Frame where
  | array (items : List Value)
  /-- An object between members. -/
  | object (members : List (Option String × Value))
  /-- An object whose last key still lacks its value. -/
  | member (members : List (Option String × Value)) (key : Option String)

/-- What is expected next. -/
inductive Expect where
  | value
  /-- A value, or the end of an array that has just begun. -/
  | firstItem
  /-- A key, or the end of an object that has just begun. -/
  | firstKey
  | key
  | colon
  /-- What may follow a value that is complete. -/
  | after (v : Value)

/-- The state of the reader. -/
structure Reader where
  stack : List Frame
  expect : Expect

/-- A token where a value has to begin. -/
def Reader.beginValue (stack : List Frame) : Token → Option Reader
  | .beginArray => some ⟨.array [] :: stack, .firstItem⟩
  | .beginObject => some ⟨.object [] :: stack, .firstKey⟩
  | .null => some ⟨stack, .after .null⟩
  | .bool b => some ⟨stack, .after (.bool b)⟩
  | .natural n => some ⟨stack, .after (.natural n)⟩
  | .otherNumber => some ⟨stack, .after .otherNumber⟩
  | .string text => some ⟨stack, .after (.string text)⟩
  | _ => none

/-- A token where a key has to stand. -/
def Reader.readKey : List Frame → Token → Option Reader
  | .object members :: stack, .string key => some ⟨.member members key :: stack, .colon⟩
  | _, _ => none

/-- A token after a complete value. -/
def Reader.afterValue (v : Value) : List Frame → Token → Option Reader
  | .array items :: stack, .comma => some ⟨.array (v :: items) :: stack, .value⟩
  | .array items :: stack, .endArray => some ⟨stack, .after (.array (v :: items).reverse)⟩
  | .member members key :: stack, .comma => some ⟨.object ((key, v) :: members) :: stack, .key⟩
  | .member members key :: stack, .endObject =>
    some ⟨stack, .after (.object ((key, v) :: members).reverse)⟩
  | _, _ => none

def Reader.step (r : Reader) (token : Token) : Option Reader :=
  match r.expect with
  | .value => beginValue r.stack token
  | .firstItem =>
    match token, r.stack with
    | .endArray, .array [] :: stack => some ⟨stack, .after (.array [])⟩
    | token, stack => beginValue stack token
  | .firstKey =>
    match token, r.stack with
    | .endObject, .object [] :: stack => some ⟨stack, .after (.object [])⟩
    | token, stack => readKey stack token
  | .key => readKey r.stack token
  | .colon => if token = .colon then some ⟨r.stack, .value⟩ else none
  | .after v => afterValue v r.stack token

/-- The value that a sequence of tokens spells, all of them together. -/
def Value.ofTokens? (tokens : List Token) : Option Value :=
  match tokens.foldlM Reader.step ⟨[], .value⟩ with
  | some ⟨[], .after v⟩ => some v
  | _ => none

def Value.read? (source : Source) : Option Value := (scan source).bind Value.ofTokens?

def Value.ofText? (text : String) : Option Value := Value.read? (text.toList.map some)

def Value.ofBytes? (bytes : List UInt8) : Option Value := Value.read? (Utf8.decode bytes)

/-! ### To text -/

/-- A character inside a string literal. Quotes, backslashes and control characters are escaped. -/
def escape (c : Char) : List Char :=
  match c with
  | '"' => ['\\', '"']
  | '\\' => ['\\', '\\']
  | '\x08' => ['\\', 'b']
  | '\x0c' => ['\\', 'f']
  | '\n' => ['\\', 'n']
  | '\r' => ['\\', 'r']
  | '\t' => ['\\', 't']
  | c =>
    if c.toNat < 0x20 then '\\' :: 'u' :: '0' :: '0' :: Hex.ofByte (UInt8.ofNat c.toNat) else [c]

/-- A string literal. Where there is no text, half a surrogate pair stands for it. -/
def quote : Option String → List Char
  | some text => '"' :: text.toList.flatMap escape ++ ['"']
  | none => "\"\\ud800\"".toList

mutual

/-- The compact text of a value. -/
def Value.chars : Value → List Char
  | .null => "null".toList
  | .bool true => "true".toList
  | .bool false => "false".toList
  | .natural n => Decimal.digits n
  | .otherNumber => "-0".toList
  | .string text => quote text
  | .array [] => "[]".toList
  | .array (v :: rest) => '[' :: v.chars ++ itemsChars rest ++ [']']
  | .object [] => "{}".toList
  | .object ((key, v) :: rest) => '{' :: quote key ++ ':' :: v.chars ++ membersChars rest ++ ['}']

/-- The items of an array after the first. -/
def Value.itemsChars : List Value → List Char
  | [] => []
  | v :: rest => ',' :: v.chars ++ itemsChars rest

/-- The members of an object after the first. -/
def Value.membersChars : List (Option String × Value) → List Char
  | [] => []
  | (key, v) :: rest => ',' :: quote key ++ ':' :: v.chars ++ membersChars rest

end

/-- The compact text of a value. -/
def Value.text (v : Value) : String := String.ofList v.chars

/-! ### Simple values -/

/-- A string that spells a text. -/
def Value.ofString (text : String) : Value := .string (some text)

/-- An object with the keys in the order given. -/
def Value.ofMembers (members : List (String × Value)) : Value :=
  .object (members.map fun m => (some m.1, m.2))

def Value.string? : Value → Option String
  | .string text => text
  | _ => none

def Value.natural? (top : Nat) : Value → Option Nat
  | .natural n => if n ≤ top then some n else none
  | _ => none

/-- The items of an array, each read by `f`. -/
def Value.array? {α : Type} (f : Value → Option α) : Value → Option (List α)
  | .array items => items.mapM f
  | _ => none

/-- Null for nothing, or what `f` reads. -/
def Value.nullable? {α : Type} (f : Value → Option α) : Value → Option (Option α)
  | .null => some none
  | v => (f v).map some

/-- The tag of a choice: a string, or an object whose one key is the tag and whose value is null. -/
def Value.tag? : Value → Option String
  | .string text => text
  | .object [(key, .null)] => key
  | _ => none

end FirmwareRollout.Json
