import FirmwareRollout.Settings.Datum
import FirmwareRollout.Text.Unicode
import FirmwareRollout.Toml.Text

/-!
Settings from environment variables. A variable that starts with `FUOTA_`, in any case, names a
setting, with `__` between a section and what is in it. Its value is read as a truth value, a
number, a quoted string or character, a list or a table where it has the form of one, and else it is
text. Quoted strings and bare names are those of TOML.
-/

namespace FirmwareRollout.Environment

/-! ### Names -/

/-- An ASCII letter in lower case; other characters as they are. -/
def lower (c : Char) : Char := if 65 ≤ c.toNat ∧ c.toNat ≤ 90 then Char.ofNat (c.toNat + 32) else c

/-- What every variable that counts starts with. -/
def marker : List Char := "fuota_".toList

/-- Two underscores side by side as a dot. -/
def dots : List Char → List Char
  | '_' :: '_' :: rest => '.' :: dots rest
  | c :: rest => c :: dots rest
  | [] => []

/-- The parts of a text that stand between dots. -/
def parts : List Char → List (List Char)
  | [] => [[]]
  | c :: rest =>
    match parts rest with
    | [] => [[c]]
    | part :: others => if c = '.' then [] :: part :: others else (c :: part) :: others

/-- The path that the name of a variable spells, if the variable counts. -/
def path? (name : String) : Option (List String) :=
  let cs := name.toList
  let inner := (Text.trim (dots (cs.drop marker.length))).map lower
  if (cs.take marker.length).map lower ≠ marker ∨ inner = [] then none
  else some (((parts inner).takeWhile (· ≠ [])).map String.ofList)

/-! ### Values -/

/-- ASCII white space. -/
def isSpace (c : Char) : Bool := c = ' ' || c = '\t' || c = '\n' || c = '\r' || c = '\x0c'

/-- The text without the white space it starts with. -/
def skipSpace (s : List Char) : List Char := s.dropWhile isSpace

def isSeparator (c : Char) : Bool := c = ',' || c = '\x7b' || c = '\x7d' || c = '[' || c = ']'

/-- Digits, perhaps with a sign and a point, perhaps with an exponent: the text of a number that has
to have a point. -/
def isFraction (cs : List Char) : Bool :=
  let unsigned : List Char → List Char
    | '+' :: rest | '-' :: rest => rest
    | rest => rest
  let rest := unsigned cs
  let whole := rest.takeWhile Decimal.isDigit
  match rest.dropWhile Decimal.isDigit with
  | '.' :: rest =>
    let part := rest.takeWhile Decimal.isDigit
    !(whole.isEmpty && part.isEmpty) &&
      match rest.dropWhile Decimal.isDigit with
      | [] => true
      | c :: rest =>
        (c = 'e' || c = 'E') && !(unsigned rest).isEmpty && (unsigned rest).all Decimal.isDigit
  | _ => false

/-- A whole number that fits 64 bits, with a sign if it is negative. -/
def whole? (cs : List Char) : Option Int :=
  let number (ds : List Char) : Option Nat :=
    if ds.isEmpty || !ds.all Decimal.isDigit then none else some (Decimal.value ds)
  match cs with
  | '-' :: ds => (number ds).bind fun n => if n ≤ 9223372036854775808 then some (-n : Int) else none
  | '+' :: ds | ds =>
    (number ds).bind fun n => if n < 18446744073709551616 then some (n : Int) else none

def plain (cs : List Char) : Datum :=
  if isFraction cs then .fraction
  else
    match whole? cs with
    | some n => .integer n
    | none => .text (String.ofList cs)

/-- The items of a list, or the members of a table, up to the end mark. A comma may follow the last;
`fuel` bounds their number. -/
def sequence {α : Type} (item : List Char → Option (α × List Char)) (ending : Char) :
    (fuel : Nat) → List Char → Option (List α × List Char)
  | 0, _ => none
  | fuel + 1, s =>
    match s with
    | c :: rest =>
      if c = ending then some ([], rest)
      else do
        let (a, s) ← item s
        match s with
        | ',' :: s =>
          let (as, s) ← sequence item ending fuel s
          return (a :: as, s)
        | c :: s => if c = ending then return ([a], s) else none
        | [] => none
    | [] => none

def name? : List Char → Option (String × List Char)
  | '"' :: rest => (Toml.basic rest).map fun r => (String.ofList r.1, r.2)
  | s =>
    match s.takeWhile Toml.isBare with
    | [] => none
    | name => some (String.ofList name, s.dropWhile Toml.isBare)

def member? (value : List Char → Option (Datum × List Char)) (s : List Char) :
    Option ((String × Datum) × List Char) := do
  let (name, s) ← name? (skipSpace s)
  match skipSpace s with
  | '=' :: s =>
    let (d, s) ← value s
    return ((name, d), s)
  | _ => none

/-- A value at the front of a text, and the white space around it. `depth` bounds how deep values
nest. -/
def value? : (depth : Nat) → List Char → Option (Datum × List Char)
  | 0, _ => none
  | depth + 1, s => do
    let (d, s) ← match skipSpace s with
      | 't' :: 'r' :: 'u' :: 'e' :: s => some (.flag true, s)
      | 'f' :: 'a' :: 'l' :: 's' :: 'e' :: s => some (.flag false, s)
      | '\x7b' :: s =>
        (sequence (member? (value? depth)) '\x7d' (s.length + 1) s).map fun r =>
          (.table (r.1.foldl (fun ms m => Datum.put m.1 m.2 ms) []), r.2)
      | '[' :: s =>
        (sequence (value? depth) ']' (s.length + 1) s).map fun r => (.list r.1, r.2)
      | '"' :: s => (Toml.basic s).map fun r => (.text (String.ofList r.1), r.2)
      | '\'' :: s =>
        match s with
        | c :: '\'' :: s => some (.character c, s)
        | _ => none
      | s =>
        some (plain (Text.trim (s.takeWhile fun c => !isSeparator c)),
          s.dropWhile fun c => !isSeparator c)
    return (d, skipSpace s)

def datum (value : String) : Datum :=
  let cs := Text.trim value.toList
  match value? (cs.length + 1) cs with
  | some (d, []) => d
  | _ => .text (String.ofList cs)

/-! ### All variables -/

/-- A value under a path of names. -/
def nest (d : Datum) : List String → Datum
  | [] => d
  | name :: path => .table [(name, nest d path)]

/-- Lays a variable over what others say. A variable that counts but names nothing has to be a
table. -/
def overlay (members : Datum.Members) (v : String × String) : Option Datum.Members :=
  match path? v.1 with
  | none => some members
  | some path =>
    match nest (datum v.2) path with
    | .table upper => some (Datum.mergeMembers members upper)
    | _ => none

/-- What the environment says, where a variable goes before those that come before it. -/
def members (environment : List (String × String)) : Option Datum.Members :=
  environment.foldlM overlay []

/-! ### The block of a process -/

/-- The name and the value of a variable from its text. -/
def entry (cs : List Char) : String × String :=
  (String.ofList (cs.takeWhile (· ≠ '=')), String.ofList ((cs.dropWhile (· ≠ '=')).drop 1))

/-- The variables of a block of texts with a NUL character after each. -/
def ofBlock (block : List Char) : List (String × String) :=
  ((block.splitBy fun _ c => c ≠ '\x00').map fun cs => entry (cs.filter (· ≠ '\x00'))).filter
    fun v => v.1 ≠ ""

end FirmwareRollout.Environment
