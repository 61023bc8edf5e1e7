import FirmwareRollout.Settings.Datum

/-!
TOML documents while they are put together. A table can be opened by a header, come up as a step on
the way to another table, or be spelt out by dotted keys; which of these it was decides what may be
added to it later, so that nothing is defined twice.
-/

namespace FirmwareRollout.Toml

/-- A document or a part of it. -/
inductive Tree where
  /-- A value that was written after a key; nothing can be added to it. -/
  | leaf (d : Datum)
  /-- A table. `implicit` says that no header has opened it, `dotted` that a dotted key names it. -/
  | table (implicit dotted : Bool) (members : List (String × Tree))
  /-- The tables of one header in double brackets, the last one first. -/
  | tables (items : List Tree)

namespace Tree

instance : Inhabited Tree := ⟨table false false []⟩

/-- The table that holds nothing and that a header has opened. -/
def empty : Tree := table false false []

def find? (members : List (String × Tree)) (name : String) : Option Tree :=
  (members.find? fun m => m.1 = name).map (·.2)

/-- Gives a name a member, in the place of an earlier one. -/
def put (name : String) (t : Tree) : List (String × Tree) → List (String × Tree)
  | [] => [(name, t)]
  | m :: rest => if m.1 = name then (name, t) :: rest else m :: put name t rest

/-- Changes the last of the tables of a header in double brackets. -/
def onLast (f : Tree → Option Tree) : Tree → Option Tree
  | tables (last :: earlier) => (f last).map fun last => tables (last :: earlier)
  | t => f t

/-- Changes what a path leads to. Tables that are missing on the way come up. A path of dotted keys
leads through no table that a header has opened. -/
def within (dotted : Bool) : (path : List String) → (Tree → Option Tree) → Tree → Option Tree
  | [], f => f
  | name :: path, f => fun
    | table implicit isDotted members => do
      let next := (find? members name).getD (table true dotted [])
      match next with
      | leaf _ => none
      | table nextImplicit _ _ => if dotted && !nextImplicit then none else pure ()
      | tables _ => pure ()
      let changed ← onLast (within dotted path f) next
      return table implicit isDotted (put name changed members)
    | _ => none

/-- Gives a new name a value in a table, which the last part of a key does. A table that dotted keys
lead to has to be one that dotted keys have made. -/
def define (viaDots : Bool) (name : String) (d : Datum) : Tree → Option Tree
  | table implicit dotted members =>
    if viaDots && !dotted || (find? members name).isSome then none
    else some (table implicit dotted (put name (leaf d) members))
  | _ => none

/-- Writes the value of a key that may have dots. -/
def assign (key : List String) (d : Datum) (t : Tree) : Option Tree :=
  match key.getLast? with
  | some name => within true key.dropLast (define (!key.dropLast.isEmpty) name d) t
  | none => none

/-- Opens a table by its header. It may have come up on the way to another, but not otherwise. -/
def openTable (name : String) : Tree → Option Tree
  | table implicit dotted members =>
    match find? members name with
    | none => some (table implicit dotted (put name empty members))
    | some (table true false inner) =>
      some (table implicit dotted (put name (table false false inner) members))
    | some _ => none
  | _ => none

/-- Adds one more table to those of a header in double brackets. -/
def openNext (name : String) : Tree → Option Tree
  | table implicit dotted members =>
    match find? members name with
    | none => some (table implicit dotted (put name (tables [empty]) members))
    | some (tables items) =>
      some (table implicit dotted (put name (tables (empty :: items)) members))
    | some _ => none
  | _ => none

/-! ### The finished document -/

mutual

def datum : Tree → Datum
  | leaf d => d
  | table _ _ members => .table (memberData members)
  | tables items => .list (itemData items).reverse

def memberData : List (String × Tree) → List (String × Datum)
  | [] => []
  | (name, t) :: rest => (name, datum t) :: memberData rest

def itemData : List Tree → List Datum
  | [] => []
  | t :: rest => datum t :: itemData rest

end

end Tree

end FirmwareRollout.Toml
