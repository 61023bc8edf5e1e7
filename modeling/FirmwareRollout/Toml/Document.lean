import FirmwareRollout.Toml.Scalar
import FirmwareRollout.Toml.Tree

/-!
TOML documents: values with parts, lines, headers, and the value of a whole text.
-/

namespace FirmwareRollout.Toml

/-! ### Values with parts -/

/-- The rest of an array. `value` reads an item, and `fuel` bounds the number of items. -/
def items (value : Chars → Option (Datum × Chars)) :
    (fuel : Nat) → Chars → Option (List Datum × Chars)
  | 0, _ => none
  | fuel + 1, s =>
    match skipLines false s with
    | ']' :: rest => some ([], rest)
    | s => do
      let (d, rest) ← value s
      match skipLines false rest with
      | ',' :: rest =>
        let (ds, rest) ← items value fuel rest
        return (d :: ds, rest)
      | ']' :: rest => return ([d], rest)
      | _ => none

/-- A key and the value after it. -/
def pair? (value : Chars → Option (Datum × Chars)) (s : Chars) :
    Option ((List String × Datum) × Chars) := do
  let (key, rest) ← key? depthLimit s
  let (d, rest) ← value (skipGaps (← after? '=' rest))
  return ((key, d), rest)

/-- The rest of a table in one line, after its brace or a comma. -/
def members (value : Chars → Option (Datum × Chars)) :
    (fuel : Nat) → Chars → Option (List (List String × Datum) × Chars)
  | 0, _ => none
  | fuel + 1, s => do
    let (m, rest) ← pair? value s
    match skipGaps rest with
    | ',' :: rest =>
      let (ms, rest) ← members value fuel rest
      return (m :: ms, rest)
    | '\x7d' :: rest => return ([m], rest)
    | _ => none

def inlineTable (ms : List (List String × Datum)) : Option Datum :=
  (ms.foldlM (fun (t : Tree) m => t.assign m.1 m.2) Tree.empty).map Tree.datum

/-- A value in which others nest at most `depth` deep. -/
def value? : (depth : Nat) → Chars → Option (Datum × Chars)
  | 0, s => scalar? s
  | depth + 1, s =>
    match s with
    | '[' :: rest => (items (value? depth) (rest.length + 1) rest).map fun r => (.list r.1, r.2)
    | '\x7b' :: rest =>
      match skipGaps rest with
      | '\x7d' :: rest => some (.table [], rest)
      | s => do
        let (ms, rest) ← members (value? depth) s.length s
        return (← inlineTable ms, rest)
    | s => scalar? s

/-! ### Documents -/

/-- A document up to some line: what it says so far, and the table of the last header. -/
structure Draft where
  tree : Tree
  current : List String

/-- A header, after its first bracket. -/
def header? (draft : Draft) (s : Chars) : Option (Draft × Chars) := do
  let (double, s) := match s with
    | '[' :: s => (true, s)
    | s => (false, s)
  let (path, rest) ← key? depthLimit s
  let rest ← after? ']' rest
  let rest ← if double then after? ']' rest else some rest
  let rest ← lineEnd? rest
  let name ← path.getLast?
  let tree ← draft.tree.within false path.dropLast
    (if double then Tree.openNext name else Tree.openTable name)
  return (⟨tree, path⟩, rest)

def assignment? (draft : Draft) (s : Chars) : Option (Draft × Chars) := do
  let ((key, d), rest) ← pair? (value? depthLimit) s
  let rest ← lineEnd? rest
  let tree ← draft.tree.within false draft.current (Tree.assign key d)
  return ({ draft with tree }, rest)

/-- The lines of a document; `fuel` bounds their number. -/
def lines : (fuel : Nat) → Draft → Chars → Option Tree
  | 0, _, _ => none
  | fuel + 1, draft, s =>
    match skipGaps s with
    | [] => some draft.tree
    | '#' :: rest => do lines fuel draft (← lineEnd? ('#' :: rest))
    | '[' :: rest => do
      let (draft, rest) ← header? draft rest
      lines fuel draft rest
    | s =>
      match newline? s with
      | some rest => lines fuel draft rest
      | none => do
        let (draft, rest) ← assignment? draft s
        lines fuel draft rest

/-- The members of the table that a text spells. A byte-order mark in front does not count. -/
def parse? (text : String) : Option Datum.Members := do
  let s := match text.toList with
    | '\uFEFF' :: s => s
    | s => s
  match (← lines (s.length + 1) ⟨.empty, []⟩ s).datum with
  | .table ms => some ms
  | _ => none

end FirmwareRollout.Toml
