import FirmwareRollout.Text.Decimal

/-!
The parts of TOML that are text: blanks, comments, the ends of lines, and the four kinds of strings.
Each reader takes what it knows from the front of a text and gives the rest.
-/

namespace FirmwareRollout.Toml

abbrev Chars := List Char

/-- A space or a tab. -/
def isGap (c : Char) : Bool := c = ' ' || c = '\t'

/-- A character of comments and strings: no control character but the tab. -/
def isPlain (c : Char) : Bool := c = '\t' || (0x20 ≤ c.toNat && c.toNat ≠ 0x7F)

def skipGaps (s : Chars) : Chars := s.dropWhile isGap

/-- What follows a line break. -/
def newline? : Chars → Option Chars
  | '\n' :: rest => some rest
  | '\r' :: '\n' :: rest => some rest
  | _ => none

/-- What follows the end of a line: gaps, a comment, and a line break or the end of the text. -/
def lineEnd? (s : Chars) : Option Chars :=
  let rest := match skipGaps s with
    | '#' :: rest => rest.dropWhile isPlain
    | rest => rest
  match rest with
  | [] => some []
  | rest => newline? rest

/-- The text without the gaps, line breaks and comments it starts with. -/
def skipLines (inComment : Bool) : Chars → Chars
  | '\n' :: rest => skipLines false rest
  | '\r' :: '\n' :: rest => skipLines false rest
  | c :: rest =>
    if inComment then if isPlain c then skipLines true rest else c :: rest
    else if isGap c then skipLines false rest
    else if c = '#' then skipLines true rest
    else c :: rest
  | [] => []

/-! ### Strings -/

/-- The value of a digit in a base up to sixteen. -/
def digitIn? (base : Nat) (c : Char) : Option Nat :=
  let n := c.toNat
  let v :=
    if 48 ≤ n ∧ n ≤ 57 then n - 48
    else if 97 ≤ n ∧ n ≤ 102 then n - 87
    else if 65 ≤ n ∧ n ≤ 70 then n - 55
    else base
  if v < base then some v else none

def unicode? (digits : Chars) : Option Char := do
  let values ← digits.mapM (digitIn? 16)
  let code := values.foldl (fun n d => 16 * n + d) 0
  if h : code.isValidChar then some (Char.ofNatAux code h) else none

/-- The character that stands for another after a backslash. -/
def escape? : Char → Option Char
  | 'b' => some '\x08'
  | 't' => some '\t'
  | 'n' => some '\n'
  | 'f' => some '\x0c'
  | 'r' => some '\r'
  | '"' => some '"'
  | '\\' => some '\\'
  | _ => none

/-- Puts a character in front of a string that was read, if there are both. -/
def prepend (c : Option Char) (s : Option (Chars × Chars)) : Option (Chars × Chars) := do
  let c ← c
  let (cs, rest) ← s
  return (c :: cs, rest)

/-- The rest of a string in double quotes. -/
def basic : Chars → Option (Chars × Chars)
  | '"' :: rest => some ([], rest)
  | '\\' :: 'u' :: a :: b :: c :: d :: rest => prepend (unicode? [a, b, c, d]) (basic rest)
  | '\\' :: 'U' :: a :: b :: c :: d :: e :: f :: g :: h :: rest =>
    prepend (unicode? [a, b, c, d, e, f, g, h]) (basic rest)
  | '\\' :: c :: rest => prepend (escape? c) (basic rest)
  | c :: rest => if isPlain c then prepend c (basic rest) else none
  | [] => none

/-- The rest of a string in single quotes. -/
def literal : Chars → Option (Chars × Chars)
  | '\'' :: rest => some ([], rest)
  | c :: rest => if isPlain c then prepend c (literal rest) else none
  | [] => none

/-- The rest of a string in three double quotes. A backslash at the end of a line takes the blanks
and line breaks after it with it (`skipping`); up to two quotes may stand before the end. -/
def multilineBasic (skipping : Bool) : Chars → Option (Chars × Chars)
  | '"' :: '"' :: '"' :: '"' :: '"' :: rest => some (['"', '"'], rest)
  | '"' :: '"' :: '"' :: '"' :: rest => some (['"'], rest)
  | '"' :: '"' :: '"' :: rest => some ([], rest)
  | '\r' :: '\n' :: rest =>
    if skipping then multilineBasic true rest else prepend '\n' (multilineBasic false rest)
  | '\n' :: rest =>
    if skipping then multilineBasic true rest else prepend '\n' (multilineBasic false rest)
  | '\\' :: 'u' :: a :: b :: c :: d :: rest =>
    prepend (unicode? [a, b, c, d]) (multilineBasic false rest)
  | '\\' :: 'U' :: a :: b :: c :: d :: e :: f :: g :: h :: rest =>
    prepend (unicode? [a, b, c, d, e, f, g, h]) (multilineBasic false rest)
  | '\\' :: c :: rest =>
    if (newline? (skipGaps (c :: rest))).isSome then
      if c = '\r' then multilineBasic true rest.tail else multilineBasic true rest
    else prepend (escape? c) (multilineBasic false rest)
  | c :: rest =>
    if skipping && isGap c then multilineBasic true rest
    else if isPlain c then prepend c (multilineBasic false rest)
    else none
  | [] => none
termination_by s => s.length

/-- The rest of a string in three single quotes. -/
def multilineLiteral : Chars → Option (Chars × Chars)
  | '\'' :: '\'' :: '\'' :: '\'' :: '\'' :: rest => some (['\'', '\''], rest)
  | '\'' :: '\'' :: '\'' :: '\'' :: rest => some (['\''], rest)
  | '\'' :: '\'' :: '\'' :: rest => some ([], rest)
  | '\r' :: '\n' :: rest => prepend '\n' (multilineLiteral rest)
  | '\n' :: rest => prepend '\n' (multilineLiteral rest)
  | c :: rest => if isPlain c then prepend c (multilineLiteral rest) else none
  | [] => none

/-- The text without a line break at its start. -/
def dropNewline (s : Chars) : Chars := (newline? s).getD s

def string? : Chars → Option (String × Chars)
  | '"' :: '"' :: '"' :: rest =>
    (multilineBasic false (dropNewline rest)).map fun r => (String.ofList r.1, r.2)
  | '"' :: rest => (basic rest).map fun r => (String.ofList r.1, r.2)
  | '\'' :: '\'' :: '\'' :: rest =>
    (multilineLiteral (dropNewline rest)).map fun r => (String.ofList r.1, r.2)
  | '\'' :: rest => (literal rest).map fun r => (String.ofList r.1, r.2)
  | _ => none

/-! ### Keys -/

def isBare (c : Char) : Bool :=
  let n := c.toNat
  (48 ≤ n && n ≤ 57) || (65 ≤ n && n ≤ 90) || (97 ≤ n && n ≤ 122) || c = '_' || c = '-'

def keyPart? : Chars → Option (String × Chars)
  | '"' :: rest => (basic rest).map fun r => (String.ofList r.1, r.2)
  | '\'' :: rest => (literal rest).map fun r => (String.ofList r.1, r.2)
  | s =>
    match s.takeWhile isBare with
    | [] => none
    | name => some (String.ofList name, s.dropWhile isBare)

/-- A key of at most `limit` parts with dots between them, and the gaps around it. -/
def key? : (limit : Nat) → Chars → Option (List String × Chars)
  | 0, _ => none
  | limit + 1, s => do
    let (part, rest) ← keyPart? (skipGaps s)
    match skipGaps rest with
    | '.' :: rest =>
      let (parts, rest) ← key? limit rest
      return (part :: parts, rest)
    | rest => return ([part], rest)

/-- How deep values may nest, and how many parts a key may have. -/
def depthLimit : Nat := 79

end FirmwareRollout.Toml
