import FirmwareRollout.Deployment.Basic
import FirmwareRollout.Text.Hex

/-!
Where the request for a stage is sent: the path under the bridge's base address, in the normal form
of the URL standard. Dot segments are resolved, back slashes count as slashes, and what may not
stand in a path is percent-encoded.
-/

namespace FirmwareRollout.Target

/-- A base address without the slashes that it ends in. -/
def trimSlashes (base : List Char) : List Char := (base.reverse.dropWhile (· = '/')).reverse

def address (base : String) (stage : Stage) : List Char :=
  trimSlashes base.toList ++ "/fuota/steps/".toList ++ stage.tag.toList

/-- A character in percent-encoding: `%` and two digits for each byte of its UTF-8 form. -/
def percent (c : Char) : List Char :=
  (String.utf8EncodeChar c).flatMap fun b => '%' :: (Hex.ofByte b).map Char.toUpper

/-- Encodes the control characters, what is beyond ASCII, and the characters of `reserved`. -/
def encode (reserved : List Char) (cs : List Char) : List Char :=
  cs.flatMap fun c => if c.toNat ≤ 0x20 ∨ 0x7E < c.toNat ∨ c ∈ reserved then percent c else [c]

/-- What may not stand in a path. -/
def pathReserved : List Char := ['"', '<', '>', '\x60', '#', '?', '\x7b', '\x7d']

/-- What may not stand in a query. -/
def queryReserved : List Char := ['"', '<', '>', '#', '\'']

def segments (separator : Char → Bool) : List Char → List (List Char)
  | [] => [[]]
  | c :: rest =>
    if separator c then [] :: segments separator rest
    else
      match segments separator rest with
      | [] => [[c]]
      | s :: ss => (c :: s) :: ss

/-- A segment with its encoded dots decoded, in lower case. -/
def plainDots : List Char → List Char
  | '%' :: '2' :: 'e' :: rest => '.' :: plainDots rest
  | '%' :: '2' :: 'E' :: rest => '.' :: plainDots rest
  | c :: rest => c :: plainDots rest
  | [] => []

/-- Resolves dot segments: one dot stands for the place itself, two for the one above. `done` holds
the segments so far in reverse. -/
def resolve (done : List (List Char)) : List (List Char) → List (List Char)
  | [] => done.reverse
  | s :: rest =>
    if plainDots s = ['.', '.'] then resolve (if rest = [] then [] :: done.tail else done.tail) rest
    else if plainDots s = ['.'] then resolve (if rest = [] then [] :: done else done) rest
    else resolve (encode pathReserved s :: done) rest

/-- The target of a request in its first line: path and query of an address. -/
def ofAddress (address : List Char) : List Char :=
  let shown := address.filter fun c => c ≠ '\t' ∧ c ≠ '\n' ∧ c ≠ '\r'
  let afterScheme := (shown.dropWhile (· ≠ ':')).drop 3
  let rest := afterScheme.dropWhile fun c => c ≠ '/' ∧ c ≠ '\\' ∧ c ≠ '?' ∧ c ≠ '#'
  let path := rest.takeWhile fun c => c ≠ '?' ∧ c ≠ '#'
  let query := (rest.dropWhile fun c => c ≠ '?' ∧ c ≠ '#').takeWhile (· ≠ '#')
  let parts := resolve [] ((segments (fun c => c = '/' ∨ c = '\\') path).drop 1)
  (if parts = [] then ['/'] else parts.flatMap ('/' :: ·)) ++
    match query with
    | [] => []
    | mark :: q => mark :: encode queryReserved q

/-- The first line of the request for a stage. -/
def requestLine (base : String) (stage : Stage) : String :=
  "POST " ++ String.ofList (ofAddress (address base stage)) ++ " HTTP/1.1"

end FirmwareRollout.Target
