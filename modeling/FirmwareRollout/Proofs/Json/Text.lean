import FirmwareRollout.Json.Value

/-!
The compact text of a JSON value read back, in two passes as the reader works: the text falls into
the tokens of the value, and the tokens build the value again. The first pass knows where a number
ends because what follows a value closes it (`Closed`); the second is stated for any stack, so that
the same lemma serves at every depth.

Main statements: `scan_chars`, `foldlM_tokens` and `Value.ofText?_text`.
-/

namespace FirmwareRollout.Json

open Decimal (digits isDigit digits_ne_nil digits_zero digits_of_zero)

/-- Text that was written, as a document. -/
def source (cs : List Char) : Source := cs.map some

@[simp] theorem source_nil : source [] = [] := rfl

@[simp] theorem source_cons (c : Char) (cs : List Char) : source (c :: cs) = some c :: source cs :=
  rfl

@[simp] theorem source_append (a b : List Char) : source (a ++ b) = source a ++ source b :=
  List.map_append

/-! ### Strings -/

/-- The piece of a string literal that stands for a character. -/
def pieceOf (c : Char) : Piece :=
  if c.toNat < 0x20 ∧ c ∉ ['\x08', '\x0c', '\n', '\r', '\t'] then .unit c.toNat else .char c

theorem unit?_control : ∀ n < 0x20, unit? (some '0') (some '0') (some (Hex.digit (n / 16)))
    (some (Hex.digit (n % 16))) = some n := by
  decide

theorem pieces_escape (c : Char) (rest : Source) :
    pieces (source (escape c) ++ rest) = (pieces rest).map fun p => (pieceOf c :: p.1, p.2) := by
  unfold escape
  split
  case h_8 quotes backslash b f n r t =>
    split
    · next control =>
      have piece : pieceOf c = .unit c.toNat := by
        unfold pieceOf
        rw [if_pos ⟨control, by simp_all⟩]
      have code : (UInt8.ofNat c.toNat).toNat = c.toNat := by
        rw [UInt8.toNat_ofNat']
        omega
      rw [piece, Hex.ofByte, code]
      simp only [source_cons, source_nil, List.cons_append, List.nil_append, pieces]
      rw [if_neg (by decide), if_pos (by decide), unit?_control _ control]
    · next plain =>
      have piece : pieceOf c = .char c := if_neg fun h => plain h.1
      rw [piece, source_cons, source_nil, List.cons_append, List.nil_append, pieces.eq_def]
      simp only
      rw [if_neg quotes, if_neg backslash, if_neg plain]
  all_goals rfl

theorem spell_pieceOf (c : Char) (ps : List Piece) :
    spell (pieceOf c :: ps) = (spell ps).map (c :: ·) := by
  unfold pieceOf
  split
  · next h =>
    rw [spell.eq_def]
    simp only
    rw [if_pos (.inl (by omega)), Char.ofNat_toNat]
  · rw [spell]

theorem pieces_close (rest : Source) : pieces (some '"' :: rest) = some ([], rest) := by
  rw [pieces.eq_def]
  exact if_pos rfl

theorem pieces_text (cs : List Char) (rest : Source) :
    pieces (source (cs.flatMap escape) ++ some '"' :: rest) = some (cs.map pieceOf, rest) := by
  induction cs with
  | nil => exact pieces_close rest
  | cons c cs ih =>
    rw [List.flatMap_cons, source_append, List.append_assoc, pieces_escape, ih]
    rfl

/-- What stands for a string that spells no text, after the quote. -/
def halfPair : List Char := ['\\', 'u', 'd', '8', '0', '0', '"']

theorem quote_none : quote none = '"' :: halfPair := by
  show "\"\\ud800\"".toList = '"' :: halfPair
  simp only [String.reduceToList, halfPair]

theorem quote_some (text : String) :
    quote (some text) = '"' :: (text.toList.flatMap escape ++ ['"']) := rfl

theorem pieces_halfPair (rest : Source) :
    pieces (source halfPair ++ rest) = some ([.unit 0xD800], rest) := by
  have half : unit? (some 'd') (some '8') (some '0') (some '0') = some 0xD800 := by decide
  rw [pieces.eq_def]
  simp only [halfPair, source_cons, source_nil, List.cons_append, List.nil_append]
  rw [if_neg (by decide), if_pos trivial, half]
  simp only [pieces_close, Option.map_some]

theorem spell_text (cs : List Char) : spell (cs.map pieceOf) = some cs := by
  induction cs with
  | nil => rfl
  | cons c cs ih =>
    rw [List.map_cons, spell_pieceOf, ih]
    rfl

/-! ### Numbers -/

/-- The text is over, or goes on with what closes a value. -/
def Closed (rest : Source) : Prop :=
  ∀ c more, rest = some c :: more → c = ',' ∨ c = ']' ∨ c = '}'

theorem closed_nil : Closed [] := by
  intro c more h
  cases h

theorem digitRun_append {ds : List Char} (all : ∀ c ∈ ds, isDigit c = true) {rest : Source}
    (h : ∀ c more, rest = some c :: more → isDigit c = false) :
    digitRun (source ds ++ rest) = (ds, rest) := by
  induction ds with
  | nil =>
    rw [source_nil, List.nil_append]
    unfold digitRun
    split
    · next c more => rw [if_neg (by simp [h c more rfl])]
    · rfl
  | cons c ds ih =>
    rw [source_cons, List.cons_append, digitRun, if_pos (all c (by simp)),
      ih fun c hc => all c (by simp [hc])]

theorem Closed.not_digit {rest : Source} (h : Closed rest) :
    ∀ c more, rest = some c :: more → isDigit c = false := by
  intro c more heq
  rcases h c more heq with rfl | rfl | rfl <;> rfl

theorem Closed.fractionPart {rest : Source} (h : Closed rest) :
    fractionPart rest = some (false, rest) := by
  unfold Json.fractionPart
  split
  · next more => simpa using h _ _ rfl
  · rfl

theorem Closed.exponentPart {rest : Source} (h : Closed rest) :
    exponentPart rest = some (false, rest) := by
  unfold Json.exponentPart
  split
  · next more => simpa using h _ _ rfl
  · next more => simpa using h _ _ rfl
  · rfl

theorem someDigits_digits (n : Nat) {rest : Source} (h : Closed rest) :
    someDigits (source (digits n) ++ rest) = some (digits n, rest) := by
  rw [someDigits, digitRun_append (fun _ => Decimal.isDigit_of_mem_digits) h.not_digit,
    if_neg (digits_ne_nil n)]

theorem wholePart_digits (n : Nat) {rest : Source} (h : Closed rest) :
    wholePart (source (digits n) ++ rest) = some (n, rest) := by
  by_cases hn : n = 0
  · subst hn
    rw [digits_zero]
    rfl
  · have leading : ∀ more, source (digits n) ++ rest ≠ some '0' :: more := by
      intro more heq
      cases hd : digits n with
      | nil => exact digits_ne_nil n hd
      | cons c cs =>
        rw [hd] at heq
        obtain rfl : c = '0' := by simpa using (List.cons.inj heq).1
        exact hn (digits_of_zero hd)
    unfold wholePart
    split
    · next more heq => exact absurd heq (leading more)
    · rw [someDigits_digits n h, Option.map_some]
      simp only [Decimal.value_digits]

theorem unsigned_digits (n : Nat) {rest : Source} (h : Closed rest) :
    unsigned (source (digits n) ++ rest) = some (some n, rest) := by
  rw [unsigned, wholePart_digits n h]
  simp only [h.fractionPart, h.exponentPart]
  rfl

/-! ### The text falls into tokens -/

mutual

/-- The tokens of a value. -/
def Value.tokens : Value → List Token
  | .null => [.null]
  | .bool b => [.bool b]
  | .natural n => [.natural n]
  | .otherNumber => [.otherNumber]
  | .string text => [.string text]
  | .array [] => [.beginArray, .endArray]
  | .array (v :: rest) => .beginArray :: v.tokens ++ itemsTokens rest ++ [.endArray]
  | .object [] => [.beginObject, .endObject]
  | .object ((key, v) :: rest) =>
    .beginObject :: .string key :: .colon :: v.tokens ++ membersTokens rest ++ [.endObject]

/-- The tokens of the items of an array after the first. -/
def Value.itemsTokens : List Value → List Token
  | [] => []
  | v :: rest => .comma :: v.tokens ++ itemsTokens rest

/-- The tokens of the members of an object after the first. -/
def Value.membersTokens : List (Option String × Value) → List Token
  | [] => []
  | (key, v) :: rest => .comma :: .string key :: .colon :: v.tokens ++ membersTokens rest

end

/-- The text falls into those tokens, where `rest` comes after it. -/
def Splits (cs : List Char) (ts : List Token) (rest : Source) : Prop :=
  scan (source cs ++ rest) = (scan rest).map (ts ++ ·)

theorem Splits.nil (rest : Source) : Splits [] [] rest := by
  show scan rest = (scan rest).map fun ts => ts
  rw [Option.map_id']

theorem Splits.append {a b : List Char} {s t : List Token} {rest : Source}
    (ha : Splits a s (source b ++ rest)) (hb : Splits b t rest) : Splits (a ++ b) (s ++ t) rest := by
  unfold Splits at *
  rw [source_append, List.append_assoc, ha, hb, Option.map_map]
  exact congrArg (Option.map · _) (funext fun more => (List.append_assoc s t more).symm)

/-- A text whose first character decides over its token. -/
theorem Splits.one {c : Char} {cs : List Char} {t : Token} {rest : Source}
    (visible : isBlank c = false) (h : first c (source cs ++ rest) = some (t, rest)) :
    Splits (c :: cs) [t] rest := by
  rw [Splits, source_cons, List.cons_append, scan, if_neg (by simp [visible])]
  split
  · next h' => rw [h] at h'; cases h'
  · next h' =>
    rw [h] at h'
    cases h'
    rfl

theorem splits_beginArray (rest : Source) : Splits ['['] [.beginArray] rest := .one (by decide) rfl

theorem splits_endArray (rest : Source) : Splits [']'] [.endArray] rest := .one (by decide) rfl

theorem splits_beginObject (rest : Source) : Splits ['{'] [.beginObject] rest :=
  .one (by decide) rfl

theorem splits_endObject (rest : Source) : Splits ['}'] [.endObject] rest := .one (by decide) rfl

theorem splits_comma (rest : Source) : Splits [','] [.comma] rest := .one (by decide) rfl

theorem splits_colon (rest : Source) : Splits [':'] [.colon] rest := .one (by decide) rfl

theorem first_quote (rest : Source) : first '"' rest =
    (pieces rest).map fun p => (.string ((spell p.1).map String.ofList), p.2) := rfl

theorem splits_quote (text : Option String) (rest : Source) :
    Splits (quote text) [.string text] rest := by
  cases text with
  | none =>
    have spelt : spell [.unit 0xD800] = none := by decide
    have token := first_quote (source halfPair ++ rest)
    rw [pieces_halfPair, Option.map_some, spelt] at token
    rw [quote_none]
    exact .one (by decide) token
  | some text =>
    have token := first_quote (source (text.toList.flatMap escape) ++ some '"' :: rest)
    rw [pieces_text, Option.map_some, spell_text, Option.map_some, String.ofList_toList] at token
    rw [quote_some]
    refine .one (by decide) ?_
    rw [source_append, List.append_assoc]
    exact token

theorem first_digit {c : Char} (h : isDigit c = true) (rest : Source) :
    isBlank c = false ∧ first c rest =
      (unsigned (some c :: rest)).map fun p => ((p.1.map .natural).getD .otherNumber, p.2) := by
  let marks := ['[', ']', '{', '}', ',', ':', '"', '-', 'n', 't', 'f', ' ', '\t', '\n', '\r']
  have none : marks.all fun d => !isDigit d := by decide
  have other : ∀ d ∈ marks, c ≠ d := by
    rintro d hd rfl
    simpa [h] using List.all_eq_true.1 none c hd
  simp only [marks, List.forall_mem_cons] at other
  obtain ⟨h1, h2, h3, h4, h5, h6, h7, h8, h9, h10, h11, h12, h13, h14, h15, -⟩ := other
  refine ⟨by simp [isBlank, h12, h13, h14, h15], ?_⟩
  rw [first.eq_def]
  split <;> first | contradiction | rfl

theorem splits_digits (n : Nat) {rest : Source} (h : Closed rest) :
    Splits (digits n) [.natural n] rest := by
  have whole := unsigned_digits n h
  cases hd : digits n with
  | nil => exact absurd hd (digits_ne_nil n)
  | cons c cs =>
    rw [hd] at whole
    obtain ⟨visible, hfirst⟩ := first_digit (c := c)
      (Decimal.isDigit_of_mem_digits (n := n) (by simp [hd])) (source cs ++ rest)
    refine .one visible (hfirst.trans ?_)
    rw [← List.cons_append, ← source_cons, whole]
    rfl

theorem word_append (name : String) (token : Token) (rest : Source) :
    first.word (source name.toList ++ rest) name token = some (token, rest) := by
  have length : (source name.toList).length = name.length := by
    rw [source, List.length_map, String.length_toList]
  rw [first.word, ← length, List.take_left, List.drop_left, source, if_pos rfl]

theorem splits_null (rest : Source) : Splits Value.null.chars [.null] rest := by
  have chars : Value.null.chars = 'n' :: "ull".toList := by
    show "null".toList = _
    simp only [String.reduceToList]
  rw [chars]
  exact .one (by decide) (word_append "ull" .null rest)

theorem splits_bool (b : Bool) (rest : Source) : Splits (Value.bool b).chars [.bool b] rest := by
  cases b with
  | true =>
    have chars : (Value.bool true).chars = 't' :: "rue".toList := by
      show "true".toList = _
      simp only [String.reduceToList]
    rw [chars]
    exact .one (by decide) (word_append "rue" (.bool true) rest)
  | false =>
    have chars : (Value.bool false).chars = 'f' :: "alse".toList := by
      show "false".toList = _
      simp only [String.reduceToList]
    rw [chars]
    exact .one (by decide) (word_append "alse" (.bool false) rest)

theorem splits_otherNumber {rest : Source} (h : Closed rest) :
    Splits Value.otherNumber.chars [.otherNumber] rest := by
  have chars : Value.otherNumber.chars = '-' :: digits 0 := by
    show "-0".toList = _
    rw [digits_zero]
    simp only [String.reduceToList]
  rw [chars]
  refine .one (by decide) ?_
  show (unsigned _).map _ = _
  rw [unsigned_digits 0 h]
  rfl

theorem closed_of_mark {c : Char} (h : c = ',' ∨ c = ']' ∨ c = '}') (rest : Source) :
    Closed (some c :: rest) := by
  intro c' more heq
  cases heq
  exact h

/-- What follows an item closes it. -/
theorem Closed.items {rest : Source} (h : Closed rest) (items : List Value) :
    Closed (source (Value.itemsChars items) ++ rest) := by
  cases items with
  | nil => exact h
  | cons => exact closed_of_mark (by simp) _

theorem Closed.members {rest : Source} (h : Closed rest) (members : List (Option String × Value)) :
    Closed (source (Value.membersChars members) ++ rest) := by
  cases members with
  | nil => exact h
  | cons => exact closed_of_mark (by simp) _

mutual

/-- **The text of a value falls into its tokens.** -/
theorem splits_chars : (v : Value) → {rest : Source} → Closed rest → Splits v.chars v.tokens rest
  | .null, rest, _ => splits_null rest
  | .bool b, rest, _ => splits_bool b rest
  | .natural n, _, h => splits_digits n h
  | .otherNumber, _, h => splits_otherNumber h
  | .string text, rest, _ => splits_quote text rest
  | .array [], rest, _ => (splits_beginArray _).append (splits_endArray rest)
  | .array (v :: items), rest, _ =>
    have close : Closed (source [']'] ++ rest) := closed_of_mark (by simp) rest
    (((splits_beginArray _).append (splits_chars v (close.items items))).append
      (splits_items items close)).append (splits_endArray rest)
  | .object [], rest, _ => (splits_beginObject _).append (splits_endObject rest)
  | .object ((key, v) :: members), rest, _ =>
    have close : Closed (source ['}'] ++ rest) := closed_of_mark (by simp) rest
    ((((splits_beginObject _).append (splits_quote key _)).append
      ((splits_colon _).append (splits_chars v (close.members members)))).append
        (splits_members members close)).append (splits_endObject rest)

theorem splits_items : (items : List Value) → {rest : Source} → Closed rest →
    Splits (Value.itemsChars items) (Value.itemsTokens items) rest
  | [], rest, _ => .nil rest
  | v :: items, _, h =>
    ((splits_comma _).append (splits_chars v (h.items items))).append (splits_items items h)

theorem splits_members : (members : List (Option String × Value)) → {rest : Source} → Closed rest →
    Splits (Value.membersChars members) (Value.membersTokens members) rest
  | [], rest, _ => .nil rest
  | (key, v) :: members, _, h =>
    (((splits_comma _).append (splits_quote key _)).append
      ((splits_colon _).append (splits_chars v (h.members members)))).append
        (splits_members members h)

end

/-! ### The tokens build the value -/

/-- A value may begin here. -/
def AtValue (e : Expect) : Prop := e = .value ∨ e = .firstItem

/-- Reading those tokens takes one reader to the other. -/
def Builds (ts : List Token) (r r' : Reader) : Prop := ts.foldlM Reader.step r = some r'

theorem Builds.append {s t : List Token} {r r' r'' : Reader} (hs : Builds s r r')
    (ht : Builds t r' r'') : Builds (s ++ t) r r'' := by
  unfold Builds at *
  rw [List.foldlM_append, hs]
  exact ht

theorem Builds.one {t : Token} {r r' : Reader} (h : r.step t = some r') : Builds [t] r r' := by
  rw [Builds, List.foldlM_cons, h]
  rfl

/-- A token that begins a value does so before the first item as well. -/
theorem step_beginValue {t : Token} {stack : List Frame} {e : Expect} {r : Reader}
    (h : Reader.beginValue stack t = some r) (value : AtValue e) (other : t ≠ .endArray) :
    Reader.step ⟨stack, e⟩ t = some r := by
  rcases value with rfl | rfl
  · exact h
  · unfold Reader.step
    simp only
    split
    · exact absurd rfl other
    · exact h

mutual

/-- **The tokens of a value build it**, whatever is being read around it. -/
theorem builds_tokens : (v : Value) → (stack : List Frame) → {e : Expect} → AtValue e →
    Builds v.tokens ⟨stack, e⟩ ⟨stack, .after v⟩
  | .null, _, _, h => .one (step_beginValue rfl h (by simp))
  | .bool _, _, _, h => .one (step_beginValue rfl h (by simp))
  | .natural _, _, _, h => .one (step_beginValue rfl h (by simp))
  | .otherNumber, _, _, h => .one (step_beginValue rfl h (by simp))
  | .string _, _, _, h => .one (step_beginValue rfl h (by simp))
  | .array [], stack, _, h =>
    (Builds.one (step_beginValue rfl h (by simp))).append (.one rfl)
  | .array (v :: items), stack, _, h => by
    have opened := Builds.one (@step_beginValue .beginArray stack _ _ rfl h (by simp))
    have built := (opened.append (builds_tokens v (.array [] :: stack) (.inr rfl))).append
      (builds_items items [] v stack)
    rwa [← List.append_assoc] at built
  | .object [], stack, _, h =>
    (Builds.one (step_beginValue rfl h (by simp))).append (.one rfl)
  | .object ((key, v) :: members), stack, _, h => by
    have opened := Builds.one (@step_beginValue .beginObject stack _ _ rfl h (by simp))
    have keyed : Builds [.string key, .colon] ⟨.object [] :: stack, .firstKey⟩
        ⟨.member [] key :: stack, .value⟩ := rfl
    have built := ((opened.append keyed).append
      (builds_tokens v (.member [] key :: stack) (.inl rfl))).append
        (builds_members members [] key v stack)
    rwa [← List.append_assoc] at built

/-- The items after one that is complete, and the end of the array. -/
theorem builds_items : (items : List Value) → (before : List Value) → (v : Value) →
    (stack : List Frame) → Builds (Value.itemsTokens items ++ [.endArray])
      ⟨.array before :: stack, .after v⟩ ⟨stack, .after (.array (before.reverse ++ v :: items))⟩
  | [], before, v, stack => by
    rw [← List.reverse_cons]
    exact .one rfl
  | u :: items, before, v, stack => by
    have comma : Builds [.comma] ⟨.array before :: stack, .after v⟩
        ⟨.array (v :: before) :: stack, .value⟩ := .one rfl
    have built := (comma.append (builds_tokens u (.array (v :: before) :: stack) (.inl rfl))).append
      (builds_items items (v :: before) u stack)
    have order : (v :: before).reverse ++ u :: items = before.reverse ++ v :: u :: items := by simp
    rwa [← List.append_assoc, order] at built

/-- The members after one that is complete, and the end of the object. -/
theorem builds_members : (members : List (Option String × Value)) →
    (before : List (Option String × Value)) → (key : Option String) → (v : Value) →
    (stack : List Frame) → Builds (Value.membersTokens members ++ [.endObject])
      ⟨.member before key :: stack, .after v⟩
      ⟨stack, .after (.object (before.reverse ++ (key, v) :: members))⟩
  | [], before, key, v, stack => by
    rw [← List.reverse_cons]
    exact .one rfl
  | (next, u) :: members, before, key, v, stack => by
    have keyed : Builds [.comma, .string next, .colon] ⟨.member before key :: stack, .after v⟩
        ⟨.member ((key, v) :: before) next :: stack, .value⟩ := rfl
    have built := (keyed.append
      (builds_tokens u (.member ((key, v) :: before) next :: stack) (.inl rfl))).append
        (builds_members members ((key, v) :: before) next u stack)
    have order : ((key, v) :: before).reverse ++ (next, u) :: members =
        before.reverse ++ (key, v) :: (next, u) :: members := by simp
    rwa [← List.append_assoc, order] at built

end

/-- **Reading back.** The text of a value spells that value. -/
theorem Value.ofText?_text (v : Value) : Value.ofText? v.text = some v := by
  have split : scan (source v.chars) = some v.tokens := by
    have h := splits_chars v closed_nil
    rw [Splits, List.append_nil, scan, Option.map_some, List.append_nil] at h
    exact h
  have built : v.tokens.foldlM Reader.step ⟨[], .value⟩ = some ⟨[], .after v⟩ :=
    builds_tokens v [] (.inl rfl)
  rw [Value.ofText?, Value.text, String.toList_ofList, Value.read?]
  rw [show v.chars.map some = source v.chars from rfl, split, Option.bind_some, Value.ofTokens?,
    built]

end FirmwareRollout.Json
