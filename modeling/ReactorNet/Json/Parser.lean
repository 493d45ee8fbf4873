import ReactorNet.Json.Utf8
import ReactorNet.Json.Value

/-!
# ReactorNet — the JSON reader

The recursive-descent reader behind `JsonParser::parse`. The cursor `pos_` is an
index into the input that every function takes and returns, and `none` stands for
`return false`. An index is read only under the check that the source makes before
it, so no read is out of range.

The source counts the containers it has entered in `depth` and refuses to enter one
when `depth >= maxDepth_`. Here `budget` is `maxDepth_ - depth`: the containers that
may still be entered.
-/

namespace ReactorNet.Json

namespace Reader

open ReactorNet.Lib

variable (lib : DoubleChars) (input : Bytes)

/-! ## The cursor -/

/-- `pos_ < in_.size() && p(in_[pos_])` -/
def holdsAt (pos : Nat) (p : UInt8 → Bool) : Bool :=
  if h : pos < input.length then p input[pos] else false

def skipPass (p : UInt8 → Bool) (pos : Nat) : Pass Nat :=
  if holdsAt input pos p then .again (pos + 1) else .done pos

/-- `while (pos_ < in_.size() && p(in_[pos_])) ++pos_;` -/
def skipWhile (p : UInt8 → Bool) (pos : Nat) : Nat :=
  loop (fun i => input.length - i) (skipPass input p) pos

def isWhitespace (c : UInt8) : Bool := c == 0x20 || c == 0x09 || c == 0x0A || c == 0x0D

def skipWhitespace (pos : Nat) : Nat := skipWhile input isWhitespace pos

def consume (literal : Bytes) (pos : Nat) : Option Nat :=
  if slice input pos literal.length = literal then some (pos + literal.length) else none

/-- The bytes behind the cursor of a loop; a loop that has failed has none left. -/
def left {α : Type} : Option (α × Nat) → Nat
  | none => 0
  | some (_, pos) => input.length - pos

variable {input}

variable {pos : Nat} {p : UInt8 → Bool}

theorem holdsAt_iff : holdsAt input pos p = true ↔ ∃ b, input[pos]? = some b ∧ p b = true := by
  by_cases h : pos < input.length
  · rw [holdsAt, dif_pos h, List.getElem?_eq_getElem h]
    simp
  · rw [holdsAt, dif_neg h, List.getElem?_eq_none (by omega)]
    simp

theorem holdsAt_of_getElem? {b : UInt8} (h : input[pos]? = some b) : holdsAt input pos p = p b := by
  obtain ⟨hPos, rfl⟩ := List.getElem?_eq_some_iff.mp h
  rw [holdsAt, dif_pos hPos]

theorem holdsAt_length (p : UInt8 → Bool) : holdsAt input input.length p = false := by
  rw [holdsAt, dif_neg (Nat.lt_irrefl _)]

theorem holdsAt_beq {c : UInt8} : holdsAt input pos (· == c) = true ↔ input[pos]? = some c := by
  rw [holdsAt_iff]
  constructor
  · rintro ⟨b, hb, hc⟩
    rwa [← beq_iff_eq.mp hc]
  · intro h
    exact ⟨c, h, beq_self_eq_true c⟩

theorem skipPass_lt (i j : Nat) (h : skipPass input p i = .again j) :
    input.length - j < input.length - i := by
  rw [skipPass] at h
  split_ifs at h with hp
  obtain ⟨b, hb, -⟩ := holdsAt_iff.mp hp
  have hi := (List.getElem?_eq_some_iff.mp hb).1
  cases h
  omega

/-- The loop passes over bytes that satisfy `p`, and stops where none follows. -/
theorem skipWhile_spans (p : UInt8 → Bool) (hPos : pos ≤ input.length) :
    ∃ s, Spans input pos s (skipWhile input p pos) ∧ (∀ b ∈ s, p b = true) ∧
      holdsAt input (skipWhile input p pos) p = false := by
  have hLoop : ∀ i, i ≤ input.length → ∃ s, Spans input i s (skipWhile input p i) ∧
      (∀ b ∈ s, p b = true) ∧ holdsAt input (skipWhile input p i) p = false := by
    intro i
    refine loop_induct (P := fun i j => i ≤ input.length → ∃ s, Spans input i s j ∧
      (∀ b ∈ s, p b = true) ∧ holdsAt input j p = false) skipPass_lt ?_ ?_ i
    · intro i j h hi
      rw [skipPass] at h
      split_ifs at h with hp
      cases h
      exact ⟨[], spans_nil.mpr ⟨rfl, hi⟩, by simp, by simpa using hp⟩
    · intro i j r h ih hi
      rw [skipPass] at h
      split_ifs at h with hp
      cases h
      obtain ⟨b, hb, hpb⟩ := holdsAt_iff.mp hp
      -- the byte is there, so the next index is still within the input
      obtain ⟨s, hs, hAll, hStop⟩ := ih (by have := (List.getElem?_eq_some_iff.mp hb).1; omega)
      exact ⟨b :: s, spans_cons.mpr ⟨hb, hs⟩, List.forall_mem_cons.mpr ⟨hpb, hAll⟩, hStop⟩
  exact hLoop pos hPos

/-- The loop passes over exactly the bytes that satisfy `p`. -/
theorem skipWhile_eq {i j : Nat} {s : Bytes} (hs : Spans input i s j) (hAll : ∀ b ∈ s, p b = true)
    (hStop : holdsAt input j p = false) : skipWhile input p i = j := by
  induction s generalizing i with
  | nil =>
    obtain ⟨rfl, -⟩ := spans_nil.mp hs
    exact loop_done (by rw [skipPass, hStop]; rfl)
  | cons b s ih =>
    obtain ⟨hb, hRest⟩ := spans_cons.mp hs
    -- a pass over the first byte
    have hPass : skipPass input p i = .again (i + 1) := by
      rw [skipPass, if_pos (holdsAt_iff.mpr ⟨b, hb, hAll b (List.mem_cons_self ..)⟩)]
    have hStep : skipWhile input p i = skipWhile input p (i + 1) := loop_again skipPass_lt hPass
    rw [hStep]
    exact ih hRest fun b' hb' => hAll b' (List.mem_cons_of_mem b hb')

theorem consume_iff {literal : Bytes} {i j : Nat} (hi : i ≤ input.length) :
    consume input literal i = some j ↔ Spans input i literal j := by
  rw [consume]
  constructor
  · intro h
    split_ifs at h with hSlice
    cases h
    -- `substr` stops at the end of the input, so a full match lies within it
    have hLe : i + literal.length ≤ input.length := by
      have hLen := congrArg List.length hSlice
      rw [slice, List.length_take, List.length_drop] at hLen
      omega
    have hSpan : Spans input i _ (i + literal.length) := spans_slice (by omega) hLe
    rwa [Nat.add_sub_cancel_left, hSlice] at hSpan
  · intro h
    have hSlice := h.slice_eq
    rw [h.length, Nat.add_sub_cancel_left] at hSlice
    rw [if_pos hSlice, h.length]

variable (input)

/-! ## Numbers -/

/-- `int`, from the first digit on. -/
def scanInt (pos : Nat) : Option Nat :=
  if h : pos < input.length then
    if input[pos] = 0x30 then
      if holdsAt input (pos + 1) isDigit then none -- leading zero
      else some (pos + 1)
    else if 0x31 ≤ input[pos] ∧ input[pos] ≤ 0x39 then some (skipWhile input isDigit pos)
    else none
  else none

/-- The fraction, and whether there is one. -/
def scanFrac (pos : Nat) : Option (Bool × Nat) :=
  if holdsAt input pos (· == 0x2E) then
    if holdsAt input (pos + 1) isDigit then some (true, skipWhile input isDigit (pos + 1))
    else none
  else some (false, pos)

/-- The sign of an exponent. -/
def skipSign (pos : Nat) : Nat :=
  if holdsAt input pos (fun c => c == 0x2B || c == 0x2D) then pos + 1 else pos

/-- The exponent, and whether there is one. -/
def scanExp (pos : Nat) : Option (Bool × Nat) :=
  if holdsAt input pos (fun c => c == 0x65 || c == 0x45) then
    if holdsAt input (skipSign input (pos + 1)) isDigit then
      some (true, skipWhile input isDigit (skipSign input (pos + 1)))
    else none
  else some (false, pos)

/-- The integer of a token, if `std::from_chars` takes the whole token for one. -/
def readInteger (token : Bytes) : Option Int64 :=
  match fromCharsInt token with
  | .ok count n => if count = token.length then some n else none
  | _ => none

/-- The double of a token; `none` includes overflow to infinity and underflow to zero. -/
def readDouble (token : Bytes) : Option lib.Double :=
  match lib.fromChars token with
  | .ok count x => if count = token.length ∧ lib.isFinite x = true then some x else none
  | _ => none

/-- The value of a token. An integer out of the `int64_t` range is kept as a double. -/
def readNumber (isFloating : Bool) (token : Bytes) : Option (JsonValue lib.Double) :=
  -- only a token without fraction and exponent is tried as an integer
  match if isFloating then none else readInteger token with
  | some n => some (.integer n)
  | none => (readDouble lib token).map .number

/-- The minus sign in front of a number. -/
def skipMinus (pos : Nat) : Nat :=
  if holdsAt input pos (· == 0x2D) then pos + 1 else pos

def parseNumber (start : Nat) : Option (JsonValue lib.Double × Nat) := do
  let pos ← scanInt input (skipMinus input start)
  let (frac, pos) ← scanFrac input pos
  let (exp, pos) ← scanExp input pos
  let value ← readNumber lib (frac || exp) (slice input start (pos - start))
  return (value, pos)

/-! ## Strings -/

/-- The value of a hexadecimal digit; the source returns `-1` where this is `none`. -/
def hexDigit (c : UInt8) : Option Nat :=
  if 0x30 ≤ c ∧ c ≤ 0x39 then some (c.toNat - 0x30)
  else if 0x61 ≤ c ∧ c ≤ 0x66 then some (c.toNat - 0x61 + 10)
  else if 0x41 ≤ c ∧ c ≤ 0x46 then some (c.toNat - 0x41 + 10)
  else none

/-- The loop of `readHex4`. -/
def hexValue (value : Nat) : Bytes → Option Nat
  | [] => some value
  | c :: cs =>
    match hexDigit c with
    | some digit => hexValue (value <<< 4 ||| digit) cs
    | none => none

def readHex4 (pos : Nat) : Option (Nat × Nat) :=
  if pos + 4 > input.length then none
  else (hexValue 0 (slice input pos 4)).map fun value => (value, pos + 4)

/-- The text for a `\u` escape, with the cursor behind the `u`. -/
def parseUnicodeEscape (pos : Nat) : Option (Bytes × Nat) := do
  let (codePoint, pos) ← readHex4 input pos
  if 0xD800 ≤ codePoint ∧ codePoint ≤ 0xDBFF then
    -- a high surrogate needs the low surrogate in an escape right behind it
    if holdsAt input pos (· == 0x5C) && holdsAt input (pos + 1) (· == 0x75) then
      let (low, pos) ← readHex4 input (pos + 2)
      if low < 0xDC00 ∨ low > 0xDFFF then none
      else some (appendUtf8 (0x10000 + (codePoint - 0xD800) <<< 10 + (low - 0xDC00)), pos)
    else none
  else if 0xDC00 ≤ codePoint ∧ codePoint ≤ 0xDFFF then none -- lone low surrogate
  else some (appendUtf8 codePoint, pos)

/-- The escapes of one character. -/
def simpleEscape : UInt8 → Option UInt8
  | 0x22 => some 0x22
  | 0x5C => some 0x5C
  | 0x2F => some 0x2F
  | 0x62 => some 0x08
  | 0x66 => some 0x0C
  | 0x6E => some 0x0A
  | 0x72 => some 0x0D
  | 0x74 => some 0x09
  | _ => none

/-- The text for an escape, with the cursor behind the backslash. -/
def parseEscape (pos : Nat) : Option (Bytes × Nat) :=
  if h : pos < input.length then
    if input[pos] = 0x75 then parseUnicodeEscape input (pos + 1)
    else (simpleEscape input[pos]).map fun c => ([c], pos + 1)
  else none

def stringPass : Option (Bytes × Nat) → Pass (Option (Bytes × Nat))
  | none => .done none
  | some (text, pos) =>
    if h : pos < input.length then
      -- the text is checked once, when it is complete: raw bytes and decoded escapes alike
      if input[pos] = 0x22 then
        .done (if isValidUtf8 text then some (text, pos + 1) else none)
      else if input[pos] = 0x5C then
        match parseEscape input (pos + 1) with
        | some (bytes, pos) => .again (some (text ++ bytes, pos))
        | none => .done none
      else if input[pos] < 0x20 then .done none -- unescaped control character
      else .again (some (text ++ [input[pos]], pos + 1))
    else .done none -- unterminated

def parseString (pos : Nat) : Option (Bytes × Nat) :=
  if holdsAt input pos (· == 0x22) then
    loop (left input) (stringPass input) (some ([], pos + 1))
  else none

/-! ## Values -/

/-- One item of a container and what stands behind it. -/
def itemPass {α : Type} (item : Nat → Option (α × Nat)) (close : UInt8) :
    Option (List α × Nat) → Pass (Option (List α × Nat))
  | none => .done none
  | some (items, pos) =>
    match item (skipWhitespace input pos) with
    | none => .done none
    | some (value, pos) =>
      if h : skipWhitespace input pos < input.length then
        -- a trailing comma fails when the next item is read
        if input[skipWhitespace input pos] = 0x2C then
          .again (some (items ++ [value], skipWhitespace input pos + 1))
        else if input[skipWhitespace input pos] = close then
          .done (some (items ++ [value], skipWhitespace input pos + 1))
        else .done none
      else .done none

/-- The body that `parseArray` and `parseObject` share, from the opening bracket on. -/
def parseItems {α : Type} (item : Nat → Option (α × Nat)) (close : UInt8) (pos : Nat) :
    Option (List α × Nat) :=
  if holdsAt input (skipWhitespace input (pos + 1)) (· == close) then
    some ([], skipWhitespace input (pos + 1) + 1)
  else loop (left input) (itemPass input item close) (some ([], skipWhitespace input (pos + 1)))

def parseArray (element : Nat → Option (JsonValue lib.Double × Nat)) (pos : Nat) :
    Option (JsonValue lib.Double × Nat) :=
  (parseItems input element 0x5D pos).map fun (items, pos) => (.array items, pos)

/-- A key, a colon and a value. -/
def parseMember {α : Type} (value : Nat → Option (α × Nat)) (pos : Nat) :
    Option ((Bytes × α) × Nat) := do
  let (key, pos) ← parseString input pos
  if holdsAt input (skipWhitespace input pos) (· == 0x3A) then
    let (v, pos) ← value (skipWhitespace input (skipWhitespace input pos + 1))
    return ((key, v), pos)
  else none

def parseObject (value : Nat → Option (JsonValue lib.Double × Nat)) (pos : Nat) :
    Option (JsonValue lib.Double × Nat) :=
  (parseItems input (parseMember input value) 0x7D pos).map fun (members, pos) =>
    (.object members, pos)

def parseValue (budget pos : Nat) : Option (JsonValue lib.Double × Nat) :=
  if h : pos < input.length then
    if input[pos] = 0x6E then
      (consume input [0x6E, 0x75, 0x6C, 0x6C] pos).map fun pos => (.null, pos)
    else if input[pos] = 0x74 then
      (consume input [0x74, 0x72, 0x75, 0x65] pos).map fun pos => (.bool true, pos)
    else if input[pos] = 0x66 then
      (consume input [0x66, 0x61, 0x6C, 0x73, 0x65] pos).map fun pos => (.bool false, pos)
    else if input[pos] = 0x22 then
      (parseString input pos).map fun (text, pos) => (.string text, pos)
    else if input[pos] = 0x5B then
      match budget with
      | 0 => none -- entering this container would exceed the limit
      | budget + 1 => parseArray lib input (parseValue budget) pos
    else if input[pos] = 0x7B then
      match budget with
      | 0 => none
      | budget + 1 => parseObject lib input (parseValue budget) pos
    else parseNumber lib input pos
  else none

end Reader

open Reader in
/-- `JsonParser::parse`. A failed parse leaves the caller's value as it was. -/
def parse (lib : DoubleChars) (maxDepth : Nat) (input : Bytes) :
    Option (JsonValue lib.Double) := do
  let (value, pos) ← parseValue lib input maxDepth (skipWhitespace input 0)
  -- trailing garbage
  if skipWhitespace input pos = input.length then return value else none

end ReactorNet.Json
