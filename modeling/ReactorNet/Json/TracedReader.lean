import ReactorNet.Json.Parser
import ReactorNet.Lib.Scan

/-!
# ReactorNet — the JSON reader with its cursor

The functions of `Reader` once more, as the source has them: `pos_` is a member that they
move, `in_[pos_]` is not checked, `while (true)` has no bound, and `parseValue` calls
itself through the containers. They are scanners, so a run records what they read, where
the cursor was, how far each value reached and how many containers were open at a time.

The loops get `fuel` passes each, and `parseValue` may be active `calls` times; a run that
needs more has no result. The containers are counted in `depth`, as in the source.
-/

namespace ReactorNet.Json

open ReactorNet.Lib

namespace TracedReader

open Reader (isWhitespace readNumber hexDigit simpleEscape)

variable (lib : DoubleChars) (input : Bytes) (fuel maxDepth : Nat)

/-! ## The cursor -/

/-- `pos_ < in_.size() && p(in_[pos_])` -/
def holds (p : UInt8 → Bool) : Scan Bool := do
  let pos ← Scan.position
  if pos < input.length then do
    let c ← Scan.fetch input pos
    pure (p c)
  else pure false

def skipPass (p : UInt8 → Bool) (_ : Unit) : Scan (Pass Unit) := do
  let more ← holds input p
  if more then do
    Scan.advance 1
    pure (.again ())
  else pure (.done ())

/-- `while (pos_ < in_.size() && p(in_[pos_])) ++pos_;` -/
def skipWhile (p : UInt8 → Bool) : Scan Unit := Scan.loop (skipPass input p) fuel ()

def skipWhitespace : Scan Unit := skipWhile input fuel isWhitespace

def consume (literal : Bytes) : Scan Unit := do
  let pos ← Scan.position
  let s ← Scan.substr input pos literal.length
  if s = literal then Scan.advance literal.length else Scan.fail

/-- `if (pos_ < in_.size() && p(in_[pos_])) ++pos_;` -/
def skipIf (p : UInt8 → Bool) : Scan Unit := do
  let found ← holds input p
  if found then Scan.advance 1 else pure ()

/-! ## Numbers -/

/-- `int`, from the first digit on. -/
def scanInt : Scan Unit := do
  let pos ← Scan.position
  if pos < input.length then do
    let c ← Scan.fetch input pos
    if c = 0x30 then do
      Scan.advance 1
      -- a digit behind a leading zero
      let leading ← holds input isDigit
      if leading then Scan.fail else pure ()
    else do
      let c ← Scan.fetch input pos
      if 0x31 ≤ c ∧ c ≤ 0x39 then skipWhile input fuel isDigit else Scan.fail
  else Scan.fail

/-- At least one digit. -/
def scanDigits : Scan Unit := do
  let digit ← holds input isDigit
  if digit then skipWhile input fuel isDigit else Scan.fail

/-- The fraction, and whether there is one. -/
def scanFrac : Scan Bool := do
  let point ← holds input (· == 0x2E)
  if point then do
    Scan.advance 1
    scanDigits input fuel
    pure true
  else pure false

/-- The exponent, and whether there is one. -/
def scanExp : Scan Bool := do
  let mark ← holds input (fun c => c == 0x65 || c == 0x45)
  if mark then do
    Scan.advance 1
    skipIf input (fun c => c == 0x2B || c == 0x2D)
    scanDigits input fuel
    pure true
  else pure false

def parseNumber : Scan (JsonValue lib.Double) := do
  let start ← Scan.position
  skipIf input (· == 0x2D)
  scanInt input fuel
  let frac ← scanFrac input fuel
  let exp ← scanExp input fuel
  let last ← Scan.position
  -- what `std::from_chars` gets
  let token ← Scan.range input start last
  match readNumber lib (frac || exp) token with
  | some value => pure value
  | none => Scan.fail

/-! ## Strings -/

/-- The loop of `readHex4`, with `count` digits left and the next at `pos_ + i`. -/
def hexDigits (pos : Nat) : Nat → Nat → Nat → Scan Nat
  | 0, _, value => pure value
  | count + 1, i, value => do
    let c ← Scan.fetch input (pos + i)
    match hexDigit c with
    | some digit => hexDigits pos count (i + 1) (value <<< 4 ||| digit)
    | none => Scan.fail

def readHex4 : Scan Nat := do
  let pos ← Scan.position
  if pos + 4 > input.length then Scan.fail
  else do
    -- the cursor moves once all four have been read
    let value ← hexDigits input pos 4 0 0
    Scan.advance 4
    pure value

/-- The low surrogate that has to stand behind a high one. -/
def lowSurrogate : Scan Nat := do
  let pos ← Scan.position
  if pos + 2 > input.length then Scan.fail
  else do
    let backslash ← Scan.fetch input pos
    if backslash ≠ 0x5C then Scan.fail
    else do
      let u ← Scan.fetch input (pos + 1)
      if u ≠ 0x75 then Scan.fail
      else do
        Scan.advance 2
        let low ← readHex4 input
        if low < 0xDC00 ∨ low > 0xDFFF then Scan.fail else pure low

def parseUnicodeEscape : Scan Bytes := do
  let codePoint ← readHex4 input
  if 0xD800 ≤ codePoint ∧ codePoint ≤ 0xDBFF then do
    let low ← lowSurrogate input
    pure (appendUtf8 (0x10000 + (codePoint - 0xD800) <<< 10 + (low - 0xDC00)))
  else if 0xDC00 ≤ codePoint ∧ codePoint ≤ 0xDFFF then Scan.fail -- lone low surrogate
  else pure (appendUtf8 codePoint)

def parseEscape : Scan Bytes := do
  let pos ← Scan.position
  if pos < input.length then do
    let c ← Scan.fetch input pos
    Scan.advance 1
    if c = 0x75 then parseUnicodeEscape input
    else
      match simpleEscape c with
      | some b => pure [b]
      | none => Scan.fail
  else Scan.fail

def stringPass (text : Bytes) : Scan (Pass Bytes) := do
  let pos ← Scan.position
  if pos < input.length then do
    let c ← Scan.fetch input pos
    -- `in_[pos_++]`: the cursor moves before the byte is looked at
    Scan.advance 1
    if c = 0x22 then
      if isValidUtf8 text then pure (.done text) else Scan.fail
    else if c = 0x5C then do
      let bytes ← parseEscape input
      pure (.again (text ++ bytes))
    else if c < 0x20 then Scan.fail -- unescaped control character
    else pure (.again (text ++ [c]))
  else Scan.fail

def parseString : Scan Bytes := do
  let quote ← holds input (· == 0x22)
  if quote then do
    Scan.advance 1
    Scan.loop (stringPass input) fuel []
  else Scan.fail

/-! ## Values -/

/-- One item of a container and what stands behind it. -/
def itemPass {α : Type} (item : Scan α) (close : UInt8) (items : List α) :
    Scan (Pass (List α)) := do
  skipWhitespace input fuel
  let value ← item
  skipWhitespace input fuel
  let pos ← Scan.position
  if pos < input.length then do
    let c ← Scan.fetch input pos
    if c = 0x2C then do
      -- a trailing comma fails when the next item is read
      Scan.advance 1
      pure (.again (items ++ [value]))
    else do
      let c ← Scan.fetch input pos
      if c = close then do
        Scan.advance 1
        pure (.done (items ++ [value]))
      else Scan.fail
  else Scan.fail

/-- The body that `parseArray` and `parseObject` share, from the opening bracket on. -/
def parseItems {α : Type} (item : Scan α) (close : UInt8) : Scan (List α) := do
  Scan.advance 1
  skipWhitespace input fuel
  let empty ← holds input (· == close)
  if empty then do
    Scan.advance 1
    pure []
  else Scan.loop (itemPass input fuel item close) fuel []

def parseArray (depth : Nat) (element : Scan (JsonValue lib.Double)) :
    Scan (JsonValue lib.Double) :=
  -- a container that would exceed the limit is not entered
  if depth ≥ maxDepth then Scan.fail
  else Scan.nested do
    let items ← parseItems input fuel element 0x5D
    pure (.array items)

/-- A key, a colon and a value. -/
def parseMember {α : Type} (value : Scan α) : Scan (Bytes × α) := do
  let key ← parseString input fuel
  skipWhitespace input fuel
  let colon ← holds input (· == 0x3A)
  if colon then do
    Scan.advance 1
    skipWhitespace input fuel
    let v ← value
    pure (key, v)
  else Scan.fail

def parseObject (depth : Nat) (value : Scan (JsonValue lib.Double)) :
    Scan (JsonValue lib.Double) :=
  if depth ≥ maxDepth then Scan.fail
  else Scan.nested do
    let members ← parseItems input fuel (parseMember input fuel value) 0x7D
    pure (.object members)

/-- A literal, and the value it stands for. -/
def parseLiteral (literal : Bytes) (value : JsonValue lib.Double) :
    Scan (JsonValue lib.Double) := do
  consume input literal
  pure value

/-- The switch on the first byte of a value. -/
def parseSwitch (depth : Nat) (inner : Scan (JsonValue lib.Double)) :
    Scan (JsonValue lib.Double) := do
  let pos ← Scan.position
  if pos < input.length then do
    let c ← Scan.fetch input pos
    if c = 0x6E then parseLiteral lib input [0x6E, 0x75, 0x6C, 0x6C] .null
    else if c = 0x74 then parseLiteral lib input [0x74, 0x72, 0x75, 0x65] (.bool true)
    else if c = 0x66 then parseLiteral lib input [0x66, 0x61, 0x6C, 0x73, 0x65] (.bool false)
    else if c = 0x22 then do
      let text ← parseString input fuel
      pure (.string text)
    else if c = 0x5B then parseArray lib input fuel maxDepth depth inner
    else if c = 0x7B then parseObject lib input fuel maxDepth depth inner
    else parseNumber lib input fuel
  else Scan.fail

/-- `parseValue(depth, out)`; the containers call it with `depth + 1`. -/
def parseValue : Nat → Nat → Scan (JsonValue lib.Double)
  | 0, _ => fun _ => none
  | calls + 1, depth =>
    Scan.taking (parseSwitch lib input fuel maxDepth depth (parseValue calls (depth + 1)))

/-- `Reader::parse` -/
def parse : Scan (JsonValue lib.Double) := do
  skipWhitespace input fuel
  let value ← parseValue lib input fuel maxDepth fuel 0
  skipWhitespace input fuel
  let pos ← Scan.position
  -- trailing garbage
  if pos ≠ input.length then Scan.fail else pure value

end TracedReader

end ReactorNet.Json
