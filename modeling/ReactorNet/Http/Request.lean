import ReactorNet.Lib.Loop
import ReactorNet.Lib.Search
import ReactorNet.Lib.StdString

/-!
# ReactorNet — the HTTP request parser

`HttpRequest` of `src/HttpRequest.cpp`. Pointers into the buffer are positions in the bytes
that are parsed, and a function of the string library that throws ends the parse with its
exception: nothing in the source catches one.

The two ends of the literals that `std::search` is given are taken to belong to one array,
as they do where the compiler merges equal literals.

`parseHeaders` returns no position in the source. `scanHeaders` keeps the one at which it
stopped, since the caller looks for the end of the request in its own way.
-/

namespace ReactorNet

open Lib

/-- `std::map<std::string, std::string>`, ordered by its keys. -/
abbrev HeaderMap := Std.ExtTreeMap Bytes Bytes compare

/-- `"\r\n"` -/
def crlf : Bytes := [0x0D, 0x0A]

inductive HttpMethod where
  | kInvalid
  | kGet
  deriving DecidableEq, Repr

structure HttpRequest where
  method : HttpMethod := .kInvalid
  path : Bytes := []
  query : Bytes := []
  headers : HeaderMap := ∅
  majorVersion : Int := 1
  minorVersion : Int := 0

namespace HttpRequest

/-! ## The request line -/

/-- The value of a hexadecimal digit; the source returns `-1` where this is `none`. -/
def hexToInt (c : UInt8) : Option Nat :=
  if 0x30 ≤ c ∧ c ≤ 0x39 then some (c.toNat - 0x30)
  else if 0x61 ≤ c ∧ c ≤ 0x66 then some (c.toNat - 0x61 + 10)
  else if 0x41 ≤ c ∧ c ≤ 0x46 then some (c.toNat - 0x41 + 10)
  else none

def urlDecode : Bytes → Bytes
  | [] => []
  | 0x25 :: high :: low :: rest =>
    match hexToInt high, hexToInt low with
    | some h, some l => UInt8.ofNat (h <<< 4 ||| l) :: urlDecode rest
    -- only the percent sign is taken, and the two characters are looked at again
    | _, _ => 0x25 :: urlDecode (high :: low :: rest)
  | 0x2B :: rest => 0x20 :: urlDecode rest
  | c :: rest => c :: urlDecode rest

/-- `iss >> method >> path >> version` -/
def tokens (requestLine : Bytes) : Option (Bytes × Bytes × Bytes) := do
  let (method, rest) ← nextToken requestLine
  let (path, rest) ← nextToken rest
  let (version, _) ← nextToken rest
  return (method, path, version)

/-- The part of a target before the first question mark, and the query behind it. -/
def splitTarget (target : Bytes) : Except StdException (Bytes × Option Bytes) :=
  match target.idxOf? 0x3F with
  | some queryPos => do
    let query ← substr target (queryPos + 1) none
    let path ← substr target 0 (some queryPos)
    return (path, some query)
  | none => return (target, none)

def defaultPath (path : Bytes) : Bytes :=
  if path = [0x2F] then ascii "/index.html" else path

def httpSlash : Bytes := ascii "HTTP/"

/-- The two numbers of a version with a dot; every other version is ignored. -/
def parseVersion (r : HttpRequest) (version : Bytes) : Except StdException HttpRequest := do
  if httpSlash <+: version then
    let verStr ← substr version 5 none
    match verStr.idxOf? 0x2E with
    | some dotPos =>
      let major ← stoi (← substr verStr 0 (some dotPos))
      let minor ← stoi (← substr verStr (dotPos + 1) none)
      return { r with majorVersion := major, minorVersion := minor }
    | none => return r
  else return r

def methodGet : Bytes := ascii "GET"

/-- `".."` -/
def dotdot : Bytes := [0x2E, 0x2E]

def parseRequestLine (r : HttpRequest) (requestLine : Bytes) :
    Except StdException (Bool × HttpRequest) :=
  match tokens requestLine with
  | none => return (false, r) -- malformed
  | some (method, target, version) =>
    if method = methodGet then do
      let (path, query) ← splitTarget target
      -- the check is made on the decoded path, and the default comes after it
      let decoded : HttpRequest :=
        { r with method := .kGet, path := urlDecode path, query := query.getD r.query }
      if (search dotdot (urlDecode path)).isSome then return (false, decoded)
      else
        let parsed ← parseVersion { decoded with path := defaultPath (urlDecode path) } version
        return (true, parsed)
    else return (false, { r with method := .kInvalid })

/-! ## The headers -/

/-- `" \t"` -/
def blanks : Bytes := [0x20, 0x09]

/-- Without blanks in front and behind. -/
def trim (s : Bytes) : Except StdException Bytes := do
  let s ← erase s 0 (findFirstNotOf blanks s)
  -- `npos + 1` is zero
  erase s ((findLastNotOf blanks s).elim 0 (· + 1)) none

/-- A line `Key: Value`; a line without a colon is passed over. -/
def parseHeader (headers : HeaderMap) (line : Bytes) : Except StdException HeaderMap :=
  match line.idxOf? 0x3A with
  | some colonPos => do
    let key ← substr line 0 (some colonPos)
    let value ← substr line (colonPos + 1) none
    let key ← trim key
    let value ← trim value
    return headers.insert key value
  | none => return headers

/-- Where `parseHeaders` is: the start of the line it looks at, the headers so far, and
whether it has seen the empty line. -/
structure HeaderScan where
  current : Nat
  headers : HeaderMap
  complete : Bool

def headerPass (s : Bytes) :
    Except StdException HeaderScan → Pass (Except StdException HeaderScan)
  | .error e => .done (.error e)
  | .ok scan =>
    if scan.current < s.length then
      match searchFrom crlf s scan.current with
      | none => .done (.ok scan) -- incomplete header
      | some i =>
        -- the empty line
        if i = scan.current then .done (.ok { scan with complete := true })
        else
          match parseHeader scan.headers (slice s scan.current (i - scan.current)) with
          | .ok headers => .again (.ok { scan with current := i + 2, headers := headers })
          | .error e => .done (.error e)
    else .done (.ok scan)

/-- The bytes behind the cursor of the scan. -/
def left (s : Bytes) : Except StdException HeaderScan → Nat
  | .ok scan => s.length - scan.current
  | .error _ => 0

def scanHeaders (s : Bytes) (start : Nat) (headers : HeaderMap) : Except StdException HeaderScan :=
  loop (left s) (headerPass s) (.ok ⟨start, headers, false⟩)

def parseHeaders (r : HttpRequest) (s : Bytes) (start : Nat) :
    Except StdException (Bool × HttpRequest) := do
  let scan ← scanHeaders s start r.headers
  return (scan.complete, { r with headers := scan.headers })

/-! ## The request -/

def parseRequest (r : HttpRequest) (s : Bytes) : Except StdException (Bool × HttpRequest) :=
  match search crlf s with
  | none => return (false, r) -- no complete request line yet
  | some i => do
    let (parsed, r) ← r.parseRequestLine (s.take i)
    if parsed then r.parseHeaders s (i + 2) else return (false, r)

end HttpRequest

end ReactorNet
