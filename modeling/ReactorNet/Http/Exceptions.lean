import ReactorNet.Http.Headers
import ReactorNet.Http.RequestLine

/-!
# ReactorNet — when parsing a request throws

`parseRequestLine` hands both sides of the dot of a version to `std::stoi` without looking at
them, and nothing above it catches an exception. Everything else that could throw is called
with positions inside the string.

The condition is on the bytes that were sent. It asks nothing of a request that is refused
before its version is looked at: one that is no request line, whose method is another, or
whose path spells two dots in a row.
-/

namespace ReactorNet

open Lib

namespace HttpRequest

/-- Both numbers of the version of an acceptable request line are ones that `std::stoi`
converts. -/
def ReadableVersion (s : Bytes) : Prop :=
  ∀ line target major minor, IsFirstLine line s →
    IsRequestLine line methodGet target (dotted major minor) →
    ¬ SpellsDotDot (targetPath target) → (0x2E : UInt8) ∉ major →
    (∃ n, Converts major n) ∧ ∃ n, Converts minor n

/-- A line that is read leaves the rest to the headers, which always return. -/
theorem parseRequest_returns {r : HttpRequest} {line s : Bytes} (hLine : IsFirstLine line s)
    {parsed : Bool} {r' : HttpRequest} (h : r.parseRequestLine line = .ok (parsed, r')) :
    ∃ parsed' r'', r.parseRequest s = .ok (parsed', r'') := by
  rw [parseRequest_firstLine r hLine, h]
  cases parsed with
  | false => exact ⟨false, r', rfl⟩
  | true =>
    obtain ⟨scan, -, hHeaders, -⟩ := parseHeaders_spec r' hLine
    exact ⟨scan.complete, _, hHeaders⟩

/-- The two conversions of a version with a dot. -/
theorem parseVersion_returns_iff (r : HttpRequest) {major : Bytes} (minor : Bytes)
    (h : (0x2E : UInt8) ∉ major) :
    (∃ r', r.parseVersion (dotted major minor) = .ok r') ↔
      (∃ n, Converts major n) ∧ ∃ n, Converts minor n := by
  constructor
  · rintro ⟨r', hRead⟩
    obtain ⟨m, n, hMajor, hMinor, -⟩ := (parseVersion_dotted_eq_ok h).mp hRead
    exact ⟨⟨m, stoi_eq_ok.mp hMajor⟩, n, stoi_eq_ok.mp hMinor⟩
  · rintro ⟨⟨m, hMajor⟩, n, hMinor⟩
    exact ⟨_, (parseVersion_dotted_eq_ok h).mpr
      ⟨m, n, stoi_eq_ok.mpr hMajor, stoi_eq_ok.mpr hMinor, rfl⟩⟩

/-- **When `parseRequest` returns.** What it can throw is an exception of `std::stoi`, for a
version whose numbers do not convert. -/
theorem parseRequest_returns_iff (r : HttpRequest) (s : Bytes) :
    (∃ parsed r', r.parseRequest s = .ok (parsed, r')) ↔ ReadableVersion s := by
  cases hSearch : search crlf s with
  | none =>
    refine iff_of_true ⟨false, r, by rw [parseRequest, hSearch]; rfl⟩ ?_
    intro line target major minor hLine
    rw [hLine.search] at hSearch
    cases hSearch
  | some i =>
    have hLine := isFirstLine_take hSearch
    generalize s.take i = line at hLine
    obtain ⟨hRefused, r', hFalse⟩ | ⟨target, version, query, hParts, hSafe, hRead⟩ :=
      parseRequestLine_cases r line
    · refine iff_of_true (parseRequest_returns hLine hFalse) ?_
      intro line' target major minor hLine' hParts hSafe
      obtain rfl := hLine.unique hLine'
      exact absurd (hRefused _ _ hParts) hSafe
    · -- the line has no other parts than these
      have hTokens := tokens_eq_some.mpr hParts
      constructor
      · rintro ⟨parsed, r', hReturns⟩ line' target' major minor hLine' hParts' hSafe' hDot
        obtain rfl := hLine.unique hLine'
        have hSame := (tokens_eq_some.mpr hParts').symm.trans hTokens
        cases hSame
        refine (parseVersion_returns_iff (r.requested target query) minor hDot).mp ?_
        rw [parseRequest_firstLine r hLine, hRead] at hReturns
        cases hVersion : (r.requested target query).parseVersion (dotted major minor) with
        | error e =>
          rw [hVersion] at hReturns
          cases hReturns
        | ok r'' => exact ⟨r'', rfl⟩
      · intro hReadable
        suffices hVersion : ∃ r', (r.requested target query).parseVersion version = .ok r' by
          obtain ⟨r', hr'⟩ := hVersion
          exact parseRequest_returns hLine (by rw [hRead, hr']; rfl)
        by_cases hDotted : ∃ major minor, (0x2E : UInt8) ∉ major ∧ version = dotted major minor
        · obtain ⟨major, minor, hDot, rfl⟩ := hDotted
          exact (parseVersion_returns_iff _ minor hDot).mpr
            (hReadable line target major minor hLine hParts hSafe hDot)
        · exact ⟨_, parseVersion_other _ fun major minor hDot hEq => hDotted ⟨major, minor, hDot, hEq⟩⟩

def letterVersion : Bytes := ascii "GET / HTTP/x.1\r\n\r\n"

/-- A version that starts with a letter: `std::stoi` throws, and so does the parser. -/
theorem parseRequest_throws : ({} : HttpRequest).parseRequest letterVersion = .error .invalidArgument := by
  rfl

end HttpRequest

end ReactorNet
