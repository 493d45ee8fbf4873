import ReactorNet.Http.Request

/-!
# ReactorNet — where the header scan stops

`parseHeaders` looks for one `"\r\n"` after the other and stops at an empty line. What it has
passed is said in terms of the bytes alone (`Passed`): a `"\r\n"` stands just before the
cursor, and no `"\r\n\r\n"` before that one. So the scan stops at the first `"\r\n\r\n"`, or
there is none.

* `scanHeaders_spec` — the scan returns, and it is complete exactly if there is such a
  place, which is then the first one.
* `scanHeaders_append` — a complete scan sees nothing of what arrives later.
-/

namespace ReactorNet

open Lib

namespace HttpRequest

/-- `"\r\n\r\n"` -/
def crlfcrlf : Bytes := [0x0D, 0x0A, 0x0D, 0x0A]

theorem crlf_ne_nil : crlf ≠ [] := by decide

variable {line s : Bytes} {current i : Nat} {r : HttpRequest}

theorem occursAt_crlfcrlf :
    OccursAt crlfcrlf s i ↔ OccursAt crlf s i ∧ OccursAt crlf s (i + 2) := by
  show OccursAt (crlf ++ crlf) s i ↔ _
  exact occursAt_append

theorem occursAt_crlf : OccursAt crlf s i ↔ s[i]? = some 0x0D ∧ s[i + 1]? = some 0x0A := by
  rw [← occursAt_singleton, ← occursAt_singleton]
  show OccursAt ([0x0D] ++ [0x0A]) s i ↔ _
  exact occursAt_append

theorem crlf_le (h : OccursAt crlf s i) : i + 2 ≤ s.length :=
  h.le crlf_ne_nil

theorem not_occursAt_crlf_succ (h : OccursAt crlf s i) : ¬ OccursAt crlf s (i + 1) := by
  intro h'
  have hLf := (occursAt_crlf.mp h).2
  rw [(occursAt_crlf.mp h').1] at hLf
  revert hLf
  decide

/-! ## No header throws -/

theorem trim_ok (s : Bytes) : ∃ t, trim s = .ok t := by
  obtain ⟨t, ht⟩ := erase_of_le (Nat.zero_le s.length) (findFirstNotOf blanks s)
  have hEnd : (findLastNotOf blanks t).elim 0 (· + 1) ≤ t.length := by
    cases h : findLastNotOf blanks t with
    | none => exact Nat.zero_le _
    | some i => exact findLastNotOf_lt h
  obtain ⟨u, hu⟩ := erase_of_le hEnd none
  exact ⟨u, by simp only [trim, ht, bind, Except.bind, hu]⟩

theorem parseHeader_ok (headers : HeaderMap) (line : Bytes) :
    ∃ headers', parseHeader headers line = .ok headers' := by
  rw [parseHeader]
  cases h : line.idxOf? 0x3A with
  | none => exact ⟨headers, rfl⟩
  | some i =>
    have hi := (List.idxOf?_eq_some_iff.mp h).1
    obtain ⟨key, hKey⟩ := substr_of_le (Nat.zero_le line.length) (some i)
    obtain ⟨value, hValue⟩ := substr_of_le (show i + 1 ≤ line.length from hi) none
    obtain ⟨key', hKey'⟩ := trim_ok key
    obtain ⟨value', hValue'⟩ := trim_ok value
    refine ⟨headers.insert key' value', ?_⟩
    simp only [hKey, hValue, hKey', hValue', bind, Except.bind]
    rfl

/-! ## One line -/

/-- **One pass** of the loop: the bytes end, an empty line ends the scan, or the cursor goes
behind the line. -/
theorem headerPass_cases (s : Bytes) (scan : HeaderScan) :
    ((∀ k, scan.current ≤ k → ¬ OccursAt crlf s k) ∧
      headerPass s (.ok scan) = .done (.ok scan)) ∨
    (OccursAt crlf s scan.current ∧
      headerPass s (.ok scan) = .done (.ok { scan with complete := true })) ∨
    ∃ i headers, scan.current < i ∧ searchFrom crlf s scan.current = some i ∧
      parseHeader scan.headers (slice s scan.current (i - scan.current)) = .ok headers ∧
      headerPass s (.ok scan) = .again (.ok { scan with current := i + 2, headers := headers }) := by
  rw [headerPass]
  split_ifs with hEnd
  · cases h : searchFrom crlf s scan.current with
    | none => exact Or.inl ⟨searchFrom_eq_none.mp h, rfl⟩
    | some i =>
      obtain ⟨hLe, hAt, -⟩ := searchFrom_eq_some.mp h
      by_cases hi : i = scan.current
      · refine Or.inr (Or.inl ⟨hi ▸ hAt, ?_⟩)
        simp only [if_pos hi]
      · obtain ⟨headers, hHeaders⟩ :=
          parseHeader_ok scan.headers (slice s scan.current (i - scan.current))
        refine Or.inr (Or.inr ⟨i, headers, by omega, rfl, hHeaders, ?_⟩)
        simp only [if_neg hi, hHeaders]
  · refine Or.inl ⟨fun k hk hAt => ?_, rfl⟩
    have hLe := crlf_le hAt
    omega

theorem headerPass_decreases (s : Bytes) (x y : Except StdException HeaderScan)
    (h : headerPass s x = .again y) : left s y < left s x := by
  cases x with
  | error e => cases h
  | ok scan =>
    obtain ⟨-, hPass⟩ | ⟨-, hPass⟩ | ⟨i, headers, hLt, hSearch, -, hPass⟩ := headerPass_cases s scan
    · rw [hPass] at h
      cases h
    · rw [hPass] at h
      cases h
    · rw [hPass] at h
      cases h
      have hLe := crlf_le (searchFrom_eq_some.mp hSearch).2.1
      show s.length - (i + 2) < s.length - scan.current
      omega

/-! ## The scan -/

/-- What lies before the cursor: a line end right before it, and no empty line. -/
structure Passed (s : Bytes) (current : Nat) : Prop where
  two_le : 2 ≤ current
  lineEnd : OccursAt crlf s (current - 2)
  before : ∀ j < current - 2, ¬ OccursAt crlfcrlf s j

theorem Passed.first (h : search crlf s = some i) : Passed s (i + 2) := by
  obtain ⟨hAt, hBefore⟩ := search_eq_some.mp h
  exact ⟨by omega, hAt, fun j hj hTwo => hBefore j (by omega) (occursAt_crlfcrlf.mp hTwo).1⟩

theorem Passed.next (h : Passed s current) (hLt : current < i)
    (hSearch : searchFrom crlf s current = some i) : Passed s (i + 2) := by
  obtain ⟨-, hAt, hBefore⟩ := searchFrom_eq_some.mp hSearch
  refine ⟨by omega, hAt, fun j hj hTwo => ?_⟩
  have hTwoLe := h.two_le
  obtain ⟨hFirst, hSecond⟩ := occursAt_crlfcrlf.mp hTwo
  -- before the last line end, at it, on its second byte, or in the line
  rcases Nat.lt_trichotomy j (current - 2) with hj' | rfl | hj'
  · exact h.before j hj' hTwo
  · exact hBefore current le_rfl hLt (by rwa [Nat.sub_add_cancel hTwoLe] at hSecond)
  · by_cases hEq : j = current - 2 + 1
    · exact not_occursAt_crlf_succ h.lineEnd (hEq ▸ hFirst)
    · exact hBefore j (by omega) (by omega) hFirst

/-- At an empty line the scan stands at the first `"\r\n\r\n"`. -/
theorem Passed.found (h : Passed s current) (hAt : OccursAt crlf s current) :
    search crlfcrlf s = some (current - 2) := by
  refine search_eq_some.mpr ⟨occursAt_crlfcrlf.mpr ⟨h.lineEnd, ?_⟩, h.before⟩
  rwa [Nat.sub_add_cancel h.two_le]

/-- Without a further line end there is no empty line either. -/
theorem Passed.absent (h : Passed s current) (hNone : ∀ k, current ≤ k → ¬ OccursAt crlf s k) :
    search crlfcrlf s = none := by
  refine search_eq_none.mpr fun j hTwo => ?_
  obtain ⟨-, hSecond⟩ := occursAt_crlfcrlf.mp hTwo
  have hTwoLe := h.two_le
  by_cases hj : j < current - 2
  · exact h.before j hj hTwo
  · exact hNone (j + 2) (by omega) hSecond

/-- **Where the scan stops.** It returns, and it is complete at the first `"\r\n\r\n"` or
incomplete where there is none. -/
theorem scanHeaders_spec {start : Nat} (h : Passed s start) (headers : HeaderMap) :
    ∃ scan, scanHeaders s start headers = .ok scan ∧
      (scan.complete = true → 2 ≤ scan.current ∧ search crlfcrlf s = some (scan.current - 2)) ∧
      (scan.complete = false → search crlfcrlf s = none) := by
  -- along the passes; nothing is complete before the last one
  have hRun := loop_induct (headerPass_decreases s)
    (P := fun x result => ∀ scan, x = .ok scan → scan.complete = false → Passed s scan.current →
      ∃ scan', result = .ok scan' ∧
        (scan'.complete = true → 2 ≤ scan'.current ∧ search crlfcrlf s = some (scan'.current - 2)) ∧
        (scan'.complete = false → search crlfcrlf s = none)) ?_ ?_ (.ok ⟨start, headers, false⟩)
  · exact hRun _ rfl rfl h
  · rintro x y hPass scan rfl hOpen hPassed
    obtain ⟨hNone, hStep⟩ | ⟨hAt, hStep⟩ | ⟨i, headers, -, -, -, hStep⟩ := headerPass_cases s scan
    · rw [hStep] at hPass
      cases hPass
      refine ⟨scan, rfl, fun hComplete => ?_, fun _ => hPassed.absent hNone⟩
      rw [hOpen] at hComplete
      cases hComplete
    · rw [hStep] at hPass
      cases hPass
      exact ⟨_, rfl, fun _ => ⟨hPassed.two_le, hPassed.found hAt⟩, fun hComplete => by cases hComplete⟩
    · rw [hStep] at hPass
      cases hPass
  · rintro x y result hPass ih scan rfl hOpen hPassed
    obtain ⟨-, hStep⟩ | ⟨-, hStep⟩ | ⟨i, headers, hLt, hSearch, -, hStep⟩ := headerPass_cases s scan
    · rw [hStep] at hPass
      cases hPass
    · rw [hStep] at hPass
      cases hPass
    · rw [hStep] at hPass
      cases hPass
      exact ih _ rfl hOpen (hPassed.next hLt hSearch)

/-! ## More data -/

/-- A pass that finds a line end finds the same one in longer data. -/
theorem headerPass_append {scan : HeaderScan} (t : Bytes)
    (h : headerPass s (.ok scan) ≠ .done (.ok scan)) :
    headerPass (s ++ t) (.ok scan) = headerPass s (.ok scan) := by
  obtain ⟨-, hStep⟩ | ⟨hAt, hStep⟩ | ⟨i, headers, hLt, hSearch, hHeader, hStep⟩ :=
    headerPass_cases s scan
  · exact absurd hStep h
  · have hLe := crlf_le hAt
    have hSearch : searchFrom crlf s scan.current = some scan.current :=
      searchFrom_eq_some.mpr ⟨le_rfl, hAt, fun k hk hk' => by omega⟩
    rw [hStep, headerPass, if_pos (by rw [List.length_append]; omega),
      searchFrom_append hSearch crlf_ne_nil]
    simp only [if_true]
  · have hLe := crlf_le (searchFrom_eq_some.mp hSearch).2.1
    have hLine : slice (s ++ t) scan.current (i - scan.current) =
        slice s scan.current (i - scan.current) := by
      rw [slice, slice, List.drop_append_of_le_length (by omega),
        List.take_append_of_le_length (by rw [List.length_drop]; omega)]
    rw [hStep, headerPass, if_pos (by rw [List.length_append]; omega),
      searchFrom_append hSearch crlf_ne_nil]
    simp only [if_neg (show i ≠ scan.current by omega), hLine, hHeader]

/-- **A complete scan is final.** -/
theorem scanHeaders_append {start : Nat} {headers : HeaderMap} {scan : HeaderScan}
    (h : scanHeaders s start headers = .ok scan) (hComplete : scan.complete = true) (t : Bytes) :
    scanHeaders (s ++ t) start headers = .ok scan := by
  have hRun := loop_induct (headerPass_decreases s)
    (P := fun x result => ∀ cursor, x = .ok cursor → cursor.complete = false →
      result = .ok scan → loop (left (s ++ t)) (headerPass (s ++ t)) x = .ok scan)
    ?_ ?_ (.ok ⟨start, headers, false⟩)
  · exact hRun _ rfl rfl h
  · rintro x y hPass cursor rfl hOpen rfl
    -- the last pass saw the empty line, since the scan is complete
    have hMoved : headerPass s (.ok cursor) ≠ .done (.ok cursor) := by
      rw [hPass]
      rintro ⟨⟩
      rw [hOpen] at hComplete
      cases hComplete
    exact loop_done ((headerPass_append t hMoved).trans hPass)
  · rintro x y result hPass ih cursor rfl hOpen hResult
    have hMoved : headerPass s (.ok cursor) ≠ .done (.ok cursor) := by
      rw [hPass]
      rintro ⟨⟩
    have hLong := (headerPass_append t hMoved).trans hPass
    rw [loop_again (headerPass_decreases (s ++ t)) hLong]
    obtain ⟨-, hStep⟩ | ⟨-, hStep⟩ | ⟨i, headers, -, -, -, hStep⟩ := headerPass_cases s cursor
    · exact absurd hStep hMoved
    · rw [hStep] at hPass
      cases hPass
    · rw [hStep] at hPass
      cases hPass
      exact ih _ rfl hOpen hResult

/-! ## The first line and the rest -/

/-- The bytes start with this line and its end. -/
structure IsFirstLine (line s : Bytes) : Prop where
  front : line <+: s
  lineEnd : OccursAt crlf s line.length
  first : ∀ j < line.length, ¬ OccursAt crlf s j

theorem IsFirstLine.search (h : IsFirstLine line s) : Lib.search crlf s = some line.length :=
  search_eq_some.mpr ⟨h.lineEnd, h.first⟩

theorem IsFirstLine.take (h : IsFirstLine line s) : s.take line.length = line :=
  (List.prefix_iff_eq_take.mp h.front).symm

theorem isFirstLine_take (h : search crlf s = some i) : IsFirstLine (s.take i) s := by
  obtain ⟨hAt, hBefore⟩ := search_eq_some.mp h
  have hLe := crlf_le hAt
  have hLength : (s.take i).length = i := by
    rw [List.length_take]
    omega
  have hFront : s.take i <+: s := List.take_prefix i s
  exact ⟨hFront, by rwa [hLength], by rwa [hLength]⟩

theorem IsFirstLine.append (h : IsFirstLine line s) (t : Bytes) : IsFirstLine line (s ++ t) := by
  have hSearch := search_append h.search crlf_ne_nil t
  obtain ⟨hAt, hBefore⟩ := search_eq_some.mp hSearch
  exact ⟨h.front.trans (List.prefix_append s t), hAt, hBefore⟩

theorem IsFirstLine.unique {line' : Bytes} (h : IsFirstLine line s) (h' : IsFirstLine line' s) :
    line = line' := by
  have hLength := h.search.symm.trans h'.search
  rw [← h.take, ← h'.take, Option.some.inj hLength]

theorem parseRequest_firstLine (r : HttpRequest) (h : IsFirstLine line s) :
    r.parseRequest s = (do
      let (parsed, r) ← r.parseRequestLine line
      if parsed then r.parseHeaders s (line.length + 2) else return (false, r)) := by
  rw [parseRequest, h.search]
  simp only [h.take]

/-- **The headers never throw**, and they decide by the first `"\r\n\r\n"`. -/
theorem parseHeaders_spec (r : HttpRequest) (h : IsFirstLine line s) :
    ∃ scan, scanHeaders s (line.length + 2) r.headers = .ok scan ∧
      r.parseHeaders s (line.length + 2) = .ok (scan.complete, { r with headers := scan.headers }) ∧
      (scan.complete = true → 2 ≤ scan.current ∧ Lib.search crlfcrlf s = some (scan.current - 2)) ∧
      (scan.complete = false → Lib.search crlfcrlf s = none) := by
  obtain ⟨scan, hScan, hSpec⟩ := scanHeaders_spec (Passed.first h.search) r.headers
  refine ⟨scan, hScan, ?_, hSpec⟩
  rw [parseHeaders, hScan]
  rfl

/-- What `parseRequest` goes through, with its result. -/
inductive Reads (r : HttpRequest) (s : Bytes) : Except StdException (Bool × HttpRequest) → Prop
  | noLine (hSearch : Lib.search crlf s = none) : Reads r s (.ok (false, r))
  | threw {line : Bytes} (e : StdException) (hLine : IsFirstLine line s)
      (hRead : r.parseRequestLine line = .error e) : Reads r s (.error e)
  | refused {line : Bytes} (read : HttpRequest) (hLine : IsFirstLine line s)
      (hRead : r.parseRequestLine line = .ok (false, read)) : Reads r s (.ok (false, read))
  | scanned {line : Bytes} (read : HttpRequest) (scan : HeaderScan) (hLine : IsFirstLine line s)
      (hRead : r.parseRequestLine line = .ok (true, read))
      (hScan : scanHeaders s (line.length + 2) read.headers = .ok scan) :
      Reads r s (.ok (scan.complete, { read with headers := scan.headers }))

theorem parseRequest_reads (r : HttpRequest) (s : Bytes) : Reads r s (r.parseRequest s) := by
  cases hSearch : Lib.search crlf s with
  | none =>
    rw [parseRequest, hSearch]
    exact .noLine hSearch
  | some i =>
    have hLine := isFirstLine_take hSearch
    generalize s.take i = line at hLine
    rw [parseRequest_firstLine r hLine]
    cases hRead : r.parseRequestLine line with
    | error e => exact .threw e hLine hRead
    | ok result =>
      obtain ⟨parsed, read⟩ := result
      cases parsed with
      | false => exact .refused read hLine hRead
      | true =>
        obtain ⟨scan, hScan, hHeaders, -⟩ := parseHeaders_spec read hLine
        show Reads r s (read.parseHeaders s (line.length + 2))
        rw [hHeaders]
        exact .scanned read scan hLine hRead hScan

/-- **Which requests are complete**: the first line is accepted, and the scan of the headers
sees the empty line. -/
theorem parseRequest_eq_true {r' : HttpRequest} :
    r.parseRequest s = .ok (true, r') ↔
      ∃ line read scan, IsFirstLine line s ∧ r.parseRequestLine line = .ok (true, read) ∧
        scanHeaders s (line.length + 2) read.headers = .ok scan ∧ scan.complete = true ∧
        r' = { read with headers := scan.headers } := by
  constructor
  · intro h
    have hReads := parseRequest_reads r s
    generalize hResult : r.parseRequest s = result at hReads
    cases hReads with
    | noLine => cases h.symm.trans hResult
    | threw => cases h.symm.trans hResult
    | refused => cases h.symm.trans hResult
    | scanned read scan hLine hRead hScan =>
      obtain ⟨hComplete, hFinal⟩ := Prod.mk.inj (Except.ok.inj (hResult.symm.trans h))
      exact ⟨_, read, scan, hLine, hRead, hScan, hComplete, hFinal.symm⟩
  · rintro ⟨line, read, scan, hLine, hRead, hScan, hComplete, rfl⟩
    rw [parseRequest_firstLine r hLine, hRead]
    show read.parseHeaders s (line.length + 2) = _
    rw [parseHeaders, hScan, ← hComplete]
    rfl

/-- What was complete stays as it is when more arrives. -/
theorem parseRequest_append {r' : HttpRequest} (h : r.parseRequest s = .ok (true, r')) (t : Bytes) :
    r.parseRequest (s ++ t) = .ok (true, r') := by
  obtain ⟨line, read, scan, hLine, hRead, hScan, hComplete, rfl⟩ := parseRequest_eq_true.mp h
  exact parseRequest_eq_true.mpr ⟨line, read, scan, hLine.append t, hRead,
    scanHeaders_append hScan hComplete t, hComplete, rfl⟩

/-- A line that throws is the first line of whatever follows. -/
theorem parseRequest_error_append {e : StdException} (h : r.parseRequest s = .error e) (t : Bytes) :
    r.parseRequest (s ++ t) = .error e := by
  have hReads := parseRequest_reads r s
  rw [h] at hReads
  cases hReads with
  | threw _ hLine hRead =>
    rw [parseRequest_firstLine r (hLine.append t), hRead]
    rfl

end HttpRequest

end ReactorNet
