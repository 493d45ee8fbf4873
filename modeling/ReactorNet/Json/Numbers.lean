import Mathlib.Data.List.TakeWhile
import ReactorNet.Json.Grammar
import ReactorNet.Json.Parser

/-!
# ReactorNet — JSON numbers

The reader scans a number greedily: sign, integer part, fraction, exponent. What it
has passed over is a number token of the grammar, and a token is passed over as a
whole when the byte behind it cannot continue a number. The token is then converted
by `std::from_chars`, first to `int64_t` and, where that fails, to `double`.

Main results:

* `parseNumber_sound` — what the reader takes for a number is a number token.
* `parseNumber_integer` / `parseNumber_double` — it takes every number token that the
  byte behind it does not continue.
-/

namespace ReactorNet.Json

open ReactorNet.Lib

/-! ## Conversion -/

namespace Reader

variable {e f m s t : Bytes} {i j : Nat}

theorem takeWhile_digits {r : Bytes} (hs : ∀ b ∈ s, isDigit b = true)
    (hr : ∀ b, r.head? = some b → isDigit b = false) : (s ++ r).takeWhile isDigit = s := by
  have hRest : r.takeWhile isDigit = [] := by
    cases r with
    | nil => rfl
    | cons b r => rw [List.takeWhile_cons, hr b rfl]; rfl
  rw [List.takeWhile_append_of_pos hs, hRest, List.append_nil]

/-- An integer token is converted up to its end, if no digit follows. -/
theorem fromCharsInt_append {r : Bytes} {n : Int} (h : IsInteger t n)
    (hr : ∀ b, r.head? = some b → isDigit b = false) :
    fromCharsInt (t ++ r) = if -2 ^ 63 ≤ n ∧ n < 2 ^ 63 then .ok t.length (Int64.ofInt n)
      else .resultOutOfRange := by
  unfold fromCharsInt
  cases h with
  | nonneg hs =>
    -- a digit is not a minus sign
    have hHead : (t ++ r).head? ≠ some 0x2D := by
      intro hHead
      rw [List.head?_append_of_ne_nil _ hs.ne_nil] at hHead
      have hDigit := hs.digits_of_mem _ (List.mem_of_head? hHead)
      exact absurd hDigit (by decide)
    simp only [if_neg hHead, List.drop_zero, takeWhile_digits hs.digits_of_mem hr,
      if_neg hs.ne_nil, if_true, Nat.zero_add]
  | @neg s hs =>
    simp only [List.cons_append, List.head?_cons, if_true, List.drop_succ_cons, List.drop_zero,
      takeWhile_digits hs.digits_of_mem hr, if_neg hs.ne_nil, one_ne_zero, if_false,
      List.length_cons, Nat.add_comm 1]

theorem readInteger_eq {n : Int} (h : IsInteger t n) :
    readInteger t = if -2 ^ 63 ≤ n ∧ n < 2 ^ 63 then some (Int64.ofInt n) else none := by
  have hChars := fromCharsInt_append h (r := []) (by simp)
  rw [List.append_nil] at hChars
  rw [readInteger, hChars]
  split_ifs <;> simp

variable {lib : DoubleChars}

theorem readDouble_iff (ht : IsNumber t) {x : lib.Double} :
    readDouble lib t = some x ↔ lib.fromChars t = .ok t.length x := by
  unfold readDouble
  rcases lib.fromChars_number t ht with h | ⟨y, h, hFinite⟩
  · simp [h]
  · simp [h, hFinite]

theorem readNumber_sound {i : Bytes} {v : JsonValue lib.Double} (hm : IsMinus m) (hi : IsInt i)
    (hf : IsFrac f) (he : IsExp e) {isFloating : Bool}
    (hFloating : isFloating = true ↔ f ≠ [] ∨ e ≠ [])
    (h : readNumber lib isFloating (m ++ (i ++ (f ++ e))) = some v) :
    IsScalar lib (m ++ (i ++ (f ++ e))) v := by
  have hNumber : IsNumber (m ++ (i ++ (f ++ e))) := ⟨m, i, f, e, hm, hi, hf, he, rfl⟩
  rw [readNumber] at h
  cases isFloating with
  | true =>
    simp only [if_true] at h
    obtain ⟨x, hx, rfl⟩ := Option.map_eq_some_iff.mp h
    exact .number hNumber (fun n => not_isInteger_of_floating hf he (hFloating.mp rfl))
      ((readDouble_iff hNumber).mp hx)
  | false =>
    obtain ⟨rfl, rfl⟩ : f = [] ∧ e = [] := by
      by_contra hNot
      exact Bool.false_ne_true (hFloating.mpr (by tauto))
    simp only [List.append_nil] at h hNumber ⊢
    obtain ⟨n, hn⟩ := isInteger_of_parts hm hi
    simp only [Bool.false_eq_true, if_false, readInteger_eq hn] at h
    by_cases hRange : -2 ^ 63 ≤ n ∧ n < 2 ^ 63
    · simp only [if_pos hRange, Option.some.injEq] at h
      subst h
      exact .integer (by rwa [Int64.toInt_ofInt_of_le hRange.1 hRange.2])
    · -- out of the range of `int64_t`: kept as a double
      simp only [if_neg hRange] at h
      obtain ⟨x, hx, rfl⟩ := Option.map_eq_some_iff.mp h
      -- an integer that fits would have been taken in the first try
      refine .number hNumber (fun k hk => ?_) ((readDouble_iff hNumber).mp hx)
      have hNone := readInteger_eq hn
      rw [if_neg hRange, readInteger_eq hk, if_pos ⟨k.le_toInt, k.toInt_lt⟩] at hNone
      cases hNone

theorem readNumber_integer {n : Int64} (h : IsInteger t n.toInt) :
    readNumber lib false t = some (.integer n) := by
  simp only [readNumber, readInteger_eq h, Bool.false_eq_true, if_false, Int64.ofInt_toInt,
    if_pos (And.intro n.le_toInt n.toInt_lt)]

theorem readNumber_double (hInt : ∀ n : Int64, ¬ IsInteger t n.toInt) {isFloating : Bool}
    (hFloating : isFloating = false → ∃ n, IsInteger t n) :
    readNumber lib isFloating t = (readDouble lib t).map .number := by
  rw [readNumber]
  cases isFloating with
  | true => simp only [if_true]
  | false =>
    obtain ⟨n, hn⟩ := hFloating rfl
    have hRange : ¬ (-2 ^ 63 ≤ n ∧ n < 2 ^ 63) := fun hRange =>
      hInt (Int64.ofInt n) (by rwa [Int64.toInt_ofInt_of_le hRange.1 hRange.2])
    simp only [Bool.false_eq_true, if_false, readInteger_eq hn, if_neg hRange]

/-! ## The scan -/

variable {input : Bytes}

/-- The next byte after a place is the first byte of what stands there. -/
theorem holdsAt_eq_false {p : UInt8 → Bool} (hs : Spans input i s j)
    (hHead : ∀ b, s.head? = some b → p b = false) (hEnd : s = [] → holdsAt input j p = false) :
    holdsAt input i p = false := by
  cases s with
  | nil =>
    obtain ⟨rfl, -⟩ := spans_nil.mp hs
    exact hEnd rfl
  | cons b s => rw [holdsAt_of_getElem? (spans_cons.mp hs).1, hHead b rfl]

theorem skipMinus_spans (hi : i ≤ input.length) :
    ∃ m, IsMinus m ∧ Spans input i m (skipMinus input i) := by
  rw [skipMinus]
  split_ifs with h
  · exact ⟨[0x2D], .inr rfl, spans_singleton.mpr ⟨holdsAt_beq.mp h, rfl⟩⟩
  · exact ⟨[], .inl rfl, spans_nil.mpr ⟨rfl, hi⟩⟩

theorem skipMinus_eq (hm : IsMinus m) (hs : Spans input i m j)
    (hNext : holdsAt input j (· == 0x2D) = false) : skipMinus input i = j := by
  rw [skipMinus]
  rcases hm with rfl | rfl
  · obtain ⟨rfl, -⟩ := spans_nil.mp hs
    rw [hNext]
    rfl
  · obtain ⟨hGet, rfl⟩ := spans_singleton.mp hs
    rw [if_pos (holdsAt_beq.mpr hGet)]

theorem scanInt_sound (h : scanInt input i = some j) : ∃ s, IsInt s ∧ Spans input i s j := by
  rw [scanInt] at h
  split_ifs at h with hi hZero hLeading hDigit
  · -- a zero, with no digit behind it
    cases h
    refine ⟨[0x30], .zero, spans_singleton.mpr ⟨?_, rfl⟩⟩
    rw [List.getElem?_eq_getElem hi, hZero]
  · -- a digit from one to nine, and the digits after it
    cases h
    obtain ⟨s, hSpan, hAll, hStop⟩ := skipWhile_spans isDigit (show i ≤ input.length by omega)
    cases s with
    | nil =>
      -- the loop passes over the digit it starts at
      obtain ⟨hEq, -⟩ := spans_nil.mp hSpan
      rw [hEq, holdsAt, dif_pos hi] at hStop
      have := (IsInt.digits hDigit (by simp : ∀ b ∈ [], _)).digits_of_mem input[i] (by simp)
      rw [this] at hStop
      cases hStop
    | cons b s =>
      obtain ⟨hGet, -⟩ := spans_cons.mp hSpan
      rw [List.getElem?_eq_getElem hi] at hGet
      cases hGet
      exact ⟨_, .digits hDigit fun b hb => hAll b (List.mem_cons_of_mem _ hb), hSpan⟩

theorem scanInt_complete (hInt : IsInt s) (hs : Spans input i s j)
    (hNext : holdsAt input j isDigit = false) : scanInt input i = some j := by
  cases hInt with
  | zero =>
    obtain ⟨hGet, rfl⟩ := spans_singleton.mp hs
    obtain ⟨hi, hGet⟩ := List.getElem?_eq_some_iff.mp hGet
    rw [scanInt, dif_pos hi, if_pos hGet, hNext]
    rfl
  | @digits d s hd hAll =>
    obtain ⟨hGet, -⟩ := spans_cons.mp hs
    obtain ⟨hi, hGet⟩ := List.getElem?_eq_some_iff.mp hGet
    have hZero : d ≠ 0x30 := by
      rintro rfl
      exact absurd hd (by decide)
    rw [scanInt, dif_pos hi, hGet, if_neg hZero, if_pos hd,
      skipWhile_eq hs (IsInt.digits hd hAll).digits_of_mem hNext]

/-- The digits behind a decimal point or an exponent mark. -/
theorem skipDigits_spans (h : holdsAt input i isDigit = true) :
    ∃ s, IsDigits s ∧ Spans input i s (skipWhile input isDigit i) := by
  obtain ⟨b, hGet, hb⟩ := holdsAt_iff.mp h
  have hi := (List.getElem?_eq_some_iff.mp hGet).1
  obtain ⟨s, hSpan, hAll, hStop⟩ := skipWhile_spans isDigit (show i ≤ input.length by omega)
  refine ⟨s, ⟨?_, hAll⟩, hSpan⟩
  rintro rfl
  obtain ⟨hEq, -⟩ := spans_nil.mp hSpan
  rw [hEq, h] at hStop
  cases hStop

theorem holdsAt_digits (hDigits : IsDigits s) (hs : Spans input i s j) :
    holdsAt input i isDigit = true := by
  cases s with
  | nil => exact absurd rfl hDigits.1
  | cons b s =>
    exact holdsAt_iff.mpr ⟨b, (spans_cons.mp hs).1, hDigits.2 b (List.mem_cons_self ..)⟩

theorem scanFrac_sound {frac : Bool} (hi : i ≤ input.length)
    (h : scanFrac input i = some (frac, j)) :
    ∃ f, IsFrac f ∧ Spans input i f j ∧ (frac = true ↔ f ≠ []) := by
  rw [scanFrac] at h
  split_ifs at h with hPoint hDigit
  · obtain ⟨s, hs, hSpan⟩ := skipDigits_spans hDigit
    cases h
    exact ⟨_, .digits hs, spans_cons.mpr ⟨holdsAt_beq.mp hPoint, hSpan⟩, by simp⟩
  · cases h
    exact ⟨[], .none, spans_nil.mpr ⟨rfl, hi⟩, by simp⟩

theorem scanFrac_complete (hf : IsFrac f) (hs : Spans input i f j)
    (hDigit : holdsAt input j isDigit = false) (hPoint : holdsAt input j (· == 0x2E) = false) :
    scanFrac input i = some (decide (f ≠ []), j) := by
  rw [scanFrac]
  cases hf with
  | none =>
    obtain ⟨rfl, -⟩ := spans_nil.mp hs
    rw [hPoint]
    rfl
  | @digits s hDigits =>
    obtain ⟨hGet, hRest⟩ := spans_cons.mp hs
    rw [if_pos (holdsAt_beq.mpr hGet), if_pos (holdsAt_digits hDigits hRest),
      skipWhile_eq hRest hDigits.2 hDigit]
    rfl

theorem skipSign_spans (hi : i ≤ input.length) :
    ∃ s, (s = [] ∨ s = [0x2B] ∨ s = [0x2D]) ∧ Spans input i s (skipSign input i) := by
  rw [skipSign]
  split_ifs with h
  · obtain ⟨b, hGet, hb⟩ := holdsAt_iff.mp h
    have hb : b = 0x2B ∨ b = 0x2D := by simpa using hb
    exact ⟨[b], .inr (by simpa using hb), spans_singleton.mpr ⟨hGet, rfl⟩⟩
  · exact ⟨[], .inl rfl, spans_nil.mpr ⟨rfl, hi⟩⟩

theorem skipSign_eq (hSign : s = [] ∨ s = [0x2B] ∨ s = [0x2D]) (hs : Spans input i s j)
    (hNext : holdsAt input j isDigit = true) : skipSign input i = j := by
  rw [skipSign]
  rcases hSign with rfl | rfl | rfl
  · -- no sign: the next byte is a digit
    obtain ⟨rfl, -⟩ := spans_nil.mp hs
    obtain ⟨b, hGet, hb⟩ := holdsAt_iff.mp hNext
    rw [holdsAt_of_getElem? hGet, if_neg]
    intro hSign
    have hSign : b = 0x2B ∨ b = 0x2D := by simpa using hSign
    rcases hSign with rfl | rfl <;> exact absurd hb (by decide)
  · obtain ⟨hGet, rfl⟩ := spans_singleton.mp hs
    rw [if_pos (holdsAt_iff.mpr ⟨_, hGet, by decide⟩)]
  · obtain ⟨hGet, rfl⟩ := spans_singleton.mp hs
    rw [if_pos (holdsAt_iff.mpr ⟨_, hGet, by decide⟩)]

theorem scanExp_sound {exp : Bool} (hi : i ≤ input.length) (h : scanExp input i = some (exp, j)) :
    ∃ e, IsExp e ∧ Spans input i e j ∧ (exp = true ↔ e ≠ []) := by
  rw [scanExp] at h
  split_ifs at h with hMark hDigit
  · obtain ⟨s, hs, hSpan⟩ := skipDigits_spans hDigit
    obtain ⟨b, hGet, hb⟩ := holdsAt_iff.mp hMark
    cases h
    have hb : b = 0x65 ∨ b = 0x45 := by simpa using hb
    obtain ⟨sign, hSign, hSignSpan⟩ := skipSign_spans
      (show i + 1 ≤ input.length from (List.getElem?_eq_some_iff.mp hGet).1)
    exact ⟨_, .digits hb hSign hs, spans_cons.mpr ⟨hGet, hSignSpan.trans hSpan⟩, by simp⟩
  · cases h
    exact ⟨[], .none, spans_nil.mpr ⟨rfl, hi⟩, by simp⟩

theorem scanExp_complete (he : IsExp e) (hs : Spans input i e j)
    (hDigit : holdsAt input j isDigit = false)
    (hMark : holdsAt input j (fun c => c == 0x65 || c == 0x45) = false) :
    scanExp input i = some (decide (e ≠ []), j) := by
  rw [scanExp]
  cases he with
  | none =>
    obtain ⟨rfl, -⟩ := spans_nil.mp hs
    rw [hMark]
    rfl
  | @digits b sign s hb hSign hDigits =>
    obtain ⟨hGet, hRest⟩ := spans_cons.mp hs
    obtain ⟨k, hSignSpan, hSpan⟩ := spans_append.mp hRest
    have hFirst := holdsAt_digits hDigits hSpan
    have hSkip : skipSign input (i + 1) = k := skipSign_eq hSign hSignSpan hFirst
    rw [if_pos (holdsAt_iff.mpr ⟨b, hGet, by simpa using hb⟩), hSkip, if_pos hFirst,
      skipWhile_eq hSpan hDigits.2 hDigit]
    rfl

/-- The bytes that could continue a number token. -/
def continuesNumber (b : UInt8) : Bool := isDigit b || b == 0x2E || b == 0x65 || b == 0x45

theorem holdsAt_mono {p q : UInt8 → Bool} (hpq : ∀ b, p b = true → q b = true)
    (h : holdsAt input i q = false) : holdsAt input i p = false := by
  by_contra hp
  obtain ⟨b, hGet, hb⟩ := holdsAt_iff.mp (Bool.eq_true_of_not_eq_false hp)
  rw [holdsAt_of_getElem? hGet, hpq b hb] at h
  cases h

variable (lib) in
theorem parseNumber_sound {v : JsonValue lib.Double} (hi : i ≤ input.length)
    (h : parseNumber lib input i = some (v, j)) : ∃ s, IsScalar lib s v ∧ Spans input i s j := by
  rw [parseNumber] at h
  -- what each scan has passed over, part by part
  obtain ⟨k, hScan, h⟩ := Option.bind_eq_some_iff.mp h
  obtain ⟨⟨frac, k'⟩, hFracScan, h⟩ := Option.bind_eq_some_iff.mp h
  obtain ⟨⟨exp, l⟩, hExpScan, h⟩ := Option.bind_eq_some_iff.mp h
  obtain ⟨value, hValue, h⟩ := Option.bind_eq_some_iff.mp h
  cases h
  obtain ⟨m, hm, hMinus⟩ := skipMinus_spans hi
  obtain ⟨s, hs, hInt⟩ := scanInt_sound hScan
  obtain ⟨f, hf, hFrac, hIsFrac⟩ := scanFrac_sound hInt.le hFracScan
  obtain ⟨e, he, hExp, hIsExp⟩ := scanExp_sound hFrac.le hExpScan
  have hSpan := hMinus.trans (hInt.trans (hFrac.trans hExp))
  rw [hSpan.slice_eq] at hValue
  refine ⟨_, readNumber_sound hm hs hf he ?_ hValue, hSpan⟩
  rw [Bool.or_eq_true, hIsFrac, hIsExp]

theorem scan_complete (hm : IsMinus m) (hs : IsInt s) (hf : IsFrac f) (he : IsExp e)
    (hSpan : Spans input i (m ++ (s ++ (f ++ e))) j)
    (hEnd : holdsAt input j continuesNumber = false) :
    ∃ k l, scanInt input (skipMinus input i) = some k ∧
      scanFrac input k = some (decide (f ≠ []), l) ∧
      scanExp input l = some (decide (e ≠ []), j) := by
  obtain ⟨h, hMinus, hSpan⟩ := spans_append.mp hSpan
  obtain ⟨k, hInt, hSpan⟩ := spans_append.mp hSpan
  obtain ⟨l, hFrac, hExp⟩ := spans_append.mp hSpan
  -- nothing that continues a number stands behind the token
  have hDigitJ : holdsAt input j isDigit = false :=
    holdsAt_mono (fun b hb => by simp [continuesNumber, hb]) hEnd
  -- what stands behind each part starts with a mark that the part does not have
  have hExpHead : ∀ b, e.head? = some b → b = 0x65 ∨ b = 0x45 := by
    intro b hb
    cases he with
    | none => cases hb
    | digits hMark =>
      cases hb
      exact hMark
  have hDigitL : holdsAt input l isDigit = false := by
    refine holdsAt_eq_false hExp (fun b hb => ?_) fun _ => hDigitJ
    rcases hExpHead b hb with rfl | rfl <;> decide
  have hPointL : holdsAt input l (· == 0x2E) = false := by
    refine holdsAt_eq_false hExp (fun b hb => ?_) fun _ =>
      holdsAt_mono (fun b hb => by rw [beq_iff_eq.mp hb]; decide) hEnd
    rcases hExpHead b hb with rfl | rfl <;> decide
  have hDigitK : holdsAt input k isDigit = false := by
    refine holdsAt_eq_false hFrac (fun b hb => ?_) fun _ => hDigitL
    cases hf with
    | none => cases hb
    | digits =>
      cases hb
      decide
  have hMinusH : holdsAt input h (· == 0x2D) = false := by
    refine holdsAt_eq_false hInt (fun b hb => ?_) fun hNil => absurd hNil hs.ne_nil
    have hDigit := hs.digits_of_mem b (List.mem_of_head? hb)
    rw [beq_eq_false_iff_ne]
    rintro rfl
    exact absurd hDigit (by decide)
  refine ⟨k, l, ?_, scanFrac_complete hf hFrac hDigitL hPointL, scanExp_complete he hExp hDigitJ ?_⟩
  · rw [skipMinus_eq hm hMinus hMinusH]
    exact scanInt_complete hs hInt hDigitK
  · refine holdsAt_mono (fun b hb => ?_) hEnd
    have hb : b = 0x65 ∨ b = 0x45 := by simpa using hb
    rcases hb with rfl | rfl <;> decide

/-- A token that nothing continues is scanned as a whole, and then converted. -/
theorem parseNumber_eq (ht : IsNumber t) (hSpan : Spans input i t j)
    (hEnd : holdsAt input j continuesNumber = false) :
    ∃ isFloating : Bool, (isFloating = true → ∀ n, ¬ IsInteger t n) ∧
      (isFloating = false → ∃ n, IsInteger t n) ∧
      parseNumber lib input i = (readNumber lib isFloating t).map fun v => (v, j) := by
  obtain ⟨m, s, f, e, hm, hs, hf, he, rfl⟩ := ht
  obtain ⟨k, l, hInt, hFrac, hExp⟩ := scan_complete hm hs hf he hSpan hEnd
  refine ⟨decide (f ≠ []) || decide (e ≠ []),
    fun h n => not_isInteger_of_floating hf he (by simpa using h), fun h => ?_, ?_⟩
  · obtain ⟨rfl, rfl⟩ : f = [] ∧ e = [] := by simpa using h
    simpa using isInteger_of_parts hm hs
  · simp only [parseNumber, hInt, hFrac, hExp, hSpan.slice_eq, Option.bind_eq_bind,
      Option.bind_some]
    cases readNumber lib (decide (f ≠ []) || decide (e ≠ [])) (m ++ (s ++ (f ++ e))) <;> rfl

theorem parseNumber_integer {n : Int64} (ht : IsInteger t n.toInt) (hSpan : Spans input i t j)
    (hEnd : holdsAt input j continuesNumber = false) :
    parseNumber lib input i = some (.integer n, j) := by
  obtain ⟨isFloating, hNot, -, hParse⟩ := parseNumber_eq ht.number hSpan hEnd
  cases isFloating with
  | true => exact absurd ht (hNot rfl _)
  | false => rw [hParse, readNumber_integer ht, Option.map_some]

/-- Without an integer in the `int64_t` range, the token stands for what `from_chars` gives. -/
theorem parseNumber_double (ht : IsNumber t) (hInt : ∀ n : Int64, ¬ IsInteger t n.toInt)
    (hSpan : Spans input i t j) (hEnd : holdsAt input j continuesNumber = false) :
    parseNumber lib input i = (readDouble lib t).map fun x => (.number x, j) := by
  obtain ⟨isFloating, -, hFloating, hParse⟩ := parseNumber_eq ht hSpan hEnd
  rw [hParse, readNumber_double hInt hFloating, Option.map_map]
  rfl

end Reader

end ReactorNet.Json
