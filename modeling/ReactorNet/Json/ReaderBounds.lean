import ReactorNet.Json.RoundTrip
import ReactorNet.Json.TracedReader

/-!
# ReactorNet — the JSON reader is total and stays in its input

Every function of the traced reader runs to its end and gives what the function of `Reader`
gives, for every input and every place of the cursor. A loop of the reader goes round again
only behind something it has taken, and `parseValue` calls itself only behind a bracket; so
a pass, or a call, for each byte of the input and one more is enough.

Main result: `parse_total`.
-/

namespace ReactorNet.Json

open ReactorNet.Lib

namespace TracedReader

variable {lib : DoubleChars} {input : Bytes} {fuel limit active pos : Nat}

/-! ## The cursor -/

theorem holds_runs (p : UInt8 → Bool) :
    Runs input.length limit active (holds input p) pos
      (some (Reader.holdsAt input pos p, pos)) := by
  refine Runs.bind Runs.position fun _ => ?_
  rw [Reader.holdsAt]
  by_cases h : pos < input.length
  · rw [if_pos h, dif_pos h]
    exact Runs.bind (Runs.fetch h) fun _ => Runs.pure _
  · rw [if_neg h, dif_neg h]
    exact Runs.pure _

/-- A byte that the check has seen is there. -/
theorem lt_of_holdsAt {p : UInt8 → Bool} (h : Reader.holdsAt input pos p = true) :
    pos < input.length := by
  obtain ⟨b, hb, -⟩ := Reader.holdsAt_iff.mp h
  exact (List.getElem?_eq_some_iff.mp hb).1

/-- `if (pos_ < in_.size() && p(in_[pos_]))`, one branch behind the byte and one before it. -/
theorem bind_holds {α : Type} {p : UInt8 → Bool} {f : Bool → Scan α} {r : Option (α × Nat)}
    (hTrue : Reader.holdsAt input pos p = true → pos < input.length →
      Runs input.length limit active (f true) pos r)
    (hFalse : Reader.holdsAt input pos p = false → Runs input.length limit active (f false) pos r) :
    Runs input.length limit active (holds input p >>= f) pos r := by
  refine Runs.bind (holds_runs p) fun _ => ?_
  cases h : Reader.holdsAt input pos p with
  | true => exact hTrue h (lt_of_holdsAt h)
  | false => exact hFalse h

theorem skipPass_runs (p : UInt8 → Bool) (i : Nat) :
    Runs input.length limit active (skipPass input p ()) i
      (Runs.outcome (fun i => some ((), i)) (Reader.skipPass input p i)) := by
  rw [Reader.skipPass]
  refine bind_holds (fun h hi => ?_) fun h => ?_
  · rw [h]
    exact Runs.bind (Runs.advance hi) fun _ => Runs.pure _
  · rw [h]
    exact Runs.pure _

section

variable (hFuel : input.length < fuel)

include hFuel

theorem skipWhile_runs (p : UInt8 → Bool) :
    Runs input.length limit active (skipWhile input fuel p) pos
      (some ((), Reader.skipWhile input p pos)) := by
  have hEnough : input.length - pos < fuel := by omega
  refine Runs.loop (fun i => some ((), i)) 0 ?_ Reader.skipPass_lt ?_ ?_ fuel pos () pos rfl
    (Nat.zero_le _) hEnough
  · rintro i _ _ ⟨⟩
    rfl
  · rintro i ⟨⟩
  · rintro i _ _ ⟨⟩ - -
    exact skipPass_runs p i

theorem skipWhitespace_runs :
    Runs input.length limit active (skipWhitespace input fuel) pos
      (some ((), Reader.skipWhitespace input pos)) := skipWhile_runs hFuel _

end

theorem consume_runs (literal : Bytes) :
    Runs input.length limit active (consume input literal) pos
      ((Reader.consume input literal pos).map fun p => ((), p)) := by
  intro hPos
  refine Runs.bind Runs.position (fun _ => Runs.bind (Runs.substr hPos) fun _ => ?_) hPos
  rw [Reader.consume]
  split_ifs with hSlice
  · -- a match is not cut off at the end of the input
    have hLe := add_length_slice_le hPos literal.length
    rw [hSlice] at hLe
    exact Runs.advance hLe
  · exact Runs.fail

/-! ## Numbers -/

theorem skipIf_runs (p : UInt8 → Bool) :
    Runs input.length limit active (skipIf input p) pos
      (some ((), if Reader.holdsAt input pos p then pos + 1 else pos)) := by
  refine bind_holds (fun h hPos => ?_) fun h => ?_
  · rw [if_pos h]
    exact Runs.advance hPos
  · rw [h]
    exact Runs.pure ()

theorem skipMinus_runs :
    Runs input.length limit active (skipIf input (· == 0x2D)) pos
      (some ((), Reader.skipMinus input pos)) := skipIf_runs _

theorem skipSign_runs :
    Runs input.length limit active (skipIf input fun c => c == 0x2B || c == 0x2D) pos
      (some ((), Reader.skipSign input pos)) := skipIf_runs _

section

variable (hFuel : input.length < fuel)

include hFuel

theorem scanInt_runs :
    Runs input.length limit active (scanInt input fuel) pos
      ((Reader.scanInt input pos).map fun p => ((), p)) := by
  rw [Reader.scanInt]
  refine Runs.peek (fun hEnd => by rw [dif_neg hEnd]; rfl) fun hPos => ?_
  rw [dif_pos hPos]
  by_cases hZero : input[pos] = 0x30
  · -- a zero stands alone
    rw [if_pos hZero, if_pos hZero]
    refine Runs.bind (Runs.advance hPos) fun _ => bind_holds (fun h _ => ?_) fun h => ?_
    · rw [if_pos h]
      exact Runs.fail
    · rw [h]
      exact Runs.pure ()
  · rw [if_neg hZero, if_neg hZero]
    refine Runs.bind (Runs.fetch hPos) fun _ => ?_
    split_ifs
    · exact skipWhile_runs hFuel isDigit
    · exact Runs.fail

theorem scanDigits_runs :
    Runs input.length limit active (scanDigits input fuel) pos
      (if Reader.holdsAt input pos isDigit then some ((), Reader.skipWhile input isDigit pos)
        else none) := by
  refine bind_holds (fun h _ => ?_) fun h => ?_
  · rw [if_pos h]
    exact skipWhile_runs hFuel isDigit
  · rw [h]
    exact Runs.fail

theorem scanFrac_runs :
    Runs input.length limit active (scanFrac input fuel) pos (Reader.scanFrac input pos) := by
  rw [Reader.scanFrac]
  refine bind_holds (fun hPoint hPos => ?_) fun hPoint => ?_
  · rw [if_pos hPoint]
    refine Runs.bind (Runs.advance hPos) fun _ => ?_
    have hDigits : Runs input.length limit active (scanDigits input fuel) (pos + 1) _ :=
      scanDigits_runs hFuel
    split_ifs at hDigits ⊢
    · exact Runs.bind hDigits fun _ => Runs.pure true
    · exact Runs.bind_fail hDigits
  · rw [hPoint]
    exact Runs.pure false

theorem scanExp_runs :
    Runs input.length limit active (scanExp input fuel) pos (Reader.scanExp input pos) := by
  rw [Reader.scanExp]
  refine bind_holds (fun hMark hPos => ?_) fun hMark => ?_
  · rw [if_pos hMark]
    refine Runs.bind (Runs.advance hPos) fun _ => Runs.bind skipSign_runs fun _ => ?_
    have hDigits : Runs input.length limit active (scanDigits input fuel)
        (Reader.skipSign input (pos + 1)) _ := scanDigits_runs hFuel
    split_ifs at hDigits ⊢
    · exact Runs.bind hDigits fun _ => Runs.pure true
    · exact Runs.bind_fail hDigits
  · rw [hMark]
    exact Runs.pure false

theorem parseNumber_runs :
    Runs input.length limit active (parseNumber lib input fuel) pos
      (Reader.parseNumber lib input pos) := by
  intro hPos
  obtain ⟨_, -, hMinus⟩ := Reader.skipMinus_spans hPos
  refine Runs.bind Runs.position (fun _ => Runs.bind skipMinus_runs fun _ => ?_) hPos
  -- part by part; what they pass over together is the token
  refine Runs.bind_either (scanInt_runs hFuel) (fun hInt => ?_) fun _ k hInt hk => ?_
  · rw [Option.map_eq_none_iff] at hInt
    rw [Reader.parseNumber, hInt]
    rfl
  obtain ⟨_, hInt, ⟨⟩⟩ := Option.map_eq_some_iff.mp hInt
  simp only [Reader.parseNumber, hInt, Option.bind_eq_bind, Option.bind_some]
  refine Runs.bind_cases (scanFrac_runs hFuel) fun frac k' hFrac hk' =>
    Runs.bind_cases (scanExp_runs hFuel) fun exp l hExp hl => ?_
  obtain ⟨_, -, hIntSpan⟩ := Reader.scanInt_sound hInt
  obtain ⟨_, -, hFracSpan, -⟩ := Reader.scanFrac_sound hk hFrac
  obtain ⟨_, -, hExpSpan, -⟩ := Reader.scanExp_sound hk' hExp
  have hToken : pos ≤ l := by
    have h := (hMinus.trans (hIntSpan.trans (hFracSpan.trans hExpSpan))).length
    omega
  refine Runs.bind Runs.position fun _ => Runs.bind (Runs.range hToken hl) fun _ => ?_
  cases hValue : Reader.readNumber lib (frac || exp) (slice input pos (l - pos)) with
  | none => exact Runs.fail
  | some value => exact Runs.pure value

end

/-! ## Strings -/

/-- The digits are within the input if all four are. -/
theorem hexDigits_runs {p : Nat} (count : Nat) : ∀ i value, p + i + count ≤ input.length →
    Runs input.length limit active (hexDigits input p count i value) pos
      ((Reader.hexValue value (slice input (p + i) count)).map fun v => (v, pos)) := by
  induction count with
  | zero =>
    intro i value _
    exact Runs.pure value
  | succ count ih =>
    intro i value hRoom
    have hNext : p + i < input.length := by omega
    rw [slice_succ hNext, Reader.hexValue, Nat.add_assoc]
    refine Runs.bind (Runs.fetch hNext) fun _ => ?_
    cases Reader.hexDigit input[p + i] with
    | none => exact Runs.fail
    | some digit => exact ih (i + 1) _ (by omega)

theorem readHex4_runs :
    Runs input.length limit active (readHex4 input) pos (Reader.readHex4 input pos) := by
  refine Runs.bind Runs.position fun _ => ?_
  rw [Reader.readHex4]
  by_cases hRoom : pos + 4 > input.length
  · rw [if_pos hRoom, if_pos hRoom]
    exact Runs.fail
  · rw [if_neg hRoom, if_neg hRoom]
    refine Runs.bind_either (hexDigits_runs 4 0 0 (by omega)) (fun h => ?_) fun value p h _ => ?_
    · rw [Nat.add_zero, Option.map_eq_none_iff] at h
      rw [h]
      rfl
    · -- the digits are looked at from where the cursor stands
      obtain ⟨_, hValue, ⟨⟩⟩ := Option.map_eq_some_iff.mp h
      rw [Nat.add_zero] at hValue
      rw [hValue]
      exact Runs.bind (Runs.advance (by omega)) fun _ => Runs.pure value

/-- The two bytes in front of a low surrogate are looked at only if both are there. -/
theorem lowSurrogate_runs :
    Runs input.length limit active (lowSurrogate input) pos
      (if Reader.holdsAt input pos (· == 0x5C) && Reader.holdsAt input (pos + 1) (· == 0x75) then
        (Reader.readHex4 input (pos + 2)).bind fun r =>
          if r.1 < 0xDC00 ∨ r.1 > 0xDFFF then none else some r
      else none) := by
  refine Runs.bind Runs.position fun _ => ?_
  by_cases hRoom : pos + 2 > input.length
  · -- one of the two bytes would be behind the end
    have hNot : Reader.holdsAt input (pos + 1) (· == 0x75) = false := by
      rw [Reader.holdsAt, dif_neg (by omega)]
    rw [if_pos hRoom, hNot, Bool.and_false]
    exact Runs.fail
  · have h0 : pos < input.length := by omega
    have h1 : pos + 1 < input.length := by omega
    rw [if_neg hRoom, Reader.holdsAt, Reader.holdsAt, dif_pos h0, dif_pos h1]
    refine Runs.bind (Runs.fetch h0) fun _ => ?_
    by_cases hBackslash : input[pos] = 0x5C
    · rw [if_neg (not_not.mpr hBackslash)]
      refine Runs.bind (Runs.fetch h1) fun _ => ?_
      by_cases hU : input[pos + 1] = 0x75
      · rw [if_neg (not_not.mpr hU), if_pos (by simp [hBackslash, hU])]
        refine Runs.bind (Runs.advance (by omega)) fun _ =>
          Runs.bind_cases readHex4_runs fun low p _ _ => ?_
        dsimp only
        split_ifs
        · exact Runs.fail
        · exact Runs.pure low
      · rw [if_pos hU, if_neg (by simp [hU])]
        exact Runs.fail
    · rw [if_pos hBackslash, if_neg (by simp [hBackslash])]
      exact Runs.fail

theorem parseUnicodeEscape_runs :
    Runs input.length limit active (parseUnicodeEscape input) pos
      (Reader.parseUnicodeEscape input pos) := by
  refine Runs.bind_cases readHex4_runs fun codePoint p _ _ => ?_
  dsimp only
  split_ifs with hHigh hEscape hLone
  · -- a pair
    have hLow : Runs input.length limit active (lowSurrogate input) p _ := lowSurrogate_runs
    rw [if_pos hEscape] at hLow
    cases hHex : Reader.readHex4 input (p + 2) with
    | none =>
      rw [hHex] at hLow
      exact Runs.bind_fail hLow
    | some r =>
      obtain ⟨low, q⟩ := r
      rw [hHex] at hLow
      simp only [Option.bind_eq_bind, Option.bind_some] at hLow ⊢
      split_ifs at hLow ⊢
      · exact Runs.bind_fail hLow
      · exact Runs.bind hLow fun _ => Runs.pure _
  · -- a high surrogate alone
    have hLow : Runs input.length limit active (lowSurrogate input) p _ := lowSurrogate_runs
    rw [if_neg hEscape] at hLow
    exact Runs.bind_fail hLow
  · exact Runs.fail
  · exact Runs.pure _

theorem parseEscape_runs :
    Runs input.length limit active (parseEscape input) pos (Reader.parseEscape input pos) := by
  rw [Reader.parseEscape]
  refine Runs.peek (fun hEnd => dif_neg hEnd) fun hPos => ?_
  rw [dif_pos hPos]
  refine Runs.bind (Runs.advance hPos) fun _ => ?_
  split_ifs
  · exact parseUnicodeEscape_runs
  · cases Reader.simpleEscape input[pos] with
    | none => exact Runs.fail
    | some b => exact Runs.pure [b]

theorem stringPass_runs (text : Bytes) :
    Runs input.length limit active (stringPass input text) pos
      (Runs.outcome id (Reader.stringPass input (some (text, pos)))) := by
  rw [Reader.stringPass]
  refine Runs.peek (fun hEnd => by rw [dif_neg hEnd]; rfl) fun hPos => ?_
  rw [dif_pos hPos]
  refine Runs.bind (Runs.advance hPos) fun _ => ?_
  split_ifs
  · exact Runs.pure _
  · exact Runs.fail
  · -- behind the backslash
    refine Runs.bind_either parseEscape_runs (fun h => by rw [h]; rfl) fun bytes p h _ => ?_
    rw [h]
    exact Runs.pure _
  · exact Runs.fail
  · exact Runs.pure _

theorem left_eq {α : Type} (t : Option (α × Nat)) (s : α) (pos : Nat)
    (h : id t = some (s, pos)) : Reader.left input t = input.length - pos := by
  obtain rfl : t = some (s, pos) := h
  rfl

theorem parseString_runs (hFuel : input.length < fuel) :
    Runs input.length limit active (parseString input fuel) pos
      (Reader.parseString input pos) := by
  rw [Reader.parseString]
  refine bind_holds (fun h hPos => ?_) fun h => ?_
  · rw [if_pos h]
    refine Runs.bind (Runs.advance hPos) fun _ => ?_
    have hEnough : input.length - (pos + 1) < fuel := by omega
    refine Runs.loop id 0 left_eq Reader.stringPass_lt ?_ ?_ fuel _ [] (pos + 1) rfl
      (Nat.zero_le _) hEnough
    · rintro _ rfl
      exact loop_done rfl
    · rintro _ text i rfl - -
      exact stringPass_runs text
  · rw [h]
    exact Runs.fail

/-! ## Values -/

section Items

variable {α : Type} {item : Scan α} {read : Nat → Option (α × Nat)} {low : Nat} {close : UInt8}
  (hFuel : input.length < fuel)
  (hItem : ∀ p, low ≤ p → p ≤ input.length → Runs input.length limit active item p (read p))

include hFuel hItem

theorem itemPass_runs (items : List α) (hLow : low ≤ pos) :
    Runs input.length limit active (itemPass input fuel item close items) pos
      (Runs.outcome id (Reader.itemPass input read close (some (items, pos)))) := by
  have hSkip : pos ≤ Reader.skipWhitespace input pos := Reader.le_skipWhile ..
  rw [Reader.itemPass]
  refine Runs.bind (skipWhitespace_runs hFuel) fun hp => ?_
  refine Runs.bind_either (hItem _ (by omega) hp) (fun h => by rw [h]; rfl) fun value p h _ => ?_
  rw [h]
  dsimp only
  -- what stands behind the item
  refine Runs.bind (skipWhitespace_runs hFuel) fun _ =>
    Runs.peek (fun hEnd => by rw [dif_neg hEnd]; rfl) fun hNext => ?_
  rw [dif_pos hNext]
  by_cases hComma : input[Reader.skipWhitespace input p] = 0x2C
  · rw [if_pos hComma, if_pos hComma]
    exact Runs.bind (Runs.advance hNext) fun _ => Runs.pure _
  · rw [if_neg hComma, if_neg hComma]
    refine Runs.bind (Runs.fetch hNext) fun _ => ?_
    split_ifs
    · exact Runs.bind (Runs.advance hNext) fun _ => Runs.pure _
    · exact Runs.fail

/-- The items of a container, if one that is read moves the cursor on. -/
theorem parseItems_runs {P : Bytes → α → Prop} (hReads : Reader.Reads input read P)
    (hLow : low ≤ pos + 1) (hPos : pos < input.length) :
    Runs input.length limit active (parseItems input fuel item close) pos
      (Reader.parseItems input read close pos) := by
  have hSkip : pos + 1 ≤ Reader.skipWhitespace input (pos + 1) := Reader.le_skipWhile ..
  rw [Reader.parseItems]
  refine Runs.bind (Runs.advance hPos) fun _ => Runs.bind (skipWhitespace_runs hFuel) fun _ =>
    bind_holds (fun h hNext => ?_) fun h => ?_
  · rw [if_pos h]
    exact Runs.bind (Runs.advance hNext) fun _ => Runs.pure []
  · rw [h]
    have hEnough : input.length - Reader.skipWhitespace input (pos + 1) < fuel := by omega
    refine Runs.loop id low left_eq (Reader.itemPass_lt hReads) ?_ ?_ fuel _ [] _ rfl (by omega)
      hEnough
    · rintro _ rfl
      exact loop_done rfl
    · rintro _ items i rfl hi -
      exact itemPass_runs hFuel hItem items hi

theorem parseMember_runs (hLow : low ≤ pos) :
    Runs input.length limit active (parseMember input fuel item) pos
      (Reader.parseMember input read pos) := by
  refine Runs.bind_cases (parseString_runs hFuel) fun key p hKey hp => ?_
  dsimp only
  obtain ⟨_, -, hSpan⟩ := Reader.parseString_iff.mp hKey
  have hLen := hSpan.length
  have hSkip : p ≤ Reader.skipWhitespace input p := Reader.le_skipWhile ..
  have hSkip' : Reader.skipWhitespace input p + 1 ≤
      Reader.skipWhitespace input (Reader.skipWhitespace input p + 1) := Reader.le_skipWhile ..
  refine Runs.bind (skipWhitespace_runs hFuel) fun _ => bind_holds (fun h hColon => ?_) fun h => ?_
  · rw [if_pos h]
    refine Runs.bind (Runs.advance hColon) fun _ => Runs.bind (skipWhitespace_runs hFuel) fun hq =>
      Runs.bind_cases (hItem _ (by omega) hq) fun v q _ _ => Runs.pure (key, v)
  · rw [h]
    exact Runs.fail

end Items

theorem lt_of_parseValue {d i j : Nat} {v : JsonValue lib.Double}
    (h : Reader.parseValue lib input d i = some (v, j)) : i < j := by
  have hReads : Reader.Reads input (Reader.parseValue lib input d) (IsValue lib d) :=
    Reader.parseValue_reads d
  obtain ⟨s, hs, hSpan⟩ := hReads.sound i v j h
  obtain ⟨b, t, rfl, -⟩ := hReads.starts s v hs
  have hLen := hSpan.length
  rw [List.length_cons] at hLen
  omega

theorem parseLiteral_runs (literal : Bytes) (value : JsonValue lib.Double) :
    Runs input.length limit active (parseLiteral lib input literal value) pos
      ((Reader.consume input literal pos).map fun p => (value, p)) := by
  have hMap : Runs input.length limit active (parseLiteral lib input literal value) pos _ :=
    (consume_runs literal).map fun _ => value
  rwa [Option.map_map] at hMap

/-- A container that is entered unless the limit is reached: the budget of the parser is what
the limit leaves. -/
theorem entered_runs {α : Type} {depth maxDepth : Nat} {m : Scan α} (r : Nat → Option (α × Nat))
    (h : Runs input.length maxDepth (depth + 1) m pos (r (maxDepth - (depth + 1)))) :
    Runs input.length maxDepth depth (if depth ≥ maxDepth then Scan.fail else Scan.nested m) pos
      (match maxDepth - depth with
      | 0 => none
      | d + 1 => r d) := by
  by_cases hDepth : depth < maxDepth
  · have hBudget : maxDepth - depth = maxDepth - (depth + 1) + 1 := by omega
    rw [if_neg (Nat.not_le.mpr hDepth), hBudget]
    exact Runs.nested hDepth h
  · rw [if_pos (Nat.not_lt.mp hDepth), Nat.sub_eq_zero_of_le (Nat.not_lt.mp hDepth)]
    exact Runs.fail

section Containers

variable {depth maxDepth : Nat} {inner : Scan (JsonValue lib.Double)}
  (hFuel : input.length < fuel) (hPos : pos < input.length)
  (hInner : ∀ p, pos + 1 ≤ p → p ≤ input.length →
    Runs input.length maxDepth (depth + 1) inner p
      (Reader.parseValue lib input (maxDepth - (depth + 1)) p))

include hFuel hPos hInner

theorem parseArray_runs :
    Runs input.length maxDepth depth (parseArray lib input fuel maxDepth depth inner) pos
      (match maxDepth - depth with
      | 0 => none
      | d + 1 => Reader.parseArray lib input (Reader.parseValue lib input d) pos) := by
  refine entered_runs (fun d => Reader.parseArray lib input (Reader.parseValue lib input d) pos) ?_
  have hItems : Runs input.length maxDepth (depth + 1) (parseItems input fuel inner 0x5D) pos _ :=
    parseItems_runs hFuel hInner (Reader.parseValue_reads _) (Nat.le_refl _) hPos
  exact hItems.map JsonValue.array

theorem parseObject_runs :
    Runs input.length maxDepth depth (parseObject lib input fuel maxDepth depth inner) pos
      (match maxDepth - depth with
      | 0 => none
      | d + 1 => Reader.parseObject lib input (Reader.parseValue lib input d) pos) := by
  refine entered_runs (fun d => Reader.parseObject lib input (Reader.parseValue lib input d) pos) ?_
  have hMembers : Runs input.length maxDepth (depth + 1)
      (parseItems input fuel (parseMember input fuel inner) 0x7D) pos _ :=
    parseItems_runs hFuel (fun p hp _ => parseMember_runs hFuel hInner hp)
      (Reader.parseMember_reads (Reader.parseValue_reads _)) (Nat.le_refl _) hPos
  exact hMembers.map JsonValue.object

end Containers

/-- The switch, if a value behind its first byte is read as it should be. -/
theorem parseSwitch_runs {depth maxDepth : Nat} {inner : Scan (JsonValue lib.Double)}
    (hFuel : input.length < fuel)
    (hInner : ∀ p, pos + 1 ≤ p → p ≤ input.length →
      Runs input.length maxDepth (depth + 1) inner p
        (Reader.parseValue lib input (maxDepth - (depth + 1)) p)) :
    Runs input.length maxDepth depth (parseSwitch lib input fuel maxDepth depth inner) pos
      (Reader.parseValue lib input (maxDepth - depth) pos) := by
  rw [Reader.parseValue.eq_def]
  refine Runs.peek (fun hEnd => dif_neg hEnd) fun hPos => ?_
  rw [dif_pos hPos]
  split_ifs
  · exact parseLiteral_runs _ _
  · exact parseLiteral_runs _ _
  · exact parseLiteral_runs _ _
  · exact (parseString_runs hFuel).map JsonValue.string
  · exact parseArray_runs hFuel hPos hInner
  · exact parseObject_runs hFuel hPos hInner
  · exact parseNumber_runs hFuel

/-- **Values.** A call for each byte behind the cursor and one more is enough, at every
depth. -/
theorem parseValue_runs {maxDepth : Nat} (hFuel : input.length < fuel) (calls : Nat) :
    ∀ depth pos, input.length - pos < calls →
      Runs input.length maxDepth depth (parseValue lib input fuel maxDepth calls depth) pos
        (Reader.parseValue lib input (maxDepth - depth) pos) := by
  induction calls with
  | zero => intro depth pos hCalls; omega
  | succ calls ih =>
    intro depth pos hCalls hPos
    refine Runs.taking (parseSwitch_runs hFuel fun p hp hLe => ?_) (fun _ _ => lt_of_parseValue) hPos
    -- the containers read their values behind the bracket, one byte further on
    exact ih (depth + 1) p (by omega)

theorem parse_runs {maxDepth : Nat} (hFuel : input.length < fuel) :
    ∃ r, r.map Prod.fst = Json.parse lib maxDepth input ∧
      Runs input.length maxDepth 0 (parse lib input fuel maxDepth) 0 r := by
  refine ⟨(Reader.parseValue lib input maxDepth (Reader.skipWhitespace input 0)).bind fun vp =>
    if Reader.skipWhitespace input vp.2 = input.length then
      some (vp.1, Reader.skipWhitespace input vp.2) else none, ?_, ?_⟩
  · rw [Json.parse]
    cases Reader.parseValue lib input maxDepth (Reader.skipWhitespace input 0) with
    | none => rfl
    | some vp =>
      simp only [Option.bind_eq_bind, Option.bind_some]
      split_ifs <;> rfl
  · refine Runs.bind (skipWhitespace_runs hFuel) fun _ =>
      Runs.bind_cases (parseValue_runs hFuel fuel 0 _ (by omega)) fun value p _ _ =>
        Runs.bind (skipWhitespace_runs hFuel) fun _ => Runs.bind Runs.position fun _ => ?_
    by_cases hEnd : Reader.skipWhitespace input p = input.length
    · rw [if_neg (not_not.mpr hEnd), if_pos hEnd]
      exact Runs.pure value
    · -- trailing garbage
      rw [if_pos hEnd, if_neg hEnd]
      exact Runs.fail

/-- **The JSON reader is total and bounded.** For every input and every depth limit, the
reader ends with the result of `parse`, once its loops and calls may number one more than
the bytes of the input. On the way it reads bytes of the input only, takes no substring
from behind the end and hands no range outside of it to `std::from_chars`; its cursor is
never behind the end, every round of a loop moves it on, and so does every value that is
read; and it is never in more than `maxDepth` containers at once. -/
theorem parse_total (lib : DoubleChars) (maxDepth : Nat) (input : Bytes) (fuel : Nat)
    (hFuel : input.length < fuel) :
    ∃ c : Cursor, parse lib input fuel maxDepth {} = some (Json.parse lib maxDepth input, c) ∧
      (∀ i, .read i ∈ c.trace → i < input.length) ∧
      (∀ i n, .substr i n ∈ c.trace → i ≤ input.length) ∧
      (∀ i j, .range i j ∈ c.trace → i ≤ j ∧ j ≤ input.length) ∧
      (c.pos ≤ input.length ∧ ∀ pos, .moved pos ∈ c.trace → pos ≤ input.length) ∧
      (∀ i j, .round i j ∈ c.trace → i < j) ∧
      (∀ i j, .took i j ∈ c.trace → i < j) ∧
      (c.active = 0 ∧ ∀ n, .entered n ∈ c.trace → n ≤ maxDepth) := by
  obtain ⟨r, hResult, hRuns⟩ : ∃ r, r.map Prod.fst = Json.parse lib maxDepth input ∧
      Runs input.length maxDepth 0 (parse lib input fuel maxDepth) 0 r := parse_runs hFuel
  obtain ⟨pos, done, hPos, hWithin, hRun, -⟩ := hRuns (Nat.zero_le _) []
  rw [hResult] at hRun
  exact ⟨⟨pos, 0, done⟩, hRun, fun _ h => hWithin _ h, fun _ _ h => hWithin _ h,
    fun _ _ h => hWithin _ h, ⟨hPos, fun _ h => hWithin _ h⟩, fun _ _ h => hWithin _ h,
    fun _ _ h => hWithin _ h, rfl, fun _ h => hWithin _ h⟩

/-- `[[1]]` with a limit of one: the second bracket is read, and not entered. -/
theorem parse_total_tooDeep :
    ∃ c : Cursor, parse Writer.wholeNumbers [0x5B, 0x5B, 0x31, 0x5D, 0x5D] 6 1 {} =
        some (Json.parse Writer.wholeNumbers 1 [0x5B, 0x5B, 0x31, 0x5D, 0x5D], c) ∧
      (Json.parse Writer.wholeNumbers 1 [0x5B, 0x5B, 0x31, 0x5D, 0x5D]).isNone = true ∧
      .read 1 ∈ c.trace ∧ .entered 1 ∈ c.trace ∧ ∀ n, .entered n ∈ c.trace → n ≤ 1 := by
  obtain ⟨c, hRun, -, -, -, -, -, -, -, hEntered⟩ :=
    parse_total Writer.wholeNumbers 1 [0x5B, 0x5B, 0x31, 0x5D, 0x5D] 6 (by decide)
  have hTrace : (parse Writer.wholeNumbers [0x5B, 0x5B, 0x31, 0x5D, 0x5D] 6 1 {}).map
      (fun r => decide (.read 1 ∈ r.2.trace) && decide (.entered 1 ∈ r.2.trace)) = some true := by
    decide
  rw [hRun, Option.map_some, Option.some.injEq, Bool.and_eq_true, decide_eq_true_eq,
    decide_eq_true_eq] at hTrace
  exact ⟨c, hRun, by decide, hTrace.1, hTrace.2, hEntered⟩

end TracedReader

end ReactorNet.Json
