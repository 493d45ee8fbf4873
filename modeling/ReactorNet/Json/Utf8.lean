import ReactorNet.Lib.Loop
import ReactorNet.Lib.Span
import ReactorNet.Lib.Utf8

/-!
# ReactorNet — UTF-8 in the JSON reader and writer

`isValidUtf8` is the scan that both directions share, and `appendUtf8` the encoder
that the reader uses for escapes. They are written independently, one with masks
and an accumulated code point, the other with shifts. Both agree with the encoding
of Unicode scalar values.

Main results:

* `isValidUtf8_iff` — the scan accepts exactly the encodings of scalar values.
* `appendUtf8_eq` — the encoder gives the encoding of the scalar value.
-/

namespace ReactorNet.Json

open ReactorNet.Lib

/-! ## The scan -/

/-- What the lead byte of a sequence says: its length and the first bits of the code
point. `none` stands for `return false`. -/
def utf8Lead (lead : Nat) : Option (Nat × Nat) :=
  if lead &&& 0xE0 = 0xC0 then
    if lead &&& 0x1F < 2 then none -- overlong (0xC0/0xC1)
    else some (2, lead &&& 0x1F)
  else if lead &&& 0xF0 = 0xE0 then some (3, lead &&& 0x0F)
  else if lead &&& 0xF8 = 0xF0 then
    if lead &&& 0x07 > 4 then none -- above U+10FFFF
    else some (4, lead &&& 0x07)
  else none -- stray continuation byte or invalid lead

/-- The loop over the continuation bytes, which adds six bits for each. -/
def utf8Tail (codePoint : Nat) : Bytes → Option Nat
  | [] => some codePoint
  | next :: rest =>
    if next.toNat &&& 0xC0 = 0x80 then
      utf8Tail (codePoint <<< 6 ||| (next.toNat &&& 0x3F)) rest
    else none

/-- The checks on a code point that was read from `length` bytes. -/
def utf8Scalar (length codePoint : Nat) : Bool :=
  if length = 3 ∧ codePoint < 0x800 ∨ length = 4 ∧ codePoint < 0x10000 then false -- overlong
  else if 0xD800 ≤ codePoint ∧ codePoint ≤ 0xDFFF then false -- UTF-16 surrogate
  else if 0x10FFFF < codePoint then false
  else true

/-- One pass of the scan, at an index of the text. The state `none` is `return false`. -/
def utf8Pass (text : Bytes) : Option Nat → Pass (Option Nat)
  | none => .done none
  | some i =>
    if h : i < text.length then
      let lead := text[i].toNat
      if lead < 0x80 then .again (some (i + 1))
      else
        match utf8Lead lead with
        | none => .done none
        | some (length, first) =>
          -- truncated sequence
          if i + length > text.length then .done none
          else
            match utf8Tail first (slice text (i + 1) (length - 1)) with
            | none => .done none
            | some codePoint =>
              if utf8Scalar length codePoint then .again (some (i + length)) else .done none
    else .done (some i)

/-- The bytes that are still to be scanned. -/
def utf8Left (text : Bytes) : Option Nat → Nat
  | none => 0
  | some i => text.length - i

def isValidUtf8 (text : Bytes) : Bool :=
  (loop (utf8Left text) (utf8Pass text) (some 0)).isSome

/-! ## The masks -/

theorem utf8Lead_eq : ∀ lead < 256, utf8Lead lead =
    if 0xC2 ≤ lead ∧ lead < 0xE0 then some (2, lead - 0xC0)
    else if 0xE0 ≤ lead ∧ lead < 0xF0 then some (3, lead - 0xE0)
    else if 0xF0 ≤ lead ∧ lead < 0xF5 then some (4, lead - 0xF0) else none := by
  decide +kernel

variable {lead : UInt8} {i n : Nat} {text : Bytes}

theorem utf8Lead_length {length first : Nat} (h : utf8Lead lead.toNat = some (length, first)) :
    2 ≤ length := by
  rw [utf8Lead_eq _ lead.toNat_lt] at h
  split_ifs at h <;> cases h <;> omega

theorem continuation_mask : ∀ next < 256,
    (next &&& 0xC0 = 0x80 ↔ 0x80 ≤ next ∧ next < 0xC0) := by
  decide +kernel

theorem six_bits (codePoint next : Nat) :
    codePoint <<< 6 ||| (next &&& 0x3F) = codePoint * 64 + next % 64 := by
  have hLow : next &&& 0x3F = next % 64 := Nat.and_two_pow_sub_one_eq_mod next 6
  rw [hLow, ← Nat.shiftLeft_add_eq_or_of_lt (Nat.mod_lt _ (by decide)), Nat.shiftLeft_eq]

theorem utf8Tail_nil (codePoint : Nat) : utf8Tail codePoint [] = some codePoint := rfl

theorem utf8Tail_cons (codePoint : Nat) (next : UInt8) (rest : Bytes) :
    utf8Tail codePoint (next :: rest) =
      if 0x80 ≤ next.toNat ∧ next.toNat < 0xC0 then
        utf8Tail (codePoint * 64 + next.toNat % 64) rest
      else none := by
  rw [utf8Tail, six_bits]
  simp only [continuation_mask next.toNat next.toNat_lt]

theorem utf8Tail_cons_some {codePoint : Nat} {next : UInt8} {rest : Bytes}
    (h : utf8Tail codePoint (next :: rest) = some n) :
    (0x80 ≤ next.toNat ∧ next.toNat < 0xC0) ∧
      utf8Tail (codePoint * 64 + next.toNat % 64) rest = some n := by
  rw [utf8Tail_cons] at h
  split_ifs at h with hNext
  exact ⟨hNext, h⟩

theorem utf8Scalar_iff {length codePoint : Nat} :
    utf8Scalar length codePoint = true ↔
      (length = 3 → 0x800 ≤ codePoint) ∧ (length = 4 → 0x10000 ≤ codePoint) ∧
        codePoint.isValidChar := by
  unfold utf8Scalar Nat.isValidChar
  split_ifs <;> simp <;> omega

/-! ## One sequence -/

theorem ofNat_eq {b : UInt8} (h : n = b.toNat) : UInt8.ofNat n = b := by
  rw [h, UInt8.ofNat_toNat]

/-- The scan takes a lead byte and its continuation bytes for one code point. -/
def IsSequence (lead : UInt8) (tail : Bytes) : Prop :=
  ∃ first codePoint, utf8Lead lead.toNat = some (tail.length + 1, first) ∧
    utf8Tail first tail = some codePoint ∧ utf8Scalar (tail.length + 1) codePoint = true

theorem isSequence_of_encode {c : Char} {tail : Bytes}
    (h : String.utf8EncodeChar c = lead :: tail) (hLead : 0x80 ≤ lead.toNat) :
    IsSequence lead tail := by
  have hval := val_le c
  have hValid : c.val.toNat.isValidChar := c.valid
  -- by the length of the encoding; the numbers in it are those of the scan
  rcases utf8EncodeChar_cases c with ⟨hc, he⟩ | ⟨hc, he⟩ | ⟨hc, he⟩ | ⟨hc, he⟩ <;>
    obtain ⟨rfl, rfl⟩ := List.cons.inj (h.symm.trans he)
  · -- one byte: it would be below `0x80`
    rw [UInt8.toNat_ofNat'] at hLead
    omega
  · refine ⟨c.val.toNat / 64 % 32, c.val.toNat, ?_, ?_, ?_⟩
    · rw [utf8Lead_eq _ (UInt8.toNat_lt _), UInt8.toNat_ofNat', if_pos (by omega)]
      exact congrArg (fun n => some (2, n)) (by omega)
    · simp only [utf8Tail_cons, utf8Tail_nil, UInt8.toNat_ofNat']
      rw [if_pos (by omega)]
      exact congrArg some (by omega)
    · exact utf8Scalar_iff.mpr ⟨by simp, by simp, hValid⟩
  · refine ⟨c.val.toNat / 4096 % 16, c.val.toNat, ?_, ?_, ?_⟩
    · rw [utf8Lead_eq _ (UInt8.toNat_lt _), UInt8.toNat_ofNat', if_neg (by omega),
        if_pos (by omega)]
      exact congrArg (fun n => some (3, n)) (by omega)
    · simp only [utf8Tail_cons, utf8Tail_nil, UInt8.toNat_ofNat']
      rw [if_pos (by omega), if_pos (by omega)]
      exact congrArg some (by omega)
    · exact utf8Scalar_iff.mpr ⟨fun _ => hc.1, by simp, hValid⟩
  · refine ⟨c.val.toNat / 262144 % 8, c.val.toNat, ?_, ?_, ?_⟩
    · rw [utf8Lead_eq _ (UInt8.toNat_lt _), UInt8.toNat_ofNat', if_neg (by omega),
        if_neg (by omega), if_pos (by omega)]
      exact congrArg (fun n => some (4, n)) (by omega)
    · simp only [utf8Tail_cons, utf8Tail_nil, UInt8.toNat_ofNat']
      rw [if_pos (by omega), if_pos (by omega), if_pos (by omega)]
      exact congrArg some (by omega)
    · exact utf8Scalar_iff.mpr ⟨by simp, fun _ => hc, hValid⟩

theorem IsSequence.exists_encode {tail : Bytes} (h : IsSequence lead tail) :
    ∃ c, String.utf8EncodeChar c = lead :: tail := by
  obtain ⟨first, codePoint, hFirst, hTail, hScalar⟩ := h
  obtain ⟨h3, h4, hValid⟩ := utf8Scalar_iff.mp hScalar
  have hLt := lead.toNat_lt
  have hCases := utf8EncodeChar_cases (scalar codePoint hValid)
  rw [scalar_toNat] at hCases
  refine ⟨scalar codePoint hValid, ?_⟩
  rw [utf8Lead_eq _ hLt] at hFirst
  -- by the length that the lead byte announces
  split_ifs at hFirst with h2 h3' h4' <;>
    simp only [Option.some.injEq, Prod.mk.injEq] at hFirst
  · -- two bytes
    obtain ⟨a, rfl⟩ := List.length_eq_one_iff.mp (show tail.length = 1 by omega)
    obtain ⟨ha, hTail⟩ := utf8Tail_cons_some hTail
    rw [utf8Tail_nil, Option.some.injEq] at hTail
    obtain ⟨-, he⟩ := (hCases.resolve_left (by omega)).resolve_right (by omega)
    rw [he, ofNat_eq (b := lead) (by omega), ofNat_eq (b := a) (by omega)]
  · -- three bytes, and not overlong
    obtain ⟨a, b, rfl⟩ := List.length_eq_two.mp (show tail.length = 2 by omega)
    obtain ⟨ha, hTail⟩ := utf8Tail_cons_some hTail
    obtain ⟨hb, hTail⟩ := utf8Tail_cons_some hTail
    rw [utf8Tail_nil, Option.some.injEq] at hTail
    have hMin : 0x800 ≤ codePoint := h3 rfl
    obtain ⟨-, he⟩ := ((hCases.resolve_left (by omega)).resolve_left (by omega)).resolve_right
      (by omega)
    rw [he, ofNat_eq (b := lead) (by omega), ofNat_eq (b := a) (by omega),
      ofNat_eq (b := b) (by omega)]
  · -- four bytes, and not overlong
    obtain ⟨a, b, c, rfl⟩ := List.length_eq_three.mp (show tail.length = 3 by omega)
    obtain ⟨ha, hTail⟩ := utf8Tail_cons_some hTail
    obtain ⟨hb, hTail⟩ := utf8Tail_cons_some hTail
    obtain ⟨hc, hTail⟩ := utf8Tail_cons_some hTail
    rw [utf8Tail_nil, Option.some.injEq] at hTail
    have hMin : 0x10000 ≤ codePoint := h4 rfl
    obtain ⟨-, he⟩ := ((hCases.resolve_left (by omega)).resolve_left (by omega)).resolve_left
      (by omega)
    rw [he, ofNat_eq (b := lead) (by omega), ofNat_eq (b := a) (by omega),
      ofNat_eq (b := b) (by omega), ofNat_eq (b := c) (by omega)]

/-! ## The whole scan -/

/-- A pass that goes on has read one scalar value. -/
theorem utf8Pass_again {s' : Option Nat} (h : utf8Pass text (some i) = .again s') :
    ∃ c j, s' = some j ∧ Spans text i (String.utf8EncodeChar c) j := by
  by_cases hi : i < text.length
  · -- ASCII is taken without looking further
    by_cases hLead : text[i].toNat < 0x80
    · simp only [utf8Pass, dif_pos hi, if_pos hLead, Pass.again.injEq] at h
      refine ⟨scalar text[i].toNat (.inl (by omega)), i + 1, h.symm, ?_⟩
      rw [utf8EncodeChar_ascii hLead]
      exact spans_singleton.mpr ⟨List.getElem?_eq_getElem hi, rfl⟩
    · simp only [utf8Pass, dif_pos hi, if_neg hLead] at h
      split at h
      · cases h
      rename_i length first hFirst
      have hLength := utf8Lead_length hFirst
      split at h
      · cases h
      rename_i hRoom
      split at h
      · cases h
      rename_i codePoint hTail
      split_ifs at h with hScalar
      -- the lead byte and the slice behind it are one sequence
      have hSlice : (slice text (i + 1) (length - 1)).length + 1 = length := by
        rw [length_slice (by omega)]
        omega
      obtain ⟨c, hc⟩ := IsSequence.exists_encode
        ⟨first, codePoint, by rw [hSlice]; exact hFirst, hTail, by rw [hSlice]; exact hScalar⟩
      refine ⟨c, i + length, (Pass.again.inj h).symm, ?_⟩
      have hSpan : Spans text (i + 1) _ (i + length) := spans_slice (by omega) (by omega)
      rw [show i + length - (i + 1) = length - 1 by omega] at hSpan
      rw [hc, spans_cons]
      exact ⟨List.getElem?_eq_getElem hi, hSpan⟩
  · simp only [utf8Pass, dif_neg hi, reduceCtorEq] at h

/-- A scan that stops inside the text has failed. -/
theorem utf8Pass_done {r : Option Nat} (h : utf8Pass text (some i) = .done r)
    (hi : i < text.length) : r = none := by
  simp only [utf8Pass, dif_pos hi] at h
  -- every other way out of a pass is `return false`
  split_ifs at h
  split at h
  · exact (Pass.done.inj h).symm
  split_ifs at h
  · exact (Pass.done.inj h).symm
  split at h
  · exact (Pass.done.inj h).symm
  split_ifs at h
  exact (Pass.done.inj h).symm

/-- At a scalar value a pass goes on behind it. -/
theorem utf8Pass_of_spans {j : Nat} {c : Char} (h : Spans text i (String.utf8EncodeChar c) j) :
    utf8Pass text (some i) = .again (some j) := by
  -- the lead byte shows the length, and the rest is what the scan looks at
  obtain ⟨lead, tail, hShape, -⟩ := utf8EncodeChar_shape c
  rw [hShape, spans_cons] at h
  obtain ⟨hGet, hSpan⟩ := h
  obtain ⟨hi, rfl⟩ := List.getElem?_eq_some_iff.mp hGet
  have hLen := hSpan.length
  have hLe := hSpan.le
  by_cases hLead : text[i].toNat < 0x80
  · have hOne := length_utf8EncodeChar hShape
    rw [hShape, sequenceLength, if_pos hLead, List.length_cons] at hOne
    simp only [utf8Pass, dif_pos hi, if_pos hLead]
    rw [hLen, show tail.length = 0 by omega]
  · obtain ⟨first, codePoint, hFirst, hTail, hScalar⟩ := isSequence_of_encode hShape (by omega)
    have hSlice := hSpan.slice_eq
    rw [show j - (i + 1) = tail.length + 1 - 1 by omega] at hSlice
    simp only [utf8Pass, dif_pos hi, if_neg hLead, hFirst]
    rw [if_neg (by omega), hSlice]
    simp only [hTail, hScalar, if_true]
    rw [hLen, Nat.add_assoc, Nat.add_comm 1]

theorem utf8Left_lt (s s' : Option Nat) (h : utf8Pass text s = .again s') :
    utf8Left text s' < utf8Left text s := by
  cases s with
  | none => cases h
  | some i =>
    obtain ⟨c, j, rfl, hSpan⟩ := utf8Pass_again h
    obtain ⟨lead, tail, hShape, -⟩ := utf8EncodeChar_shape c
    have hLe := hSpan.le
    have hLen := hSpan.length
    rw [hShape, List.length_cons] at hLen
    simp only [utf8Left]
    omega

/-- From an index on, the scan succeeds if the rest of the text is UTF-8. -/
theorem utf8_loop_iff (text : Bytes) (s : Option Nat) : ∀ i, s = some i → i ≤ text.length →
    ((loop (utf8Left text) (utf8Pass text) s).isSome ↔ IsUtf8 (text.drop i)) := by
  refine loop_induct
    (P := fun s r => ∀ i, s = some i → i ≤ text.length → (r.isSome ↔ IsUtf8 (text.drop i)))
    utf8Left_lt ?_ ?_ s
  · -- where the scan stops: at the end, or inside the text
    rintro s r hDone i rfl hi
    by_cases hEnd : i = text.length
    · rw [hEnd, List.drop_length]
      have hr : r = some i := by
        rw [utf8Pass, dif_neg (by omega)] at hDone
        exact (Pass.done.inj hDone).symm
      rw [hr]
      exact iff_of_true rfl isUtf8_nil
    · -- the scan stopped inside the text, where no scalar value stands
      have hNot : ¬ IsUtf8 (text.drop i) := by
        intro hUtf8
        obtain ⟨c, t, ht⟩ := hUtf8.exists_encode (by
          rw [ne_eq, List.drop_eq_nil_iff]
          omega)
        have hSpan : Spans text i (text.drop i) text.length := spans_drop hi
        rw [ht] at hSpan
        obtain ⟨j, hc, -⟩ := spans_append.mp hSpan
        rw [utf8Pass_of_spans hc] at hDone
        cases hDone
      have hr : r = none := utf8Pass_done hDone (by omega)
      rw [hr]
      exact iff_of_false (by simp) hNot
  · rintro s s' r hAgain ih i rfl hi
    -- one scalar value further on
    obtain ⟨c, j, rfl, hSpan⟩ := utf8Pass_again hAgain
    rw [ih j rfl hSpan.le, hSpan.2.1, isUtf8_encode_append]

/-- **The scan is exact.** -/
theorem isValidUtf8_iff (text : Bytes) : isValidUtf8 text = true ↔ IsUtf8 text :=
  utf8_loop_iff text (some 0) 0 rfl (Nat.zero_le _)

/-! ## The encoder -/

/-- The bytes that `appendUtf8` adds for a code point. -/
def appendUtf8 (codePoint : Nat) : Bytes :=
  if codePoint ≤ 0x7F then [UInt8.ofNat codePoint]
  else if codePoint ≤ 0x7FF then
    [UInt8.ofNat (0xC0 ||| codePoint >>> 6), UInt8.ofNat (0x80 ||| (codePoint &&& 0x3F))]
  else if codePoint ≤ 0xFFFF then
    [UInt8.ofNat (0xE0 ||| codePoint >>> 12),
      UInt8.ofNat (0x80 ||| (codePoint >>> 6 &&& 0x3F)),
      UInt8.ofNat (0x80 ||| (codePoint &&& 0x3F))]
  else
    [UInt8.ofNat (0xF0 ||| codePoint >>> 18),
      UInt8.ofNat (0x80 ||| (codePoint >>> 12 &&& 0x3F)),
      UInt8.ofNat (0x80 ||| (codePoint >>> 6 &&& 0x3F)),
      UInt8.ofNat (0x80 ||| (codePoint &&& 0x3F))]

theorem continuation_bits (n : Nat) : 0x80 ||| (n &&& 0x3F) = n % 64 + 0x80 := by
  have hLow : n &&& 0x3F = n % 64 := Nat.and_two_pow_sub_one_eq_mod n 6
  rw [hLow, show (0x80 : Nat) = 2 <<< 6 from rfl,
    ← Nat.shiftLeft_add_eq_or_of_lt (Nat.mod_lt _ (by decide))]
  exact Nat.add_comm ..

/-- The bits of a lead byte above those of the code point. -/
theorem lead_bits {mark k : Nat} (h : n < 2 ^ k) : mark <<< k ||| n = n + mark <<< k := by
  rw [← Nat.shiftLeft_add_eq_or_of_lt h, Nat.add_comm]

/-- **The encoder is exact.** -/
theorem appendUtf8_eq (n : Nat) (h : n.isValidChar) :
    appendUtf8 n = String.utf8EncodeChar (scalar n h) := by
  have hVal := val_le (scalar n h)
  have hCases := utf8EncodeChar_cases (scalar n h)
  rw [scalar_toNat] at hVal hCases
  unfold appendUtf8
  simp only [continuation_bits, Nat.shiftRight_eq_div_pow]
  -- by the length of the encoding; the masks keep what the shift has left
  rcases hCases with ⟨hn, he⟩ | ⟨hn, he⟩ | ⟨hn, he⟩ | ⟨hn, he⟩
  · rw [if_pos hn, he]
  · have hLead : 0xC0 ||| n / 2 ^ 6 = n / 64 % 32 + 0xC0 := by
      have hOr : 3 <<< 6 ||| n / 2 ^ 6 = _ := lead_bits (by omega)
      exact hOr.trans (by omega)
    rw [if_neg (by omega), if_pos hn.2, he, hLead]
  · have hLead : 0xE0 ||| n / 2 ^ 12 = n / 4096 % 16 + 0xE0 := by
      have hOr : 7 <<< 5 ||| n / 2 ^ 12 = _ := lead_bits (by omega)
      exact hOr.trans (by omega)
    rw [if_neg (by omega), if_neg (by omega), if_pos hn.2, he, hLead]
  · have hLead : 0xF0 ||| n / 2 ^ 18 = n / 262144 % 8 + 0xF0 := by
      have hOr : 15 <<< 4 ||| n / 2 ^ 18 = _ := lead_bits (by omega)
      exact hOr.trans (by omega)
    rw [if_neg (by omega), if_neg (by omega), if_neg (by omega), he, hLead]

end ReactorNet.Json
