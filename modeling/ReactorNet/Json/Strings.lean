import ReactorNet.Json.Grammar
import ReactorNet.Json.Parser

/-!
# ReactorNet — JSON strings

The reader copies the raw bytes of a string and expands its escapes, and looks at
the UTF-8 only in the end, on the decoded text. The grammar has UTF-8 in the input.
The two agree because an escape stands for a whole scalar value: by
self-synchronisation it cannot complete a sequence that the raw bytes in front of it
have left open, nor can raw bytes behind it (`IsRaw.chars`).

Main results:

* `parseEscape_iff` — the reader takes exactly the escapes of the grammar.
* `parseString_iff` — the reader takes exactly the strings of the grammar.
-/

namespace ReactorNet.Json

open ReactorNet.Lib

/-! ## Raw bytes and the UTF-8 of the decoded text -/

/-- A byte that the reader copies. -/
def IsRawByte (b : UInt8) : Prop := 0x20 ≤ b.toNat ∧ b ≠ 0x22 ∧ b ≠ 0x5C

/-- What the reader's loop takes before it looks at the UTF-8. -/
inductive IsRaw : Bytes → Bytes → Prop
  | nil : IsRaw [] []
  | byte {b : UInt8} {s t : Bytes} (hb : IsRawByte b) (hs : IsRaw s t) :
      IsRaw (b :: s) (b :: t)
  | escaped {e : Bytes} {c : Char} {s t : Bytes} (he : IsEscape e c) (hs : IsRaw s t) :
      IsRaw (e ++ s) (String.utf8EncodeChar c ++ t)

variable {r s t : Bytes}

theorem IsRaw.run (hr : ∀ b ∈ r, IsRawByte b) (hs : IsRaw s t) : IsRaw (r ++ s) (r ++ t) := by
  induction r with
  | nil => exact hs
  | cons b r ih =>
    exact .byte (hr b (List.mem_cons_self ..)) (ih fun b' hb' => hr b' (List.mem_cons_of_mem b hb'))

/-- An unescaped scalar value is made of raw bytes. -/
theorem isUnescaped_iff {c : Char} :
    IsUnescaped c ↔ ∀ b ∈ String.utf8EncodeChar c, IsRawByte b := by
  by_cases hc : c.val.toNat ≤ 0x7F
  · -- one byte, with the number of the scalar value
    have hByte : (UInt8.ofNat c.val.toNat).toNat = c.val.toNat := by
      rw [UInt8.toNat_ofNat']
      omega
    have hEncode : String.utf8EncodeChar c = [UInt8.ofNat c.val.toNat] := by
      simp only [String.utf8EncodeChar, hc, if_true]
    rw [hEncode, IsUnescaped, ne_eq, ne_eq, char_eq_iff, char_eq_iff, List.forall_mem_singleton,
      IsRawByte, ne_eq, ne_eq, ← UInt8.toNat_inj, ← UInt8.toNat_inj, hByte]
    rfl
  · -- above ASCII: every byte is above the quotation mark and the backslash
    refine iff_of_true ⟨by omega, ?_, ?_⟩ fun b hb => ?_
    · rintro rfl
      exact hc (by decide)
    · rintro rfl
      exact hc (by decide)
    · have hLe := le_of_mem_utf8EncodeChar (by omega) hb
      refine ⟨by omega, ?_, ?_⟩
      · rintro rfl
        exact absurd hLe (by decide)
      · rintro rfl
        exact absurd hLe (by decide)

/-- A run of raw bytes that is UTF-8. -/
theorem isChars_run (hr : ∀ b ∈ r, IsRawByte b) (hUtf8 : IsUtf8 r) (hs : IsChars s t) :
    IsChars (r ++ s) (r ++ t) := by
  obtain ⟨cs, rfl⟩ := hUtf8
  induction cs with
  | nil => exact hs
  | cons c cs ih =>
    rw [List.flatMap_cons] at hr ⊢
    rw [List.append_assoc, List.append_assoc]
    exact .unescaped (isUnescaped_iff.mpr fun b hb => hr b (List.mem_append_left _ hb))
      (ih fun b hb => hr b (List.mem_append_right _ hb))

/-- **An escape cannot repair a raw sequence.** Where the decoded text is UTF-8, every
run of raw bytes is. The run in front of the current place is `r`. -/
theorem IsRaw.chars_append (h : IsRaw s t) (hr : ∀ b ∈ r, IsRawByte b) (hUtf8 : IsUtf8 (r ++ t)) :
    IsChars (r ++ s) (r ++ t) := by
  -- on the input, with the run of raw bytes that is not closed yet in front of it
  induction h generalizing r with
  | nil =>
    rw [List.append_nil] at hUtf8
    exact isChars_run hr hUtf8 .nil
  | @byte b s t hb _ ih =>
    have hRun : ∀ b' ∈ r ++ [b], IsRawByte b' := by
      intro b' hb'
      rcases List.mem_append.mp hb' with h | h
      · exact hr b' h
      · rwa [List.mem_singleton.mp h]
    have hChars := ih hRun (by rwa [List.append_assoc])
    rwa [List.append_assoc, List.append_assoc] at hChars
  | @escaped e c s t he _ ih =>
    -- the escape starts with a byte that continues nothing: the text can be cut there
    obtain ⟨lead, tail, hShape, hLead, -⟩ := utf8EncodeChar_shape c
    obtain ⟨hRun, hRest⟩ := hUtf8.cut (by
      intro b hb
      rw [hShape] at hb
      cases hb
      exact hLead)
    have hTail : IsUtf8 ([] ++ t) := isUtf8_encode_append.mp hRest
    exact isChars_run hr hRun (.escaped he (ih (by simp) hTail))

theorem IsRaw.chars (h : IsRaw s t) (hUtf8 : IsUtf8 t) : IsChars s t :=
  h.chars_append (r := []) (by simp) hUtf8

theorem IsChars.raw (h : IsChars s t) : IsRaw s t := by
  induction h with
  | nil => exact .nil
  | unescaped hc _ ih => exact ih.run (isUnescaped_iff.mp hc)
  | escaped he _ ih => exact .escaped he ih

theorem IsChars.utf8 (h : IsChars s t) : IsUtf8 t := by
  induction h with
  | nil => exact isUtf8_nil
  | unescaped _ _ ih => exact (isUtf8_encode _).append ih
  | escaped _ _ ih => exact (isUtf8_encode _).append ih

/-! ## Escapes -/

namespace Reader

variable {c : UInt8} {i j n u : Nat} {s text : Bytes}

theorem hexDigit_iff : hexDigit c = some n ↔ IsHexDigit c n := by
  unfold hexDigit
  simp only [UInt8.le_iff_toNat_le]
  constructor
  · -- the three ranges are disjoint, so the order of the checks does not matter
    intro h
    split_ifs at h with h1 h2 h3 <;> cases h
    · exact .digit h1
    · exact .lower h2
    · exact .upper h3
  · rintro (h | h | h)
    · exact if_pos h
    · rw [if_neg (by simp; omega)]
      exact if_pos h
    · rw [if_neg (by simp; omega), if_neg (by simp; omega)]
      exact if_pos h

theorem isHexDigit_lt (h : IsHexDigit c n) : n < 16 := by
  cases h <;> omega

theorem four_bits {value digit : Nat} (h : digit < 16) :
    value <<< 4 ||| digit = value * 16 + digit := by
  rw [← Nat.shiftLeft_add_eq_or_of_lt (show digit < 2 ^ 4 from h), Nat.shiftLeft_eq]

theorem hexValue_cons {value : Nat} {cs : Bytes} :
    hexValue value (c :: cs) = some n ↔
      ∃ digit, IsHexDigit c digit ∧ hexValue (value * 16 + digit) cs = some n := by
  constructor
  · intro h
    rw [hexValue] at h
    cases hDigit : hexDigit c with
    | none =>
      simp only [hDigit] at h
      cases h
    | some digit =>
      have hHex := hexDigit_iff.mp hDigit
      simp only [hDigit, four_bits (isHexDigit_lt hHex)] at h
      exact ⟨digit, hHex, h⟩
  · rintro ⟨digit, hHex, h⟩
    rw [hexValue, hexDigit_iff.mpr hHex]
    simpa only [four_bits (isHexDigit_lt hHex)] using h

theorem hexValue_iff (hs : s.length = 4) : hexValue 0 s = some u ↔ IsHex4 s u := by
  constructor
  · intro h
    obtain ⟨a, b, c, d, rfl⟩ : ∃ a b c d, s = [a, b, c, d] := by
      match s, hs with
      | [a, b, c, d], _ => exact ⟨a, b, c, d, rfl⟩
    -- one digit after the other
    obtain ⟨w, ha, h⟩ := hexValue_cons.mp h
    obtain ⟨x, hb, h⟩ := hexValue_cons.mp h
    obtain ⟨y, hc, h⟩ := hexValue_cons.mp h
    obtain ⟨z, hd, h⟩ := hexValue_cons.mp h
    obtain rfl : 4096 * w + 256 * x + 16 * y + z = u := by
      cases h
      omega
    exact .mk ha hb hc hd
  · rintro ⟨ha, hb, hc, hd⟩
    refine hexValue_cons.mpr ⟨_, ha, hexValue_cons.mpr ⟨_, hb, hexValue_cons.mpr ⟨_, hc,
      hexValue_cons.mpr ⟨_, hd, congrArg some ?_⟩⟩⟩⟩
    omega

variable {input : Bytes}

theorem readHex4_iff : readHex4 input i = some (u, j) ↔ ∃ s, IsHex4 s u ∧ Spans input i s j := by
  rw [readHex4]
  constructor
  · intro h
    split_ifs at h with hRoom
    obtain ⟨u', hu, hEq⟩ := Option.map_eq_some_iff.mp h
    cases hEq
    have hSpan : Spans input i _ (i + 4) := spans_slice (by omega) (by omega)
    rw [Nat.add_sub_cancel_left] at hSpan
    exact ⟨_, (hexValue_iff (length_slice (by omega))).mp hu, hSpan⟩
  · rintro ⟨s, hs, hSpan⟩
    -- the escape's four digits are all there
    have hLength : s.length = 4 := by
      cases hs
      rfl
    have hLe := hSpan.le
    have hSlice := hSpan.slice_eq
    rw [hSpan.length, hLength] at hLe hSlice
    rw [Nat.add_sub_cancel_left] at hSlice
    rw [if_neg (by omega), hSlice, (hexValue_iff hLength).mpr hs, hSpan.length, hLength]
    rfl

theorem holdsAt_escape :
    (holdsAt input i (· == 0x5C) && holdsAt input (i + 1) (· == 0x75)) = true ↔
      Spans input i [0x5C, 0x75] (i + 2) := by
  rw [Bool.and_eq_true, holdsAt_beq, holdsAt_beq, spans_cons, spans_singleton]
  exact and_congr_right fun _ => (and_iff_left rfl).symm

theorem isHex4_lt (h : IsHex4 s u) : u < 0x10000 := by
  obtain ⟨ha, hb, hc, hd⟩ := h
  have := isHexDigit_lt ha
  have := isHexDigit_lt hb
  have := isHexDigit_lt hc
  have := isHexDigit_lt hd
  omega

theorem pair_eq (high low : Nat) :
    0x10000 + (high - 0xD800) <<< 10 + (low - 0xDC00) =
      0x10000 + (high - 0xD800) * 0x400 + (low - 0xDC00) := by
  rw [Nat.shiftLeft_eq]

theorem parseUnicodeEscape_sound (h : parseUnicodeEscape input i = some (text, j)) :
    ∃ e c, IsEscape (0x5C :: 0x75 :: e) c ∧ text = String.utf8EncodeChar c ∧
      Spans input i e j := by
  rw [parseUnicodeEscape] at h
  obtain ⟨⟨u, k⟩, hUnit, h⟩ := Option.bind_eq_some_iff.mp h
  obtain ⟨s, hs, hSpan⟩ := readHex4_iff.mp hUnit
  have hLt := isHex4_lt hs
  dsimp only at h
  split_ifs at h with hHigh hNext hLow
  · -- a high surrogate: the escape goes on to the end of the low one
    obtain ⟨⟨low, l⟩, hUnit', h⟩ := Option.bind_eq_some_iff.mp h
    obtain ⟨t, ht, hSpan'⟩ := readHex4_iff.mp hUnit'
    dsimp only at h
    split_ifs at h with hLow
    simp only [Option.some.injEq, Prod.mk.injEq] at h
    obtain ⟨rfl, rfl⟩ := h
    have hValid : (0x10000 + (u - 0xD800) * 0x400 + (low - 0xDC00)).isValidChar := by
      unfold Nat.isValidChar
      omega
    have hEscape := IsEscape.pair hs ht hHigh ⟨by omega, by omega⟩ (scalar_toNat _ hValid)
    have hText := (congrArg appendUtf8 (pair_eq u low)).trans (appendUtf8_eq _ hValid)
    exact ⟨_, _, hEscape, hText, hSpan.trans ((holdsAt_escape.mp hNext).trans hSpan')⟩
  · -- a code unit that is no surrogate
    cases h
    have hValid : u.isValidChar := by
      unfold Nat.isValidChar
      omega
    exact ⟨s, scalar u hValid, .unit hs hValid, appendUtf8_eq u hValid, hSpan⟩

theorem parseUnicodeEscape_complete {e : Bytes} {c : Char} (he : IsEscape (0x5C :: 0x75 :: e) c)
    (hSpan : Spans input i e j) :
    parseUnicodeEscape input i = some (String.utf8EncodeChar c, j) := by
  rw [parseUnicodeEscape]
  cases he with
  | simple h => exact absurd h (by simp [simpleEscapes])
  | @unit s u hs hu =>
    -- a code unit that is no surrogate passes both checks on surrogates
    rw [readHex4_iff.mpr ⟨e, hs, hSpan⟩, ← appendUtf8_eq u hu]
    have hLt := isHex4_lt hs
    unfold Nat.isValidChar at hu
    simp only [Option.bind_eq_bind, Option.bind_some]
    rw [if_neg (by omega), if_neg (by omega)]
  | @pair s t high low c hs ht hHigh hLow hc =>
    -- the pair: digits, the two bytes in between, digits
    obtain ⟨k, hFirst, hRest⟩ := spans_append.mp hSpan
    obtain ⟨l, hNext, hSecond⟩ := (spans_append (s := [0x5C, 0x75])).mp hRest
    have hl : l = k + 2 := hNext.length
    subst hl
    have hEncode : appendUtf8 (0x10000 + (high - 0xD800) * 0x400 + (low - 0xDC00)) =
        String.utf8EncodeChar c := by
      rw [← hc, appendUtf8_eq _ c.valid]
      exact congrArg _ (char_eq_iff.mpr (scalar_toNat _ _))
    rw [readHex4_iff.mpr ⟨s, hs, hFirst⟩]
    simp only [Option.bind_eq_bind, Option.bind_some]
    rw [if_pos hHigh, if_pos (holdsAt_escape.mpr hNext), readHex4_iff.mpr ⟨t, ht, hSecond⟩]
    simp only [Option.bind_some]
    rw [if_neg (by omega), pair_eq high low, hEncode]

/-- What a simple escape stands for is one byte. -/
theorem simpleEscapes_ascii {e : UInt8} {c : Char} (h : (e, c) ∈ simpleEscapes) :
    ∃ b, String.utf8EncodeChar c = [b] := by
  simp only [simpleEscapes, List.mem_cons, Prod.mk.injEq, List.not_mem_nil, or_false] at h
  rcases h with ⟨-, rfl⟩ | ⟨-, rfl⟩ | ⟨-, rfl⟩ | ⟨-, rfl⟩ | ⟨-, rfl⟩ | ⟨-, rfl⟩ | ⟨-, rfl⟩ |
    ⟨-, rfl⟩ <;>
  exact ⟨_, rfl⟩

/-- The table of the grammar is the switch of the reader. -/
theorem simpleEscape_iff {e b : UInt8} :
    simpleEscape e = some b ↔ ∃ c, (e, c) ∈ simpleEscapes ∧ String.utf8EncodeChar c = [b] := by
  constructor
  · intro h
    unfold simpleEscape at h
    split at h <;> cases h <;> simp [simpleEscapes] <;> decide
  · rintro ⟨c, hMem, hc⟩
    simp only [simpleEscapes, List.mem_cons, Prod.mk.injEq, List.not_mem_nil, or_false] at hMem
    rcases hMem with ⟨rfl, rfl⟩ | ⟨rfl, rfl⟩ | ⟨rfl, rfl⟩ | ⟨rfl, rfl⟩ | ⟨rfl, rfl⟩ |
      ⟨rfl, rfl⟩ | ⟨rfl, rfl⟩ | ⟨rfl, rfl⟩ <;>
    exact congrArg some (List.cons.inj hc).1

theorem parseEscape_iff :
    parseEscape input i = some (text, j) ↔
      ∃ e c, IsEscape (0x5C :: e) c ∧ text = String.utf8EncodeChar c ∧ Spans input i e j := by
  constructor
  · intro h
    rw [parseEscape] at h
    split_ifs at h with hi hu
    · -- a `\u` escape goes on behind the `u`
      obtain ⟨e, c, he, hText, hSpan⟩ := parseUnicodeEscape_sound h
      refine ⟨0x75 :: e, c, he, hText, spans_cons.mpr ⟨?_, hSpan⟩⟩
      rw [List.getElem?_eq_getElem hi, hu]
    · -- a simple escape is this byte
      obtain ⟨b, hb, hEq⟩ := Option.map_eq_some_iff.mp h
      obtain ⟨c, hMem, hc⟩ := simpleEscape_iff.mp hb
      cases hEq
      exact ⟨[input[i]], c, .simple hMem, hc.symm,
        spans_singleton.mpr ⟨List.getElem?_eq_getElem hi, rfl⟩⟩
  · rintro ⟨e, c, he, rfl, hSpan⟩
    rw [parseEscape]
    -- the first byte of the escape decides which of the two kinds it is
    cases e with
    | nil => cases he
    | cons b e =>
      obtain ⟨hb, hRest⟩ := spans_cons.mp hSpan
      obtain ⟨hi, hGet⟩ := List.getElem?_eq_some_iff.mp hb
      rw [dif_pos hi, hGet]
      by_cases hu : b = 0x75
      · rw [if_pos hu]
        exact parseUnicodeEscape_complete (hu ▸ he) hRest
      · rw [if_neg hu]
        cases he with
        | simple hMem =>
          obtain ⟨rfl, -⟩ := spans_nil.mp hRest
          obtain ⟨b, hEncode⟩ := simpleEscapes_ascii hMem
          rw [simpleEscape_iff.mpr ⟨c, hMem, hEncode⟩, hEncode]
          rfl
        | unit => exact absurd rfl hu
        | pair => exact absurd rfl hu

/-! ## The loop over a string -/

/-- A pass that goes on has read a raw byte or an escape. -/
theorem stringPass_again {s' : Option (Bytes × Nat)}
    (h : stringPass input (some (text, i)) = .again s') :
    ∃ piece bytes j, s' = some (text ++ bytes, j) ∧ Spans input i piece j ∧ i < j ∧
      ∀ s t, IsRaw s t → IsRaw (piece ++ s) (bytes ++ t) := by
  simp only [stringPass] at h
  split_ifs at h with hi hQuote hEscape hControl
  · -- an escape, decoded to one scalar value
    split at h
    · rename_i bytes j hParse
      cases h
      obtain ⟨e, c, he, rfl, hSpan⟩ := parseEscape_iff.mp hParse
      refine ⟨0x5C :: e, _, j, rfl, spans_cons.mpr ⟨?_, hSpan⟩, ?_, fun s t hs => .escaped he hs⟩
      · rw [List.getElem?_eq_getElem hi, hEscape]
      · have hLen := hSpan.length
        omega
    · cases h
  · -- a raw byte, copied
    cases h
    refine ⟨[input[i]], [input[i]], i + 1, rfl, ?_, by omega, fun s t hs => .byte ?_ hs⟩
    · exact spans_singleton.mpr ⟨List.getElem?_eq_getElem hi, rfl⟩
    · exact ⟨by simpa [UInt8.lt_iff_toNat_lt] using hControl, hQuote, hEscape⟩

/-- The loop succeeds at a quotation mark, if the text is UTF-8. -/
theorem stringPass_done {r : Bytes × Nat} (h : stringPass input (some (text, i)) = .done (some r)) :
    r = (text, i + 1) ∧ input[i]? = some 0x22 ∧ IsUtf8 text := by
  simp only [stringPass] at h
  split_ifs at h with hi hQuote hUtf8 hEscape
  · cases h
    exact ⟨rfl, by rw [List.getElem?_eq_getElem hi, hQuote], (isValidUtf8_iff text).mp hUtf8⟩
  · cases h
  · split at h <;> cases h
  · cases h
  · cases h

theorem stringPass_lt (s s' : Option (Bytes × Nat)) (h : stringPass input s = .again s') :
    left input s' < left input s := by
  cases s with
  | none => cases h
  | some state =>
    obtain ⟨piece, bytes, j, rfl, hSpan, hLt, -⟩ := stringPass_again h
    have hLe := hSpan.le
    simp only [left]
    omega

theorem string_loop_sound {text' : Bytes}
    (h : loop (left input) (stringPass input) (some (text, i)) = some (text', j)) :
    ∃ s t, IsRaw s t ∧ text' = text ++ t ∧ IsUtf8 text' ∧ Spans input i (s ++ [0x22]) j := by
  refine loop_induct (P := fun s r => ∀ text i text' j, s = some (text, i) →
    r = some (text', j) → ∃ s t, IsRaw s t ∧ text' = text ++ t ∧ IsUtf8 text' ∧
      Spans input i (s ++ [0x22]) j) stringPass_lt ?_ ?_ _ text i text' j rfl h
  · -- the closing quotation mark, with the text complete
    rintro _ _ hDone text i text' j rfl rfl
    obtain ⟨hr, hQuote, hUtf8⟩ := stringPass_done hDone
    cases hr
    exact ⟨[], [], .nil, (List.append_nil text).symm, hUtf8,
      spans_singleton.mpr ⟨hQuote, rfl⟩⟩
  · -- one byte or escape further on
    rintro _ s' _ hAgain ih text i text' j rfl rfl
    obtain ⟨piece, bytes, k, rfl, hSpan, -, hRaw⟩ := stringPass_again hAgain
    obtain ⟨s, t, hs, rfl, hUtf8, hRest⟩ := ih _ _ _ _ rfl rfl
    refine ⟨piece ++ s, bytes ++ t, hRaw s t hs, by rw [List.append_assoc], hUtf8, ?_⟩
    rw [List.append_assoc]
    exact hSpan.trans hRest

theorem string_loop_complete {t : Bytes} (hs : IsRaw s t) (hUtf8 : IsUtf8 (text ++ t))
    (hSpan : Spans input i (s ++ [0x22]) j) :
    loop (left input) (stringPass input) (some (text, i)) = some (text ++ t, j) := by
  -- on what the loop reads, one constructor for each kind of pass
  induction hs generalizing text i with
  | nil =>
    rw [List.append_nil] at hUtf8 ⊢
    obtain ⟨hQuote, rfl⟩ := spans_singleton.mp hSpan
    obtain ⟨hi, hGet⟩ := List.getElem?_eq_some_iff.mp hQuote
    apply loop_done
    simp only [stringPass, dif_pos hi, hGet, if_true, (isValidUtf8_iff text).mpr hUtf8]
  | @byte b s t hb hs ih =>
    obtain ⟨hGet, hRest⟩ := spans_cons.mp hSpan
    obtain ⟨hi, hGet⟩ := List.getElem?_eq_some_iff.mp hGet
    have hPass : stringPass input (some (text, i)) = .again (some (text ++ [b], i + 1)) := by
      have hControl : ¬ b < 0x20 := by
        rw [UInt8.lt_iff_toNat_lt]
        exact Nat.not_lt.mpr hb.1
      simp only [stringPass, dif_pos hi, hGet, if_neg hb.2.1, if_neg hb.2.2, if_neg hControl]
    have hSplit : text ++ b :: t = (text ++ [b]) ++ t := by simp
    rw [loop_again stringPass_lt hPass, hSplit]
    exact ih (by rwa [← hSplit]) hRest
  | @escaped e c s t he hs ih =>
    rw [List.append_assoc] at hSpan
    obtain ⟨k, hEscape, hRest⟩ := spans_append.mp hSpan
    obtain ⟨e, rfl⟩ : ∃ e', e = 0x5C :: e' := by
      cases he <;> exact ⟨_, rfl⟩
    obtain ⟨hGet, hBody⟩ := spans_cons.mp hEscape
    obtain ⟨hi, hGet⟩ := List.getElem?_eq_some_iff.mp hGet
    have hParse : parseEscape input (i + 1) = some (String.utf8EncodeChar c, k) :=
      parseEscape_iff.mpr ⟨e, c, he, rfl, hBody⟩
    have hPass : stringPass input (some (text, i)) =
        .again (some (text ++ String.utf8EncodeChar c, k)) := by
      simp only [stringPass, dif_pos hi, hGet, if_true, hParse]
      rfl
    rw [loop_again stringPass_lt hPass, ← List.append_assoc]
    exact ih (by rwa [List.append_assoc]) hRest

/-- **Strings.** The reader takes exactly the strings of the grammar. -/
theorem parseString_iff :
    parseString input i = some (text, j) ↔ ∃ s, IsString s text ∧ Spans input i s j := by
  rw [parseString]
  constructor
  · intro h
    split_ifs at h with hQuote
    obtain ⟨s, t, hs, hText, hUtf8, hSpan⟩ := string_loop_sound h
    rw [List.nil_append] at hText
    subst hText
    -- the text is UTF-8, so the raw bytes of the input are
    exact ⟨_, .mk (hs.chars hUtf8), spans_cons.mpr ⟨holdsAt_beq.mp hQuote, hSpan⟩⟩
  · rintro ⟨_, ⟨hs⟩, hSpan⟩
    obtain ⟨hQuote, hRest⟩ := spans_cons.mp hSpan
    rw [if_pos (holdsAt_beq.mpr hQuote)]
    exact string_loop_complete hs.raw hs.utf8 hRest

end Reader

end ReactorNet.Json
