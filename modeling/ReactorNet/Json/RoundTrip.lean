import ReactorNet.Json.Acceptance
import ReactorNet.Json.Writer

/-!
# ReactorNet — writing and parsing JSON

What the writer produces is a text of the grammar for the value it was given, so the
parser, which accepts the grammar, gives that value back.

Main results:

* `writeValue_grammar` — the text of a value derives the value.
* `write_parse_identity` — writing succeeds on exactly the representable values, and
  parsing what was written is the identity.
-/

namespace ReactorNet.Json

open ReactorNet.Lib

namespace Writer

/-! ## Strings -/

theorem isHexDigit_kHex : ∀ n < 16, IsHexDigit (kHex.getD n 0) n := by
  intro n hn
  -- the digits and the lower case letters are two runs of ASCII
  have hTable : ∀ n < 16, (n < 10 ∧ (kHex.getD n 0).toNat = 0x30 + n) ∨
      (10 ≤ n ∧ (kHex.getD n 0).toNat = 0x57 + n) := by
    decide
  rcases hTable n hn with ⟨hLt, hByte⟩ | ⟨hLe, hByte⟩
  · have hDigit := IsHexDigit.digit (b := kHex.getD n 0) (by omega)
    rwa [hByte, Nat.add_sub_cancel_left] at hDigit
  · have hLower := IsHexDigit.lower (b := kHex.getD n 0) (by omega)
    rwa [hByte, show 0x57 + n - 0x61 + 10 = n by omega] at hLower

variable {s : Bytes}

/-- A byte is written as itself or as an escape for it. -/
theorem isRaw_escapeByte (b : UInt8) {t : Bytes} (hs : IsRaw s t) :
    IsRaw (escapeByte b ++ s) (b :: t) := by
  have hSimple : ∀ {e : UInt8} {c : Char}, (e, c) ∈ simpleEscapes →
      String.utf8EncodeChar c = [b] → IsRaw ([0x5C, e] ++ s) (b :: t) := by
    intro e c hMem hEncode
    have hRaw := IsRaw.escaped (.simple hMem) hs
    rwa [hEncode] at hRaw
  unfold escapeByte
  split_ifs with h1 h2 h3 h4 h5 h6 h7 hControl
  · exact hSimple (c := '"') (by simp [simpleEscapes]) (by rw [h1]; decide)
  · exact hSimple (c := '\\') (by simp [simpleEscapes]) (by rw [h2]; decide)
  · exact hSimple (c := '\x08') (by simp [simpleEscapes]) (by rw [h3]; decide)
  · exact hSimple (c := '\x0c') (by simp [simpleEscapes]) (by rw [h4]; decide)
  · exact hSimple (c := '\n') (by simp [simpleEscapes]) (by rw [h5]; decide)
  · exact hSimple (c := '\r') (by simp [simpleEscapes]) (by rw [h6]; decide)
  · exact hSimple (c := '\t') (by simp [simpleEscapes]) (by rw [h7]; decide)
  · -- another control character: four hexadecimal digits, of which two are zero
    have hLt : b.toNat < 0x20 := UInt8.lt_iff_toNat_lt.mp hControl
    have hHigh : b.toNat >>> 4 = b.toNat / 16 := Nat.shiftRight_eq_div_pow ..
    have hLow : b.toNat &&& 0x0F = b.toNat % 16 := Nat.and_two_pow_sub_one_eq_mod b.toNat 4
    have hHex := IsHex4.mk (.digit (b := 0x30) (by decide)) (.digit (b := 0x30) (by decide))
      (isHexDigit_kHex (b.toNat >>> 4) (by omega)) (isHexDigit_kHex (b.toNat &&& 0x0F) (by omega))
    rw [show 4096 * ((0x30 : UInt8).toNat - 0x30) + 256 * ((0x30 : UInt8).toNat - 0x30) +
      16 * (b.toNat >>> 4) + (b.toNat &&& 0x0F) = b.toNat by rw [hHigh, hLow]; simp; omega] at hHex
    have hRaw := IsRaw.escaped (.unit hHex (.inl (by omega))) hs
    rwa [utf8EncodeChar_ascii (by omega)] at hRaw
  · -- everything else passes through, non-ASCII included
    refine .byte ⟨?_, h1, h2⟩ hs
    exact Nat.not_lt.mp fun h => hControl (UInt8.lt_iff_toNat_lt.mpr h)

theorem isRaw_flatMap_escapeByte (text : Bytes) : IsRaw (text.flatMap escapeByte) text := by
  induction text with
  | nil => exact .nil
  | cons b text ih =>
    rw [List.flatMap_cons]
    exact isRaw_escapeByte b ih

theorem writeString_grammar {text : Bytes} (h : writeString text = some s) : IsString s text := by
  rw [writeString] at h
  split_ifs at h with hUtf8
  cases h
  exact .mk ((isRaw_flatMap_escapeByte text).chars ((isValidUtf8_iff text).mp hUtf8))

/-! ## Numbers -/

theorem isInt_decimal (n : Nat) : IsInt (decimal n) := by
  by_cases hn : n = 0
  · subst hn
    exact .zero
  · obtain ⟨b, s, hEq, hb⟩ := decimal_cons hn
    rw [hEq]
    refine .digits ?_ fun b' hb' => isDigit_of_mem_decimal (n := n) (by rw [hEq]; simp [hb'])
    rw [UInt8.le_iff_toNat_le, UInt8.le_iff_toNat_le]
    exact hb

theorem isInteger_toCharsInt (n : Int64) : IsInteger (toCharsInt n) n.toInt := by
  rw [toCharsInt]
  split_ifs with hNeg
  · have hInt := IsInteger.neg (isInt_decimal n.toInt.natAbs)
    rwa [decimalValue_decimal, show -(n.toInt.natAbs : Int) = n.toInt by omega] at hInt
  · have hInt := IsInteger.nonneg (isInt_decimal n.toInt.natAbs)
    rwa [decimalValue_decimal, show (n.toInt.natAbs : Int) = n.toInt by omega] at hInt

variable {lib : DoubleChars}

/-- The marks that the writer looks for are those of a fraction or an exponent. -/
theorem hasFractionOrExponent_iff {m i f e : Bytes} (hm : IsMinus m) (hi : IsInt i)
    (hf : IsFrac f) (he : IsExp e) :
    hasFractionOrExponent (m ++ (i ++ (f ++ e))) = true ↔ f ≠ [] ∨ e ≠ [] := by
  constructor
  · intro h
    by_contra hNot
    obtain ⟨rfl, rfl⟩ : f = [] ∧ e = [] := by simpa using hNot
    obtain ⟨n, hn⟩ := isInteger_of_parts hm hi
    -- an integer token has none of the marks
    simp only [List.append_nil] at h
    obtain ⟨b, hMem, hb⟩ := List.any_eq_true.mp h
    have hb : (b = 0x2E ∨ b = 0x65) ∨ b = 0x45 := by simpa using hb
    have hByte := hn.mem hMem
    rcases hb with (rfl | rfl) | rfl <;> exact absurd hByte (by decide)
  · rintro (h | h)
    · cases hf with
      | none => exact absurd rfl h
      | digits => exact List.any_eq_true.mpr ⟨0x2E, by simp, by decide⟩
    · cases he with
      | none => exact absurd rfl h
      | @digits b _ _ hb =>
        refine List.any_eq_true.mpr ⟨b, by simp, ?_⟩
        rcases hb with rfl | rfl <;> decide

theorem writeDouble_grammar {x : lib.Double} (h : writeDouble lib x = some s) :
    IsScalar lib s (.number x) := by
  have hx : lib.isFinite x = true := by
    by_contra hx
    rw [writeDouble, if_neg hx] at h
    cases h
  rw [writeDouble_eq hx] at h
  cases h
  have hRead := lib.fromChars_toChars x hx
  have hNumber := lib.toChars_number x hx
  obtain ⟨m, i, f, e, hm, hi, hf, he, hEq⟩ := id hNumber
  rw [hEq] at hRead hNumber ⊢
  by_cases hMark : hasFractionOrExponent (m ++ (i ++ (f ++ e))) = true
  · -- written as `to_chars` gives it
    rw [if_pos hMark, List.append_nil]
    exact .number hNumber (fun n => not_isInteger_of_floating hf he
      ((hasFractionOrExponent_iff hm hi hf he).mp hMark)) hRead
  · -- an integer token: with `.0` it has a fraction, and stands for the same double
    obtain ⟨rfl, rfl⟩ : f = [] ∧ e = [] := by
      simpa using (hasFractionOrExponent_iff hm hi hf he).not.mp hMark
    rw [if_neg hMark]
    simp only [List.append_nil] at hRead ⊢
    obtain ⟨n, hn⟩ := isInteger_of_parts hm hi
    have hFrac : IsFrac [0x2E, 0x30] := .digits ⟨by simp, by simp [isDigit]⟩
    have hPoint := lib.fromChars_point_zero _ n x hn hRead
    have hSplit : (m ++ i) ++ [0x2E, 0x30] = m ++ (i ++ ([0x2E, 0x30] ++ [])) := by simp
    rw [hSplit] at hPoint ⊢
    refine .number ⟨m, i, [0x2E, 0x30], [], hm, hi, hFrac, .none, rfl⟩
      (fun n => not_isInteger_of_floating hFrac .none (.inl (by simp))) ?_
    rw [hPoint]
    simp [Nat.add_assoc]

/-! ## A library of whole numbers

`DoubleChars` asks for a type of doubles with the properties that are relied on. The
whole numbers of the `int64_t` range, read by their integer part, have them. -/

theorem fromCharsInt_number {t : Bytes} (h : IsNumber t) :
    fromCharsInt t = .resultOutOfRange ∨ ∃ count n, fromCharsInt t = .ok count n := by
  obtain ⟨m, i, f, e, hm, hi, hf, he, rfl⟩ := h
  obtain ⟨n, hn⟩ := isInteger_of_parts hm hi
  -- the run of digits ends where the fraction or the exponent starts
  have hRest : ∀ b, (f ++ e).head? = some b → isDigit b = false := by
    intro b hb
    cases hf with
    | digits =>
      cases hb
      decide
    | none =>
      cases he with
      | none => cases hb
      | digits hMark =>
        cases hb
        rcases hMark with rfl | rfl <;> decide
  rw [← List.append_assoc, Reader.fromCharsInt_append hn hRest]
  split_ifs
  · exact .inr ⟨_, _, rfl⟩
  · exact .inl rfl

/-- The whole numbers of the `int64_t` range. -/
def wholeNumbers : DoubleChars where
  Double := Int64
  isFinite _ := true
  toChars := toCharsInt
  fromChars t :=
    match fromCharsInt t with
    | .ok _ n => .ok t.length n
    | .invalidArgument => .invalidArgument
    | .resultOutOfRange => .resultOutOfRange
  fromChars_number t ht := by
    rcases fromCharsInt_number ht with h | ⟨count, n, h⟩
    · exact .inl (by rw [h])
    · exact .inr ⟨n, by rw [h], rfl⟩
  toChars_number n _ := (isInteger_toCharsInt n).number
  toChars_length n _ := (length_toCharsInt_le n).trans (by decide)
  fromChars_toChars n _ := by
    have h := Reader.fromCharsInt_append (isInteger_toCharsInt n) (r := []) (by simp)
    rw [List.append_nil, if_pos ⟨n.le_toInt, n.toInt_lt⟩, Int64.ofInt_toInt] at h
    rw [h]
  fromChars_point_zero t n x ht hx := by
    have h := Reader.fromCharsInt_append ht (r := []) (by simp)
    have hPoint := Reader.fromCharsInt_append ht (r := [0x2E, 0x30]) (by simp [isDigit])
    rw [List.append_nil] at h
    rw [h] at hx
    rw [hPoint]
    split_ifs at hx ⊢
    cases hx
    simp

/-! ## Values -/

/-- Behind the first item each item has its comma. -/
theorem separated_false_cons (item : Option Bytes) (items : List (Option Bytes)) :
    separated false (item :: items) =
      (separated true (item :: items)).map (fun s => 0x2C :: s) := by
  cases item with
  | none => rfl
  | some s => cases h : separated false items <;> simp [separated, h]

theorem separated_grammar {α : Type} {P : Bytes → α → Prop} {f : α → Option Bytes} (v : α)
    (vs : List α) (hf : ∀ u ∈ v :: vs, ∀ s, f u = some s → P s u)
    (h : separated true ((v :: vs).map f) = some s) : IsItems P s (v :: vs) := by
  induction vs generalizing v s with
  | nil =>
    obtain ⟨t, ht, h⟩ := Option.bind_eq_some_iff.mp h
    cases h
    have hItem := IsItems.one isWhitespace_nil (hf v (by simp) t ht) isWhitespace_nil
    exact hItem
  | cons u us ih =>
    obtain ⟨t, ht, h⟩ := Option.bind_eq_some_iff.mp h
    obtain ⟨r, hr, h⟩ := Option.bind_eq_some_iff.mp h
    cases h
    -- the comma in front of the rest is the one behind this item
    rw [List.map_cons, separated_false_cons] at hr
    obtain ⟨q, hq, rfl⟩ := Option.map_eq_some_iff.mp hr
    have hRest := ih u (fun w hw => hf w (List.mem_cons_of_mem v hw)) hq
    have hItems := IsItems.cons isWhitespace_nil (hf v (by simp) t ht) isWhitespace_nil hRest
    exact hItems

theorem bracketed_grammar {α : Type} {P : Bytes → α → Prop} {f : α → Option Bytes} {vs : List α}
    (hf : ∀ u ∈ vs, ∀ s, f u = some s → P s u) (h : separated true (vs.map f) = some s)
    (first last : UInt8) : IsBracketed first last P (first :: (s ++ [last])) vs := by
  cases vs with
  | nil =>
    cases h
    exact .empty isWhitespace_nil
  | cons v vs => exact .items (separated_grammar v vs hf h)

theorem writeMember_grammar {maxDepth depth d : Nat} {m : Bytes × JsonValue lib.Double}
    (hValue : ∀ t, writeValue lib maxDepth depth m.2 = some t → IsValue lib d t m.2)
    (h : writeMember lib maxDepth depth m = some s) : IsMember (IsValue lib d) s m := by
  obtain ⟨k, hk, h⟩ := Option.bind_eq_some_iff.mp h
  obtain ⟨t, ht, h⟩ := Option.bind_eq_some_iff.mp h
  cases h
  have hMember :=
    IsMember.mk (writeString_grammar hk) isWhitespace_nil isWhitespace_nil (hValue t ht)
  exact hMember

/-- **The text of a value derives the value**, with as many containers as may be entered
below the depth it is written at. -/
theorem writeValue_grammar (maxDepth : Nat) (v : JsonValue lib.Double) : ∀ depth s,
    writeValue lib maxDepth depth v = some s → IsValue lib (maxDepth - depth) s v := by
  induction v using JsonValue.induct with
  | null =>
    intro depth s h
    cases h
    exact IsScalar.value .null
  | bool b =>
    intro depth s h
    cases b
    · cases h
      exact IsScalar.value .false
    · cases h
      exact IsScalar.value .true
  | integer n =>
    intro depth s h
    rw [writeValue, writeInteger_eq] at h
    cases h
    exact IsScalar.value (.integer (isInteger_toCharsInt n))
  | number x =>
    intro depth s h
    exact IsScalar.value (writeDouble_grammar h)
  | string text =>
    intro depth s h
    exact IsScalar.value (.string (writeString_grammar h))
  | array items ih =>
    intro depth s h
    rw [writeValue] at h
    split_ifs at h with hFull
    obtain ⟨t, ht, rfl⟩ := Option.map_eq_some_iff.mp h
    -- the parser's budget and the writer's depth move in step
    rw [writeItems_eq] at ht
    rw [show maxDepth - depth = maxDepth - (depth + 1) + 1 by omega]
    exact .inr (.inl ⟨items, rfl, bracketed_grammar (fun v hv => ih v hv (depth + 1)) ht _ _⟩)
  | object members ih =>
    intro depth s h
    rw [writeValue] at h
    split_ifs at h with hFull
    obtain ⟨t, ht, rfl⟩ := Option.map_eq_some_iff.mp h
    rw [writeMembers_eq] at ht
    rw [show maxDepth - depth = maxDepth - (depth + 1) + 1 by omega]
    refine .inr (.inr ⟨members, rfl, bracketed_grammar (fun m hm s hs => ?_) ht _ _⟩)
    exact writeMember_grammar (ih m hm (depth + 1)) hs

end Writer

theorem parse_write {lib : DoubleChars} {d : Nat} {v : JsonValue lib.Double} {t : Bytes}
    (h : write lib d v = some t) : parse lib d t = some v := by
  have hText := IsText.mk isWhitespace_nil
    (Writer.writeValue_grammar d v 0 t h) isWhitespace_nil
  rw [List.nil_append, List.append_nil] at hText
  exact parse_complete hText

/-- **Writing and parsing is the identity on exactly the representable values.** A value is
written if and only if its containers are nested no deeper than the limit, its strings and
keys are UTF-8 and its doubles are finite; and then the text is parsed back to it. -/
theorem write_parse_identity (lib : DoubleChars) (d : Nat) (v : JsonValue lib.Double) :
    ((∃ t, write lib d v = some t) ↔
      v.nesting ≤ d ∧ (∀ s ∈ v.strings, IsUtf8 s) ∧ ∀ x ∈ v.doubles, lib.isFinite x = true) ∧
    ∀ t, write lib d v = some t → parse lib d t = some v := by
  constructor
  · rw [← Option.isSome_iff_exists]
    exact Writer.writeValue_isSome_iff d v 0 (Nat.zero_le d)
  · intro t h
    exact parse_write h

open Writer in
/-- A double keeps its type, and so does an integer. -/
example : write wholeNumbers 1 (.array [.number (1 : Int64), .integer 1, .string [0x0A]]) =
    some [0x5B, 0x31, 0x2E, 0x30, 0x2C, 0x31, 0x2C, 0x22, 0x5C, 0x6E, 0x22, 0x5D] := by
  decide +kernel

end ReactorNet.Json
