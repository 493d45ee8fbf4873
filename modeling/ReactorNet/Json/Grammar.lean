import ReactorNet.Json.Value

/-!
# ReactorNet — the JSON grammar

The grammar of RFC 8259 over bytes, as the contract of `JsonParser` takes it: a
relation between a text and the value it stands for. It does not mention a cursor.
Strings are made of Unicode scalar values in UTF-8, as such or escaped. `Value d` has
at most `d` containers around each other.
-/

namespace ReactorNet.Json

open ReactorNet.Lib

/-- `ws`, of the four whitespace characters. -/
def IsWhitespace (s : Bytes) : Prop :=
  ∀ b ∈ s, b = 0x20 ∨ b = 0x09 ∨ b = 0x0A ∨ b = 0x0D

theorem isWhitespace_nil : IsWhitespace [] := by simp [IsWhitespace]

/-! ## Strings -/

/-- `HEXDIG`, in either case. -/
inductive IsHexDigit : UInt8 → Nat → Prop
  | digit {b : UInt8} (hb : 0x30 ≤ b.toNat ∧ b.toNat ≤ 0x39) : IsHexDigit b (b.toNat - 0x30)
  | lower {b : UInt8} (hb : 0x61 ≤ b.toNat ∧ b.toNat ≤ 0x66) : IsHexDigit b (b.toNat - 0x61 + 10)
  | upper {b : UInt8} (hb : 0x41 ≤ b.toNat ∧ b.toNat ≤ 0x46) : IsHexDigit b (b.toNat - 0x41 + 10)

/-- `4HEXDIG`, a UTF-16 code unit. -/
inductive IsHex4 : Bytes → Nat → Prop
  | mk {a b c d : UInt8} {w x y z : Nat} (ha : IsHexDigit a w) (hb : IsHexDigit b x)
      (hc : IsHexDigit c y) (hd : IsHexDigit d z) :
      IsHex4 [a, b, c, d] (4096 * w + 256 * x + 16 * y + z)

/-- The escapes of one character, and what they stand for. -/
def simpleEscapes : List (UInt8 × Char) :=
  [(0x22, '"'), (0x5C, '\\'), (0x2F, '/'), (0x62, '\x08'), (0x66, '\x0c'), (0x6E, '\n'),
    (0x72, '\r'), (0x74, '\t')]

/-- An escape and the scalar value it stands for: a code unit that is not a surrogate
stands for itself, and a high and a low surrogate together for one scalar value. -/
inductive IsEscape : Bytes → Char → Prop
  | simple {e : UInt8} {c : Char} (h : (e, c) ∈ simpleEscapes) : IsEscape [0x5C, e] c
  | unit {s : Bytes} {u : Nat} (hs : IsHex4 s u) (hu : u.isValidChar) :
      IsEscape (0x5C :: 0x75 :: s) (scalar u hu)
  | pair {s t : Bytes} {high low : Nat} {c : Char} (hs : IsHex4 s high) (ht : IsHex4 t low)
      (hHigh : 0xD800 ≤ high ∧ high ≤ 0xDBFF) (hLow : 0xDC00 ≤ low ∧ low ≤ 0xDFFF)
      (hc : c.val.toNat = 0x10000 + (high - 0xD800) * 0x400 + (low - 0xDC00)) :
      IsEscape (0x5C :: 0x75 :: (s ++ 0x5C :: 0x75 :: t)) c

/-- `unescaped = %x20-21 / %x23-5B / %x5D-10FFFF` -/
def IsUnescaped (c : Char) : Prop := 0x20 ≤ c.val.toNat ∧ c ≠ '"' ∧ c ≠ '\\'

/-- `*char`, and the text it stands for. -/
inductive IsChars : Bytes → Bytes → Prop
  | nil : IsChars [] []
  | unescaped {c : Char} {s t : Bytes} (hc : IsUnescaped c) (hs : IsChars s t) :
      IsChars (String.utf8EncodeChar c ++ s) (String.utf8EncodeChar c ++ t)
  | escaped {e : Bytes} {c : Char} {s t : Bytes} (he : IsEscape e c) (hs : IsChars s t) :
      IsChars (e ++ s) (String.utf8EncodeChar c ++ t)

/-- `string = quotation-mark *char quotation-mark` -/
inductive IsString : Bytes → Bytes → Prop
  | mk {s text : Bytes} (h : IsChars s text) : IsString (0x22 :: (s ++ [0x22])) text

/-! ## Values -/

section

variable {α : Type}

/-- Items with commas between them and whitespace around them. -/
inductive IsItems (P : Bytes → α → Prop) : Bytes → List α → Prop
  | one {w s w' : Bytes} {v : α} (hw : IsWhitespace w) (hs : P s v) (hw' : IsWhitespace w') :
      IsItems P (w ++ (s ++ w')) [v]
  | cons {w s w' t : Bytes} {v : α} {vs : List α} (hw : IsWhitespace w) (hs : P s v)
      (hw' : IsWhitespace w') (ht : IsItems P t vs) :
      IsItems P (w ++ (s ++ (w' ++ 0x2C :: t))) (v :: vs)

/-- Items in brackets, or nothing but whitespace. -/
inductive IsBracketed (first last : UInt8) (P : Bytes → α → Prop) : Bytes → List α → Prop
  | empty {w : Bytes} (hw : IsWhitespace w) :
      IsBracketed first last P (first :: (w ++ [last])) []
  | items {s : Bytes} {vs : List α} (hs : IsItems P s vs) :
      IsBracketed first last P (first :: (s ++ [last])) vs

/-- `member = string name-separator value` -/
inductive IsMember (P : Bytes → α → Prop) : Bytes → Bytes × α → Prop
  | mk {k key w w' s : Bytes} {v : α} (hk : IsString k key) (hw : IsWhitespace w)
      (hw' : IsWhitespace w') (hs : P s v) :
      IsMember P (k ++ (w ++ 0x3A :: (w' ++ s))) (key, v)

end

variable (lib : DoubleChars)

/-- A value without items. An integer token in the `int64_t` range stands for that
integer, and every other number token for the double that `from_chars` gives. -/
inductive IsScalar : Bytes → JsonValue lib.Double → Prop
  | null : IsScalar [0x6E, 0x75, 0x6C, 0x6C] .null
  | true : IsScalar [0x74, 0x72, 0x75, 0x65] (.bool true)
  | false : IsScalar [0x66, 0x61, 0x6C, 0x73, 0x65] (.bool false)
  | string {s text : Bytes} (hs : IsString s text) : IsScalar s (.string text)
  | integer {s : Bytes} {n : Int64} (hs : IsInteger s n.toInt) : IsScalar s (.integer n)
  | number {s : Bytes} {x : lib.Double} (hs : IsNumber s)
      (hInt : ∀ n : Int64, ¬ IsInteger s n.toInt) (hx : lib.fromChars s = .ok s.length x) :
      IsScalar s (.number x)

/-- `value`, with at most so many containers around each other. -/
def IsValue : Nat → Bytes → JsonValue lib.Double → Prop
  | 0, s, v => IsScalar lib s v
  | d + 1, s, v => IsScalar lib s v ∨
      -- a container uses up one level for everything inside it
      (∃ items, v = .array items ∧ IsBracketed 0x5B 0x5D (IsValue d) s items) ∨
      (∃ members, v = .object members ∧ IsBracketed 0x7B 0x7D (IsMember (IsValue d)) s members)

/-- `JSON-text = ws value ws` -/
inductive IsText (maxDepth : Nat) : Bytes → JsonValue lib.Double → Prop
  | mk {w s w' : Bytes} {v : JsonValue lib.Double} (hw : IsWhitespace w)
      (hs : IsValue lib maxDepth s v) (hw' : IsWhitespace w') :
      IsText maxDepth (w ++ (s ++ w')) v

variable {s t : Bytes} {n : Int}

variable {lib} in
theorem IsScalar.value {d : Nat} {v : JsonValue lib.Double} (h : IsScalar lib s v) :
    IsValue lib d s v := by
  cases d with
  | zero => exact h
  | succ d => exact .inl h

/-! ## Tokens -/

theorem IsInt.digits_of_mem (h : IsInt s) : ∀ b ∈ s, isDigit b = true := by
  cases h with
  | zero => simp [isDigit]
  | @digits d s hd hs =>
    refine List.forall_mem_cons.mpr ⟨?_, hs⟩
    have hLe := UInt8.le_iff_toNat_le.mp hd.1
    have hGe := UInt8.le_iff_toNat_le.mp hd.2
    have h31 : (0x31 : UInt8).toNat = 0x31 := rfl
    have h39 : (0x39 : UInt8).toNat = 0x39 := rfl
    exact isDigit_iff.mpr (by omega)

theorem IsInt.ne_nil (h : IsInt s) : s ≠ [] := by
  cases h <;> exact List.cons_ne_nil _ _

/-- An integer token is made of digits and a minus sign. -/
theorem IsInteger.mem (h : IsInteger t n) {b : UInt8} (hb : b ∈ t) :
    isDigit b = true ∨ b = 0x2D := by
  cases h with
  | nonneg hs => exact .inl (hs.digits_of_mem b hb)
  | neg hs =>
    rcases List.mem_cons.mp hb with rfl | hb
    · exact .inr rfl
    · exact .inl (hs.digits_of_mem b hb)

/-- A sign and an integer part are an integer token. -/
theorem isInteger_of_parts {m i : Bytes} (hm : IsMinus m) (hi : IsInt i) :
    ∃ n, IsInteger (m ++ i) n := by
  rcases hm with rfl | rfl
  · exact ⟨_, .nonneg hi⟩
  · exact ⟨_, .neg hi⟩

theorem IsInteger.number (h : IsInteger t n) : IsNumber t := by
  cases h with
  | nonneg hs => exact ⟨[], _, [], [], .inl rfl, hs, .none, .none, by simp⟩
  | neg hs => exact ⟨[0x2D], _, [], [], .inr rfl, hs, .none, .none, by simp⟩

/-- A number token starts with a digit or a minus sign. -/
theorem IsNumber.head (h : IsNumber t) : ∃ b s, t = b :: s ∧ (isDigit b = true ∨ b = 0x2D) := by
  obtain ⟨m, i, f, e, hm, hi, -, -, rfl⟩ := h
  rcases hm with rfl | rfl
  · cases i with
    | nil => exact absurd rfl hi.ne_nil
    | cons b i => exact ⟨b, _, rfl, .inl (hi.digits_of_mem b (List.mem_cons_self ..))⟩
  · exact ⟨0x2D, _, rfl, .inr rfl⟩

/-- With a fraction or an exponent a token is not an integer. -/
theorem not_isInteger_of_floating {m i f e : Bytes} (hf : IsFrac f) (he : IsExp e)
    (hFloating : f ≠ [] ∨ e ≠ []) : ¬ IsInteger (m ++ (i ++ (f ++ e))) n := by
  intro h
  rcases hFloating with hNe | hNe
  · -- the decimal point is no byte of an integer token
    cases hf with
    | none => exact hNe rfl
    | digits =>
      rcases h.mem (b := 0x2E) (by simp) with h | h
      · exact absurd h (by decide)
      · exact absurd h (by decide)
  · -- nor is the exponent mark
    cases he with
    | none => exact hNe rfl
    | @digits b _ _ hb =>
      have hMem := h.mem (b := b) (by simp)
      rcases hb with rfl | rfl
      · exact absurd hMem (by decide)
      · exact absurd hMem (by decide)

/-! ## UTF-8 -/

theorem isUtf8_whitespace {w : Bytes} (hw : IsWhitespace w) : IsUtf8 w :=
  isUtf8_of_ascii fun b hb => by
    rcases hw b hb with rfl | rfl | rfl | rfl <;> decide

theorem isUtf8_cons {b : UInt8} (hb : b.toNat < 0x80) (hs : IsUtf8 s) : IsUtf8 (b :: s) :=
  IsUtf8.append (s := [b]) (isUtf8_of_ascii (by simpa using hb)) hs

theorem isUtf8_digits (hs : ∀ b ∈ s, isDigit b = true) : IsUtf8 s :=
  isUtf8_of_ascii fun b hb => by
    have := isDigit_iff.mp (hs b hb)
    omega

theorem IsHex4.utf8 {u : Nat} (h : IsHex4 s u) : IsUtf8 s := by
  have hDigit : ∀ {b : UInt8} {n : Nat}, IsHexDigit b n → b.toNat < 0x80 := by
    intro b n hb
    cases hb <;> omega
  obtain ⟨ha, hb, hc, hd⟩ := h
  exact isUtf8_cons (hDigit ha) (isUtf8_cons (hDigit hb) (isUtf8_cons (hDigit hc)
    (isUtf8_cons (hDigit hd) isUtf8_nil)))

theorem IsEscape.utf8 {e : Bytes} {c : Char} (h : IsEscape e c) : IsUtf8 e := by
  cases h with
  | @simple e _ h =>
    refine isUtf8_cons (by decide) (isUtf8_cons ?_ isUtf8_nil)
    simp only [simpleEscapes, List.mem_cons, Prod.mk.injEq, List.not_mem_nil, or_false] at h
    rcases h with ⟨rfl, -⟩ | ⟨rfl, -⟩ | ⟨rfl, -⟩ | ⟨rfl, -⟩ | ⟨rfl, -⟩ | ⟨rfl, -⟩ | ⟨rfl, -⟩ |
      ⟨rfl, -⟩ <;> decide
  | unit hs => exact isUtf8_cons (by decide) (isUtf8_cons (by decide) hs.utf8)
  | pair hs ht =>
    exact isUtf8_cons (by decide) (isUtf8_cons (by decide) (hs.utf8.append
      (isUtf8_cons (by decide) (isUtf8_cons (by decide) ht.utf8))))

theorem IsString.utf8 {text : Bytes} (h : IsString s text) : IsUtf8 s := by
  obtain ⟨hs⟩ := h
  refine isUtf8_cons (by decide) (IsUtf8.append ?_ (isUtf8_cons (by decide) isUtf8_nil))
  -- on the characters of the string, raw or escaped
  induction hs with
  | nil => exact isUtf8_nil
  | unescaped _ _ ih => exact (isUtf8_encode _).append ih
  | escaped he _ ih => exact he.utf8.append ih

theorem IsNumber.utf8 (h : IsNumber t) : IsUtf8 t := by
  obtain ⟨m, i, f, e, hm, hi, hf, he, rfl⟩ := h
  refine IsUtf8.append ?_ ((isUtf8_digits hi.digits_of_mem).append (IsUtf8.append ?_ ?_))
  · rcases hm with rfl | rfl
    · exact isUtf8_nil
    · exact isUtf8_cons (by decide) isUtf8_nil
  · cases hf with
    | none => exact isUtf8_nil
    | digits hs => exact isUtf8_cons (by decide) (isUtf8_digits hs.2)
  · cases he with
    | none => exact isUtf8_nil
    | digits he hSign hs =>
      refine isUtf8_cons (by rcases he with rfl | rfl <;> decide)
        (IsUtf8.append ?_ (isUtf8_digits hs.2))
      rcases hSign with rfl | rfl | rfl
      · exact isUtf8_nil
      · exact isUtf8_cons (by decide) isUtf8_nil
      · exact isUtf8_cons (by decide) isUtf8_nil

section

variable {α : Type} {P : Bytes → α → Prop} (hP : ∀ s v, P s v → IsUtf8 s)
include hP

theorem IsItems.utf8 {vs : List α} (h : IsItems P s vs) : IsUtf8 s := by
  induction h with
  | one hw hs hw' =>
    exact (isUtf8_whitespace hw).append ((hP _ _ hs).append (isUtf8_whitespace hw'))
  | cons hw hs hw' _ ih =>
    exact (isUtf8_whitespace hw).append ((hP _ _ hs).append
      ((isUtf8_whitespace hw').append (isUtf8_cons (by decide) ih)))

theorem IsBracketed.utf8 {first last : UInt8} (hFirst : first.toNat < 0x80)
    (hLast : last.toNat < 0x80) {vs : List α} (h : IsBracketed first last P s vs) : IsUtf8 s := by
  cases h with
  | empty hw =>
    exact isUtf8_cons hFirst ((isUtf8_whitespace hw).append (isUtf8_cons hLast isUtf8_nil))
  | items hs =>
    exact isUtf8_cons hFirst ((hs.utf8 hP).append (isUtf8_cons hLast isUtf8_nil))

theorem IsMember.utf8 (s : Bytes) (m : Bytes × α) (h : IsMember P s m) : IsUtf8 s := by
  obtain ⟨hk, hw, hw', hs⟩ := h
  exact hk.utf8.append ((isUtf8_whitespace hw).append
    (isUtf8_cons (by decide) ((isUtf8_whitespace hw').append (hP _ _ hs))))

end

variable {lib}

theorem IsScalar.utf8 {v : JsonValue lib.Double} (h : IsScalar lib s v) : IsUtf8 s := by
  cases h with
  | null => exact isUtf8_of_ascii (by simp)
  | true => exact isUtf8_of_ascii (by simp)
  | false => exact isUtf8_of_ascii (by simp)
  | string hs => exact hs.utf8
  | integer hs => exact hs.number.utf8
  | number hs => exact hs.utf8

theorem IsValue.utf8 (d : Nat) : ∀ (s : Bytes) (v : JsonValue lib.Double),
    IsValue lib d s v → IsUtf8 s := by
  -- on the depth: items and members are values of a smaller one
  induction d with
  | zero => exact fun s v h => IsScalar.utf8 h
  | succ d ih =>
    rintro s v (h | ⟨items, -, h⟩ | ⟨members, -, h⟩)
    · exact h.utf8
    · exact h.utf8 ih (by decide) (by decide)
    · exact h.utf8 (IsMember.utf8 ih) (by decide) (by decide)

theorem IsText.utf8 {maxDepth : Nat} {input : Bytes} {v : JsonValue lib.Double}
    (h : IsText lib maxDepth input v) : IsUtf8 input := by
  obtain ⟨hw, hs, hw'⟩ := h
  exact (isUtf8_whitespace hw).append ((IsValue.utf8 _ _ _ hs).append (isUtf8_whitespace hw'))

end ReactorNet.Json
