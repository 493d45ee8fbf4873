import ReactorNet.Lib.Bytes

/-!
# ReactorNet — UTF-8 text

A byte string is UTF-8 if it is the encoding of a list of Unicode scalar values;
the encoding of one scalar value is `String.utf8EncodeChar`. The encoding is
self-synchronising: a scalar value starts with a byte that is not a continuation
byte, and has only continuation bytes after it. So a text can be cut before any
byte that is not a continuation byte, and both parts are texts (`IsUtf8.cut`).
-/

namespace ReactorNet.Lib

/-- The byte string is the UTF-8 encoding of some scalar values. -/
def IsUtf8 (s : Bytes) : Prop := ∃ cs : List Char, s = cs.flatMap String.utf8EncodeChar

/-- A byte `10xxxxxx`. -/
def IsContinuation (b : UInt8) : Prop := 0x80 ≤ b.toNat ∧ b.toNat < 0xC0

theorem isUtf8_nil : IsUtf8 [] := ⟨[], rfl⟩

variable {s t : Bytes} {c d : Char}

theorem IsUtf8.append (hs : IsUtf8 s) (ht : IsUtf8 t) : IsUtf8 (s ++ t) := by
  obtain ⟨cs, rfl⟩ := hs
  obtain ⟨ds, rfl⟩ := ht
  exact ⟨cs ++ ds, by rw [List.flatMap_append]⟩

theorem isUtf8_encode (c : Char) : IsUtf8 (String.utf8EncodeChar c) :=
  ⟨[c], by simp⟩

/-- The encodings of a scalar value, by their length. -/
theorem utf8EncodeChar_cases (c : Char) :
    c.val.toNat ≤ 0x7F ∧ String.utf8EncodeChar c = [UInt8.ofNat c.val.toNat] ∨
    (0x80 ≤ c.val.toNat ∧ c.val.toNat ≤ 0x7FF) ∧ String.utf8EncodeChar c =
      [UInt8.ofNat (c.val.toNat / 64 % 32 + 0xC0), UInt8.ofNat (c.val.toNat % 64 + 0x80)] ∨
    (0x800 ≤ c.val.toNat ∧ c.val.toNat ≤ 0xFFFF) ∧ String.utf8EncodeChar c =
      [UInt8.ofNat (c.val.toNat / 4096 % 16 + 0xE0),
        UInt8.ofNat (c.val.toNat / 64 % 64 + 0x80), UInt8.ofNat (c.val.toNat % 64 + 0x80)] ∨
    0x10000 ≤ c.val.toNat ∧ String.utf8EncodeChar c =
      [UInt8.ofNat (c.val.toNat / 262144 % 8 + 0xF0),
        UInt8.ofNat (c.val.toNat / 4096 % 64 + 0x80),
        UInt8.ofNat (c.val.toNat / 64 % 64 + 0x80), UInt8.ofNat (c.val.toNat % 64 + 0x80)] := by
  by_cases h1 : c.val.toNat ≤ 0x7F
  · exact .inl ⟨h1, by simp only [String.utf8EncodeChar, h1, if_true]⟩
  · by_cases h2 : c.val.toNat ≤ 0x7FF
    · exact .inr (.inl ⟨⟨by omega, h2⟩, by
        simp only [String.utf8EncodeChar, h1, h2, if_true, if_false]⟩)
    · by_cases h3 : c.val.toNat ≤ 0xFFFF
      · exact .inr (.inr (.inl ⟨⟨by omega, h3⟩, by
          simp only [String.utf8EncodeChar, h1, h2, h3, if_true, if_false]⟩))
      · exact .inr (.inr (.inr ⟨by omega, by
          simp only [String.utf8EncodeChar, h1, h2, h3, if_false]⟩))

theorem val_le (c : Char) : c.val.toNat ≤ 0x10FFFF := by
  have h := c.valid
  unfold UInt32.isValidChar Nat.isValidChar at h
  omega

theorem isContinuation_ofNat (n : Nat) : IsContinuation (UInt8.ofNat (n % 64 + 0x80)) := by
  unfold IsContinuation
  rw [UInt8.toNat_ofNat']
  omega

theorem not_isContinuation_ofNat {n : Nat} (hn : n < 0x80 ∨ 0xC0 ≤ n ∧ n < 0x100) :
    ¬ IsContinuation (UInt8.ofNat n) := by
  unfold IsContinuation
  rw [UInt8.toNat_ofNat']
  omega

/-- One byte that is not a continuation byte, then continuation bytes. -/
theorem utf8EncodeChar_shape (c : Char) :
    ∃ lead tail, String.utf8EncodeChar c = lead :: tail ∧ ¬ IsContinuation lead ∧
      ∀ b ∈ tail, IsContinuation b := by
  -- every byte of a tail is `10xxxxxx` by the way it is built
  have hTail : ∀ {n : Nat} {bs : Bytes}, (∀ b ∈ bs, IsContinuation b) →
      ∀ b ∈ UInt8.ofNat (n % 64 + 0x80) :: bs, IsContinuation b :=
    fun hbs => List.forall_mem_cons.mpr ⟨isContinuation_ofNat _, hbs⟩
  have hNil : ∀ b ∈ ([] : Bytes), IsContinuation b := List.forall_mem_nil _
  rcases utf8EncodeChar_cases c with ⟨h, hc⟩ | ⟨-, hc⟩ | ⟨-, hc⟩ | ⟨-, hc⟩
  · exact ⟨_, _, hc, not_isContinuation_ofNat (by omega), hNil⟩
  · exact ⟨_, _, hc, not_isContinuation_ofNat (by omega), hTail hNil⟩
  · exact ⟨_, _, hc, not_isContinuation_ofNat (by omega), hTail (hTail hNil)⟩
  · exact ⟨_, _, hc, not_isContinuation_ofNat (by omega), hTail (hTail (hTail hNil))⟩

/-- **Self-synchronisation.** Before a byte that is not a continuation byte, a text
can be cut into two texts. -/
theorem IsUtf8.cut (h : IsUtf8 (s ++ t)) (ht : ∀ b, t.head? = some b → ¬ IsContinuation b) :
    IsUtf8 s ∧ IsUtf8 t := by
  obtain ⟨cs, hcs⟩ := h
  -- on the scalar values of the whole text, with the cut moving towards the front
  induction cs generalizing s with
  | nil =>
    obtain ⟨rfl, rfl⟩ : s = [] ∧ t = [] := by simpa using hcs
    exact ⟨isUtf8_nil, isUtf8_nil⟩
  | cons c cs ih =>
    rw [List.flatMap_cons] at hcs
    rcases List.append_eq_append_iff.mp hcs with ⟨r, hc, hr⟩ | ⟨r, hs, hr⟩
    · -- the cut is inside the first scalar value, or at one of its ends
      obtain ⟨lead, tail, hShape, -, hTail⟩ := utf8EncodeChar_shape c
      cases s with
      | nil =>
        rw [List.nil_append] at hcs
        exact ⟨isUtf8_nil, ⟨c :: cs, by rw [List.flatMap_cons, hcs]⟩⟩
      | cons b s =>
        cases r with
        | nil =>
          rw [List.append_nil] at hc
          rw [List.nil_append] at hr
          exact ⟨hc ▸ isUtf8_encode c, ⟨cs, hr⟩⟩
        | cons b' r =>
          -- the byte after the cut is in the tail of the scalar value
          rw [hShape] at hc
          injection hc with _ hc
          have hMem : b' ∈ tail := by
            rw [hc]
            simp
          exact absurd (hTail b' hMem) (ht b' (by rw [hr]; rfl))
    · -- the cut is behind it
      obtain ⟨hs', ht'⟩ := ih hr.symm
      rw [hs]
      exact ⟨(isUtf8_encode c).append hs', ht'⟩

/-- Above ASCII no byte of an encoding is an ASCII character. -/
theorem le_of_mem_utf8EncodeChar (hc : 0x80 ≤ c.val.toNat) {b : UInt8}
    (hb : b ∈ String.utf8EncodeChar c) : 0x80 ≤ b.toNat := by
  have hval := val_le c
  revert b
  rcases utf8EncodeChar_cases c with ⟨h, he⟩ | ⟨h, he⟩ | ⟨h, he⟩ | ⟨h, he⟩ <;>
    simp only [he, List.forall_mem_cons, UInt8.toNat_ofNat']
  · omega
  · exact ⟨by omega, by omega, by simp⟩
  · exact ⟨by omega, by omega, by omega, by simp⟩
  · exact ⟨by omega, by omega, by omega, by omega, by simp⟩

/-- The length of an encoding, as its first byte shows it. -/
def sequenceLength (lead : UInt8) : Nat :=
  if lead.toNat < 0x80 then 1 else if lead.toNat < 0xE0 then 2
  else if lead.toNat < 0xF0 then 3 else 4

theorem length_utf8EncodeChar {lead : UInt8} {tail : Bytes}
    (h : String.utf8EncodeChar c = lead :: tail) :
    (String.utf8EncodeChar c).length = sequenceLength lead := by
  have hval := val_le c
  unfold sequenceLength
  rcases utf8EncodeChar_cases c with ⟨hc, he⟩ | ⟨hc, he⟩ | ⟨hc, he⟩ | ⟨hc, he⟩ <;>
    obtain ⟨rfl, -⟩ := List.cons.inj (h.symm.trans he) <;>
    rw [he, UInt8.toNat_ofNat']
  · rw [if_pos (by omega)]; rfl
  · rw [if_neg (by omega), if_pos (by omega)]; rfl
  · rw [if_neg (by omega), if_neg (by omega), if_pos (by omega)]; rfl
  · rw [if_neg (by omega), if_neg (by omega), if_neg (by omega)]; rfl

/-- What follows a scalar value in a text is determined by the text. -/
theorem utf8EncodeChar_append_inj
    (h : String.utf8EncodeChar c ++ s = String.utf8EncodeChar d ++ t) :
    String.utf8EncodeChar c = String.utf8EncodeChar d ∧ s = t := by
  obtain ⟨leadC, tailC, hC, -⟩ := utf8EncodeChar_shape c
  obtain ⟨leadD, tailD, hD, -⟩ := utf8EncodeChar_shape d
  -- the first bytes agree, and they show the lengths
  have hLead : leadC = leadD := by
    rw [hC, hD] at h
    exact (List.cons.inj h).1
  refine List.append_inj h ?_
  rw [length_utf8EncodeChar hC, length_utf8EncodeChar hD, hLead]

theorem utf8EncodeChar_inj (h : String.utf8EncodeChar c = String.utf8EncodeChar d) : c = d := by
  have hText : [c].utf8Encode = [d].utf8Encode := by
    simp only [List.utf8Encode, List.flatMap_cons, h]
  -- the decoder of the standard library takes both back
  have hc : ([c].utf8Encode ++ ByteArray.empty).utf8DecodeChar? 0 = some c :=
    List.utf8DecodeChar?_utf8Encode_singleton_append
  rw [hText, List.utf8DecodeChar?_utf8Encode_singleton_append] at hc
  exact (Option.some.inj hc).symm

/-- The scalar values of a text are determined by it. -/
theorem flatMap_utf8EncodeChar_inj {cs ds : List Char}
    (h : cs.flatMap String.utf8EncodeChar = ds.flatMap String.utf8EncodeChar) : cs = ds := by
  induction cs generalizing ds with
  | nil =>
    cases ds with
    | nil => rfl
    | cons d ds =>
      obtain ⟨lead, tail, hShape, -⟩ := utf8EncodeChar_shape d
      rw [List.flatMap_cons, hShape] at h
      cases h
  | cons c cs ih =>
    cases ds with
    | nil =>
      obtain ⟨lead, tail, hShape, -⟩ := utf8EncodeChar_shape c
      rw [List.flatMap_cons, hShape] at h
      cases h
    | cons d ds =>
      rw [List.flatMap_cons, List.flatMap_cons] at h
      obtain ⟨hHead, hRest⟩ := utf8EncodeChar_append_inj h
      rw [utf8EncodeChar_inj hHead, ih hRest]

/-- A text is a text after its first scalar value, and the other way round. -/
theorem isUtf8_encode_append : IsUtf8 (String.utf8EncodeChar c ++ t) ↔ IsUtf8 t := by
  refine ⟨?_, fun h => (isUtf8_encode c).append h⟩
  rintro ⟨cs, hcs⟩
  obtain ⟨lead, tail, hShape, -⟩ := utf8EncodeChar_shape c
  cases cs with
  | nil =>
    rw [hShape] at hcs
    cases hcs
  | cons d cs =>
    rw [List.flatMap_cons] at hcs
    exact ⟨cs, (utf8EncodeChar_append_inj hcs).2⟩

/-- A text that is not empty starts with a scalar value. -/
theorem IsUtf8.exists_encode (h : IsUtf8 s) (hs : s ≠ []) :
    ∃ c t, s = String.utf8EncodeChar c ++ t := by
  obtain ⟨cs, rfl⟩ := h
  cases cs with
  | nil => exact absurd rfl hs
  | cons c cs => exact ⟨c, cs.flatMap String.utf8EncodeChar, List.flatMap_cons⟩

/-- The scalar value with a given number. -/
def scalar (n : Nat) (h : n.isValidChar) : Char := ⟨UInt32.ofNat n, by
  have hn : n < 2 ^ 32 := by
    unfold Nat.isValidChar at h
    omega
  rw [UInt32.isValidChar, UInt32.toNat_ofNat', Nat.mod_eq_of_lt hn]
  exact h⟩

@[simp] theorem scalar_toNat (n : Nat) (h : n.isValidChar) : (scalar n h).val.toNat = n := by
  have hn : n < 2 ^ 32 := by
    unfold Nat.isValidChar at h
    omega
  exact (UInt32.toNat_ofNat' ..).trans (Nat.mod_eq_of_lt hn)

theorem char_eq_iff : c = d ↔ c.val.toNat = d.val.toNat :=
  ⟨fun h => by rw [h], fun h => Char.ext (UInt32.toNat_inj.mp h)⟩

/-- A byte below `0x80` is a scalar value on its own. -/
theorem utf8EncodeChar_ascii {b : UInt8} (hb : b.toNat < 0x80) :
    String.utf8EncodeChar (scalar b.toNat (.inl (by omega))) = [b] := by
  unfold String.utf8EncodeChar
  simp only [scalar_toNat]
  rw [if_pos (by omega), UInt8.ofNat_toNat]

theorem isUtf8_of_ascii (h : ∀ b ∈ s, b.toNat < 0x80) : IsUtf8 s := by
  induction s with
  | nil => exact isUtf8_nil
  | cons b s ih =>
    have hHead : IsUtf8 [b] :=
      utf8EncodeChar_ascii (h b (List.mem_cons_self ..)) ▸ isUtf8_encode _
    exact hHead.append (ih fun b' hb' => h b' (List.mem_cons_of_mem b hb'))

end ReactorNet.Lib
