import ReactorNet.Http.Request

/-!
# ReactorNet — what a request line leads to

The line is described by the bytes it is made of (`IsRequestLine`), so that a statement
about the parser can be made about what was sent and not about what the parser computed.

`urlDecode` reads its input token by token: an escape, a plus sign or any other character
(`urlDecode_cons`). A character that is no hexadecimal digit starts a token wherever it
stands, since an escape that began before it would have taken it for a digit
(`urlDecode_append`). The dot and the percent sign are such characters, so what decodes to
two dots can be read off the target as it was sent.

* `tokens_eq_some` — what the three extractions find.
* `dotdot_infix_urlDecode`, `slash_urlDecode` — which targets decode to a path with two dots
  in a row, and which to one that starts with a slash.
* `parseRequestLine_cases` — everything a request line can lead to.
-/

namespace ReactorNet

open Lib

namespace HttpRequest

/-! ## The parts of a line -/

/-- The line is a method, a target and a version, with blanks between them; it may start with
blanks, and what follows the version is separated from it. -/
def IsRequestLine (line method target version : Bytes) : Prop :=
  ∃ w w' w'' rest, line = w ++ (method ++ (w' ++ (target ++ (w'' ++ (version ++ rest))))) ∧
    (∀ b ∈ w ++ w' ++ w'', isSpace b = true) ∧ w' ≠ [] ∧ w'' ≠ [] ∧
    (method ≠ [] ∧ target ≠ [] ∧ version ≠ []) ∧
    (∀ b ∈ method ++ target ++ version, isSpace b = false) ∧ StartsWith isSpace rest

theorem startsWith_space_append {w token : Bytes} (hw : ∀ b ∈ w, isSpace b = true)
    (hToken : token ≠ []) (hChars : ∀ b ∈ token, isSpace b = false) (rest : Bytes) :
    StartsWith isSpace (w ++ (token ++ rest)) ↔ w ≠ [] := by
  obtain ⟨c, token, rfl⟩ := List.exists_cons_of_ne_nil hToken
  cases w with
  | nil =>
    have hc := hChars c (List.mem_cons_self ..)
    simp [StartsWith, hc]
  | cons b w =>
    have hb := hw b (List.mem_cons_self ..)
    simp [StartsWith, hb]

variable {d s version : Bytes} {b c : UInt8} {h l : Nat} {r : HttpRequest}

/-- **What the three extractions find.** -/
theorem tokens_eq_some {line method target : Bytes} :
    tokens line = some (method, target, version) ↔ IsRequestLine line method target version := by
  -- three extractions; each begins where the one before has stopped
  constructor
  · intro h
    simp only [tokens, Option.bind_eq_bind, Option.bind_eq_some_iff, Prod.exists] at h
    obtain ⟨method', rest, h1, target', rest', h2, version', rest'', h3, h⟩ := h
    simp only [Option.pure_def, Option.some.injEq, Prod.mk.injEq] at h
    obtain ⟨rfl, rfl, rfl⟩ := h
    obtain ⟨w, rfl, hw, hMethod, hMethodChars, hNext⟩ := nextToken_eq_some.mp h1
    obtain ⟨w', rfl, hw', hTarget, hTargetChars, hNext'⟩ := nextToken_eq_some.mp h2
    obtain ⟨w'', rfl, hw'', hVersion, hVersionChars, hRest⟩ := nextToken_eq_some.mp h3
    refine ⟨w, w', w'', rest'', rfl, ?_, (startsWith_space_append hw' hTarget hTargetChars _).mp hNext,
      (startsWith_space_append hw'' hVersion hVersionChars _).mp hNext',
      ⟨hMethod, hTarget, hVersion⟩, ?_, hRest⟩
    · simp only [List.forall_mem_append]
      exact ⟨⟨hw, hw'⟩, hw''⟩
    · simp only [List.forall_mem_append]
      exact ⟨⟨hMethodChars, hTargetChars⟩, hVersionChars⟩
  · rintro ⟨w, w', w'', rest, rfl, hBlanks, hw'Ne, hw''Ne, ⟨hMethod, hTarget, hVersion⟩, hChars, hRest⟩
    simp only [List.forall_mem_append] at hBlanks hChars
    obtain ⟨⟨hw, hw'⟩, hw''⟩ := hBlanks
    obtain ⟨⟨hMethodChars, hTargetChars⟩, hVersionChars⟩ := hChars
    have h1 := nextToken_eq_some.mpr ⟨w, rfl, hw, hMethod, hMethodChars,
      (startsWith_space_append hw' hTarget hTargetChars (w'' ++ (version ++ rest))).mpr hw'Ne⟩
    have h2 := nextToken_eq_some.mpr ⟨w', rfl, hw', hTarget, hTargetChars,
      (startsWith_space_append hw'' hVersion hVersionChars rest).mpr hw''Ne⟩
    have h3 := nextToken_eq_some.mpr ⟨w'', rfl, hw'', hVersion, hVersionChars, hRest⟩
    simp only [tokens, h1, h2, h3, Option.bind_eq_bind, Option.bind_some, Option.pure_def]

/-- The target before its first question mark. -/
def targetPath (target : Bytes) : Bytes := target.takeWhile (· != 0x3F)

theorem take_idxOf? {i : Nat} (h : s.idxOf? c = some i) :
    i < s.length ∧ s = s.take i ++ c :: s.drop (i + 1) ∧ c ∉ s.take i := by
  obtain ⟨hi, hc, hBefore⟩ := List.idxOf?_eq_some_iff.mp h
  refine ⟨hi, ?_, fun hMem => ?_⟩
  · rw [← hc, ← List.drop_eq_getElem_cons hi, List.take_append_drop]
  · obtain ⟨j, hj, hEq⟩ := List.getElem_of_mem hMem
    rw [List.length_take] at hj
    rw [List.getElem_take] at hEq
    exact hBefore j (by omega) hEq

theorem splitTarget_eq (target : Bytes) :
    ∃ query, splitTarget target = .ok (targetPath target, query) := by
  rw [splitTarget]
  cases h : target.idxOf? 0x3F with
  | none =>
    have hNot : (0x3F : UInt8) ∉ target := List.idxOf?_eq_none_iff.mp h
    refine ⟨none, ?_⟩
    have hPath : targetPath target = target :=
      List.takeWhile_eq_self_iff.mpr fun b hb => by
        have hne : b ≠ 0x3F := fun hEq => hNot (hEq ▸ hb)
        simpa using hne
    rw [hPath]
    rfl
  | some i =>
    -- `substr` is called with `i + 1`, which is within the target
    obtain ⟨hi, hSplit, hNot⟩ := take_idxOf? h
    have hPath : targetPath target = target.take i := by
      conv_lhs => rw [targetPath, hSplit]
      refine (span_eq (fun b hb => ?_) (fun b hb => ?_)).1
      · have hne : b ≠ 0x3F := fun hEq => hNot (hEq ▸ hb)
        simpa using hne
      · cases hb
        decide
    refine ⟨some (target.drop (i + 1)), ?_⟩
    simp only [substr, if_pos (show i + 1 ≤ target.length by omega), Nat.zero_le, if_true,
      List.drop_zero, bind, Except.bind, hPath]
    rfl

/-! ## Percent decoding -/

/-- A token of `urlDecode` and the byte it stands for. -/
inductive Spells : Bytes → UInt8 → Prop
  | plain {b : UInt8} (h : b ≠ 0x2B) : Spells [b] b
  | plus : Spells [0x2B] 0x20
  | escape {high low : UInt8} {h l : Nat} (hHigh : hexToInt high = some h)
      (hLow : hexToInt low = some l) : Spells [0x25, high, low] (UInt8.ofNat (h <<< 4 ||| l))

theorem urlDecode_plain {rest : Bytes}
    (h : ∀ high low tail, c :: rest = 0x25 :: high :: low :: tail → hexToInt high = none ∨
      hexToInt low = none) :
    urlDecode (c :: rest) = (if c = 0x2B then 0x20 else c) :: urlDecode rest := by
  conv_lhs => rw [urlDecode.eq_def]
  split
  · rename_i hEq
    cases hEq
  · rename_i high low tail hEq
    obtain ⟨rfl, rfl⟩ := List.cons.inj hEq
    -- one of the two is no digit, so only the percent sign is taken
    obtain hHigh | hLow := h high low tail rfl
    · rw [hHigh]
      rfl
    · rw [hLow]
      cases hexToInt high <;> rfl
  · rename_i hEq
    obtain ⟨rfl, rfl⟩ := List.cons.inj hEq
    rfl
  · rename_i hPlus hEq
    obtain ⟨rfl, rfl⟩ := List.cons.inj hEq
    rw [if_neg hPlus]

theorem urlDecode_escape {high low : UInt8} (hHigh : hexToInt high = some h)
    (hLow : hexToInt low = some l) (rest : Bytes) :
    urlDecode (0x25 :: high :: low :: rest) = UInt8.ofNat (h <<< 4 ||| l) :: urlDecode rest := by
  rw [urlDecode, hHigh, hLow]

/-- An escape stands at the front, or the first character is taken alone. -/
theorem escape_or_plain (c : UInt8) (rest : Bytes) :
    (∃ high low h l tail, c :: rest = 0x25 :: high :: low :: tail ∧ hexToInt high = some h ∧
      hexToInt low = some l) ∨
    ∀ high low tail, c :: rest = 0x25 :: high :: low :: tail →
      hexToInt high = none ∨ hexToInt low = none := by
  by_cases hEscape : ∃ high low h l tail, c :: rest = 0x25 :: high :: low :: tail ∧
      hexToInt high = some h ∧ hexToInt low = some l
  · exact Or.inl hEscape
  · refine Or.inr fun high low tail hEq => ?_
    cases hHigh : hexToInt high with
    | none => exact Or.inl rfl
    | some h =>
      cases hLow : hexToInt low with
      | none => exact Or.inr rfl
      | some l => exact absurd ⟨high, low, h, l, tail, hEq, hHigh, hLow⟩ hEscape

/-- **One token** is taken off the front. -/
theorem urlDecode_cons (c : UInt8) (rest : Bytes) :
    ∃ d b tail, Spells d b ∧ c :: rest = d ++ tail ∧ urlDecode (c :: rest) = b :: urlDecode tail := by
  obtain ⟨high, low, h, l, tail, hEq, hHigh, hLow⟩ | hPlain := escape_or_plain c rest
  · refine ⟨[0x25, high, low], _, tail, .escape hHigh hLow, hEq, ?_⟩
    rw [hEq, urlDecode_escape hHigh hLow]
  · rw [urlDecode_plain hPlain]
    by_cases hc : c = 0x2B
    · subst hc
      exact ⟨[0x2B], _, rest, .plus, rfl, rfl⟩
    · rw [if_neg hc]
      exact ⟨[c], _, rest, .plain hc, rfl, rfl⟩

/-- **A character that is no digit** starts a token wherever it stands. -/
theorem urlDecode_append (hc : hexToInt c = none) (s rest : Bytes) :
    urlDecode (s ++ c :: rest) = urlDecode s ++ urlDecode (c :: rest) := by
  -- on the length: a token takes one character or three
  induction hn : s.length using Nat.strong_induction_on generalizing s with
  | _ n ih =>
    cases s with
    | nil => rfl
    | cons a s =>
      obtain ⟨high, low, h, l, tail, hEq, hHigh, hLow⟩ | hPlain := escape_or_plain a s
      · rw [hEq] at hn ⊢
        have hTail := ih tail.length (by simp only [List.length_cons] at hn; omega) tail rfl
        simp only [List.cons_append, urlDecode_escape hHigh hLow, hTail]
      · have hTail := ih s.length (by simp only [List.length_cons] at hn; omega) s rfl
        rw [List.cons_append, urlDecode_plain, urlDecode_plain hPlain, hTail, List.cons_append]
        -- two characters behind `a`: both are of `s`, or one of them is `c`
        intro high low tail hEq
        match s with
        | [] =>
          simp only [List.nil_append, List.cons.injEq] at hEq
          exact Or.inl (hEq.2.1 ▸ hc)
        | [b] =>
          simp only [List.cons_append, List.nil_append, List.cons.injEq] at hEq
          exact Or.inr (hEq.2.2.1 ▸ hc)
        | b :: b' :: s =>
          simp only [List.cons_append, List.cons.injEq] at hEq
          obtain ⟨rfl, rfl, rfl, -⟩ := hEq
          exact hPlain b b' s rfl

/-- The end of a decoded text is the decoding of an end of it. -/
theorem urlDecode_eq_append {u v : Bytes} (h : urlDecode s = u ++ v) :
    ∃ s', s' <:+ s ∧ urlDecode s' = v := by
  induction u generalizing s with
  | nil => exact ⟨s, List.suffix_refl s, h⟩
  | cons b u ih =>
    cases s with
    | nil => cases h
    | cons c rest =>
      obtain ⟨d, b', tail, -, hEq, hDecode⟩ := urlDecode_cons c rest
      rw [hDecode] at h
      obtain ⟨s', hSuffix, hs'⟩ := ih (List.cons.inj h).2
      exact ⟨s', hEq ▸ hSuffix.trans (List.suffix_append d tail), hs'⟩

/-! ## Two bytes and their spellings -/

/-- `.`, `%2e` and `%2E` -/
def dotSpellings : List Bytes := [[0x2E], [0x25, 0x32, 0x65], [0x25, 0x32, 0x45]]

/-- `/`, `%2f` and `%2F` -/
def slashSpellings : List Bytes := [[0x2F], [0x25, 0x32, 0x66], [0x25, 0x32, 0x46]]

theorem hexToInt_spec {n : Nat} (h : hexToInt c = some n) :
    n < 16 ∧ (c.toNat = 48 + n ∧ n < 10 ∨ c.toNat = 87 + n ∧ 10 ≤ n ∨ c.toNat = 55 + n ∧ 10 ≤ n) := by
  simp only [hexToInt, UInt8.le_iff_toNat_le, UInt8.reduceToNat] at h
  split_ifs at h <;> obtain rfl := Option.some.inj h <;> omega

theorem toNat_escape (hh : h < 16) (hl : l < 16) :
    (UInt8.ofNat (h <<< 4 ||| l)).toNat = h * 16 + l := by
  have hOr : h <<< 4 ||| l = h * 16 + l := by
    rw [← Nat.shiftLeft_add_eq_or_of_lt (show l < 2 ^ 4 by omega), Nat.shiftLeft_eq]
  rw [hOr, UInt8.toNat_ofNat']
  omega

/-- The digits of an escape are those of its byte. -/
theorem escape_eq {high low : UInt8} (hHigh : hexToInt high = some h)
    (hLow : hexToInt low = some l) (hb : UInt8.ofNat (h <<< 4 ||| l) = b) :
    h = b.toNat / 16 ∧ l = b.toNat % 16 := by
  have hNat := toNat_escape (hexToInt_spec hHigh).1 (hexToInt_spec hLow).1
  have hl := (hexToInt_spec hLow).1
  rw [hb] at hNat
  omega

/-- A byte other than the blank is spelt by itself or by its two digits. -/
theorem Spells.digits (h : Spells d b) (hb : b ≠ 0x20) :
    d = [b] ∨ ∃ high low, d = [0x25, high, low] ∧ hexToInt high = some (b.toNat / 16) ∧
      hexToInt low = some (b.toNat % 16) := by
  cases h with
  | plain => exact Or.inl rfl
  | plus => exact absurd rfl hb
  | escape hHigh hLow =>
    obtain ⟨hh, hl⟩ := escape_eq hHigh hLow rfl
    exact Or.inr ⟨_, _, rfl, hh ▸ hHigh, hl ▸ hLow⟩

theorem hexToInt_eq_two (h : hexToInt c = some 2) : c = 0x32 := by
  obtain ⟨-, hc⟩ := hexToInt_spec h
  exact UInt8.toNat_inj.mp (by simp only [UInt8.reduceToNat]; omega)

/-- A digit above nine is one of two letters. -/
theorem hexToInt_letter_iff {n : Nat} (hn : 10 ≤ n) (hLt : n < 16) :
    hexToInt c = some n ↔ c = UInt8.ofNat (87 + n) ∨ c = UInt8.ofNat (55 + n) := by
  constructor
  · intro h
    obtain ⟨-, hc⟩ := hexToInt_spec h
    have hCases : c.toNat = 87 + n ∨ c.toNat = 55 + n := by omega
    refine hCases.imp (fun hEq => ?_) fun hEq => ?_ <;>
      rw [← hEq, UInt8.ofNat_toNat]
  · rintro (rfl | rfl) <;> interval_cases n <;> rfl

/-- A byte between `%2A` and `%2F`, but for the plus sign, is spelt in three ways. -/
theorem spells_iff (hTwo : b.toNat / 16 = 2) (hLetter : 10 ≤ b.toNat % 16) (hPlus : b ≠ 0x2B) :
    Spells d b ↔ d ∈ [[b], [0x25, 0x32, UInt8.ofNat (87 + b.toNat % 16)],
      [0x25, 0x32, UInt8.ofNat (55 + b.toNat % 16)]] := by
  have hDigit : ∀ c, hexToInt c = some (b.toNat % 16) ↔ _ := fun c =>
    hexToInt_letter_iff hLetter (by omega)
  -- the two digits put together give the byte back
  have hByte : UInt8.ofNat (2 <<< 4 ||| b.toNat % 16) = b := by
    refine UInt8.toNat_inj.mp ?_
    rw [toNat_escape (by omega) (by omega)]
    omega
  simp only [List.mem_cons, List.not_mem_nil, or_false]
  constructor
  · intro h
    obtain rfl | ⟨high, low, rfl, hHigh, hLow⟩ := h.digits (by rintro rfl; revert hLetter; decide)
    · exact Or.inl rfl
    · rw [hTwo] at hHigh
      obtain rfl := hexToInt_eq_two hHigh
      obtain rfl | rfl := (hDigit low).mp hLow
      · exact Or.inr (Or.inl rfl)
      · exact Or.inr (Or.inr rfl)
  · have hEscape : ∀ c, hexToInt c = some (b.toNat % 16) → Spells [0x25, 0x32, c] b := by
      intro c hc
      have hSpells : Spells [0x25, 0x32, c] (UInt8.ofNat (2 <<< 4 ||| b.toNat % 16)) :=
        .escape rfl hc
      rwa [hByte] at hSpells
    rintro (rfl | rfl | rfl)
    · exact .plain hPlus
    · exact hEscape _ ((hDigit _).mpr (Or.inl rfl))
    · exact hEscape _ ((hDigit _).mpr (Or.inr rfl))

theorem spells_dot : Spells d 0x2E ↔ d ∈ dotSpellings :=
  spells_iff rfl (by decide) (by decide)

theorem spells_slash : Spells d 0x2F ↔ d ∈ slashSpellings :=
  spells_iff rfl (by decide) (by decide)

/-- A spelling is decoded as its byte in front of anything, unless it is the percent sign:
what follows may make an escape of it. -/
theorem Spells.urlDecode (h : Spells d b) (hb : b ≠ 0x25) (s : Bytes) :
    HttpRequest.urlDecode (d ++ s) = b :: HttpRequest.urlDecode s := by
  cases h with
  | plain hPlus =>
    rw [List.cons_append, urlDecode_plain fun _ _ _ hEq => absurd (List.cons.inj hEq).1 hb,
      if_neg hPlus]
    rfl
  | plus =>
    rw [List.cons_append, urlDecode_plain fun _ _ _ hEq => by cases hEq]
    rfl
  | escape hHigh hLow => exact urlDecode_escape hHigh hLow s

/-- A decoded byte at the front was spelt at the front. -/
theorem urlDecode_eq_cons {v : Bytes} (h : urlDecode s = b :: v) :
    ∃ d tail, Spells d b ∧ s = d ++ tail ∧ urlDecode tail = v := by
  cases s with
  | nil => cases h
  | cons c rest =>
    obtain ⟨d, b', tail, hSpells, hEq, hDecode⟩ := urlDecode_cons c rest
    rw [hDecode] at h
    obtain ⟨rfl, rfl⟩ := List.cons.inj h
    exact ⟨d, tail, hSpells, hEq, rfl⟩

/-- Two spellings of the dot stand next to each other. -/
def SpellsDotDot (s : Bytes) : Prop := ∃ d ∈ dotSpellings, ∃ d' ∈ dotSpellings, d ++ d' <:+: s

/-- **Two dots** in the decoded text. -/
theorem dotdot_infix_urlDecode : dotdot <:+: urlDecode s ↔ SpellsDotDot s := by
  constructor
  · rintro ⟨u, v, h⟩
    rw [List.append_assoc] at h
    obtain ⟨s', ⟨pre, rfl⟩, hs'⟩ := urlDecode_eq_append h.symm
    obtain ⟨d, tail, hd, rfl, hTail⟩ := urlDecode_eq_cons hs'
    obtain ⟨d', tail', hd', rfl, -⟩ := urlDecode_eq_cons hTail
    refine ⟨d, spells_dot.mp hd, d', spells_dot.mp hd', pre, tail', ?_⟩
    simp only [List.append_assoc]
  · rintro ⟨d, hd, d', hd', pre, tail, rfl⟩
    -- the first spelling starts with a character that no escape before it takes
    have hFront : ∃ c rest, d = c :: rest ∧ hexToInt c = none := by
      simp only [dotSpellings, List.mem_cons, List.not_mem_nil, or_false] at hd
      obtain rfl | rfl | rfl := hd <;> exact ⟨_, _, rfl, by decide⟩
    obtain ⟨c, rest, hEq, hc⟩ := hFront
    refine ⟨urlDecode pre, urlDecode tail, ?_⟩
    have hDots : urlDecode (d ++ (d' ++ tail)) = 0x2E :: 0x2E :: urlDecode tail := by
      rw [(spells_dot.mpr hd).urlDecode (by decide), (spells_dot.mpr hd').urlDecode (by decide)]
    have hSplit : urlDecode (pre ++ (d ++ (d' ++ tail))) =
        urlDecode pre ++ urlDecode (d ++ (d' ++ tail)) := by
      rw [hEq, List.cons_append, urlDecode_append hc]
    rw [List.append_assoc pre, List.append_assoc d, hSplit, hDots, List.append_assoc]
    rfl

/-- **A slash** at the front of the decoded text. -/
theorem slash_urlDecode : [0x2F] <+: urlDecode s ↔ ∃ d ∈ slashSpellings, d <+: s := by
  constructor
  · rintro ⟨v, h⟩
    obtain ⟨d, tail, hd, rfl, -⟩ := urlDecode_eq_cons h.symm
    exact ⟨d, spells_slash.mp hd, List.prefix_append d tail⟩
  · rintro ⟨d, hd, tail, rfl⟩
    exact ⟨urlDecode tail, ((spells_slash.mpr hd).urlDecode (by decide) tail).symm⟩

/-! ## The version -/

/-- A version with a dot, read up to the first one. -/
def dotted (major minor : Bytes) : Bytes := httpSlash ++ (major ++ 0x2E :: minor)

/-- Two numbers are read from a version with a dot, and either may throw. -/
theorem parseVersion_dotted (r : HttpRequest) {major : Bytes} (minor : Bytes)
    (h : (0x2E : UInt8) ∉ major) :
    r.parseVersion (dotted major minor) = do
      let m ← stoi major
      let n ← stoi minor
      return { r with majorVersion := m, minorVersion := n } := by
  have hDot : (major ++ 0x2E :: minor).idxOf? 0x2E = some major.length := by
    rw [List.idxOf?_eq_some_iff]
    refine ⟨by simp, by simp, fun j hj hEq => h ?_⟩
    rw [List.getElem_append_left hj] at hEq
    exact hEq ▸ List.getElem_mem hj
  have hVer : substr (dotted major minor) 5 none = .ok (major ++ 0x2E :: minor) := rfl
  have hMajor : substr (major ++ 0x2E :: minor) 0 (some major.length) = .ok major := by
    simp [substr]
  have hMinor : substr (major ++ 0x2E :: minor) (major.length + 1) none = .ok minor := by
    simp [substr]
  simp only [parseVersion, if_pos (show httpSlash <+: dotted major minor from List.prefix_append _ _),
    hVer, hDot, hMajor, hMinor, bind, Except.bind]

theorem parseVersion_dotted_eq_ok {r' : HttpRequest} {major minor : Bytes}
    (h : (0x2E : UInt8) ∉ major) :
    r.parseVersion (dotted major minor) = .ok r' ↔
      ∃ m n, stoi major = .ok m ∧ stoi minor = .ok n ∧
        r' = { r with majorVersion := m, minorVersion := n } := by
  rw [parseVersion_dotted r minor h]
  constructor
  · intro hRead
    cases hMajor : stoi major with
    | error e =>
      rw [hMajor] at hRead
      cases hRead
    | ok m =>
      cases hMinor : stoi minor with
      | error e =>
        rw [hMajor, hMinor] at hRead
        cases hRead
      | ok n =>
        rw [hMajor, hMinor] at hRead
        cases hRead
        exact ⟨m, n, rfl, rfl, rfl⟩
  · rintro ⟨m, n, hMajor, hMinor, rfl⟩
    rw [hMajor, hMinor]
    rfl

/-- Every other version leaves the request as it is. -/
theorem parseVersion_other (r : HttpRequest)
    (h : ∀ major minor, (0x2E : UInt8) ∉ major → version ≠ dotted major minor) :
    r.parseVersion version = .ok r := by
  rw [parseVersion]
  split_ifs with hHttp
  · obtain ⟨verStr, rfl⟩ := hHttp
    have hVer : substr (httpSlash ++ verStr) 5 none = .ok verStr := rfl
    cases hDot : verStr.idxOf? 0x2E with
    | none =>
      simp only [hVer, hDot, bind, Except.bind]
      rfl
    | some i =>
      obtain ⟨-, hSplit, hNot⟩ := take_idxOf? hDot
      exact absurd (congrArg (httpSlash ++ ·) hSplit) (h _ _ hNot)
  · rfl

theorem parseVersion_frame {r' : HttpRequest} (h : r.parseVersion version = .ok r') :
    ∃ m n, r' = { r with majorVersion := m, minorVersion := n } := by
  by_cases hDotted : ∃ major minor, (0x2E : UInt8) ∉ major ∧ version = dotted major minor
  · obtain ⟨major, minor, hDot, rfl⟩ := hDotted
    obtain ⟨m, n, -, -, rfl⟩ := (parseVersion_dotted_eq_ok hDot).mp h
    exact ⟨m, n, rfl⟩
  · rw [parseVersion_other r fun major minor hDot hEq => hDotted ⟨major, minor, hDot, hEq⟩] at h
    cases h
    exact ⟨r.majorVersion, r.minorVersion, rfl⟩

/-! ## The line -/

/-- The request that an accepted line leaves, before its version is read. -/
def requested (r : HttpRequest) (target : Bytes) (query : Option Bytes) : HttpRequest :=
  { r with
    method := .kGet
    path := defaultPath (urlDecode (targetPath target))
    query := query.getD r.query }

/-- **What a request line leads to**: it is refused, or its version decides. -/
theorem parseRequestLine_cases (r : HttpRequest) (line : Bytes) :
    ((∀ target version, IsRequestLine line methodGet target version →
        SpellsDotDot (targetPath target)) ∧
      ∃ r', r.parseRequestLine line = .ok (false, r')) ∨
    ∃ target version query, IsRequestLine line methodGet target version ∧
      ¬ SpellsDotDot (targetPath target) ∧
      r.parseRequestLine line =
        ((r.requested target query).parseVersion version).map fun r' => (true, r') := by
  rw [parseRequestLine]
  cases hTokens : tokens line with
  | none =>
    refine Or.inl ⟨fun target version hLine => ?_, r, rfl⟩
    rw [tokens_eq_some.mpr hLine] at hTokens
    cases hTokens
  | some found =>
    obtain ⟨method, target, version⟩ := found
    have hLine := tokens_eq_some.mp hTokens
    -- the line has no other parts
    have hSame : ∀ {method' target' version'}, IsRequestLine line method' target' version' →
        method' = method ∧ target' = target := by
      intro method' target' version' hLine'
      rw [tokens_eq_some.mpr hLine'] at hTokens
      cases hTokens
      exact ⟨rfl, rfl⟩
    by_cases hMethod : method = methodGet
    · subst hMethod
      obtain ⟨query, hQuery⟩ := splitTarget_eq target
      have hDots := search_isSome.trans (dotdot_infix_urlDecode (s := targetPath target))
      by_cases hSpells : SpellsDotDot (targetPath target)
      · refine Or.inl ⟨fun target' version' hLine' => (hSame hLine').2 ▸ hSpells,
          { r with
            method := .kGet
            path := urlDecode (targetPath target)
            query := query.getD r.query }, ?_⟩
        simp only [if_true, hQuery, bind, Except.bind, if_pos (hDots.mpr hSpells)]
        rfl
      · refine Or.inr ⟨target, version, query, hLine, hSpells, ?_⟩
        simp only [if_true, hQuery, bind, Except.bind, if_neg (mt hDots.mp hSpells), requested]
        generalize HttpRequest.parseVersion _ version = parsed
        cases parsed <;> rfl
    · refine Or.inl ⟨fun target' version' hLine' => absurd (hSame hLine').1.symm hMethod,
        { r with method := .kInvalid }, ?_⟩
      simp only [if_neg hMethod]
      rfl

/-- **An accepted line** sets the method, the path, the query and the version. -/
theorem parseRequestLine_true {read : HttpRequest} {line : Bytes}
    (h : r.parseRequestLine line = .ok (true, read)) :
    ∃ target version query m n, IsRequestLine line methodGet target version ∧
      ¬ SpellsDotDot (targetPath target) ∧
      read = { r.requested target query with majorVersion := m, minorVersion := n } := by
  obtain ⟨-, r', hFalse⟩ | ⟨target, version, query, hParts, hSafe, hRead⟩ :=
    parseRequestLine_cases r line
  · rw [hFalse] at h
    cases h
  · rw [hRead] at h
    cases hVersion : (r.requested target query).parseVersion version with
    | error e =>
      rw [hVersion] at h
      cases h
    | ok r' =>
      rw [hVersion] at h
      cases h
      obtain ⟨m, n, rfl⟩ := parseVersion_frame hVersion
      exact ⟨target, version, query, m, n, hParts, hSafe, rfl⟩

end HttpRequest

end ReactorNet
