import ReactorNet.Json.Utf8
import ReactorNet.Lib.Scan

/-!
# ReactorNet — the UTF-8 scan is exact and stays in its text

`isValidUtf8` says what the scan returns. `scanUtf8` is the same scan with its index, every
byte it reads and every round it makes: the continuation bytes are read one by one, at an
offset from the index.

Main result: `isValidUtf8_exact` — a text is valid if it can be put together from what
`appendUtf8` gives for scalar values, in one way only, and the scan that finds out reads
nothing outside the text and moves on in every round.
-/

namespace ReactorNet.Json

open ReactorNet.Lib

/-! ## Texts of scalar values -/

/-- The numbers that `appendUtf8` is meant for. -/
def IsScalarValue (n : Nat) : Prop := n ≤ 0x10FFFF ∧ ¬ (0xD800 ≤ n ∧ n ≤ 0xDFFF)

theorem isScalarValue_iff {n : Nat} : IsScalarValue n ↔ n.isValidChar := by
  unfold IsScalarValue Nat.isValidChar
  omega

/-- The characters with some numbers, and the encodings that `appendUtf8` gives. -/
theorem exists_chars {cs : List Nat} (h : ∀ n ∈ cs, IsScalarValue n) :
    ∃ chars : List Char, chars.map (fun c => c.val.toNat) = cs ∧
      cs.flatMap appendUtf8 = chars.flatMap String.utf8EncodeChar := by
  induction cs with
  | nil => exact ⟨[], rfl, rfl⟩
  | cons n cs ih =>
    obtain ⟨hn, hcs⟩ := List.forall_mem_cons.mp h
    obtain ⟨chars, hNumbers, hBytes⟩ := ih hcs
    have hValid := isScalarValue_iff.mp hn
    refine ⟨scalar n hValid :: chars, ?_, ?_⟩
    · rw [List.map_cons, hNumbers, scalar_toNat]
    · rw [List.flatMap_cons, List.flatMap_cons, hBytes, appendUtf8_eq n hValid]

theorem isScalarValue_char (c : Char) : IsScalarValue c.val.toNat := isScalarValue_iff.mpr c.valid

theorem appendUtf8_char (c : Char) : appendUtf8 c.val.toNat = String.utf8EncodeChar c := by
  rw [appendUtf8_eq _ c.valid]
  congr 1
  exact char_eq_iff.mpr (scalar_toNat ..)

theorem isUtf8_iff_appendUtf8 {s : Bytes} :
    IsUtf8 s ↔ ∃ cs : List Nat, (∀ n ∈ cs, IsScalarValue n) ∧ s = cs.flatMap appendUtf8 := by
  constructor
  · rintro ⟨chars, rfl⟩
    refine ⟨chars.map fun c => c.val.toNat, ?_, ?_⟩
    · intro n hn
      obtain ⟨c, -, rfl⟩ := List.mem_map.mp hn
      exact isScalarValue_char c
    · rw [List.flatMap_map]
      simp only [appendUtf8_char]
  · rintro ⟨cs, hcs, rfl⟩
    obtain ⟨chars, -, hBytes⟩ := exists_chars hcs
    exact ⟨chars, hBytes⟩

/-- The scalar values of a text are determined by it. -/
theorem flatMap_appendUtf8_inj {cs ds : List Nat} (hcs : ∀ n ∈ cs, IsScalarValue n)
    (hds : ∀ n ∈ ds, IsScalarValue n) (h : cs.flatMap appendUtf8 = ds.flatMap appendUtf8) :
    cs = ds := by
  obtain ⟨chars, rfl, hChars⟩ := exists_chars hcs
  obtain ⟨chars', rfl, hChars'⟩ := exists_chars hds
  rw [hChars, hChars'] at h
  rw [flatMap_utf8EncodeChar_inj h]

/-! ## The scan with its reads -/

/-- The loop over the continuation bytes, with `count` of them left and the next at
`i + j`. -/
def scanTail (text : Bytes) (i : Nat) : Nat → Nat → Nat → Scan Nat
  | 0, _, codePoint => pure codePoint
  | count + 1, j, codePoint => do
    let next ← Scan.fetch text (i + j)
    if next.toNat &&& 0xC0 = 0x80 then
      scanTail text i count (j + 1) (codePoint <<< 6 ||| (next.toNat &&& 0x3F))
    else Scan.fail

/-- One pass of the scan. The cursor is the index `i` of the source. -/
def scanPass (text : Bytes) (_ : Unit) : Scan (Pass Unit) := do
  let i ← Scan.position
  if i < text.length then do
    let lead ← Scan.fetch text i
    if lead.toNat < 0x80 then do
      Scan.advance 1
      pure (.again ())
    else
      match utf8Lead lead.toNat with
      | none => Scan.fail
      | some (length, first) =>
        if i + length > text.length then Scan.fail
        else do
          let codePoint ← scanTail text i (length - 1) 1 first
          if utf8Scalar length codePoint then do
            Scan.advance length
            pure (.again ())
          else Scan.fail
  else pure (.done ())

def scanUtf8 (fuel : Nat) (text : Bytes) : Scan Unit := Scan.loop (scanPass text) fuel ()

section Reads

variable {text : Bytes} {limit active : Nat}

/-- The continuation bytes are within the text if the sequence is. -/
theorem scanTail_runs {i pos : Nat} (count : Nat) : ∀ j codePoint, i + j + count ≤ text.length →
    Runs text.length limit active (scanTail text i count j codePoint) pos
      ((utf8Tail codePoint (slice text (i + j) count)).map fun n => (n, pos)) := by
  induction count with
  | zero =>
    intro j codePoint _
    exact Runs.pure codePoint
  | succ count ih =>
    intro j codePoint hRoom
    have hNext : i + j < text.length := by omega
    rw [slice_succ hNext, utf8Tail, Nat.add_assoc]
    refine Runs.bind (Runs.fetch hNext) fun _ => ?_
    split_ifs
    · exact ih (j + 1) _ (by omega)
    · exact Runs.fail

/-- The index of a scan that has not failed. -/
def utf8View (i : Option Nat) : Option (Unit × Nat) := i.map fun i => ((), i)

theorem scanPass_runs (i : Nat) :
    Runs text.length limit active (scanPass text ()) i
      (Runs.outcome utf8View (utf8Pass text (some i))) := by
  refine Runs.bind Runs.position fun _ => ?_
  by_cases hi : i < text.length
  · rw [if_pos hi]
    refine Runs.bind (Runs.fetch hi) fun _ => ?_
    by_cases hLead : text[i].toNat < 0x80
    · -- ASCII
      rw [if_pos hLead]
      simp only [utf8Pass, dif_pos hi, if_pos hLead]
      exact Runs.bind (Runs.advance (by omega)) fun _ => Runs.pure _
    · rw [if_neg hLead]
      simp only [utf8Pass, dif_pos hi, if_neg hLead]
      cases hFirst : utf8Lead text[i].toNat with
      | none => exact Runs.fail
      | some lead =>
        obtain ⟨length, first⟩ := lead
        have hLength := utf8Lead_length hFirst
        simp only
        by_cases hRoom : i + length > text.length
        · rw [if_pos hRoom, if_pos hRoom]
          exact Runs.fail
        · rw [if_neg hRoom, if_neg hRoom]
          -- the tail is read within the sequence
          refine Runs.bind_either (scanTail_runs (length - 1) 1 first (by omega)) (fun h => ?_)
            fun codePoint p h _ => ?_
          · rw [Option.map_eq_none_iff.mp h]
            rfl
          · obtain ⟨_, hPoint, ⟨⟩⟩ := Option.map_eq_some_iff.mp h
            rw [hPoint]
            simp only
            split_ifs
            · exact Runs.bind (Runs.advance (by omega)) fun _ => Runs.pure _
            · exact Runs.fail
  · rw [if_neg hi]
    simp only [utf8Pass, dif_neg hi]
    exact Runs.pure _

theorem scanUtf8_runs {fuel : Nat} (hFuel : text.length < fuel) :
    ∃ i, Runs text.length limit active (scanUtf8 fuel text) 0
      (if isValidUtf8 text then some ((), i) else none) := by
  -- a failed scan stays failed, so the traced one may stop at once
  have hFailed : ∀ t : Option Nat, utf8View t = none →
      utf8View (loop (utf8Left text) (utf8Pass text) t) = none := by
    intro t ht
    obtain rfl : t = none := by simpa [utf8View] using ht
    have hNone : utf8Pass text none = .done none := rfl
    rw [loop_done hNone]
    rfl
  have hLoop : Runs text.length limit active (scanUtf8 fuel text) 0
      (utf8View (loop (utf8Left text) (utf8Pass text) (some 0))) := by
    refine Runs.loop utf8View 0 ?_ utf8Left_lt hFailed ?_ fuel (some 0) () 0 rfl (Nat.zero_le _)
      (by omega)
    · rintro (_ | i) _ _ ⟨⟩
      rfl
    · rintro (_ | i) _ _ ⟨⟩ - -
      exact scanPass_runs i
  unfold isValidUtf8
  cases hEnd : loop (utf8Left text) (utf8Pass text) (some 0) with
  | none =>
    rw [hEnd] at hLoop
    exact ⟨0, hLoop⟩
  | some i =>
    rw [hEnd] at hLoop
    exact ⟨i, hLoop⟩

end Reads

/-- **UTF-8 validation is exact.** A byte string is valid if it is put together from what
`appendUtf8` gives for some scalar values, and these are then determined. With a pass for
every byte and one more the scan comes to its verdict; it reads bytes of the text only, and
every round moves on. -/
theorem isValidUtf8_exact (s : Bytes) :
    (isValidUtf8 s = true ↔
      ∃ cs : List Nat, (∀ n ∈ cs, n ≤ 0x10FFFF ∧ ¬ (0xD800 ≤ n ∧ n ≤ 0xDFFF)) ∧
        s = cs.flatMap appendUtf8) ∧
    (∀ cs ds : List Nat, (∀ n ∈ cs, n ≤ 0x10FFFF ∧ ¬ (0xD800 ≤ n ∧ n ≤ 0xDFFF)) →
      (∀ n ∈ ds, n ≤ 0x10FFFF ∧ ¬ (0xD800 ≤ n ∧ n ≤ 0xDFFF)) →
      s = cs.flatMap appendUtf8 → s = ds.flatMap appendUtf8 → cs = ds) ∧
    (∀ fuel, s.length < fuel → ∃ c : Cursor,
      scanUtf8 fuel s {} = some (if isValidUtf8 s then some () else none, c) ∧
      (∀ i, .read i ∈ c.trace → i < s.length) ∧
      (∀ i j, .round i j ∈ c.trace → i < j)) := by
  refine ⟨?_, ?_, fun fuel hFuel => ?_⟩
  · rw [isValidUtf8_iff]
    exact isUtf8_iff_appendUtf8
  · rintro cs ds hcs hds rfl hEq
    exact flatMap_appendUtf8_inj hcs hds hEq
  · obtain ⟨i, hRuns⟩ : ∃ i, Runs s.length 0 0 (scanUtf8 fuel s) 0
        (if isValidUtf8 s then some ((), i) else none) := scanUtf8_runs hFuel
    obtain ⟨pos, done, -, hWithin, hRun, -⟩ := hRuns (Nat.zero_le _) []
    refine ⟨⟨pos, 0, done⟩, ?_, fun i hi => hWithin _ hi, fun i j hij => hWithin _ hij⟩
    have hVerdict : (if isValidUtf8 s then some ((), i) else none).map Prod.fst =
        if isValidUtf8 s then some () else none := by
      split_ifs <;> rfl
    rw [← hVerdict]
    exact hRun

end ReactorNet.Json
