import ReactorNet.Lib.Bytes

/-!
# ReactorNet — spans of an input

A reader with a cursor turns an index into a later one. `Spans input i s j` says
that `s` is what stands in the input between the two, and its lemmas cut a span
where the text it covers is cut (`spans_append`, `spans_cons`).
-/

namespace ReactorNet.Lib

universe u

variable {α : Type u} {input : List α}

/-- The input between the indices `i` and `j` is `s`. -/
def Spans (input : List α) (i : Nat) (s : List α) (j : Nat) : Prop :=
  i ≤ input.length ∧ input.drop i = s ++ input.drop j ∧ j = i + s.length

variable {i j k : Nat} {s t : List α}

theorem Spans.le (h : Spans input i s j) : j ≤ input.length := by
  obtain ⟨hi, hs, rfl⟩ := h
  have hLen := congrArg List.length hs
  simp only [List.length_append, List.length_drop] at hLen
  omega

theorem Spans.length (h : Spans input i s j) : j = i + s.length :=
  h.2.2

theorem spans_nil : Spans input i [] j ↔ j = i ∧ i ≤ input.length := by
  constructor
  · rintro ⟨hi, -, hj⟩
    exact ⟨by simpa using hj, hi⟩
  · rintro ⟨rfl, hi⟩
    exact ⟨hi, rfl, rfl⟩

theorem spans_append : Spans input i (s ++ t) k ↔ ∃ j, Spans input i s j ∧ Spans input j t k := by
  constructor
  · rintro ⟨hi, hs, rfl⟩
    -- the inner index is where `s` ends
    have hDrop : input.drop (i + s.length) = t ++ input.drop (i + (s ++ t).length) := by
      rw [← List.drop_drop, hs, List.append_assoc, List.drop_left]
    have hLe : i + s.length ≤ input.length := by
      have hLen := congrArg List.length hs
      simp only [List.length_append, List.length_drop] at hLen
      omega
    refine ⟨i + s.length, ⟨hi, ?_, rfl⟩, hLe, hDrop, ?_⟩
    · rw [hDrop, hs, List.append_assoc]
    · rw [List.length_append, Nat.add_assoc]
  · rintro ⟨j, ⟨hi, hs, rfl⟩, -, ht, rfl⟩
    refine ⟨hi, ?_, ?_⟩
    · rw [hs, ht, List.append_assoc]
    · rw [List.length_append, Nat.add_assoc]

theorem spans_singleton {a : α} : Spans input i [a] j ↔ input[i]? = some a ∧ j = i + 1 := by
  constructor
  · rintro ⟨hi, hs, hj⟩
    refine ⟨?_, hj⟩
    have hHead := congrArg List.head? hs
    rwa [List.head?_drop] at hHead
  · rintro ⟨ha, rfl⟩
    obtain ⟨hi, rfl⟩ := List.getElem?_eq_some_iff.mp ha
    exact ⟨by omega, List.drop_eq_getElem_cons hi, rfl⟩

theorem spans_cons {a : α} :
    Spans input i (a :: s) k ↔ input[i]? = some a ∧ Spans input (i + 1) s k := by
  rw [← List.singleton_append, spans_append]
  constructor
  · rintro ⟨j, hj, hs⟩
    obtain ⟨ha, rfl⟩ := spans_singleton.mp hj
    exact ⟨ha, hs⟩
  · rintro ⟨ha, hs⟩
    exact ⟨i + 1, spans_singleton.mpr ⟨ha, rfl⟩, hs⟩

theorem Spans.trans (hs : Spans input i s j) (ht : Spans input j t k) : Spans input i (s ++ t) k :=
  spans_append.mpr ⟨j, hs, ht⟩

theorem spans_drop (hi : i ≤ input.length) : Spans input i (input.drop i) input.length := by
  refine ⟨hi, ?_, ?_⟩
  · rw [List.drop_length, List.append_nil]
  · rw [List.length_drop]
    omega

theorem spans_self (input : List α) : Spans input 0 input input.length := by
  have hAll := spans_drop (Nat.zero_le input.length)
  rwa [List.drop_zero] at hAll

/-- Between two indices of the input there is one text. -/
theorem Spans.unique (hs : Spans input i s j) (ht : Spans input i t j) : s = t :=
  List.append_cancel_right (hs.2.1.symm.trans ht.2.1)

theorem Spans.slice_eq (h : Spans input i s j) : slice input i (j - i) = s := by
  obtain ⟨-, hs, rfl⟩ := h
  rw [slice, hs, Nat.add_sub_cancel_left, List.take_left]

theorem spans_slice (hij : i ≤ j) (hj : j ≤ input.length) :
    Spans input i (slice input i (j - i)) j := by
  refine ⟨by omega, ?_, ?_⟩
  · have hDrop : input.drop j = (input.drop i).drop (j - i) := by
      rw [List.drop_drop, Nat.add_sub_cancel' hij]
    rw [slice, hDrop, List.take_append_drop]
  · rw [length_slice (by omega)]
    omega

end ReactorNet.Lib
