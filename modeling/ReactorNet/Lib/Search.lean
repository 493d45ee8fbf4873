import Mathlib.Tactic

/-!
# ReactorNet — searching a sequence

`std::search`: the first position at which a pattern stands in a sequence. The position is
described by what stands there and before it (`search_eq_some`), so a search in a longer
sequence, or one that starts later, is compared with this one without looking at how
either proceeds.
-/

namespace ReactorNet.Lib

universe u

variable {α : Type u} {pattern s t : List α} {i j : Nat}

/-- The pattern stands at this position. -/
def OccursAt (pattern s : List α) (i : Nat) : Prop := pattern <+: s.drop i

theorem occursAt_zero : OccursAt pattern s 0 ↔ pattern <+: s := Iff.rfl

theorem occursAt_drop : OccursAt pattern (s.drop i) j ↔ OccursAt pattern s (i + j) := by
  rw [OccursAt, OccursAt, List.drop_drop]

theorem OccursAt.le (h : OccursAt pattern s i) (hPattern : pattern ≠ []) :
    i + pattern.length ≤ s.length := by
  have hLe := h.length_le
  have hPos := List.length_pos_iff.mpr hPattern
  rw [List.length_drop] at hLe
  omega

theorem OccursAt.append (h : OccursAt pattern s i) (hLe : i ≤ s.length) (t : List α) :
    OccursAt pattern (s ++ t) i := by
  rw [OccursAt, List.drop_append_of_le_length hLe]
  exact h.trans (List.prefix_append _ _)

/-- Within the first part nothing of the second is seen. -/
theorem OccursAt.of_append (h : OccursAt pattern (s ++ t) i)
    (hLe : i + pattern.length ≤ s.length) : OccursAt pattern s i := by
  rw [OccursAt, List.drop_append_of_le_length (by omega)] at h
  exact List.prefix_of_prefix_length_le h (List.prefix_append _ _)
    (by rw [List.length_drop]; omega)

theorem occursAt_append {pattern' : List α} :
    OccursAt (pattern ++ pattern') s i ↔
      OccursAt pattern s i ∧ OccursAt pattern' s (i + pattern.length) := by
  constructor
  · rintro ⟨rest, hRest⟩
    rw [List.append_assoc] at hRest
    refine ⟨⟨_, hRest⟩, rest, ?_⟩
    rw [← List.drop_drop, ← hRest, List.drop_left]
  · rintro ⟨⟨rest, hRest⟩, rest', hRest'⟩
    refine ⟨rest', ?_⟩
    rw [← List.drop_drop, ← hRest, List.drop_left] at hRest'
    rw [List.append_assoc, hRest', hRest]

theorem occursAt_singleton {a : α} : OccursAt [a] s i ↔ s[i]? = some a := by
  rw [OccursAt, ← List.head?_drop]
  cases s.drop i with
  | nil => simp
  | cons b rest => simp [eq_comm]

/-! ## The search -/

variable [DecidableEq α]

/-- `std::search`; the source compares the result with the end of the sequence where this is
`none`. -/
def search (pattern : List α) : List α → Option Nat
  | [] => if pattern = [] then some 0 else none
  | a :: s => if pattern <+: a :: s then some 0 else (search pattern s).map (· + 1)

theorem search_eq_none : search pattern s = none ↔ ∀ i, ¬ OccursAt pattern s i := by
  induction s with
  | nil => simp [search, OccursAt]
  | cons a s ih =>
    rw [search]
    split_ifs with hFront
    · refine iff_of_false (by simp) fun h => h 0 hFront
    · rw [Option.map_eq_none_iff, ih]
      constructor
      · intro h i
        cases i with
        | zero => exact hFront
        | succ i => exact h i
      · intro h i
        exact h (i + 1)

/-- **The search** finds the first position at which the pattern stands. -/
theorem search_eq_some :
    search pattern s = some i ↔ OccursAt pattern s i ∧ ∀ j < i, ¬ OccursAt pattern s j := by
  -- an occurrence in the tail is one place further in the whole
  induction s generalizing i with
  | nil =>
    rw [search]
    cases i with
    | zero => simp [OccursAt]
    | succ i =>
      refine iff_of_false (by split_ifs <;> simp) fun h => h.2 0 (Nat.succ_pos i) ?_
      simpa [OccursAt] using h.1
  | cons a s ih =>
    rw [search]
    split_ifs with hFront
    · cases i with
      | zero => simp [occursAt_zero, hFront]
      | succ i => exact iff_of_false (by simp) fun h => h.2 0 (Nat.succ_pos i) hFront
    · rw [Option.map_eq_some_iff]
      constructor
      · rintro ⟨j, hj, rfl⟩
        obtain ⟨hAt, hBefore⟩ := ih.mp hj
        refine ⟨hAt, fun k hk => ?_⟩
        cases k with
        | zero => exact hFront
        | succ k => exact hBefore k (by omega)
      · rintro ⟨hAt, hBefore⟩
        cases i with
        | zero => exact absurd hAt hFront
        | succ i => exact ⟨i, ih.mpr ⟨hAt, fun k hk => hBefore (k + 1) (by omega)⟩, rfl⟩

/-- Something is found exactly if the pattern stands somewhere. -/
theorem search_isSome : (search pattern s).isSome ↔ pattern <:+: s := by
  rw [Option.isSome_iff_ne_none, ne_eq, search_eq_none, not_forall_not]
  constructor
  · rintro ⟨i, h⟩
    exact h.isInfix.trans (List.drop_suffix i s).isInfix
  · rintro ⟨u, v, rfl⟩
    refine ⟨u.length, v, ?_⟩
    rw [List.append_assoc, List.drop_left]

/-- What was found stays where it is when the sequence grows. -/
theorem search_append (h : search pattern s = some i) (hPattern : pattern ≠ []) (t : List α) :
    search pattern (s ++ t) = some i := by
  obtain ⟨hAt, hBefore⟩ := search_eq_some.mp h
  have hLe := hAt.le hPattern
  refine search_eq_some.mpr ⟨hAt.append (by omega) t, fun j hj hj' => ?_⟩
  exact hBefore j hj (hj'.of_append (by omega))

/-- A search that starts at a position. -/
def searchFrom (pattern s : List α) (i : Nat) : Option Nat :=
  (search pattern (s.drop i)).map (i + ·)

theorem searchFrom_eq_some : searchFrom pattern s i = some j ↔
    i ≤ j ∧ OccursAt pattern s j ∧ ∀ k, i ≤ k → k < j → ¬ OccursAt pattern s k := by
  rw [searchFrom, Option.map_eq_some_iff]
  constructor
  · rintro ⟨d, hd, rfl⟩
    obtain ⟨hAt, hBefore⟩ := search_eq_some.mp hd
    refine ⟨by omega, occursAt_drop.mp hAt, fun k hik hk hAtK => ?_⟩
    obtain ⟨d', rfl⟩ := Nat.exists_eq_add_of_le hik
    exact hBefore d' (by omega) (occursAt_drop.mpr hAtK)
  · rintro ⟨hij, hAt, hBefore⟩
    obtain ⟨d, rfl⟩ := Nat.exists_eq_add_of_le hij
    refine ⟨d, search_eq_some.mpr ⟨occursAt_drop.mpr hAt, fun k hk hAtK => ?_⟩, rfl⟩
    exact hBefore (i + k) (by omega) (by omega) (occursAt_drop.mp hAtK)

theorem searchFrom_eq_none :
    searchFrom pattern s i = none ↔ ∀ k, i ≤ k → ¬ OccursAt pattern s k := by
  rw [searchFrom, Option.map_eq_none_iff, search_eq_none]
  constructor
  · intro h k hik hAt
    obtain ⟨d, rfl⟩ := Nat.exists_eq_add_of_le hik
    exact h d (occursAt_drop.mpr hAt)
  · intro h d hAt
    exact h (i + d) (by omega) (occursAt_drop.mp hAt)

theorem searchFrom_append (h : searchFrom pattern s i = some j) (hPattern : pattern ≠ [])
    (t : List α) : searchFrom pattern (s ++ t) i = some j := by
  obtain ⟨hij, hAt, hBefore⟩ := searchFrom_eq_some.mp h
  have hLe := hAt.le hPattern
  refine searchFrom_eq_some.mpr ⟨hij, hAt.append (by omega) t, fun k hik hk hAtK => ?_⟩
  exact hBefore k hik hk (hAtK.of_append (by omega))

end ReactorNet.Lib
