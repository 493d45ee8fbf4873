import Mathlib.Tactic
import Mathlib.Data.List.Perm.Basic
import Mathlib.Order.WithBot

/-!
# ReactorNet — binary heaps in a list

The heap algorithms of the standard library, over a list of elements with keys in a
linear order: the element with the smallest key is at the front.

Positions are natural numbers, and a position behind the end has the key `⊤`. So the
order of a heap is a statement about all positions, with no bounds in it: no key is
below that of its parent. While an element is sifted, the order fails in one place only,
and `UpAt` and `DownAt` say where.

* `HeapAlgorithms` — the three algorithms with their specification: `push_heap` and `make_heap`
  leave a heap of the elements they were given, and `pop_heap` moves the front to the back and
  leaves the others as a heap. `binaryHeap` is one implementation.
* `IsHeap.front_le` — the front has the smallest key.
-/

namespace ReactorNet.Lib

universe u v

/-- The parent of a position; only position 0 has none. -/
def parent (i : Nat) : Nat := (i - 1) / 2

theorem parent_lt {i : Nat} (h : 0 < i) : parent i < i := by
  unfold parent
  omega

theorem parent_eq_iff {i c : Nat} (h : 0 < c) : parent c = i ↔ c = 2 * i + 1 ∨ c = 2 * i + 2 := by
  unfold parent
  omega

/-! ## The order of the keys -/

section Order

variable {K : Type v} [LinearOrder K] {f : Nat → K} {k i c : Nat}

/-- From position `k` on, no key is below that of its parent. -/
def OrderedFrom (k : Nat) (f : Nat → K) : Prop :=
  ∀ j, 0 < j → k ≤ parent j → f (parent j) ≤ f j

/-- In order but for the key at `i`, which may be below that of its parent. -/
structure UpAt (f : Nat → K) (i : Nat) : Prop where
  rest : ∀ j, 0 < j → j ≠ i → f (parent j) ≤ f j
  above : ∀ j, 0 < j → parent j = i → 0 < i → f (parent i) ≤ f j

/-- From position `k` on, in order but for the key at `i`, which may be above those of its
children. -/
structure DownAt (k : Nat) (f : Nat → K) (i : Nat) : Prop where
  rest : ∀ j, 0 < j → k ≤ parent j → parent j ≠ i → f (parent j) ≤ f j
  above : ∀ j, 0 < j → parent j = i → 0 < i → k ≤ parent i → f (parent i) ≤ f j

theorem OrderedFrom.front_le (h : OrderedFrom 0 f) (j : Nat) : f 0 ≤ f j := by
  induction j using Nat.strongRecOn with
  | ind j ih =>
    rcases Nat.eq_zero_or_pos j with rfl | hj
    · exact le_rfl
    · exact (ih _ (parent_lt hj)).trans (h j hj (Nat.zero_le _))

theorem UpAt.done (h : UpAt f i) (hStop : 0 < i → f (parent i) ≤ f i) : OrderedFrom 0 f := by
  intro j hj _
  by_cases hji : j = i
  · subst hji
    exact hStop hj
  · exact h.rest j hj hji

/-- The key that is too small changes places with its parent. -/
theorem UpAt.swap (h : UpAt f i) (hi : 0 < i) (hLt : f i < f (parent i)) :
    UpAt (f ∘ Equiv.swap (parent i) i) (parent i) := by
  have hp := parent_lt hi
  constructor
  · intro j hj hne
    by_cases hji : j = i
    · -- the edge into `i` is the one that was turned round
      subst hji
      simp only [Function.comp_apply, Equiv.swap_apply_left, Equiv.swap_apply_right]
      exact hLt.le
    · rw [Function.comp_apply, Function.comp_apply, Equiv.swap_apply_of_ne_of_ne hne hji]
      by_cases hpi : parent j = i
      · rw [hpi, Equiv.swap_apply_right]
        exact h.above j hj hpi hi
      · by_cases hpp : parent j = parent i
        · -- a sibling of `i`
          rw [hpp, Equiv.swap_apply_left]
          exact hLt.le.trans (hpp ▸ h.rest j hj hji)
        · rw [Equiv.swap_apply_of_ne_of_ne hpp hpi]
          exact h.rest j hj hji
  · intro j hj hpj hpos
    have hpp := parent_lt hpos
    have hUp : f (parent (parent i)) ≤ f (parent i) := h.rest _ hpos (Nat.ne_of_lt hp)
    rw [Function.comp_apply, Function.comp_apply,
      Equiv.swap_apply_of_ne_of_ne (Nat.ne_of_lt hpp) (by omega)]
    by_cases hji : j = i
    · subst hji
      rw [Equiv.swap_apply_right]
      exact hUp
    · have hjp := parent_lt hj
      rw [Equiv.swap_apply_of_ne_of_ne (by omega) hji]
      exact hUp.trans (hpj ▸ h.rest j hj hji)

theorem DownAt.done (h : DownAt k f i) (hStop : ∀ j, 0 < j → parent j = i → f i ≤ f j) :
    OrderedFrom k f := by
  intro j hj hk
  by_cases hpi : parent j = i
  · rw [hpi]
    exact hStop j hj hpi
  · exact h.rest j hj hk hpi

/-- The key that is too large changes places with the smallest of its children. -/
theorem DownAt.swap (h : DownAt k f i) (hc : 0 < c) (hpc : parent c = i)
    (hMin : ∀ j, 0 < j → parent j = i → f c ≤ f j) (hLt : f c < f i) :
    DownAt k (f ∘ Equiv.swap i c) c := by
  have hic : i < c := hpc ▸ parent_lt hc
  constructor
  · intro j hj hk hne
    have hjp := parent_lt hj
    by_cases hpi : parent j = i
    · rw [Function.comp_apply, Function.comp_apply, hpi, Equiv.swap_apply_left]
      by_cases hjc : j = c
      · subst hjc
        rw [Equiv.swap_apply_right]
        exact hLt.le
      · rw [Equiv.swap_apply_of_ne_of_ne (by omega) hjc]
        exact hMin j hj hpi
    · rw [Function.comp_apply, Function.comp_apply, Equiv.swap_apply_of_ne_of_ne hpi hne]
      by_cases hji : j = i
      · -- the parent of `i` was below both of its grandchildren
        subst hji
        rw [Equiv.swap_apply_left]
        exact h.above c hc hpc hj hk
      · have hjc : j ≠ c := fun hjc => hpi (hjc ▸ hpc)
        rw [Equiv.swap_apply_of_ne_of_ne hji hjc]
        exact h.rest j hj hk hpi
  · intro j hj hpj _ hk
    have hjp := parent_lt hj
    rw [Function.comp_apply, Function.comp_apply, hpc, Equiv.swap_apply_left,
      Equiv.swap_apply_of_ne_of_ne (by omega) (by omega)]
    rw [hpc] at hk
    have := h.rest j hj (by omega) (by omega)
    rwa [hpj] at this

/-- The front of the range moves down by one position: what was in order is in order but
for the new front. -/
theorem OrderedFrom.downAt (h : OrderedFrom (k + 1) f) : DownAt k f k where
  rest j hj hk hne := h j hj (by omega)
  above j hj hpj hk hkp := by
    have := parent_lt hk
    omega

end Order

/-! ## The algorithms -/

section Heap

variable {α : Type u} {κ : Type v} (key : α → κ)

/-- The key at a position. -/
def keyAt (l : List α) (i : Nat) : WithTop κ :=
  match l[i]? with
  | some x => key x
  | none => ⊤

def swapAt (l : List α) (i j : Nat) : List α :=
  match l[i]?, l[j]? with
  | some x, some y => (l.set i y).set j x
  | _, _ => l

variable {key} {l : List α} {i j : Nat}

theorem keyAt_of_lt (h : i < l.length) : keyAt key l i = key l[i] := by
  simp [keyAt, h]

theorem keyAt_of_le (h : l.length ≤ i) : keyAt key l i = ⊤ := by
  simp [keyAt, h]

theorem swapAt_of_lt (hi : i < l.length) (hj : j < l.length) :
    swapAt l i j = (l.set i l[j]).set j l[i] := by
  simp [swapAt, hi, hj]

theorem swapAt_perm (l : List α) (i j : Nat) : (swapAt l i j).Perm l := by
  by_cases hi : i < l.length
  · by_cases hj : j < l.length
    · rw [swapAt_of_lt hi hj]
      exact List.set_set_perm hi hj
    · simp [swapAt, hj]
  · simp [swapAt, Nat.le_of_not_lt hi]

theorem keyAt_swapAt (hi : i < l.length) (hj : j < l.length) :
    keyAt key (swapAt l i j) = keyAt key l ∘ Equiv.swap i j := by
  funext m
  rw [swapAt_of_lt hi hj, Function.comp_apply]
  by_cases hmi : m = i
  · subst hmi
    rw [Equiv.swap_apply_left]
    by_cases hmj : m = j
    · subst hmj
      simp [keyAt, hi]
    · simp [keyAt, hi, hj, Ne.symm hmj]
  · by_cases hmj : m = j
    · subst hmj
      simp [keyAt, hi, hj]
    · rw [Equiv.swap_apply_of_ne_of_ne hmi hmj]
      simp [keyAt, Ne.symm hmi, Ne.symm hmj]

variable (key) [LinearOrder κ]

/-- The element at a position is moved up until its parent is not above it. -/
def siftUp : Nat → List α → Nat → List α
  | 0, l, _ => l
  | fuel + 1, l, i =>
    if 0 < i ∧ keyAt key l i < keyAt key l (parent i) then
      siftUp fuel (swapAt l (parent i) i) (parent i)
    else l

/-- The child with the smaller key. -/
def smallerChild (l : List α) (i : Nat) : Nat :=
  if keyAt key l (2 * i + 2) < keyAt key l (2 * i + 1) then 2 * i + 2 else 2 * i + 1

/-- The element at a position is moved down until no child is below it. -/
def siftDown : Nat → List α → Nat → List α
  | 0, l, _ => l
  | fuel + 1, l, i =>
    if keyAt key l (smallerChild key l i) < keyAt key l i then
      siftDown fuel (swapAt l i (smallerChild key l i)) (smallerChild key l i)
    else l

/-- `std::push_heap`: the last element is put into the heap before it. -/
def BinaryHeap.pushHeap (l : List α) : List α := siftUp key l.length l (l.length - 1)

/-- The positions below `k` are sifted down, the last one first. -/
def heapifyBelow (l : List α) : Nat → List α
  | 0 => l
  | k + 1 => heapifyBelow (siftDown key l.length l k) k

/-- `std::make_heap`. -/
def BinaryHeap.makeHeap (l : List α) : List α := heapifyBelow key l l.length

/-- `std::pop_heap`: the first element changes places with the last one, and the others are
made a heap again. -/
def BinaryHeap.popHeap : List α → List α
  | [] => []
  | x :: rest =>
    match rest.getLast? with
    | none => [x]
    | some last => siftDown key rest.length (last :: rest.dropLast) 0 ++ [x]

def IsHeap (l : List α) : Prop := OrderedFrom 0 (keyAt key l)

variable {key}

theorem lt_of_keyAt_lt {x : WithTop κ} (h : keyAt key l i < x) : i < l.length := by
  by_contra hLe
  rw [keyAt_of_le (Nat.le_of_not_lt hLe)] at h
  exact absurd h not_top_lt

/-! ### Elements -/

theorem siftUp_perm (fuel : Nat) (l : List α) (i : Nat) : (siftUp key fuel l i).Perm l := by
  induction fuel generalizing l i with
  | zero => exact .refl l
  | succ fuel ih =>
    simp only [siftUp]
    split_ifs
    · exact (ih _ _).trans (swapAt_perm l _ _)
    · exact .refl l

theorem siftDown_perm (fuel : Nat) (l : List α) (i : Nat) : (siftDown key fuel l i).Perm l := by
  induction fuel generalizing l i with
  | zero => exact .refl l
  | succ fuel ih =>
    simp only [siftDown]
    split_ifs
    · exact (ih _ _).trans (swapAt_perm l _ _)
    · exact .refl l

theorem BinaryHeap.pushHeap_perm (l : List α) : (pushHeap key l).Perm l := siftUp_perm _ l _

theorem heapifyBelow_perm (l : List α) (k : Nat) : (heapifyBelow key l k).Perm l := by
  induction k generalizing l with
  | zero => exact .refl l
  | succ k ih => exact (ih _).trans (siftDown_perm _ l k)

theorem BinaryHeap.makeHeap_perm (l : List α) : (makeHeap key l).Perm l := heapifyBelow_perm l _

/-! ### Order -/

theorem isHeap_siftUp {fuel : Nat} (h : UpAt (keyAt key l) i) (hi : i < l.length) (hFuel : i ≤ fuel) :
    IsHeap key (siftUp key fuel l i) := by
  induction fuel generalizing l i with
  | zero =>
    obtain rfl : i = 0 := Nat.le_zero.mp hFuel
    exact h.done fun h => absurd h (lt_irrefl 0)
  | succ fuel ih =>
    simp only [siftUp]
    split_ifs with hLt
    · have hp := parent_lt hLt.1
      have hpl : parent i < l.length := hp.trans hi
      refine ih ?_ ?_ (by omega)
      · rw [keyAt_swapAt hpl hi]
        exact h.swap hLt.1 hLt.2
      · rwa [(swapAt_perm l _ _).length_eq]
    · exact h.done fun hPos => le_of_not_gt fun hBelow => hLt ⟨hPos, hBelow⟩

theorem smallerChild_pos (l : List α) (i : Nat) : 0 < smallerChild key l i := by
  unfold smallerChild
  split_ifs <;> omega

theorem parent_smallerChild (l : List α) (i : Nat) : parent (smallerChild key l i) = i := by
  unfold smallerChild parent
  split_ifs <;> omega

theorem smallerChild_le (hj : 0 < j) (hp : parent j = i) :
    keyAt key l (smallerChild key l i) ≤ keyAt key l j := by
  unfold smallerChild
  rcases (parent_eq_iff hj).mp hp with rfl | rfl <;> split_ifs with h
  · exact h.le
  · exact le_rfl
  · exact le_rfl
  · exact le_of_not_gt h

theorem orderedFrom_siftDown {fuel k : Nat} (h : DownAt k (keyAt key l) i)
    (hFuel : l.length ≤ fuel + i) : OrderedFrom k (keyAt key (siftDown key fuel l i)) := by
  induction fuel generalizing l i with
  | zero =>
    refine h.done fun j hj hp => ?_
    have := parent_lt hj
    rw [keyAt_of_le (by omega : l.length ≤ j)]
    exact le_top
  | succ fuel ih =>
    have hPos : 0 < smallerChild key l i := smallerChild_pos l i
    have hParent : parent (smallerChild key l i) = i := parent_smallerChild l i
    have hGt : i < smallerChild key l i := by
      have := parent_lt hPos
      omega
    simp only [siftDown]
    split_ifs with hLt
    · have hc := lt_of_keyAt_lt hLt
      refine ih ?_ ?_
      · rw [keyAt_swapAt (hGt.trans hc) hc]
        exact h.swap hPos hParent (fun j => smallerChild_le) hLt
      · rw [(swapAt_perm l _ _).length_eq]
        omega
    · exact h.done fun j hj hp => (le_of_not_gt hLt).trans (smallerChild_le hj hp)

variable {x : α} {rest : List α}

/-- **`push_heap`**: a heap and one more element are a heap. -/
theorem BinaryHeap.isHeap_pushHeap (h : IsHeap key l) : IsHeap key (pushHeap key (l ++ [x])) := by
  have hOld : ∀ j, j < l.length → keyAt key (l ++ [x]) j = keyAt key l j := fun j hj => by
    simp [keyAt, List.getElem?_append_left hj]
  refine isHeap_siftUp ⟨fun j hj hne => ?_, fun j hj hp _ => ?_⟩ (by simp) (by simp)
  · have hp := parent_lt hj
    by_cases hLt : j < l.length
    · rw [hOld j hLt, hOld _ (hp.trans hLt)]
      exact h j hj (Nat.zero_le _)
    · have hLe : (l ++ [x]).length ≤ j := by
        simp only [List.length_append, List.length_singleton] at hne ⊢
        omega
      rw [keyAt_of_le hLe]
      exact le_top
  · -- the last position has no children
    have hLe : (l ++ [x]).length ≤ j := by
      have := parent_lt hj
      simp only [List.length_append, List.length_singleton] at hp ⊢
      omega
    rw [keyAt_of_le hLe]
    exact le_top

theorem isHeap_heapifyBelow {k : Nat} (h : OrderedFrom k (keyAt key l)) :
    IsHeap key (heapifyBelow key l k) := by
  induction k generalizing l with
  | zero => exact h
  | succ k ih => exact ih (orderedFrom_siftDown h.downAt (Nat.le_add_right _ _))

/-- **`make_heap`**: any elements are made a heap. -/
theorem BinaryHeap.isHeap_makeHeap (l : List α) : IsHeap key (makeHeap key l) := by
  refine isHeap_heapifyBelow fun j hj hk => ?_
  have := parent_lt hj
  rw [keyAt_of_le (by omega : l.length ≤ j)]
  exact le_top

/-- Any key may be put at the front of a heap from which the last element was taken. -/
theorem IsHeap.downAt_replaceFront (h : IsHeap key (x :: rest)) (last : α) :
    DownAt 0 (keyAt key (last :: rest.dropLast)) 0 where
  rest j hj _ hne := by
    have hp := parent_lt hj
    have hSame : ∀ m, 0 < m → m < rest.length →
        keyAt key (last :: rest.dropLast) m = keyAt key (x :: rest) m := fun m hPos hm => by
      obtain ⟨m, rfl⟩ := Nat.exists_eq_succ_of_ne_zero (Nat.ne_of_gt hPos)
      simp [keyAt, show m < rest.length - 1 by omega, show m < rest.length by omega]
    by_cases hLt : j < rest.length
    · rw [hSame j hj hLt, hSame _ (Nat.pos_of_ne_zero hne) (hp.trans hLt)]
      exact h j hj (Nat.zero_le _)
    · have hLe : (last :: rest.dropLast).length ≤ j := by
        simp only [List.length_cons, List.length_dropLast]
        omega
      rw [keyAt_of_le hLe]
      exact le_top
  above j _ _ h0 := absurd h0 (lt_irrefl 0)

/-- **`pop_heap`**: the front of a heap goes to the back, and the others are a heap. -/
theorem BinaryHeap.popHeap_spec (h : IsHeap key (x :: rest)) :
    ∃ others, popHeap key (x :: rest) = others ++ [x] ∧ others.Perm rest ∧ IsHeap key others := by
  rcases List.eq_nil_or_concat' rest with rfl | ⟨init, last, rfl⟩
  · exact ⟨[], rfl, .refl _, fun j _ _ => by simp [keyAt]⟩
  · have hDown := h.downAt_replaceFront last
    rw [List.dropLast_concat] at hDown
    refine ⟨siftDown key (init ++ [last]).length (last :: init) 0, ?_, ?_, ?_⟩
    · simp [popHeap]
    · exact (siftDown_perm _ _ _).trans (List.perm_append_singleton last init).symm
    · exact orderedFrom_siftDown hDown (by simp)

/-- **The front has the smallest key.** -/
theorem IsHeap.front_le {y : α} (h : IsHeap key (x :: rest)) (hy : y ∈ x :: rest) :
    key x ≤ key y := by
  obtain ⟨j, hj, rfl⟩ := List.getElem_of_mem hy
  have hFront := OrderedFrom.front_le h j
  rw [keyAt_of_lt (Nat.zero_lt_succ _), keyAt_of_lt hj] at hFront
  exact WithTop.coe_le_coe.mp hFront

theorem IsHeap.congr {key' : α → κ} (h : IsHeap key l) (hKeys : ∀ x ∈ l, key' x = key x) :
    IsHeap key' l := by
  have hSame : keyAt key' l = keyAt key l := by
    funext i
    by_cases hi : i < l.length
    · rw [keyAt_of_lt hi, keyAt_of_lt hi, hKeys _ (List.getElem_mem hi)]
    · rw [keyAt_of_le (Nat.le_of_not_lt hi), keyAt_of_le (Nat.le_of_not_lt hi)]
  unfold IsHeap
  rwa [hSame]

/-! ## Any implementation -/

variable (α κ) in
/-- The heap algorithms of a standard library, with what the standard says of them. Which of
several elements with the same key comes first is left to the implementation, and so is the
place of every element but the front one: what is proved with these assumptions alone holds for
each library. -/
structure HeapAlgorithms where
  pushHeap : (α → κ) → List α → List α
  popHeap : (α → κ) → List α → List α
  makeHeap : (α → κ) → List α → List α
  pushHeap_perm : ∀ {key : α → κ} (l : List α), (pushHeap key l).Perm l
  isHeap_pushHeap : ∀ {key : α → κ} {l : List α} {x : α},
    IsHeap key l → IsHeap key (pushHeap key (l ++ [x]))
  popHeap_spec : ∀ {key : α → κ} {x : α} {rest : List α}, IsHeap key (x :: rest) →
    ∃ others, popHeap key (x :: rest) = others ++ [x] ∧ others.Perm rest ∧ IsHeap key others
  makeHeap_perm : ∀ {key : α → κ} (l : List α), (makeHeap key l).Perm l
  isHeap_makeHeap : ∀ {key : α → κ} (l : List α), IsHeap key (makeHeap key l)

/-- The algorithms of this module are one implementation, with which runs can be evaluated. -/
def binaryHeap : HeapAlgorithms α κ where
  pushHeap key := BinaryHeap.pushHeap key
  popHeap key := BinaryHeap.popHeap key
  makeHeap key := BinaryHeap.makeHeap key
  pushHeap_perm := BinaryHeap.pushHeap_perm
  isHeap_pushHeap := BinaryHeap.isHeap_pushHeap
  popHeap_spec := BinaryHeap.popHeap_spec
  makeHeap_perm := BinaryHeap.makeHeap_perm
  isHeap_makeHeap l := BinaryHeap.isHeap_makeHeap l

end Heap

end ReactorNet.Lib
