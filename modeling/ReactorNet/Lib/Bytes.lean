import Mathlib.Tactic

/-!
# ReactorNet — vectors of bytes

The operations on a `std::vector` that index arithmetic is done over: a slice of
it, an overwrite of a range (`std::copy` into it), a change of length (`resize`)
and a copy from one range of it to another. Their lemmas say what a slice sees of
the others. Behind them stand reads that are checked against the end of the vector, and a
memory that keeps only the most recent elements.
-/

namespace ReactorNet

/-- A byte string (`std::string`, `std::string_view`, `std::vector<char>`). -/
abbrev Bytes := List UInt8

namespace Lib

universe u

variable {α : Type u}

/-- The `n` elements from index `i` on. -/
def slice (v : List α) (i n : Nat) : List α :=
  (v.drop i).take n

/-- `std::copy` of `src` to index `i`. A copy makes no vector longer: what would be written
behind the end of it is lost, so that a copy out of range cannot look like one for which there
was room. -/
def overwrite (v : List α) (i : Nat) (src : List α) : List α :=
  v.take i ++ src.take (v.length - i) ++ v.drop (i + src.length)

/-- `std::vector::resize`: cut off at `n`, or fill up to `n` with `a`. -/
def resize (v : List α) (n : Nat) (a : α) : List α :=
  v.take n ++ List.replicate (n - v.length) a

/-- `std::copy` of `n` elements from index `src` to index `dst` of one vector: one
after the other, from the first on, each read from the vector as it is by then. -/
def copyWithin (v : List α) (src dst : Nat) : Nat → List α
  | 0 => v
  | n + 1 =>
    match v[src]? with
    | none => v
    | some a => copyWithin (v.set dst a) (src + 1) (dst + 1) n

@[simp] theorem length_resize (v : List α) (n : Nat) (a : α) : (resize v n a).length = n := by
  simp only [resize, List.length_append, List.length_take, List.length_replicate]
  omega

variable {src v : List α} {i n : Nat} {a : α}

theorem length_slice (h : i + n ≤ v.length) : (slice v i n).length = n := by
  simp only [slice, List.length_take, List.length_drop]
  omega

theorem slice_append_drop (v : List α) (i n : Nat) :
    slice v i n ++ v.drop (i + (slice v i n).length) = v.drop i := by
  rw [slice, ← List.drop_drop]
  conv_rhs => rw [← List.take_append_drop n (v.drop i)]
  congr 1
  -- past the end of the vector both sides drop everything
  rw [List.length_take, List.drop_eq_drop_iff]
  omega

/-- The first element of a slice, and the others. -/
theorem slice_succ (h : i < v.length) (n : Nat) :
    slice v i (n + 1) = v[i] :: slice v (i + 1) n := by
  rw [slice, slice, List.drop_eq_getElem_cons h, List.take_succ_cons]

theorem add_length_slice_le (hi : i ≤ v.length) (n : Nat) :
    i + (slice v i n).length ≤ v.length := by
  rw [slice, List.length_take, List.length_drop]
  omega

/-- What is in front of a slice, and the slice. -/
theorem take_add_slice (v : List α) (i n : Nat) :
    v.take (i + (slice v i n).length) = v.take i ++ slice v i n := by
  rw [List.take_add, slice, List.append_cancel_left_eq, List.length_take, List.take_eq_take_iff]
  omega

/-- What was cut out of a vector is still there when the vector has grown. -/
theorem slice_append_left (v t : List α) (i n : Nat) :
    slice (v ++ t) i (slice v i n).length = slice v i n := by
  rw [slice, slice, List.drop_append, List.take_append_of_le_length]
  · rw [List.length_take, List.take_eq_take_iff]
    omega
  · rw [List.length_take]
    exact Nat.min_le_right ..

/-- An element stays where it is when the vector grows. -/
theorem getElem?_mono {w : List α} (h : v <+: w) (ha : v[i]? = some a) : w[i]? = some a := by
  obtain ⟨t, rfl⟩ := h
  rw [List.getElem?_append_left (List.getElem?_eq_some_iff.mp ha).1, ha]

/-- A text is determined by its parts before and after the first separator. -/
theorem append_cons_inj_left {x x' z z' : List α} (hx : a ∉ x) (hx' : a ∉ x')
    (h : x ++ a :: z = x' ++ a :: z') : x = x' ∧ z = z' := by
  induction x generalizing x' with
  | nil =>
    cases x' with
    | nil => exact ⟨rfl, (List.cons.inj h).2⟩
    | cons b x' => exact absurd ((List.cons.inj h).1 ▸ List.mem_cons_self ..) hx'
  | cons b x ih =>
    cases x' with
    | nil => exact absurd ((List.cons.inj h).1 ▸ List.mem_cons_self ..) hx
    | cons b' x' =>
      obtain ⟨rfl, hRest⟩ := List.cons.inj h
      obtain ⟨rfl, rfl⟩ := ih (fun hMem => hx (List.mem_cons_of_mem _ hMem))
        (fun hMem => hx' (List.mem_cons_of_mem _ hMem)) hRest
      exact ⟨rfl, rfl⟩

@[simp] theorem length_overwrite (v : List α) (i : Nat) (src : List α) :
    (overwrite v i src).length = v.length := by
  simp only [overwrite, List.length_append, List.length_take, List.length_drop]
  omega

/-- **A copy in range** replaces as many elements as it copies. -/
theorem overwrite_eq (h : i + src.length ≤ v.length) :
    overwrite v i src = v.take i ++ src ++ v.drop (i + src.length) := by
  have hAll : src.take (v.length - i) = src := List.take_of_length_le (by omega)
  rw [overwrite, hAll]

/-- A slice that starts later and ends at the same index. -/
theorem drop_slice (v : List α) (i n m : Nat) :
    (slice v i n).drop m = slice v (i + m) (n - m) := by
  rw [slice, slice, List.drop_take, List.drop_drop]

/-- The part that was written is what was copied there. -/
theorem slice_overwrite_self (h : i + src.length ≤ v.length) :
    slice (overwrite v i src) i src.length = src := by
  -- what stands in front of the copy has length exactly `i`
  have hlen : (v.take i).length = i := by rw [List.length_take]; omega
  rw [slice, overwrite_eq h, List.append_assoc, List.drop_append_of_le_length (by omega),
    List.drop_of_length_le (by omega), List.nil_append, List.take_left]

/-- Writing right after a slice extends it by what was copied. -/
theorem slice_overwrite_append (h : i + n + src.length ≤ v.length) :
    slice (overwrite v (i + n) src) i (n + src.length) = slice v i n ++ src := by
  have hlen : (v.take (i + n)).length = i + n := by rw [List.length_take]; omega
  have hfront : (v.take (i + n)).drop i = slice v i n := by
    rw [slice, List.drop_take, Nat.add_sub_cancel_left]
  -- the slice and the copy together fill the longer slice
  have hn : (slice v i n).length = n := length_slice (by omega)
  rw [slice, overwrite_eq h, List.append_assoc, List.drop_append_of_le_length (by omega), hfront,
    ← List.append_assoc, List.take_append_of_le_length (by rw [List.length_append]; omega),
    List.take_of_length_le (by rw [List.length_append]; omega)]

/-- A slice within the old length does not see a growth. -/
theorem slice_resize {m : Nat} (h : i + n ≤ v.length) (hm : v.length ≤ m) :
    slice (resize v m a) i n = slice v i n := by
  rw [slice, slice, resize, List.take_of_length_le hm,
    List.drop_append_of_le_length (by omega),
    List.take_append_of_le_length (by rw [List.length_drop]; omega)]

/-- A write in front of a slice is not seen by it. -/
theorem slice_set {j : Nat} (h : j < i) : slice (v.set j a) i n = slice v i n := by
  rw [slice, slice, List.drop_set, if_pos h]

/-- Writing one element and then the others behind it is writing all of them. -/
theorem overwrite_set (h : i + 1 + src.length ≤ v.length) :
    overwrite (v.set i a) (i + 1) src = overwrite v i (a :: src) := by
  have hFront : (v.set i a).take (i + 1) = v.take i ++ [a] := by
    rw [List.set_eq_take_append_cons_drop, if_pos (by omega), List.take_append,
      List.take_of_length_le (by rw [List.length_take]; omega)]
    have hOne : i + 1 - (v.take i).length = 1 := by rw [List.length_take]; omega
    rw [hOne, List.take_succ_cons, List.take_zero]
  have hBack : (v.set i a).drop (i + 1 + src.length) = v.drop (i + (a :: src).length) := by
    rw [List.drop_set, if_pos (by omega), List.length_cons]
    congr 1
    omega
  rw [overwrite_eq (by rw [List.length_set]; exact h),
    overwrite_eq (by rw [List.length_cons]; omega), hFront, hBack, List.append_assoc,
    List.append_assoc, List.append_assoc, List.singleton_append, List.cons_append]

/-- Elements that are written one by one, from an index on. -/
theorem foldl_set_zipIdx (h : i + src.length ≤ v.length) :
    (src.zipIdx i).foldl (fun v e => v.set e.2 e.1) v = overwrite v i src := by
  induction src generalizing v i with
  | nil => simp [overwrite]
  | cons a src ih =>
    rw [List.length_cons] at h
    rw [List.zipIdx_cons, List.foldl_cons, ih (by rw [List.length_set]; omega),
      overwrite_set (by omega)]

/-- **A copy to the front may overlap**: what it still has to read it has not yet
written over. -/
theorem copyWithin_eq_overwrite {src dst : Nat} (hDown : dst ≤ src) (h : src + n ≤ v.length) :
    copyWithin v src dst n = overwrite v dst (slice v src n) := by
  induction n generalizing v src dst with
  | zero => simp [copyWithin, overwrite, slice]
  | succ n ih =>
    have hSrc : src < v.length := by omega
    have hGet : v[src]? = some v[src] := List.getElem?_eq_getElem hSrc
    simp only [copyWithin, hGet]
    -- the element that was written stands in front of the rest of the source
    rw [ih (by omega) (by rw [List.length_set]; omega), slice_set (by omega),
      overwrite_set (by rw [length_slice (by omega)]; omega), slice_succ hSrc]

/-! ## Checked reads

A read past the end is a fault. A function written over these reads that never faults is one
that stays inside its input. -/

section Checked

variable {s : List α} {i n : Nat}

/-- A read past the end. -/
inductive Fault where
  | outOfBounds
  deriving DecidableEq, Repr

/-- `s[i]` -/
def readAt (s : List α) (i : Nat) : Except Fault α :=
  if h : i < s.length then .ok s[i] else .error .outOfBounds

/-- The `n` elements that `s.data() + i` points at. -/
def readRange (s : List α) (i n : Nat) : Except Fault (List α) :=
  if i + n ≤ s.length then .ok (slice s i n) else .error .outOfBounds

theorem readAt_of_lt (h : i < s.length) : readAt s i = .ok s[i] := dif_pos h

theorem readRange_of_le (h : i + n ≤ s.length) : readRange s i n = .ok (slice s i n) := if_pos h

end Checked

/-! ## The most recent elements

A memory that keeps at most `cap` elements and forgets the oldest one to make room is, whatever
its history, the last `cap` elements of it. -/

section Recent

variable {l : List α} {cap i : Nat} {a : α}

/-- The last `cap` elements. -/
def recent (cap : Nat) (l : List α) : List α := l.drop (l.length - cap)

@[simp] theorem recent_nil (cap : Nat) : recent cap ([] : List α) = [] := List.drop_nil

theorem length_recent (cap : Nat) (l : List α) : (recent cap l).length = min cap l.length := by
  rw [recent, List.length_drop]
  omega

theorem recent_concat_of_lt (h : l.length < cap) (a : α) :
    recent cap (l ++ [a]) = recent cap l ++ [a] := by
  rw [recent, recent, List.length_append, List.length_singleton,
    Nat.sub_eq_zero_of_le (by omega), Nat.sub_eq_zero_of_le (by omega), List.drop_zero,
    List.drop_zero]

theorem recent_concat_of_le (hCap : 0 < cap) (h : cap ≤ l.length) (a : α) :
    recent cap (l ++ [a]) = (recent cap l).tail ++ [a] := by
  have hIndex : l.length + 1 - cap = l.length - cap + 1 := by omega
  rw [recent, recent, List.length_append, List.length_singleton, hIndex, List.tail_drop,
    List.drop_append_of_le_length (by omega)]

/-- An element is still there if it is one of the last `cap`. -/
theorem mem_recent_iff (hNodup : l.Nodup) (hGet : l[i]? = some a) :
    a ∈ recent cap l ↔ l.length - i ≤ cap := by
  have hi : i < l.length := (List.getElem?_eq_some_iff.mp hGet).1
  constructor
  · intro hMem
    obtain ⟨j, hj⟩ := List.mem_iff_getElem?.mp hMem
    rw [recent, List.getElem?_drop, ← hGet] at hj
    have hSame : l.length - cap + j = i :=
      (List.getElem?_inj (by rw [hGet] at hj; exact (List.getElem?_eq_some_iff.mp hj).1)
        hNodup).mp hj
    omega
  · intro hLe
    refine List.mem_iff_getElem?.mpr ⟨i - (l.length - cap), ?_⟩
    rw [recent, List.getElem?_drop, Nat.add_sub_cancel' (by omega), hGet]

end Recent

end Lib

end ReactorNet
