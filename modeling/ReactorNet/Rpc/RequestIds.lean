import ReactorNet.Rpc.Client

/-!
# ReactorNet — the search for a request id

`allocateRequestId` counts up until it meets an id that is not zero, not in flight and
not remembered. The loop has no bound of its own, and the counter wraps around, so that
after `2 ^ 32` passes it would be looking at the same ids again. It never gets there: a
pass that goes on has met one of the ids in use, and no two passes meet the same one.

Main result: `allocateRequestId_fresh`.
-/

namespace ReactorNet.Rpc

open Lib

/-- Of the first elements of a sequence without repetitions, one more than a list holds,
one is not in the list. -/
theorem exists_notMem_of_injOn {α : Type*} [DecidableEq α] {f : Nat → α} {used : List α}
    (hInj : Set.InjOn f (Finset.range (used.length + 1))) : ∃ i ≤ used.length, f i ∉ used := by
  have hCard : used.toFinset.card < ((Finset.range (used.length + 1)).image f).card := by
    rw [Finset.card_image_of_injOn hInj, Finset.card_range]
    exact Nat.lt_succ_of_le (List.toFinset_card_le used)
  obtain ⟨a, hMem, hNot⟩ := Finset.exists_mem_notMem_of_card_lt_card hCard
  obtain ⟨i, hi, rfl⟩ := Finset.mem_image.mp hMem
  exact ⟨i, Nat.le_of_lt_succ (Finset.mem_range.mp hi), fun h => hNot (List.mem_toFinset.mpr h)⟩

/-- The counter takes `2 ^ 32` different values before one comes again. -/
theorem counter_inj {counter : UInt32} {i j : Nat} (hi : i < 2 ^ 32) (hj : j < 2 ^ 32)
    (h : counter + UInt32.ofNat i = counter + UInt32.ofNat j) : i = j := by
  have hNat := congrArg UInt32.toNat ((UInt32.add_right_inj counter).mp h)
  rw [UInt32.toNat_ofNat', UInt32.toNat_ofNat'] at hNat
  omega

namespace Client

/-- The ids that a search passes over. -/
def usedIds (pendings : List (UInt32 × PendingCall)) (timedOutIdSet : List UInt32) :
    List UInt32 :=
  0 :: (pendings.map Prod.fst ++ timedOutIdSet)

theorem length_usedIds (m : List (UInt32 × PendingCall)) (remembered : List UInt32) :
    (usedIds m remembered).length = m.length + remembered.length + 1 := by
  simp [usedIds]

variable {m : List (UInt32 × PendingCall)} {remembered : List UInt32}

theorem notMem_usedIds_iff {id : UInt32} :
    id ∉ usedIds m remembered ↔
      id ≠ 0 ∧ Pendings.find m id = none ∧ remembered.contains id = false := by
  rw [usedIds, List.mem_cons, List.mem_append, Pendings.find_eq_none_iff]
  simp only [not_or, List.contains_eq_mem, decide_eq_false_iff_not, ne_eq]

/-- The search takes the first id that is free, after one pass for each id before it. -/
theorem allocateFrom_first {counter : UInt32} {k : Nat}
    (hUsed : ∀ i < k, counter + UInt32.ofNat i ∈ usedIds m remembered)
    (hFree : counter + UInt32.ofNat k ∉ usedIds m remembered) (more : Nat) :
    allocateFrom m remembered (k + 1 + more) counter =
      some (counter + UInt32.ofNat k, counter + UInt32.ofNat (k + 1)) := by
  -- on the passes still to come, with the counter moving up
  induction k generalizing counter with
  | zero =>
    rw [show counter + UInt32.ofNat 0 = counter from UInt32.add_zero counter] at hFree ⊢
    rw [Nat.zero_add, Nat.add_comm 1, allocateFrom, if_pos (notMem_usedIds_iff.mp hFree)]
    rfl
  | succ k ih =>
    have hNext : ∀ i, counter + 1 + UInt32.ofNat i = counter + UInt32.ofNat (i + 1) := by
      intro i
      rw [UInt32.ofNat_add, UInt32.add_assoc, UInt32.add_comm 1]
      rfl
    have hFirst : counter ∈ usedIds m remembered := by
      have h := hUsed 0 (Nat.zero_lt_succ k)
      rwa [show counter + UInt32.ofNat 0 = counter from UInt32.add_zero counter] at h
    rw [show k + 1 + 1 + more = k + 1 + more + 1 by omega, allocateFrom,
      if_neg fun h => notMem_usedIds_iff.mpr h hFirst, ← hNext k, ← hNext (k + 1)]
    refine ih (fun i hi => ?_) ?_
    · rw [hNext]
      exact hUsed (i + 1) (by omega)
    · rw [hNext]
      exact hFree

/-- **A request id is always found, and soon.** Wherever the counter stands, if the pending
and the remembered ids do not fill the id space, the loop ends after at most two increments
more than there are of them, and the id it returns is not zero, not pending and not
remembered. -/
theorem allocateRequestId_fresh (c : Client)
    (hRoom : c.pendings.length + c.timedOutIdSet.length < 2 ^ 32 - 1) :
    ∃ increments id, increments ≤ c.pendings.length + c.timedOutIdSet.length + 2 ∧
      allocateFrom c.pendings c.timedOutIdSet increments c.nextRequestId =
        some (id, c.nextRequestId + UInt32.ofNat increments) ∧
      c.allocateRequestId = some (id, c.nextRequestId + UInt32.ofNat increments) ∧
      id ≠ 0 ∧ Pendings.find c.pendings id = none ∧ c.wasTimedOut id = false := by
  have hLength := length_usedIds c.pendings c.timedOutIdSet
  -- one of the first ids is free, as there are more of them than are in use
  obtain ⟨n, hn, hFree⟩ : ∃ n ≤ (usedIds c.pendings c.timedOutIdSet).length,
      c.nextRequestId + UInt32.ofNat n ∉ usedIds c.pendings c.timedOutIdSet := by
    refine exists_notMem_of_injOn fun i hi j hj h => ?_
    have hi' : i < _ := Finset.mem_range.mp hi
    have hj' : j < _ := Finset.mem_range.mp hj
    exact counter_inj (by omega) (by omega) h
  -- and the search stops at the first of these
  have hExists : ∃ n, c.nextRequestId + UInt32.ofNat n ∉ usedIds c.pendings c.timedOutIdSet :=
    ⟨n, hFree⟩
  have hFirst : Nat.find hExists ≤ n := Nat.find_min' hExists hFree
  have hUsed : ∀ i < Nat.find hExists,
      c.nextRequestId + UInt32.ofNat i ∈ usedIds c.pendings c.timedOutIdSet :=
    fun i hi => not_not.mp (Nat.find_min hExists hi)
  have hFound := allocateFrom_first hUsed (Nat.find_spec hExists)
  refine ⟨Nat.find hExists + 1, _, by omega, hFound 0, ?_,
    notMem_usedIds_iff.mp (Nat.find_spec hExists)⟩
  have hFuel := hFound (2 ^ 32 - (Nat.find hExists + 1))
  rwa [Nat.add_sub_cancel' (by omega)] at hFuel

/-- A client whose counter is about to wrap around: the last id is pending and the first one
is remembered. -/
def wrappingClient : Client where
  pendings := [(0xFFFFFFFF, ⟨0xFFFFFFFF, 0, none⟩)]
  timedOutIds := [1]
  timedOutIdSet := [1]
  nextRequestId := 0xFFFFFFFF

/-- The last id, zero and one are passed over, and two is taken. -/
theorem allocateRequestId_fresh_wrapping :
    allocateFrom wrappingClient.pendings wrappingClient.timedOutIdSet 4 0xFFFFFFFF =
        some (2, 3) ∧
      ∃ increments id, increments ≤ 4 ∧
        wrappingClient.allocateRequestId = some (id, 0xFFFFFFFF + UInt32.ofNat increments) ∧
        id ≠ 0 ∧ Pendings.find wrappingClient.pendings id = none := by
  refine ⟨by decide, ?_⟩
  obtain ⟨increments, id, hLe, -, hId, hZero, hFind, -⟩ :=
    allocateRequestId_fresh wrappingClient (by decide)
  exact ⟨increments, id, hLe, hId, hZero, hFind⟩

end Client

end ReactorNet.Rpc
