import ReactorNet.Net.TimerQueue

/-!
# ReactorNet — who owns a timer

A timer that was created and not deleted has one owner: the functor that will insert it,
the heap, or the expired batch. `Owns` says that, together with the agreement of the heap
with the set of active handles. It has a place for timers in limbo, which a function has
taken from one owner and not yet given to the next: an insert and a delete both take one
timer out of limbo.

* `Ledger` is about the timers themselves: distinct sequence numbers, and nothing in the
  log about a timer after its deletion.
* `Batched` is about the batch: what is marked for cancellation is in it.

Main result: `timers_owned`.
-/

namespace ReactorNet

open Lib

/-- The timers that the batch owns: all of them while the callbacks run, and in `reset`
those that are still to be reset. -/
def TimerControl.batch : TimerControl → List Addr
  | .idle => []
  | .calling _ expired _ => expired
  | .resetting rest _ _ => rest

namespace TimerQueue

variable {q q' : TimerQueue} {p : Addr} {n : Nat} {limbo limbo' : List Addr}

/-- The timers that wait for their insert. -/
def inserting (q : TimerQueue) : List Addr :=
  q.functors.filterMap fun
    | .insert p => some p
    | .cancelInLoop _ _ => none

def owned (q : TimerQueue) : List Addr := q.inserting ++ q.timers ++ q.control.batch

/-! ## Small facts about the operations -/

@[simp] theorem owned_create (q : TimerQueue) (p : Addr) (when : Timestamp) (interval : Int64)
    (repeats : Bool) : (q.create p when interval repeats).owned = q.owned := rfl

@[simp] theorem owned_delete (q : TimerQueue) (p : Addr) : (q.delete p).owned = q.owned := rfl

theorem sequence_congr (h : q'.memory = q.memory) : q'.sequence = q.sequence := by
  unfold sequence
  rw [h]

theorem key_congr (h : q'.memory = q.memory) : q'.key = q.key := by
  unfold key expiration
  rw [h]

theorem timerId_of_sequence (h : q.sequence p = some n) : q.timerId p = ⟨p, n⟩ := by
  simp [timerId, h]

variable {id : TimerId} {e : TimerEvent} {rest : List Addr} {now : Timestamp}

theorem timerId_unique {id' : TimerId} (hTimer : id.timer = id'.timer)
    (h : q.sequence id.timer = some id.sequence) (h' : q.sequence id'.timer = some id'.sequence) :
    id = id' := by
  obtain ⟨timer, sequence⟩ := id
  obtain ⟨timer', sequence'⟩ := id'
  obtain rfl : timer = timer' := hTimer
  obtain rfl : sequence = sequence' := Option.some.inj (h.symm.trans h')
  rfl

theorem sequence_create (q : TimerQueue) (p p' : Addr) (when : Timestamp) (interval : Int64)
    (repeats : Bool) : (q.create p when interval repeats).sequence p' =
      if p' = p then some (q.numCreated + 1) else q.sequence p' := by
  simp only [sequence, create, Function.update_apply]
  split_ifs <;> rfl

theorem sequence_delete (q : TimerQueue) (p p' : Addr) :
    (q.delete p).sequence p' = if p' = p then none else q.sequence p' := by
  simp only [sequence, delete, Function.update_apply]
  split_ifs <;> rfl

theorem insert_eq (q : TimerQueue) (p : Addr) : ∃ timerfd lastArmed, q.insert p =
    { q with
      timers := q.heap.pushHeap q.key (q.timers ++ [p])
      activeTimers := Insert.insert (q.timerId p) q.activeTimers
      log := q.log ++ [.inserted (q.sequence p)]
      timerfd := timerfd
      lastArmed := lastArmed } := by
  unfold insert
  split_ifs
  · exact ⟨_, _, rfl⟩
  · exact ⟨_, _, rfl⟩

theorem pushHeap_perm_cons (q : TimerQueue) (p : Addr) :
    (q.heap.pushHeap q.key (q.timers ++ [p])).Perm (p :: q.timers) :=
  (q.heap.pushHeap_perm _).trans (List.perm_append_singleton p q.timers)

/-! ## The ledger of the timers -/

structure Ledger (q : TimerQueue) : Prop where
  fresh : ∀ p n, q.sequence p = some n → n ≤ q.numCreated
  distinct : ∀ p p' n, q.sequence p = some n → q.sequence p' = some n → p = p'
  buried : ∀ n, .deleted (some n) ∈ q.log → n ≤ q.numCreated ∧ ∀ p, q.sequence p ≠ some n
  sound : ∀ e ∈ q.log, e.sequence ≠ none
  quiet : q.log.Pairwise fun a b => ∀ n, a = .deleted (some n) → b.sequence ≠ some n

theorem Ledger.congr (h : Ledger q) (hSequence : q'.sequence = q.sequence)
    (hCreated : q'.numCreated = q.numCreated) (hLog : q'.log = q.log) : Ledger q' where
  fresh := by rw [hSequence, hCreated]; exact h.fresh
  distinct := by rw [hSequence]; exact h.distinct
  buried := by rw [hSequence, hCreated, hLog]; exact h.buried
  sound := by rw [hLog]; exact h.sound
  quiet := by rw [hLog]; exact h.quiet

/-- What is logged about a live timer stands behind no deletion of it. -/
theorem Ledger.quiet_concat (h : Ledger q) (hLive : q.sequence p = some n)
    (hE : e.sequence = some n) : (q.log ++ [e]).Pairwise fun a b =>
      ∀ n, a = .deleted (some n) → b.sequence ≠ some n := by
  refine List.pairwise_append.mpr ⟨h.quiet, List.pairwise_singleton .., fun a ha b hb m hDeleted => ?_⟩
  obtain rfl := List.mem_singleton.mp hb
  intro hm
  exact (h.buried m (hDeleted ▸ ha)).2 p (hLive.trans (hE.symm.trans hm))

theorem Ledger.sound_concat (h : Ledger q) (hE : e.sequence = some n) :
    ∀ e' ∈ q.log ++ [e], e'.sequence ≠ none := by
  intro e' he'
  rcases List.mem_append.mp he' with he' | he'
  · exact h.sound e' he'
  · obtain rfl := List.mem_singleton.mp he'
    simp [hE]

theorem Ledger.touch (h : Ledger q) (hLive : q.sequence p = some n)
    (hE : e = .ran (some n) ∨ e = .inserted (some n)) : Ledger (q.record e) := by
  have hSequence : e.sequence = some n := by rcases hE with rfl | rfl <;> rfl
  exact
    { fresh := h.fresh
      distinct := h.distinct
      buried := fun m hm => h.buried m (by
        rcases List.mem_append.mp hm with hm | hm
        · exact hm
        · rcases hE with rfl | rfl <;> simp at hm)
      sound := h.sound_concat hSequence
      quiet := h.quiet_concat hLive hSequence }

theorem Ledger.create (h : Ledger q) (p : Addr) (when : Timestamp)
    (interval : Int64) (repeats : Bool) : Ledger (q.create p when interval repeats) where
  fresh p' n hn := by
    rw [sequence_create] at hn
    split_ifs at hn with hp
    · exact Nat.le_of_eq (Option.some.inj hn).symm
    · exact (h.fresh p' n hn).trans (Nat.le_succ _)
  distinct p₁ p₂ n h₁ h₂ := by
    rw [sequence_create] at h₁ h₂
    split_ifs at h₁ h₂ with hp₁ hp₂ hp₂
    · exact hp₁.trans hp₂.symm
    · exact absurd (h.fresh p₂ n h₂) (by have := Option.some.inj h₁; omega)
    · exact absurd (h.fresh p₁ n h₁) (by have := Option.some.inj h₂; omega)
    · exact h.distinct p₁ p₂ n h₁ h₂
  buried n hn := by
    obtain ⟨hLe, hNot⟩ := h.buried n hn
    refine ⟨hLe.trans (Nat.le_succ _), fun p' hp' => ?_⟩
    rw [sequence_create] at hp'
    split_ifs at hp' with hp
    · exact absurd hLe (by have := Option.some.inj hp'; omega)
    · exact hNot p' hp'
  sound := h.sound
  quiet := h.quiet

theorem Ledger.delete (h : Ledger q) (hLive : q.sequence p = some n) : Ledger (q.delete p) := by
  have hLog : (q.delete p).log = q.log ++ [.deleted (some n)] := by rw [← hLive]; rfl
  have hOld : ∀ {p' m}, (q.delete p).sequence p' = some m → p' ≠ p ∧ q.sequence p' = some m := by
    intro p' m hm
    rw [sequence_delete] at hm
    split_ifs at hm with hp
    exact ⟨hp, hm⟩
  refine
    { fresh := fun p' m hm => h.fresh p' m (hOld hm).2
      distinct := fun p₁ p₂ m h₁ h₂ => h.distinct p₁ p₂ m (hOld h₁).2 (hOld h₂).2
      buried := fun m hm => ?_
      sound := hLog ▸ h.sound_concat rfl
      quiet := hLog ▸ h.quiet_concat hLive rfl }
  rw [hLog] at hm
  rcases List.mem_append.mp hm with hm | hm
  · exact ⟨(h.buried m hm).1, fun p' hp' => (h.buried m hm).2 p' (hOld hp').2⟩
  · -- no other timer has the number of the one that is deleted
    obtain rfl : m = n := by simpa using hm
    exact ⟨h.fresh p m hLive, fun p' hp' =>
      (hOld hp').1 (h.distinct p' p m (hOld hp').2 hLive)⟩

/-! ## The owners -/

theorem perm_cons_of_middle {before middle middle' after : List Addr}
    (h : middle'.Perm (p :: middle)) :
    (before ++ middle' ++ after).Perm (p :: (before ++ middle ++ after)) := by
  have hMiddle : (before ++ middle').Perm (p :: (before ++ middle)) :=
    (h.append_left before).trans List.perm_middle
  exact hMiddle.append_right after

/-- Every live timer has one owner, or is in limbo; the active handles are those of the
timers in the heap, and the heap is in order. -/
structure Owns (q : TimerQueue) (limbo : List Addr) : Prop where
  nodup : (limbo ++ q.owned).Nodup
  live : ∀ p, p ∈ limbo ++ q.owned ↔ (q.sequence p).isSome = true
  active : ∀ id, id ∈ q.activeTimers ↔
    id.timer ∈ q.timers ∧ q.sequence id.timer = some id.sequence
  heap : IsHeap q.key q.timers

theorem Owns.moved (h : Owns q limbo) (hMemory : q'.memory = q.memory)
    (hPerm : (limbo' ++ q'.owned).Perm (limbo ++ q.owned))
    (hActive : ∀ id, id ∈ q'.activeTimers ↔
      id.timer ∈ q'.timers ∧ q.sequence id.timer = some id.sequence)
    (hHeap : IsHeap q.key q'.timers) : Owns q' limbo' where
  nodup := hPerm.nodup_iff.mpr h.nodup
  live p := by
    rw [hPerm.mem_iff, sequence_congr hMemory]
    exact h.live p
  active := by
    rw [sequence_congr hMemory]
    exact hActive
  heap := by
    rw [key_congr hMemory]
    exact hHeap

/-- Timers change hands, and the heap is not involved. -/
theorem Owns.handed (h : Owns q limbo) (hMemory : q'.memory = q.memory)
    (hPerm : (limbo' ++ q'.owned).Perm (limbo ++ q.owned))
    (hActive : q'.activeTimers = q.activeTimers) (hTimers : q'.timers = q.timers) :
    Owns q' limbo' :=
  h.moved hMemory hPerm (by rw [hActive, hTimers]; exact h.active) (by rw [hTimers]; exact h.heap)

theorem Owns.batched (h : Owns q limbo) (hMemory : q'.memory = q.memory)
    (hFunctors : q'.functors = q.functors) (hActive : q'.activeTimers = q.activeTimers)
    (hTimers : q'.timers = q.timers)
    (hPerm : (limbo' ++ q'.control.batch).Perm (limbo ++ q.control.batch)) : Owns q' limbo' := by
  have hBefore : q'.inserting ++ q'.timers = q.inserting ++ q.timers := by
    rw [inserting, inserting, hFunctors, hTimers]
  refine h.handed hMemory ?_ hActive hTimers
  rw [owned, owned, hBefore]
  exact (List.perm_append_comm_assoc ..).trans
    ((hPerm.append_left _).trans (List.perm_append_comm_assoc ..))

theorem Owns.sequence_of_mem (h : Owns q limbo) (hp : p ∈ limbo ++ q.owned) :
    ∃ n, q.sequence p = some n :=
  Option.isSome_iff_exists.mp ((h.live p).mp hp)

theorem Owns.not_mem_owned (h : Owns q (p :: limbo)) : p ∉ q.owned := fun hMem =>
  (List.nodup_cons.mp h.nodup).1 (List.mem_append_right limbo hMem)

theorem Owns.not_mem_timers (h : Owns q (p :: limbo)) : p ∉ q.timers := fun hMem =>
  h.not_mem_owned (by simp [owned, hMem])

theorem Owns.not_mem_batch (h : Owns q (p :: limbo)) : p ∉ q.control.batch := fun hMem =>
  h.not_mem_owned (by simp [owned, hMem])

theorem Owns.create (h : Owns q []) (hFree : q.memory p = none) (when : Timestamp)
    (interval : Int64) (repeats : Bool) : Owns (q.create p when interval repeats) [p] := by
  have hDead : p ∉ q.owned := fun hp => by
    have := (h.live p).mp hp
    simp [sequence, hFree] at this
  have hTimers : p ∉ q.timers := fun hp => hDead (by simp [owned, hp])
  refine
    { nodup := List.nodup_cons.mpr ⟨hDead, h.nodup⟩
      live := fun p' => ?_
      active := fun id => ?_
      heap := h.heap.congr fun p' hp' => ?_ }
  · have hOld := h.live p'
    rw [List.nil_append] at hOld
    rw [sequence_create]
    split_ifs with hp
    · simp [hp]
    · simpa [hp] using hOld
  · rw [sequence_create]
    split_ifs with hp
    · -- the new timer is not in the heap yet
      refine ⟨fun hMem => absurd ((h.active id).mp hMem).1 (hp ▸ hTimers), fun hMem => ?_⟩
      exact absurd hMem.1 (hp ▸ hTimers)
    · exact h.active id
  · have hne : p' ≠ p := fun hp => hTimers (hp ▸ hp')
    simp [key, expiration, TimerQueue.create, hne]

theorem Owns.insert (h : Owns q [p]) : Owns (q.insert p) [] := by
  obtain ⟨timerfd, lastArmed, hEq⟩ := insert_eq q p
  obtain ⟨n, hn⟩ := h.sequence_of_mem (p := p) (by simp)
  have hPerm := pushHeap_perm_cons q p
  rw [hEq]
  refine h.moved rfl ?_ (fun id => ?_) (q.heap.isHeap_pushHeap h.heap)
  · show (q.inserting ++ q.heap.pushHeap q.key (q.timers ++ [p]) ++ q.control.batch).Perm (p :: q.owned)
    exact perm_cons_of_middle hPerm
  · rw [Finset.mem_insert, timerId_of_sequence hn, h.active id, hPerm.mem_iff, List.mem_cons]
    constructor
    · rintro (rfl | hMem)
      · exact ⟨.inl rfl, hn⟩
      · exact ⟨.inr hMem.1, hMem.2⟩
    · rintro ⟨hp | hMem, hSequence⟩
      · exact .inl (timerId_unique hp hSequence hn)
      · exact .inr ⟨hMem, hSequence⟩

theorem Owns.delete (h : Owns q [p]) : Owns (q.delete p) [] := by
  have hNot := h.not_mem_owned
  have hTimers := h.not_mem_timers
  refine
    { nodup := (List.nodup_cons.mp h.nodup).2
      live := fun p' => ?_
      active := fun id => ?_
      heap := h.heap.congr fun p' hp' => ?_ }
  · have hOld := h.live p'
    rw [sequence_delete]
    split_ifs with hp
    · simpa [hp] using hNot
    · simpa [hp] using hOld
  · rw [sequence_delete]
    split_ifs with hp
    · refine ⟨fun hMem => absurd ((h.active id).mp hMem).1 (hp ▸ hTimers), fun hMem => ?_⟩
      exact absurd hMem.1 (hp ▸ hTimers)
    · exact h.active id
  · have hne : p' ≠ p := fun hp => hTimers (hp ▸ hp')
    simp [key, expiration, TimerQueue.delete, hne]

theorem sequence_restart {t : Timer} (ht : q.memory p = some t) (now : Timestamp) :
    sequence { q with memory := Function.update q.memory p (some (t.restart now)) } =
      q.sequence := by
  funext p'
  simp only [sequence, Function.update_apply]
  split_ifs with hp
  · subst hp
    simp [ht, Timer.restart]
  · rfl

/-- A restart changes nothing but the time of a timer that is in limbo. -/
theorem Owns.restart (h : Owns q [p]) {t : Timer} (ht : q.memory p = some t) (now : Timestamp) :
    Owns { q with memory := Function.update q.memory p (some (t.restart now)) } [p] := by
  have hTimers := h.not_mem_timers
  have hSequence := sequence_restart ht now
  refine
    { nodup := h.nodup
      live := by rw [hSequence]; exact h.live
      active := by rw [hSequence]; exact h.active
      heap := h.heap.congr fun p' hp' => ?_ }
  have hne : p' ≠ p := fun hp => hTimers (hp ▸ hp')
  simp [key, expiration, hne]

/-! ## The expired batch -/

theorem Owns.pop (h : Owns q limbo) {front : Addr} (hTimers : q.timers = front :: rest) :
    ∃ others, q.heap.popHeap q.key q.timers = others ++ [front] ∧
      Owns { q with
        activeTimers := q.activeTimers.erase (q.timerId front)
        timers := others } (limbo ++ [front]) := by
  obtain ⟨others, hPop, hPerm, hHeap⟩ := q.heap.popHeap_spec (hTimers ▸ h.heap)
  obtain ⟨n, hn⟩ := h.sequence_of_mem (p := front) (by simp [owned, hTimers])
  have hMiddle : q.owned.Perm (front :: (q.inserting ++ others ++ q.control.batch)) :=
    perm_cons_of_middle (hTimers ▸ hPerm.symm.cons front)
  -- the front is in the heap once
  have hNodup : q.owned.Nodup := h.nodup.of_append_right
  have hNot : front ∉ others := fun hMem =>
    (List.nodup_cons.mp (hMiddle.nodup_iff.mp hNodup)).1 (by simp [hMem])
  refine ⟨others, hTimers ▸ hPop, h.moved rfl ?_ (fun id => ?_) hHeap⟩
  · rw [List.append_assoc]
    exact hMiddle.symm.append_left limbo
  · rw [Finset.mem_erase, timerId_of_sequence hn, h.active id, hTimers, List.mem_cons,
      ← hPerm.mem_iff]
    constructor
    · rintro ⟨hne, hp | hMem, hSequence⟩
      · exact absurd (timerId_unique hp hSequence hn) hne
      · exact ⟨hMem, hSequence⟩
    · rintro ⟨hMem, hSequence⟩
      exact ⟨fun hEq => hNot (by rwa [hEq] at hMem), .inr hMem, hSequence⟩

theorem getExpired_eq (fuel : Nat) (q : TimerQueue) (now : Timestamp) :
    ∃ timers activeTimers, (getExpired fuel q now).1 =
      { q with timers := timers, activeTimers := activeTimers } := by
  induction fuel generalizing q with
  | zero => exact ⟨_, _, rfl⟩
  | succ fuel ih =>
    simp only [getExpired]
    split
    · exact ⟨_, _, rfl⟩
    · split_ifs
      · obtain ⟨timers, activeTimers, hEq⟩ := ih { q with
          activeTimers := q.activeTimers.erase (q.timerId _)
          timers := (q.heap.popHeap q.key q.timers).dropLast }
        exact ⟨timers, activeTimers, hEq⟩
      · exact ⟨_, _, rfl⟩

theorem Owns.getExpired (h : Owns q limbo) (fuel : Nat) (now : Timestamp) :
    Owns (TimerQueue.getExpired fuel q now).1
      (limbo ++ (TimerQueue.getExpired fuel q now).2) := by
  induction fuel generalizing q limbo with
  | zero => simpa [TimerQueue.getExpired] using h
  | succ fuel ih =>
    simp only [TimerQueue.getExpired]
    split
    · simpa using h
    · rename_i front rest hTimers
      split_ifs
      · obtain ⟨others, hPop, hOwns⟩ := h.pop hTimers
        have hNext := ih hOwns
        rw [List.append_assoc] at hNext
        simpa [hPop] using hNext
      · simpa using h

/-! ## The marks of the batch -/

/-- The marked handles are those of timers in the batch, and so are the handles that can be
marked. -/
structure Batched (q : TimerQueue) : Prop where
  rest : ∀ rest expired now, q.control = .calling rest expired now → ∀ p ∈ rest, p ∈ expired
  calling : q.callingExpiredTimers = true →
    (∃ rest expired now, q.control = .calling rest expired now) ∧
    ∀ id ∈ q.expiredTimers, id.timer ∈ q.control.batch ∧ q.sequence id.timer = some id.sequence
  canceling : ∀ id ∈ q.cancelingTimers,
    id.timer ∈ q.control.batch ∧ q.sequence id.timer = some id.sequence

theorem Batched.keep (h : Batched q) (hControl : q'.control = q.control)
    (hCalling : q'.callingExpiredTimers = q.callingExpiredTimers)
    (hExpired : q'.expiredTimers = q.expiredTimers)
    (hCanceling : q'.cancelingTimers = q.cancelingTimers)
    (hSequence : ∀ p ∈ q.control.batch, q'.sequence p = q.sequence p) : Batched q' where
  rest := by rw [hControl]; exact h.rest
  calling hFlag := by
    rw [hCalling] at hFlag
    rw [hControl, hExpired]
    refine ⟨(h.calling hFlag).1, fun id hid => ?_⟩
    obtain ⟨hMem, hId⟩ := (h.calling hFlag).2 id hid
    exact ⟨hMem, (hSequence _ hMem).trans hId⟩
  canceling := by
    rw [hControl, hCanceling]
    intro id hid
    obtain ⟨hMem, hId⟩ := h.canceling id hid
    exact ⟨hMem, (hSequence _ hMem).trans hId⟩

/-- **The invariant of the queue.** -/
structure Inv (q : TimerQueue) : Prop where
  owns : Owns q []
  ledger : Ledger q
  batched : Batched q

theorem Inv.sequence_of_mem (h : Inv q) (hp : p ∈ q.owned) : ∃ n, q.sequence p = some n :=
  h.owns.sequence_of_mem (by simpa using hp)

/-- What the queue does with the loop and the clock is not about the timers. -/
theorem Inv.same (h : Inv q) (hMemory : q'.memory = q.memory)
    (hCreated : q'.numCreated = q.numCreated) (hLog : q'.log = q.log)
    (hPerm : q'.owned.Perm q.owned) (hTimers : q'.timers = q.timers)
    (hActive : q'.activeTimers = q.activeTimers) (hControl : q'.control = q.control)
    (hCalling : q'.callingExpiredTimers = q.callingExpiredTimers)
    (hExpired : q'.expiredTimers = q.expiredTimers)
    (hCanceling : q'.cancelingTimers = q.cancelingTimers) : Inv q' where
  owns := h.owns.handed hMemory (by simpa using hPerm) hActive hTimers
  ledger := h.ledger.congr (sequence_congr hMemory) hCreated hLog
  batched := h.batched.keep hControl hCalling hExpired hCanceling fun p _ => by
    rw [sequence_congr hMemory]

/-- A cancel that is taken from the functors of the loop. -/
theorem Inv.take_cancel (h : Inv q) {allowRetry : Bool} {rest : List TimerFunctor}
    (hFunctors : q.functors = .cancelInLoop id allowRetry :: rest) :
    Inv { q with functors := rest } :=
  h.same rfl rfl rfl (by simp [owned, inserting, hFunctors]) rfl rfl rfl rfl rfl rfl

/-- No container has a timer twice, -/
theorem Inv.nodup (h : Inv q) : q.inserting.Nodup ∧ q.timers.Nodup ∧ q.control.batch.Nodup := by
  have hNodup : q.owned.Nodup := h.owns.nodup
  exact ⟨hNodup.of_append_left.of_append_left, hNodup.of_append_left.of_append_right,
    hNodup.of_append_right⟩

/-- and no two containers have a timer in common. -/
theorem Inv.not_mem_timers_of_inserting (h : Inv q) (hp : p ∈ q.inserting) : p ∉ q.timers := by
  have hNodup : q.owned.Nodup := h.owns.nodup
  exact fun hMem => (List.nodup_append.mp hNodup.of_append_left).2.2 p hp p hMem rfl

theorem Inv.not_mem_batch_of_inserting (h : Inv q) (hp : p ∈ q.inserting) :
    p ∉ q.control.batch := by
  have hNodup : q.owned.Nodup := h.owns.nodup
  exact fun hMem => (List.nodup_append.mp hNodup).2.2 p (List.mem_append_left _ hp) p hMem rfl

theorem Inv.not_mem_timers_of_batch (h : Inv q) (hp : p ∈ q.control.batch) : p ∉ q.timers := by
  have hNodup : q.owned.Nodup := h.owns.nodup
  exact fun hMem => (List.nodup_append.mp hNodup).2.2 p (List.mem_append_right _ hMem) p hp rfl

/-! ## Every step -/

theorem Ledger.insert (h : Ledger q) (hLive : q.sequence p = some n) : Ledger (q.insert p) := by
  obtain ⟨timerfd, lastArmed, hEq⟩ := insert_eq q p
  rw [hEq]
  exact (h.touch hLive (.inr rfl)).congr rfl rfl (by simp [record, hLive])

theorem Batched.insert (h : Batched q) (p : Addr) : Batched (q.insert p) := by
  obtain ⟨timerfd, lastArmed, hEq⟩ := insert_eq q p
  rw [hEq]
  exact h.keep rfl rfl rfl rfl fun _ _ => rfl

theorem Inv.create (h : Inv q) (hFree : q.memory p = none) (when : Timestamp) (interval : Int64)
    (repeats : Bool) : Batched (q.create p when interval repeats) := by
  refine h.batched.keep rfl rfl rfl rfl fun p' hp' => ?_
  obtain ⟨n, hn⟩ := h.sequence_of_mem (p := p') (by simp [owned, hp'])
  rw [sequence_create, if_neg]
  rintro rfl
  simp [sequence, hFree] at hn

theorem Inv.added (h : Inv q) (hFree : q.memory p = none) (when : Timestamp) (interval : Int64)
    (repeats : Bool) : Inv ((q.create p when interval repeats).insert p) where
  owns := (h.owns.create hFree when interval repeats).insert
  ledger := (h.ledger.create p when interval repeats).insert
    (by rw [sequence_create, if_pos rfl])
  batched := (h.create hFree when interval repeats).insert p

theorem Inv.posted (h : Inv q) (hFree : q.memory p = none) (when : Timestamp) (interval : Int64)
    (repeats : Bool) :
    Inv ((q.create p when interval repeats).queueInLoop (.insert p)) where
  owns := by
    refine (h.owns.create hFree when interval repeats).handed rfl ?_ rfl rfl
    simp only [owned, inserting, queueInLoop, TimerQueue.create, List.filterMap_append,
      List.append_assoc]
    exact List.perm_middle
  ledger := (h.ledger.create p when interval repeats).congr rfl rfl rfl
  batched := (h.create hFree when interval repeats).keep rfl rfl rfl rfl fun _ _ => rfl

/-- A handle of a timer in the heap: the timer goes into limbo and is deleted. -/
theorem Owns.take (h : Owns q []) (hid : id ∈ q.activeTimers) :
    Owns { q with
      activeTimers := q.activeTimers.erase id
      timers := q.heap.makeHeap q.key (q.timers.erase id.timer) } [id.timer] := by
  obtain ⟨hMem, hSequence⟩ := (h.active id).mp hid
  have hPerm : (q.heap.makeHeap q.key (q.timers.erase id.timer)).Perm (q.timers.erase id.timer) :=
    q.heap.makeHeap_perm _
  have hOwned : q.owned.Perm
      (id.timer :: (q.inserting ++ q.heap.makeHeap q.key (q.timers.erase id.timer) ++ q.control.batch)) :=
    perm_cons_of_middle ((List.perm_cons_erase hMem).trans (hPerm.symm.cons _))
  have hNodup : q.timers.Nodup := by
    have := h.nodup
    simp only [owned, List.nil_append] at this
    exact this.of_append_left.of_append_right
  refine h.moved rfl hOwned.symm (fun id' => ?_) (q.heap.isHeap_makeHeap _)
  rw [Finset.mem_erase, h.active id', hPerm.mem_iff, hNodup.mem_erase_iff]
  constructor
  · rintro ⟨hne, hMem', hSequence'⟩
    exact ⟨⟨fun hTimer => hne (timerId_unique hTimer hSequence' hSequence), hMem'⟩, hSequence'⟩
  · rintro ⟨⟨hne, hMem'⟩, hSequence'⟩
    exact ⟨fun hEq => hne (by rw [hEq]), hMem', hSequence'⟩

theorem Inv.cancelInLoop (h : Inv q) (id : TimerId) (allowRetry : Bool) :
    Inv (q.cancelInLoop id allowRetry) := by
  unfold TimerQueue.cancelInLoop
  split_ifs with hid hTimers hBatch hRetry
  · have hTake := h.owns.take hid
    refine
      { owns := hTake.delete
        ledger := ?_
        batched := h.batched.keep rfl rfl rfl rfl fun p hp => ?_ }
    · have hLedger : Ledger { q with
          activeTimers := q.activeTimers.erase id
          timers := q.heap.makeHeap q.key (q.timers.erase id.timer) } := h.ledger.congr rfl rfl rfl
      exact hLedger.delete ((h.owns.active id).mp hid).2
    · -- a timer of the heap is not in the batch
      rw [sequence_delete, if_neg]
      · rfl
      · rintro rfl
        exact hTake.not_mem_batch hp
  · exact absurd ((h.owns.active id).mp hid).1 hTimers
  · refine
      { owns := h.owns.handed rfl (.refl _) rfl rfl
        ledger := h.ledger.congr rfl rfl rfl
        batched :=
          { rest := h.batched.rest
            calling := h.batched.calling
            canceling := fun id' hid' => ?_ } }
    rcases Finset.mem_insert.mp hid' with rfl | hid'
    · exact (h.batched.calling hBatch.1).2 _ hBatch.2
    · exact h.batched.canceling id' hid'
  · exact h.same rfl rfl rfl (by simp [owned, inserting, queueInLoop]) rfl rfl rfl rfl rfl rfl
  · exact h

theorem Inv.runFunctor (h : Inv q) {f : TimerFunctor} {rest : List TimerFunctor}
    (hFunctors : q.functors = f :: rest) : Inv ({ q with functors := rest }.runFunctor f) := by
  cases f with
  | insert p =>
    have hOwned : q.owned = p :: owned { q with functors := rest } := by
      simp [owned, inserting, hFunctors]
    obtain ⟨n, hn⟩ := h.sequence_of_mem (p := p) (by simp [hOwned])
    have hLimbo : Owns { q with functors := rest } [p] :=
      h.owns.handed rfl (by rw [hOwned]; exact .refl _) rfl rfl
    have hLedger : Ledger { q with functors := rest } := h.ledger.congr rfl rfl rfl
    have hBatched : Batched { q with functors := rest } :=
      h.batched.keep rfl rfl rfl rfl fun _ _ => rfl
    exact
      { owns := hLimbo.insert
        ledger := hLedger.insert hn
        batched := hBatched.insert p }
  | cancelInLoop id allowRetry =>
    exact (h.take_cancel hFunctors).cancelInLoop id allowRetry

theorem readTimerfd_eq (q : TimerQueue) : ∃ timerfd, q.readTimerfd =
    { q with timerfd := timerfd } := by
  unfold readTimerfd
  split
  · split_ifs <;> exact ⟨_, rfl⟩
  · exact ⟨_, rfl⟩

theorem Inv.handleRead (h : Inv q) (hIdle : q.control = .idle) (readAt : Timestamp) :
    Inv (q.handleRead readAt) := by
  obtain ⟨timerfd, hTimerfd⟩ := readTimerfd_eq { q with clock := readAt }
  have hStart : Inv { q with clock := readAt, timerfd := timerfd } :=
    h.same rfl rfl rfl (.refl _) rfl rfl rfl rfl rfl rfl
  obtain ⟨timers, activeTimers, hEq⟩ := getExpired_eq q.timers.length
    { q with clock := readAt, timerfd := timerfd } q.clock
  have hOwns := hStart.owns.getExpired q.timers.length q.clock
  unfold TimerQueue.handleRead
  simp only [hTimerfd]
  -- from here on the batch is an arbitrary list that is owned
  generalize hExpired : (getExpired q.timers.length
    { q with clock := readAt, timerfd := timerfd } q.clock).2 = expired at hOwns
  rw [hEq, List.nil_append] at hOwns
  simp only [hEq]
  refine
    { owns := hOwns.batched rfl rfl rfl rfl (by simp [hIdle, TimerControl.batch])
      ledger := h.ledger.congr rfl rfl rfl
      batched :=
        { rest := fun rest expired' now hControl p hp => ?_
          calling := fun _ => ⟨⟨_, _, _, rfl⟩, fun id hid => ?_⟩
          canceling := fun id hid => ?_ } }
  · obtain ⟨rfl, rfl, -⟩ := TimerControl.calling.inj hControl
    exact hp
  · obtain ⟨p, hp, rfl⟩ := List.mem_map.mp (List.mem_toFinset.mp hid)
    obtain ⟨n, hn⟩ := hOwns.sequence_of_mem (p := p) (List.mem_append_left _ hp)
    refine ⟨hp, ?_⟩
    rw [timerId_of_sequence hn]
    exact hn
  · have := (h.batched.canceling id hid).1
    simp [hIdle, TimerControl.batch] at this

theorem Inv.called (h : Inv q) {expired : List Addr}
    (hControl : q.control = .calling (p :: rest) expired now) :
    Inv ({ q with control := .calling rest expired now }.record (.ran (q.sequence p))) := by
  have hRest := h.batched.rest _ _ _ hControl
  obtain ⟨n, hn⟩ := h.sequence_of_mem (p := p)
    (by simp [owned, hControl, TimerControl.batch, hRest p (List.mem_cons_self ..)])
  have hBatch : q.control.batch = expired := by rw [hControl]; rfl
  refine
    { owns := h.owns.batched rfl rfl rfl rfl (by rw [hBatch]; exact .refl _)
      ledger := (h.ledger.touch hn (.inl rfl)).congr rfl rfl (by simp [record, hn])
      batched :=
        { rest := fun rest' expired' now' hEq p' hp' => ?_
          calling := fun hFlag => ⟨⟨_, _, _, rfl⟩, hBatch ▸ (h.batched.calling hFlag).2⟩
          canceling := hBatch ▸ h.batched.canceling } }
  obtain ⟨rfl, rfl, -⟩ := TimerControl.calling.inj hEq
  exact hRest p' (List.mem_cons_of_mem _ hp')

theorem Inv.ended (h : Inv q) {expired : List Addr}
    (hControl : q.control = .calling [] expired now) :
    Inv { q with callingExpiredTimers := false, control := .resetting expired now false } := by
  have hBatch : q.control.batch = expired := by rw [hControl]; rfl
  exact
    { owns := h.owns.batched rfl rfl rfl rfl (by rw [hBatch]; exact .refl _)
      ledger := h.ledger.congr rfl rfl rfl
      batched :=
        { rest := fun _ _ _ hEq => by cases hEq
          calling := fun hFlag => by cases hFlag
          canceling := hBatch ▸ h.batched.canceling } }

/-- What is marked besides a timer itself is marked in the batch. -/
def MarksBut (q : TimerQueue) (p : Addr) : Prop :=
  ∀ id ∈ q.cancelingTimers, id ≠ q.timerId p →
    id.timer ∈ q.control.batch ∧ id.timer ≠ p ∧ q.sequence id.timer = some id.sequence

/-- The marks are right once the mark of the timer itself is gone. -/
theorem MarksBut.batched (h : MarksBut q p) (hControl : q'.control = q.control)
    (hRest : ∃ rest now destroying, q.control = .resetting rest now destroying)
    (hCalling : q'.callingExpiredTimers = false)
    (hCanceling : ∀ id ∈ q'.cancelingTimers, id ∈ q.cancelingTimers ∧ id ≠ q.timerId p)
    (hSequence : ∀ p', p' ≠ p → q'.sequence p' = q.sequence p') : Batched q' where
  rest _ _ _ hEq := by
    obtain ⟨_, _, _, hResetting⟩ := hRest
    rw [hControl, hResetting] at hEq
    cases hEq
  calling hFlag := by
    rw [hCalling] at hFlag
    cases hFlag
  canceling id hid := by
    obtain ⟨hMem, hTimer, hId⟩ := h id (hCanceling id hid).1 (hCanceling id hid).2
    rw [hControl, hSequence _ hTimer]
    exact ⟨hMem, hId⟩

/-- One pass of `reset`, on a timer that is out of the batch. -/
theorem inv_resetOne (hOwns : Owns q [p]) (hLedger : Ledger q) (hMarks : MarksBut q p)
    (hRest : ∃ rest now destroying, q.control = .resetting rest now destroying)
    (hCalling : q.callingExpiredTimers = false) (now : Timestamp) : Inv (q.resetOne p now) := by
  obtain ⟨n, hn⟩ := hOwns.sequence_of_mem (p := p) (by simp)
  have hOther : ∀ p', p' ≠ p → (q.delete p).sequence p' = q.sequence p' := fun p' hp' => by
    rw [sequence_delete, if_neg hp']
  unfold TimerQueue.resetOne
  split_ifs with hMarked
  · -- cancelled by a callback of the batch
    exact
      { owns := Owns.delete (hOwns.handed rfl (.refl _) rfl rfl)
        ledger := Ledger.delete (hLedger.congr rfl rfl rfl) hn
        batched := hMarks.batched rfl hRest hCalling
          (fun id hid => (Finset.mem_erase.mp hid).symm) hOther }
  · have hUnmarked : ∀ id ∈ q.cancelingTimers, id ∈ q.cancelingTimers ∧ id ≠ q.timerId p :=
      fun id hid => ⟨hid, fun hEq => hMarked (hEq ▸ hid)⟩
    have hDelete : Inv (q.delete p) :=
      { owns := hOwns.delete
        ledger := hLedger.delete hn
        batched := hMarks.batched rfl hRest hCalling hUnmarked hOther }
    split
    · rename_i t ht
      split_ifs
      · -- a repeating timer goes back into the heap
        have hSequence := sequence_restart ht now
        have hSame : Batched { q with memory := Function.update q.memory p (some (t.restart now)) } :=
          hMarks.batched rfl hRest hCalling hUnmarked fun p' _ => by rw [hSequence]
        exact
          { owns := (hOwns.restart ht now).insert
            ledger := Ledger.insert (hLedger.congr hSequence rfl rfl) (hSequence ▸ hn)
            batched := hSame.insert p }
      · exact hDelete
    · exact hDelete

theorem Inv.resetOne (h : Inv q) {destroying : Bool}
    (hControl : q.control = .resetting (p :: rest) now destroying) (deletes : Bool) :
    Inv ({ q with control := .resetting rest now deletes }.resetOne p now) := by
  have hBatch : q.control.batch = p :: rest := by rw [hControl]; rfl
  obtain ⟨n, hn⟩ := h.sequence_of_mem (p := p) (by simp [owned, hBatch])
  refine inv_resetOne (q := { q with control := .resetting rest now deletes }) ?_
    (h.ledger.congr rfl rfl rfl) (fun id hid hne => ?_) ⟨rest, now, deletes, rfl⟩ ?_ now
  · exact h.owns.batched rfl rfl rfl rfl (by rw [hBatch]; exact .refl _)
  · obtain ⟨hMem, hSequence⟩ := h.batched.canceling id hid
    have hTimer : id.timer ≠ p := fun hp => hne
      ((timerId_unique hp hSequence hn).trans (timerId_of_sequence hn).symm)
    rw [hBatch] at hMem
    exact ⟨(List.mem_cons.mp hMem).resolve_left hTimer, hTimer, hSequence⟩
  · refine Bool.eq_false_iff.mpr fun hFlag => ?_
    obtain ⟨⟨_, _, _, hEq⟩, -⟩ := h.batched.calling hFlag
    rw [hControl] at hEq
    cases hEq

theorem finishReset_eq (q : TimerQueue) : ∃ timerfd lastArmed, q.finishReset =
    { q with
      timerfd := timerfd
      lastArmed := lastArmed
      expiredTimers := ∅
      control := .idle } := by
  unfold finishReset
  split
  · exact ⟨_, _, rfl⟩
  · split_ifs
    · exact ⟨_, _, rfl⟩
    · exact ⟨_, _, rfl⟩

theorem Inv.finishReset (h : Inv q) {destroying : Bool}
    (hControl : q.control = .resetting [] now destroying) : Inv q.finishReset := by
  obtain ⟨timerfd, lastArmed, hEq⟩ := finishReset_eq q
  have hBatch : q.control.batch = [] := by rw [hControl]; rfl
  rw [hEq]
  refine
    { owns := h.owns.batched rfl rfl rfl rfl (by rw [hBatch]; exact .refl _)
      ledger := h.ledger.congr rfl rfl rfl
      batched :=
        { rest := fun _ _ _ hEq => by cases hEq
          calling := fun hFlag => ?_
          canceling := fun id hid => by
            have hMem := (h.batched.canceling id hid).1
            rw [hBatch] at hMem
            cases hMem } }
  obtain ⟨⟨_, _, _, hCalling⟩, -⟩ := h.batched.calling hFlag
  rw [hControl] at hCalling
  cases hCalling

/-- **The step lemma.** A timer changes hands between queued functor, heap and batch, or is freed.
-/
theorem inv_step {a : Action} (hStep : q.step a = some q') (h : Inv q) : Inv q' := by
  cases step_outcome hStep with
  | ticked now => exact h.same rfl rfl rfl (.refl _) rfl rfl rfl rfl rfl rfl
  | added p when interval repeats hFree => exact h.added hFree when interval repeats
  | posted p when interval repeats hFree => exact h.posted hFree when interval repeats
  | cancelled id => exact h.cancelInLoop id true
  | cancelPosted id =>
    exact h.same rfl rfl rfl (by simp [owned, inserting, queueInLoop]) rfl rfl rfl rfl rfl rfl
  | ranFunctor f rest _ hFunctors => exact h.runFunctor hFunctors
  | began readAt hIdle => exact h.handleRead hIdle readAt
  | called p rest expired now hControl => exact h.called hControl
  | ended expired now hControl => exact h.ended hControl
  | reset p rest now _ hControl => exact h.resetOne hControl _
  | finished now _ hControl => exact h.finishReset hControl

theorem inv_new (heap : HeapAlgorithms Addr Int) : Inv { heap := heap } where
  owns :=
    { nodup := List.nodup_nil
      live := fun p => by simp [owned, inserting, TimerControl.batch, sequence]
      active := fun id => by simp
      heap := fun j _ _ => by simp [keyAt] }
  ledger :=
    { fresh := fun p n hn => by simp [sequence] at hn
      distinct := fun p p' n hn => by simp [sequence] at hn
      buried := fun n hn => by simp at hn
      sound := fun e he => by simp at he
      quiet := List.Pairwise.nil }
  batched :=
    { rest := fun _ _ _ hEq => by cases hEq
      calling := fun hFlag => by cases hFlag
      canceling := fun id hid => by simp at hid }

/-- **Timer ownership.** In every state of every run of a timer queue:

* outside of `handleRead`, the heap has no duplicates, the active handles are exactly those
  of the timers in the heap, the heap is ordered by expiration, and no cancellation is
  marked;
* a timer is live if and only if it waits for its insert, is in the heap or is in the
  expired batch, and it is so in one place only;
* whatever was run, inserted or deleted was live, and nothing was done to a timer after it
  was deleted. -/
theorem timers_owned {heap : HeapAlgorithms Addr Int}
    (h : Reaches TimerQueue.step { heap := heap } q) :
    (q.control = .idle → q.timers.Nodup ∧
      (∀ id, id ∈ q.activeTimers ↔
        id.timer ∈ q.timers ∧ q.sequence id.timer = some id.sequence) ∧
      IsHeap q.key q.timers ∧ q.cancelingTimers = ∅) ∧
    ((q.inserting ++ q.timers ++ q.control.batch).Nodup ∧
      ∀ p, q.memory p ≠ none ↔ p ∈ q.inserting ++ q.timers ++ q.control.batch) ∧
    (∀ e ∈ q.log, e.sequence ≠ none) ∧
    q.log.Pairwise (fun a b => ∀ n, a = .deleted (some n) → b.sequence ≠ some n) := by
  have hInv : Inv q := h.invariant (inv_new heap) fun _ _ _ => inv_step
  have hNodup : q.owned.Nodup := hInv.owns.nodup
  refine ⟨fun hIdle => ⟨hInv.nodup.2.1, hInv.owns.active, hInv.owns.heap, ?_⟩,
    ⟨hNodup, fun p => ?_⟩, hInv.ledger.sound, hInv.ledger.quiet⟩
  · refine Finset.eq_empty_of_forall_notMem fun id hid => ?_
    have hMem := (hInv.batched.canceling id hid).1
    simp [hIdle, TimerControl.batch] at hMem
  · have hLive := hInv.owns.live p
    rw [List.nil_append, sequence, Option.isSome_map] at hLive
    exact (Option.isSome_iff_ne_none.symm.trans hLive.symm)

/-- A repeating timer that cancels itself in its callback, next to one that fires once. -/
def cancelsItself : List Action :=
  [.addTimer 1 10 5 true true, .addTimer 2 20 0 false false, .functor, .tick 30, .handleRead 30,
    .run, .cancel ⟨1, 1⟩ true, .run, .endCalling, .resetOne, .resetOne, .finishReset]

theorem timers_owned_cancelsItself :
    ∃ q, runAll TimerQueue.step {} cancelsItself = some q ∧ q.control = .idle ∧
      q.log = [.inserted (some 1), .inserted (some 2), .ran (some 1), .ran (some 2),
        .deleted (some 1), .deleted (some 2)] ∧ q.cancelingTimers = ∅ := by
  have hRun : (runAll TimerQueue.step {} cancelsItself).map (fun q => (q.control, q.log)) =
      some (.idle, [.inserted (some 1), .inserted (some 2), .ran (some 1), .ran (some 2),
        .deleted (some 1), .deleted (some 2)]) := by decide
  obtain ⟨q, hq, hFields⟩ := Option.map_eq_some_iff.mp hRun
  obtain ⟨hControl, hLog⟩ := Prod.mk.inj hFields
  obtain ⟨hIdle, -⟩ := timers_owned (reaches_of_runAll hq)
  exact ⟨q, hq, hControl, hLog, (hIdle hControl).2.2.2⟩

end TimerQueue

end ReactorNet
