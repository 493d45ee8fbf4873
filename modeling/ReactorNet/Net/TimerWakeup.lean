import ReactorNet.Net.TimerOwnership

/-!
# ReactorNet — no timer without a wake-up

The timerfd is armed when an insert has a new front of the heap, and at the end of a
batch for the front, if its time is positive. Firing disarms it, and a cancellation never
arms it. What carries the invariant through a batch is that after `getExpired` every timer
in the heap is later than the batch: either this is still so at the end, and then the
front is positive and is armed for, or a timer that was inserted meanwhile has armed the
timerfd itself.

`howMuchTimeFromNow` subtracts the clock from the time of the timer in 64 bits. For a time
that is too far in the past the difference wraps around, and the timerfd is armed for the
end of time: the guard against a negative difference does not see it.

Main result: `timers_have_wakeup`, for runs in which no timer is inserted that far in the
past.
-/

namespace ReactorNet

open Lib

/-- The time of the batch that is running. -/
def TimerControl.now : TimerControl → Option Timestamp
  | .idle => none
  | .calling _ _ now => some now
  | .resetting _ now _ => some now

namespace TimerQueue

variable {q q' : TimerQueue} {p : Addr} {now : Timestamp}

/-! ## Arming -/

/-- The time is not so far in the past that its distance from the clock is no `int64_t`. -/
def Near (clock when : Timestamp) : Prop := -2 ^ 63 ≤ when.toInt - clock.toInt

instance (clock when : Timestamp) : Decidable (Near clock when) :=
  inferInstanceAs (Decidable (_ ≤ _))

variable {when : Timestamp} {p' : Addr}

theorem near_of_nonneg {clock : Timestamp} (h : 0 ≤ when.toInt) : Near clock when := by
  have := clock.toInt_lt
  unfold Near
  omega

/-- The difference does not wrap around, and it is at least 100. -/
theorem howMuchTimeFromNow_toInt {clock : Timestamp} (hClock : 0 ≤ clock.toInt)
    (hNear : Near clock when) :
    (howMuchTimeFromNow clock when).toInt = max 100 (when.toInt - clock.toInt) := by
  have hLt := when.toInt_lt
  unfold Near at hNear
  have hSub : (when - clock).toInt = when.toInt - clock.toInt := by
    rw [Int64.toInt_sub]
    exact Int.bmod_eq_of_le (by norm_num; omega) (by norm_num; omega)
  have hHundred : (100 : Int64).toInt = 100 := by decide
  simp only [howMuchTimeFromNow, Int64.lt_iff_toInt_lt, hSub, hHundred]
  split_ifs with hSmall
  · rw [hHundred, max_eq_left hSmall.le]
  · rw [hSub, max_eq_right (le_of_not_gt hSmall)]

/-- The timer at `p` has a wake-up. -/
def WokenFor (q : TimerQueue) (p : Addr) : Prop :=
  ∃ instant, q.timerfd = some instant ∧ instant ≤ max (q.key p) (q.lastArmed + 100)

/-- Every timer in the heap has a wake-up. -/
def Woken (q : TimerQueue) : Prop := ∀ p ∈ q.timers, WokenFor q p

/-- Arming for a time wakes up for every timer that is not earlier. -/
theorem wokenFor_resetTimerfd (hClock : 0 ≤ q.clock.toInt) (hNear : Near q.clock when)
    (hLe : when.toInt ≤ q.key p) : WokenFor (q.resetTimerfd when) p := by
  refine ⟨_, rfl, ?_⟩
  rw [howMuchTimeFromNow_toInt hClock hNear]
  show _ ≤ max (q.key p) (q.clock.toInt + 100)
  omega

/-- A timer that is not earlier than one with a wake-up has the same one. -/
theorem WokenFor.later (h : WokenFor q p) (hTimerfd : q'.timerfd = q.timerfd)
    (hArmed : q'.lastArmed = q.lastArmed) (hLe : q.key p ≤ q'.key p') : WokenFor q' p' := by
  obtain ⟨instant, hSome, hBound⟩ := h
  exact ⟨instant, hTimerfd.trans hSome, by rw [hArmed]; omega⟩

theorem Woken.fewer (h : Woken q) (hTimerfd : q'.timerfd = q.timerfd)
    (hArmed : q'.lastArmed = q.lastArmed)
    (hTimers : ∀ p ∈ q'.timers, p ∈ q.timers ∧ q'.key p = q.key p) : Woken q' := fun p hp =>
  (h p (hTimers p hp).1).later hTimerfd hArmed (hTimers p hp).2.ge

/-! ## Inserting -/

theorem insert_of_earliest (h : q.earliestChanged p = true) : q.insert p =
    resetTimerfd
      { q with
        timers := q.heap.pushHeap q.key (q.timers ++ [p])
        activeTimers := Insert.insert (q.timerId p) q.activeTimers
        log := q.log ++ [.inserted (q.sequence p)] } (q.expiration p) :=
  if_pos h

theorem mem_timers_insert : p' ∈ (q.insert p).timers ↔ p' = p ∨ p' ∈ q.timers := by
  obtain ⟨timerfd, lastArmed, hEq⟩ := insert_eq q p
  rw [hEq]
  exact (pushHeap_perm_cons q p).mem_iff.trans List.mem_cons

theorem insert_key (q : TimerQueue) (p : Addr) : (q.insert p).key = q.key := by
  obtain ⟨timerfd, lastArmed, hEq⟩ := insert_eq q p
  rw [hEq]
  exact key_congr rfl

/-- A timer that comes first arms the timerfd for itself, and by that for all. -/
theorem woken_insert_of_earliest (hHeap : IsHeap q.key q.timers) (hClock : 0 ≤ q.clock.toInt)
    (hNear : Near q.clock (q.expiration p)) (h : q.earliestChanged p = true) :
    Woken (q.insert p) := by
  have hFirst : ∀ p' ∈ q.timers, q.key p ≤ q.key p' := fun p' hp' => by
    unfold earliestChanged at h
    split at h
    · simp_all
    · rename_i front rest hTimers
      rw [hTimers] at hp' hHeap
      exact (Int64.lt_iff_toInt_lt.mp (of_decide_eq_true h)).le.trans (hHeap.front_le hp')
  intro p' hp'
  have hLe : q.key p ≤ q.key p' := by
    rcases mem_timers_insert.mp hp' with rfl | hp'
    · exact le_rfl
    · exact hFirst p' hp'
  rw [insert_of_earliest h]
  exact wokenFor_resetTimerfd hClock hNear hLe

/-- A timer that does not come first is not earlier than the front. -/
theorem exists_front_le (h : q.earliestChanged p = false) :
    ∃ front ∈ q.timers, q.key front ≤ q.key p := by
  unfold earliestChanged at h
  split at h
  · cases h
  · rename_i front rest hTimers
    refine ⟨front, by simp [hTimers], ?_⟩
    exact le_of_not_gt fun hLt => of_decide_eq_false h (Int64.lt_iff_toInt_lt.mpr hLt)

theorem insert_of_not_earliest (h : q.earliestChanged p = false) :
    (q.insert p).timerfd = q.timerfd ∧ (q.insert p).lastArmed = q.lastArmed := by
  simp [insert, h]

theorem Woken.insert (h : Woken q) (hHeap : IsHeap q.key q.timers) (hClock : 0 ≤ q.clock.toInt)
    (hNear : Near q.clock (q.expiration p)) : Woken (q.insert p) := by
  cases hEarliest : q.earliestChanged p with
  | true => exact woken_insert_of_earliest hHeap hClock hNear hEarliest
  | false =>
    obtain ⟨hTimerfd, hArmed⟩ := insert_of_not_earliest hEarliest
    obtain ⟨front, hFront, hLe⟩ := exists_front_le hEarliest
    intro p' hp'
    rcases mem_timers_insert.mp hp' with rfl | hp'
    · exact (h front hFront).later hTimerfd hArmed (by rw [insert_key]; exact hLe)
    · exact (h p' hp').later hTimerfd hArmed (by rw [insert_key])

/-! ## In a batch -/

/-- Every timer in the heap is later than the batch. -/
def AllLater (q : TimerQueue) (now : Timestamp) : Prop := ∀ p ∈ q.timers, now.toInt < q.key p

/-- In a batch: there is a wake-up, or the end of the batch will arm for the front. -/
def WokenOrLater (q : TimerQueue) (now : Timestamp) : Prop := Woken q ∨ AllLater q now

theorem WokenOrLater.fewer (h : WokenOrLater q now) (hTimerfd : q'.timerfd = q.timerfd)
    (hArmed : q'.lastArmed = q.lastArmed)
    (hTimers : ∀ p ∈ q'.timers, p ∈ q.timers ∧ q'.key p = q.key p) : WokenOrLater q' now := by
  refine h.imp (fun h => h.fewer hTimerfd hArmed hTimers) fun h p hp => ?_
  rw [(hTimers p hp).2]
  exact h p (hTimers p hp).1

theorem WokenOrLater.insert (h : WokenOrLater q now) (hHeap : IsHeap q.key q.timers)
    (hClock : 0 ≤ q.clock.toInt) (hNear : Near q.clock (q.expiration p)) :
    WokenOrLater (q.insert p) now := by
  rcases h with h | h
  · exact .inl (h.insert hHeap hClock hNear)
  · cases hEarliest : q.earliestChanged p with
    | true => exact .inl (woken_insert_of_earliest hHeap hClock hNear hEarliest)
    | false =>
      obtain ⟨front, hFront, hLe⟩ := exists_front_le hEarliest
      refine .inr fun p' hp' => ?_
      rw [insert_key]
      rcases mem_timers_insert.mp hp' with rfl | hp'
      · exact (h front hFront).trans_le hLe
      · exact h p' hp'

/-- With a pass for every timer, `getExpired` leaves nothing that is due. -/
theorem allLater_getExpired {limbo : List Addr} (h : Owns q limbo) (now : Timestamp) {fuel : Nat}
    (hFuel : q.timers.length ≤ fuel) : AllLater (getExpired fuel q now).1 now := by
  induction fuel generalizing q limbo with
  | zero =>
    have hNil : q.timers = [] := List.length_eq_zero_iff.mp (Nat.le_zero.mp hFuel)
    simp [getExpired, AllLater, hNil]
  | succ fuel ih =>
    simp only [getExpired]
    split
    · rename_i hNil
      simp [AllLater, hNil]
    · rename_i front rest hTimers
      split_ifs with hDue
      · obtain ⟨others, hPop, hOwns⟩ := h.pop hTimers
        have hLength : (others ++ [front]).length = (front :: rest).length := by
          obtain ⟨others', hPop', hPerm, -⟩ := q.heap.popHeap_spec (hTimers ▸ h.heap)
          rw [← hTimers, hPop] at hPop'
          rw [hPop', List.length_append, hPerm.length_eq]
          rfl
        simp only [hPop, List.dropLast_concat]
        refine ih hOwns ?_
        simp only [hTimers, List.length_append, List.length_cons, List.length_nil] at hLength hFuel ⊢
        omega
      · -- the front is the earliest
        intro p hp
        have hHeap := h.heap
        rw [hTimers] at hp hHeap
        have hFront : now.toInt < q.key front :=
          lt_of_not_ge fun hLe => hDue (Int64.le_iff_toInt_le.mpr hLe)
        exact hFront.trans_le (hHeap.front_le hp)

/-! ## Every step -/

/-- No timer is inserted that is too far in the past, and a repeating timer is restarted at
a time that is a timestamp again. -/
def InRange (q : TimerQueue) : Action → Prop
  | .addTimer _ when _ _ true => Near q.clock when
  | .functor =>
    match q.functors with
    | .insert p :: _ => Near q.clock (q.expiration p)
    | _ => True
  | .resetOne =>
    match q.control with
    | .resetting (p :: _) now _ =>
      match q.memory p with
      | some t => t.repeats = true →
          0 ≤ t.interval.toInt ∧ now.toInt + t.interval.toInt < 2 ^ 63
      | none => True
    | _ => True
  | _ => True

instance (q : TimerQueue) (a : Action) : Decidable (q.InRange a) := by
  unfold InRange
  repeat' split
  all_goals infer_instance

structure Wakes (q : TimerQueue) : Prop where
  clock : 0 ≤ q.clock.toInt
  idle : q.control = .idle → Woken q
  batch : ∀ now, q.control.now = some now → 0 ≤ now.toInt ∧ WokenOrLater q now

/-- A change that arms nothing and adds nothing to the heap. -/
theorem Wakes.fewer (h : Wakes q) (hClock : q.clock.toInt ≤ q'.clock.toInt)
    (hControl : q'.control = q.control)
    (hTimerfd : q'.timerfd = q.timerfd) (hArmed : q'.lastArmed = q.lastArmed)
    (hTimers : ∀ p ∈ q'.timers, p ∈ q.timers ∧ q'.key p = q.key p) : Wakes q' where
  clock := h.clock.trans hClock
  idle hIdle := (h.idle (hControl ▸ hIdle)).fewer hTimerfd hArmed hTimers
  batch now hNow := by
    rw [hControl] at hNow
    exact ⟨(h.batch now hNow).1, (h.batch now hNow).2.fewer hTimerfd hArmed hTimers⟩

/-- A move from one place in a batch to the next. -/
theorem Wakes.proceed (h : Wakes q) (hNow : q.control.now = some now)
    (hNext : q'.control.now = some now) (hClock : q'.clock = q.clock)
    (hTimerfd : q'.timerfd = q.timerfd) (hArmed : q'.lastArmed = q.lastArmed)
    (hTimers : ∀ p ∈ q'.timers, p ∈ q.timers ∧ q'.key p = q.key p) : Wakes q' where
  clock := hClock ▸ h.clock
  idle hIdle := by
    rw [hIdle] at hNext
    cases hNext
  batch now' hNow' := by
    obtain rfl : now = now' := Option.some.inj (hNext.symm.trans hNow')
    obtain ⟨hNonneg, hWoken⟩ := h.batch now hNow
    exact ⟨hNonneg, hWoken.fewer hTimerfd hArmed hTimers⟩

theorem Wakes.insert (h : Wakes q) (hHeap : IsHeap q.key q.timers)
    (hNear : Near q.clock (q.expiration p)) : Wakes (q.insert p) := by
  obtain ⟨timerfd, lastArmed, hEq⟩ := insert_eq q p
  have hClock : (q.insert p).clock = q.clock := by rw [hEq]
  have hControl : (q.insert p).control = q.control := by rw [hEq]
  exact
    { clock := by rw [hClock]; exact h.clock
      idle := fun hIdle => (h.idle (hControl ▸ hIdle)).insert hHeap h.clock hNear
      batch := fun now hNow => by
        rw [hControl] at hNow
        exact ⟨(h.batch now hNow).1, (h.batch now hNow).2.insert hHeap h.clock hNear⟩ }

/-- The keys of the timers in the heap are not changed by a change elsewhere in memory. -/
theorem key_of_mem (hp : p ∉ q.timers) (hp' : p' ∈ q.timers) {t : Option Timer}
    (hMemory : q'.memory = Function.update q.memory p t) : q'.key p' = q.key p' := by
  have hne : p' ≠ p := fun hEq => hp (hEq ▸ hp')
  simp [key, expiration, hMemory, hne]

theorem Wakes.create (h : Wakes q) (hInv : Inv q) (hFree : q.memory p = none) (when : Timestamp)
    (interval : Int64) (repeats : Bool) : Wakes (q.create p when interval repeats) := by
  have hNot : p ∉ q.timers := fun hp => by
    obtain ⟨n, hn⟩ := hInv.sequence_of_mem (p := p) (by simp [owned, hp])
    simp [sequence, hFree] at hn
  exact h.fewer le_rfl rfl rfl rfl fun p' hp' => ⟨hp', key_of_mem hNot hp' rfl⟩

theorem Wakes.delete (h : Wakes q) (hp : p ∉ q.timers) : Wakes (q.delete p) :=
  h.fewer le_rfl rfl rfl rfl fun _ hp' => ⟨hp', key_of_mem hp hp' rfl⟩

theorem Wakes.cancelInLoop (h : Wakes q) (hInv : Inv q) (id : TimerId) (allowRetry : Bool) :
    Wakes (q.cancelInLoop id allowRetry) := by
  unfold TimerQueue.cancelInLoop
  split_ifs with hid hTimers
  · have hNot := (hInv.owns.take hid).not_mem_timers
    refine Wakes.delete (h.fewer le_rfl rfl rfl rfl fun p' hp' => ⟨?_, rfl⟩) hNot
    exact List.mem_of_mem_erase ((q.heap.makeHeap_perm _).mem_iff.mp hp')
  · exact absurd ((hInv.owns.active id).mp hid).1 hTimers
  · exact h.fewer le_rfl rfl rfl rfl fun p' hp' => ⟨hp', rfl⟩
  · exact h.fewer le_rfl rfl rfl rfl fun p' hp' => ⟨hp', rfl⟩
  · exact h

theorem Wakes.runFunctor (h : Wakes q) (hInv : Inv q) {f : TimerFunctor}
    {rest : List TimerFunctor} (hFunctors : q.functors = f :: rest) (hRange : q.InRange .functor) :
    Wakes ({ q with functors := rest }.runFunctor f) := by
  have hPopped : Wakes { q with functors := rest } :=
    h.fewer le_rfl rfl rfl rfl fun p' hp' => ⟨hp', rfl⟩
  cases f with
  | insert p =>
    simp only [InRange, hFunctors] at hRange
    exact hPopped.insert hInv.owns.heap hRange
  | cancelInLoop id allowRetry =>
    exact hPopped.cancelInLoop (hInv.take_cancel hFunctors) id allowRetry

theorem Wakes.handleRead (h : Wakes q) (hInv : Inv q) {readAt : Timestamp}
    (hClock : q.clock ≤ readAt) : Wakes (q.handleRead readAt) := by
  obtain ⟨timerfd, hTimerfd⟩ := readTimerfd_eq { q with clock := readAt }
  have hOwns : Owns { q with clock := readAt, timerfd := timerfd } [] :=
    hInv.owns.handed rfl (.refl _) rfl rfl
  obtain ⟨timers, activeTimers, hEq⟩ := getExpired_eq q.timers.length
    { q with clock := readAt, timerfd := timerfd } q.clock
  have hLater := allLater_getExpired hOwns q.clock (le_refl q.timers.length)
  unfold TimerQueue.handleRead
  simp only [hTimerfd]
  rw [hEq] at hLater
  refine
    { clock := ?_
      idle := fun hIdle => by cases hIdle
      batch := fun now hNow => ?_ }
  · simp only [hEq]
    exact h.clock.trans (Int64.le_iff_toInt_le.mp hClock)
  · obtain rfl : q.clock = now := Option.some.inj hNow
    refine ⟨h.clock, .inr ?_⟩
    simp only [hEq]
    exact hLater

theorem Wakes.resetOne (h : Wakes q) (hInv : Inv q) {rest : List Addr} {destroying : Bool}
    (hControl : q.control = .resetting (p :: rest) now destroying) (hRange : q.InRange .resetOne)
    (deletes : Bool) :
    Wakes ({ q with control := .resetting rest now deletes }.resetOne p now) := by
  have hNow := h.batch now (by rw [hControl]; rfl)
  have hOut : Wakes { q with control := .resetting rest now deletes } :=
    h.proceed (by rw [hControl]; rfl) rfl rfl rfl rfl fun p' hp' => ⟨hp', rfl⟩
  have hNot : p ∉ q.timers :=
    hInv.not_mem_timers_of_batch (by simp [hControl, TimerControl.batch])
  unfold TimerQueue.resetOne
  split_ifs
  · exact Wakes.delete (hOut.fewer le_rfl rfl rfl rfl fun p' hp' => ⟨hp', rfl⟩) hNot
  · split
    · rename_i t ht
      split_ifs with hRepeats
      · -- the time of the restart is not negative, so it is near
        simp only [InRange, hControl, show q.memory p = some t from ht] at hRange
        obtain ⟨hInterval, hSum⟩ := hRange hRepeats
        have hAdd : (now + t.interval).toInt = now.toInt + t.interval.toInt := by
          rw [Int64.toInt_add]
          exact Int.bmod_eq_of_le (by norm_num; omega) (by norm_num; omega)
        refine Wakes.insert (hOut.fewer le_rfl rfl rfl rfl fun p' hp' =>
          ⟨hp', key_of_mem hNot hp' rfl⟩) ?_ (near_of_nonneg ?_)
        · exact hInv.owns.heap.congr fun p' hp' => key_of_mem hNot hp' rfl
        · simp only [expiration, Function.update_self, Timer.restart, hRepeats, if_true, hAdd]
          omega
      · exact hOut.delete hNot
    · exact hOut.delete hNot

theorem Wakes.finishReset (h : Wakes q) (hInv : Inv q) {destroying : Bool}
    (hControl : q.control = .resetting [] now destroying) : Wakes q.finishReset := by
  obtain ⟨hNow, hBatch⟩ := h.batch now (by rw [hControl]; rfl)
  refine
    { clock := ?_
      idle := fun _ => ?_
      batch := fun now' hNow' => ?_ }
  · obtain ⟨timerfd, lastArmed, hEq⟩ := finishReset_eq q
    rw [hEq]
    exact h.clock
  · unfold TimerQueue.finishReset
    split
    · rename_i hNil
      exact fun p hp => absurd (show p ∈ q.timers from hp) (by simp [hNil])
    · rename_i front rest hTimers
      have hHeap := hInv.owns.heap
      rw [hTimers] at hHeap
      split_ifs with hValid
      · have hPos : 0 < (q.expiration front).toInt := Int64.lt_iff_toInt_lt.mp hValid
        intro p hp
        have hMem : p ∈ front :: rest := hTimers ▸ show p ∈ q.timers from hp
        exact wokenFor_resetTimerfd h.clock (near_of_nonneg hPos.le) (hHeap.front_le hMem)
      · -- the front is not later than the batch, so it was inserted in it
        rcases hBatch with hWoken | hLater
        · exact hWoken.fewer rfl rfl fun p hp => ⟨hp, rfl⟩
        · have hFront := hLater front (by simp [hTimers])
          refine absurd (Int64.lt_iff_toInt_lt.mpr ?_) hValid
          exact hNow.trans_lt hFront
  · obtain ⟨timerfd, lastArmed, hEq⟩ := finishReset_eq q
    rw [hEq] at hNow'
    cases hNow'

/-- **The step lemma.** -/
theorem wakes_step {a : Action} (hStep : q.step a = some q') (hRange : q.InRange a) (hInv : Inv q)
    (h : Wakes q) : Wakes q' := by
  cases step_outcome hStep with
  | ticked now hNow =>
    exact h.fewer (Int64.le_iff_toInt_le.mp hNow) rfl rfl rfl fun p' hp' => ⟨hp', rfl⟩
  | added p when interval repeats hFree =>
    have hNear : Near q.clock when := hRange
    refine (h.create hInv hFree when interval repeats).insert
      (hInv.owns.create hFree when interval repeats).heap ?_
    simpa [expiration, TimerQueue.create] using hNear
  | posted p when interval repeats hFree =>
    exact (h.create hInv hFree when interval repeats).fewer le_rfl rfl rfl rfl
      fun p' hp' => ⟨hp', rfl⟩
  | cancelled id => exact h.cancelInLoop hInv id true
  | cancelPosted id => exact h.fewer le_rfl rfl rfl rfl fun p' hp' => ⟨hp', rfl⟩
  | ranFunctor f rest _ hFunctors => exact h.runFunctor hInv hFunctors hRange
  | began readAt _ hClock => exact h.handleRead hInv hClock
  | called p rest expired now hControl | ended expired now hControl =>
    exact h.proceed (by rw [hControl]; rfl) rfl rfl rfl rfl fun p' hp' => ⟨hp', rfl⟩
  | reset p rest now _ hControl => exact h.resetOne hInv hControl hRange _
  | finished now _ hControl => exact h.finishReset hInv hControl

theorem wakes_new (heap : HeapAlgorithms Addr Int) : Wakes { heap := heap } where
  clock := show 0 ≤ Int64.toInt 0 by decide
  idle _ p hp := by simp at hp
  batch now hNow := by cases hNow

/-- **No timer is left without a wake-up.** In every run in which no timer is inserted too
far in the past, whenever the loop thread is not in `handleRead` and there are timers, the
timerfd is armed, for an instant that is not later than the expiration of any of them or
than 100 microseconds after the last arming. -/
theorem timers_have_wakeup {heap : HeapAlgorithms Addr Int}
    (h : ReachesBy TimerQueue.step InRange { heap := heap } q) (hIdle : q.control = .idle)
    (hTimers : q.timers ≠ []) :
    ∃ instant, q.timerfd = some instant ∧
      ∀ p ∈ q.timers, instant ≤ max (q.key p) (q.lastArmed + 100) := by
  have hWakes : Inv q ∧ Wakes q :=
    h.invariant (P := fun q => Inv q ∧ Wakes q) ⟨inv_new heap, wakes_new heap⟩
      fun _ _ _ hStep hRange ⟨hInv, hWakes⟩ =>
        ⟨inv_step hStep hInv, wakes_step hStep hRange hInv hWakes⟩
  have hWoken := hWakes.2.idle hIdle
  obtain ⟨front, hFront⟩ := List.exists_mem_of_ne_nil _ hTimers
  obtain ⟨instant, hInstant, -⟩ := hWoken front hFront
  refine ⟨instant, hInstant, fun p hp => ?_⟩
  obtain ⟨instant', hInstant', hBound⟩ := hWoken p hp
  obtain rfl : instant = instant' := Option.some.inj (hInstant.symm.trans hInstant')
  exact hBound

/-- A timer of the past, next to one of the future. -/
theorem timers_have_wakeup_past :
    ∃ q, runAllBy TimerQueue.step InRange {}
        [.tick 1000, .addTimer 1 5000 0 false true, .addTimer 2 (-7) 0 false true] = some q ∧
      q.timerfd = some 1100 ∧
      ∃ instant, q.timerfd = some instant ∧
        ∀ p ∈ q.timers, instant ≤ max (q.key p) (q.lastArmed + 100) := by
  have hRun : (runAllBy TimerQueue.step InRange {}
      [.tick 1000, .addTimer 1 5000 0 false true, .addTimer 2 (-7) 0 false true]).map
        (fun q => (q.control, q.timers, q.timerfd)) = some (.idle, [2, 1], some 1100) := by decide
  obtain ⟨q, hq, hFields⟩ := Option.map_eq_some_iff.mp hRun
  obtain ⟨hControl, hFields⟩ := Prod.mk.inj hFields
  obtain ⟨hTimers, hTimerfd⟩ := Prod.mk.inj hFields
  exact ⟨q, hq, hTimerfd,
    timers_have_wakeup (reachesBy_of_runAllBy hq) hControl (by rw [hTimers]; simp)⟩

/-- A timer for the smallest timestamp, one microsecond after boot: it is long due, and the
timerfd is armed for the year 292,000. -/
theorem no_wakeup_for_smallest_timestamp :
    (runAll TimerQueue.step {} [.tick 1, .addTimer 1 Int64.minValue 0 false true]).map
        (fun q => (q.control, q.timers, q.key 1, q.timerfd, q.lastArmed)) =
      some (.idle, [1], -2 ^ 63, some (2 ^ 63), 1) ∧
    ¬ (2 ^ 63 : Int) ≤ max (-2 ^ 63) (1 + 100) := by
  refine ⟨by decide, by decide⟩

end TimerQueue

end ReactorNet
