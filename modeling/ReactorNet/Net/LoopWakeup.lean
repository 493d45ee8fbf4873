import ReactorNet.Net.EventLoop

/-!
# ReactorNet — waking the loop

A loop that polls with functors in its queue has to be woken. `queueInLoop` wakes it when it
is called on another thread, or on the loop thread while a batch is running; in an event
callback there is no need, since the swap is still to come. But the loop thread runs user
code at two more times: outside `loop()`, and when the functors of a batch are destroyed,
where the flag is already cleared. The next thing that happens to the queue after these is
a poll.

Main result: `no_lost_wakeup`.
-/

namespace ReactorNet

open Lib

/-- In an event callback or in a functor. -/
def LoopPc.inCallback : LoopPc → Bool
  | .handling _ | .functor => true
  | _ => false

/-- `callingPendingFunctors_` is set. -/
def LoopPc.calling : LoopPc → Bool
  | .swapping | .running | .functor => true
  | _ => false

/-- The queue is swapped out before the next poll. -/
def LoopPc.swapsNext : LoopPc → Bool
  | .handling _ | .swapping => true
  | _ => false

namespace EventLoop

variable {F : Type} {s s' : EventLoop F}

/-- The loop thread queues functors only in event callbacks and in functors. -/
def Inside (s : EventLoop F) : Action F → Prop
  | .push _ true => s.pc.inCallback = true
  | _ => True

instance (s : EventLoop F) : ∀ a, Decidable (s.Inside a)
  | .push _ true => inferInstanceAs (Decidable (_ = _))
  | .push _ false | .enter | .reset | .test | .polled _ | .handleWakeup | .handled | .swap | .call
  | .ret | .finish | .destroyed | .finishPush _ | .quit | .quitStore | .quitWake => .isTrue trivial

theorem finishQueueInLoop_eq (s : EventLoop F) (call : QueueCall) :
    s.finishQueueInLoop call =
      { s with
        calls := s.calls.erase call
        wakeupFd := if call.onLoop = false ∨ s.callingPendingFunctors = true then s.wakeupFd + 1
          else s.wakeupFd } := by
  unfold finishQueueInLoop
  simp only
  split_ifs <;> rfl

theorem wakeupFd_le_finishQueueInLoop (s : EventLoop F) (call : QueueCall) :
    s.wakeupFd ≤ (s.finishQueueInLoop call).wakeupFd := by
  rw [finishQueueInLoop_eq]
  show s.wakeupFd ≤ if call.onLoop = false ∨ s.callingPendingFunctors = true then s.wakeupFd + 1
    else s.wakeupFd
  split_ifs
  · exact Nat.le_succ _
  · exact le_rfl

/-! ## The flags -/

/-- What the flags say about where the loop thread is. -/
structure Flags (s : EventLoop F) : Prop where
  looping : s.looping = true ↔ s.pc ≠ .outside
  calling : s.callingPendingFunctors = s.pc.calling
  tickets : ∀ call ∈ s.calls, call.ticket < s.pushed.length

theorem flags_step {a : Action F} (hStep : s.step a = some s') (h : Flags s) : Flags s' := by
  -- a step of the loop thread fixes where it was, and that gives the flags of before
  have hLooping : ∀ {pc}, s.pc = pc → pc ≠ .outside → s.looping = true := fun hPc hNe =>
    h.looping.mpr (hPc ▸ hNe)
  have hCalling : ∀ {pc}, s.pc = pc → s.callingPendingFunctors = pc.calling := fun hPc =>
    hPc ▸ h.calling
  cases step_outcome hStep with
  | entered hPc => exact ⟨by simp, (hCalling hPc).trans rfl, h.tickets⟩
  | reset hPc | polls hPc | polled _ hPc | read hPc | destroyed hPc | called _ _ hPc
  | returned hPc =>
    exact ⟨by simp [hLooping hPc], (hCalling hPc).trans rfl, h.tickets⟩
  | left hPc => exact ⟨by simp, (hCalling hPc).trans rfl, h.tickets⟩
  | handled hPc | finished hPc => exact ⟨by simp [hLooping hPc], rfl, h.tickets⟩
  | swapped hPc => exact ⟨by simp [hLooping hPc], (hCalling hPc).trans rfl, h.tickets⟩
  | pushed f onLoop =>
    have hLength : (s.push f onLoop).pushed.length = s.pushed.length + 1 := by
      simp [EventLoop.push]
    refine ⟨h.looping, h.calling, fun call hCall => ?_⟩
    rw [hLength]
    rcases List.mem_cons.mp hCall with rfl | hCall
    · exact Nat.lt_succ_self _
    · exact Nat.lt_succ_of_lt (h.tickets call hCall)
  | queued call =>
    rw [finishQueueInLoop_eq]
    exact ⟨h.looping, h.calling, fun c hc => h.tickets c (List.mem_of_mem_erase hc)⟩
  | quit | quitStored | quitWoken => exact ⟨h.looping, h.calling, h.tickets⟩

theorem flags_of_reaches (h : Reaches step ({} : EventLoop F) s) : Flags s :=
  h.invariant (P := Flags) ⟨by simp, rfl, by simp⟩ fun _ _ _ => flags_step

/-! ## While the condition holds -/

/-- The call that pushed `p` has not returned. -/
def InFlight (s : EventLoop F) (p : Posted F) : Prop := ∃ call ∈ s.calls, call.ticket = p.ticket

structure Signalled (s : EventLoop F) : Prop where
  flags : Flags s
  /-- A `queueInLoop` of the loop thread is one in a callback. -/
  here : ∀ call ∈ s.calls, call.onLoop = true → s.pc.inCallback = true
  /-- With a poll coming first, every queued functor has its wake-up, or its call will
  still see to that. -/
  signal : s.pc.swapsNext = false → ∀ p ∈ s.pendingFunctors, s.InFlight p ∨ 0 < s.wakeupFd

/-- The loop thread goes on, and nothing else changes. -/
theorem Signalled.move (h : Signalled s) (hFlags : Flags s') (hCalls : s'.calls = s.calls)
    (hFree : s.free = true ∨ s.pc.inCallback = false)
    (hNext : s'.pc.swapsNext = false → s.pc.swapsNext = false ∧
      s'.pendingFunctors = s.pendingFunctors ∧ s'.wakeupFd = s.wakeupFd) : Signalled s' where
  flags := hFlags
  here call hCall hOn := by
    rw [hCalls] at hCall
    rcases hFree with hFree | hFree
    · simpa [hOn] using List.all_eq_true.mp hFree call hCall
    · simp [h.here call hCall hOn] at hFree
  signal hPc p hp := by
    obtain ⟨hSwaps, hPending, hFd⟩ := hNext hPc
    rw [hPending] at hp
    rw [InFlight, hCalls, hFd]
    exact h.signal hSwaps p hp

theorem Signalled.push (h : Signalled s) (f : F) (onLoop : Bool) (hFlags : Flags (s.push f onLoop))
    (hInside : s.Inside (.push f onLoop)) : Signalled (s.push f onLoop) where
  flags := hFlags
  here call hCall hOn := by
    rcases List.mem_cons.mp hCall with rfl | hCall
    · -- the new call, made where the condition allows it
      cases onLoop with
      | true => exact hInside
      | false => simp at hOn
    · exact h.here call hCall hOn
  signal hPc p hp := by
    rcases List.mem_append.mp hp with hp | hp
    · obtain ⟨call, hCall, hTicket⟩ | hFd := h.signal hPc p hp
      · exact .inl ⟨call, List.mem_cons_of_mem _ hCall, hTicket⟩
      · exact .inr hFd
    · rw [List.mem_singleton.mp hp]
      exact .inl ⟨⟨s.pushed.length, onLoop⟩, List.mem_cons_self .., rfl⟩

/-- A call returns: where that matters it has woken the loop. -/
theorem Signalled.finish (h : Signalled s) {call : QueueCall} (hCall : call ∈ s.calls)
    (hFlags : Flags (s.finishQueueInLoop call)) : Signalled (s.finishQueueInLoop call) := by
  have hHere := h.here call hCall
  rw [finishQueueInLoop_eq] at hFlags ⊢
  refine
    { flags := hFlags
      here := fun c hc => h.here c (List.mem_of_mem_erase hc)
      signal := fun hPc p hp => .inr ?_ }
  have hWakes : call.onLoop = false ∨ s.callingPendingFunctors = true := by
    rcases Bool.eq_false_or_eq_true call.onLoop with hOn | hOff
    · -- in a callback with a poll coming first: that is a functor
      right
      have hIn : s.pc.inCallback = true := hHere hOn
      have hSwaps : s.pc.swapsNext = false := hPc
      rw [h.flags.calling]
      revert hIn hSwaps
      generalize s.pc = pc
      cases pc <;> simp [LoopPc.inCallback, LoopPc.swapsNext, LoopPc.calling]
    · exact .inl hOff
  show 0 < if call.onLoop = false ∨ s.callingPendingFunctors = true then s.wakeupFd + 1
    else s.wakeupFd
  rw [if_pos hWakes]
  exact Nat.succ_pos _

/-- **The step lemma.** -/
theorem signalled_step {a : Action F} (hStep : s.step a = some s') (hInside : s.Inside a)
    (h : Signalled s) : Signalled s' := by
  have hFlags : Flags s' := flags_step hStep h.flags
  cases step_outcome hStep with
  | entered hPc | reset hPc | left hPc | polls hPc | called _ _ hPc | finished hPc
  | destroyed hPc =>
    -- neither the queue nor the counter changes
    exact h.move hFlags rfl (.inr (by rw [hPc]; rfl)) fun _ => ⟨by rw [hPc]; rfl, rfl, rfl⟩
  | returned hPc hFree =>
    exact h.move hFlags rfl (.inl hFree) fun _ => ⟨by rw [hPc]; rfl, rfl, rfl⟩
  | polled _ hPc =>
    -- from here to the swap nothing is owed
    exact h.move hFlags rfl (.inr (by rw [hPc]; rfl)) fun hNext => by
      simp [LoopPc.swapsNext] at hNext
  | read hPc hFree | handled hPc hFree =>
    exact h.move hFlags rfl (.inl hFree) fun hNext => by simp [LoopPc.swapsNext] at hNext
  | swapped hPc =>
    -- the queue is empty now
    refine { flags := hFlags, here := fun call hCall hOn => ?_, signal := fun _ p hp => ?_ }
    · have hIn := h.here call hCall hOn
      rw [hPc] at hIn
      simp [LoopPc.inCallback] at hIn
    · simp at hp
  | pushed f onLoop => exact h.push f onLoop hFlags hInside
  | queued call hCall => exact h.finish hCall hFlags
  | quit | quitStored => exact ⟨hFlags, h.here, h.signal⟩
  | quitWoken => exact ⟨hFlags, h.here, fun _ _ _ => .inr (Nat.succ_pos _)⟩

theorem signalled_of_reachesBy (h : ReachesBy step Inside ({} : EventLoop F) s) : Signalled s :=
  h.invariant (P := Signalled) ⟨⟨by simp, rfl, by simp⟩, by simp, by simp⟩
    fun _ _ _ => signalled_step

/-! ## When it does not -/

/-- A `queueInLoop` of the loop thread that is made where no batch is running. -/
theorem finish_push_silent {f : F} (hCalling : s.callingPendingFunctors = false) :
    (s.push f true).finishQueueInLoop ⟨s.pushed.length, true⟩ =
      { s with
        pendingFunctors := s.pendingFunctors ++ [⟨f, s.pushed.length, s.swaps⟩]
        pushed := s.pushed ++ [⟨f, s.pushed.length, s.swaps⟩] } := by
  rw [finishQueueInLoop_eq]
  simp [EventLoop.push, hCalling]

/-- Outside callbacks the loop thread goes from user code to the next poll. -/
theorem reaches_poll
    (hPc : s.pc = .outside ∧ s.looping = false ∨ s.pc = .destroying ∧ s.quit = false)
    (hFree : s.free = true) :
    ∃ s', Reaches step s s' ∧ s'.pc = .poll ∧ s'.wakeupFd = s.wakeupFd ∧
      s'.pendingFunctors = s.pendingFunctors ∧ s'.calls = s.calls := by
  rcases hPc with ⟨hPc, hLooping⟩ | ⟨hPc, hQuit⟩
  · have hRun : runAll step s [.enter, .reset, .test] =
        some { s with pc := .poll, looping := true, quit := false } := by
      simp [runAll, step, hPc, hFree, hLooping]
    exact ⟨_, reaches_of_runAll hRun, rfl, rfl, rfl, rfl⟩
  · have hRun : runAll step s [.destroyed, .test] =
        some { s with pc := .poll, batch := [] } := by
      simp [runAll, step, hPc, hFree, hQuit]
    exact ⟨_, reaches_of_runAll hRun, rfl, rfl, rfl, rfl⟩

theorem lost_wakeup (h : Reaches step ({} : EventLoop F) s) (f : F) (hUser : s.inUserCode = true)
    (hFree : s.free = true) (hOut : s.pc.inCallback = false) (hFd : s.wakeupFd = 0)
    (hQuit : s.pc = .destroying → s.quit = false) :
    ∃ s', Reaches step s s' ∧ s'.pc = .poll ∧ s'.wakeupFd = 0 ∧
      ∃ p ∈ s'.pendingFunctors, p.functor = f ∧ ¬ s'.InFlight p := by
  have hFlags := flags_of_reaches h
  -- user code that is no callback runs outside of `loop()`, or in destructors
  have hPc : s.pc = .outside ∧ s.looping = false ∨ s.pc = .destroying ∧ s.quit = false := by
    have hLooping := hFlags.looping
    revert hUser hOut hQuit
    unfold inUserCode
    split <;> simp_all [LoopPc.inCallback]
  have hCalling : s.callingPendingFunctors = false := by
    rw [hFlags.calling]
    rcases hPc with ⟨hPc, -⟩ | ⟨hPc, -⟩ <;> rw [hPc] <;> rfl
  -- the call itself, which wakes nobody
  have hPush : Reaches step s
      ((s.push f true).finishQueueInLoop ⟨s.pushed.length, true⟩) := by
    refine (Reaches.refl.next (.push f true) (if_pos fun _ => ⟨hUser, hFree⟩)).next
      (.finishPush ⟨s.pushed.length, true⟩) (if_pos ?_)
    exact List.mem_cons_self ..
  rw [finish_push_silent hCalling] at hPush
  obtain ⟨s', hRun, hPoll, hCount, hPending, hCalls⟩ := reaches_poll
    (s := { s with
      pendingFunctors := s.pendingFunctors ++ [⟨f, s.pushed.length, s.swaps⟩]
      pushed := s.pushed ++ [⟨f, s.pushed.length, s.swaps⟩] }) hPc hFree
  refine ⟨s', hPush.trans hRun, hPoll, hCount.trans hFd, ⟨f, s.pushed.length, s.swaps⟩, ?_, rfl, ?_⟩
  · rw [hPending]
    exact List.mem_append_right _ (List.mem_singleton.mpr rfl)
  · rintro ⟨call, hCall, hTicket⟩
    rw [hCalls] at hCall
    have hLt := hFlags.tickets call hCall
    simp only at hTicket
    omega

/-- **No lost wake-up.** In every run in which the loop thread queues functors only from
event callbacks and from functors, whenever it polls with a functor in its queue whose
`queueInLoop` has returned, the counter of the eventfd is positive. Any other `queueInLoop`
of the loop thread, before `loop()` or when a batch is destroyed, can be followed by a
poll with its functor in the queue and the counter zero. -/
theorem no_lost_wakeup (s : EventLoop F) :
    (ReachesBy step Inside {} s → s.pc = .poll →
      ∀ p ∈ s.pendingFunctors, ¬ s.InFlight p → 0 < s.wakeupFd) ∧
    (Reaches step {} s → s.inUserCode = true → s.free = true → s.pc.inCallback = false →
      s.wakeupFd = 0 → (s.pc = .destroying → s.quit = false) →
      ∀ f, ∃ s', Reaches step s s' ∧ s'.pc = .poll ∧ s'.wakeupFd = 0 ∧
        ∃ p ∈ s'.pendingFunctors, p.functor = f ∧ ¬ s'.InFlight p) := by
  constructor
  · intro h hPc p hp hReturned
    have hSignal := (signalled_of_reachesBy h).signal (by rw [hPc]; rfl) p hp
    exact hSignal.resolve_left hReturned
  · intro h hUser hFree hOut hFd hQuit f
    exact lost_wakeup h f hUser hFree hOut hFd hQuit

/-- A functor queues another one: the loop polls, and the counter is one. -/
theorem no_lost_wakeup_nested :
    ∃ s : EventLoop Char, runAllBy step Inside {}
        [.push 'a' false, .finishPush ⟨0, false⟩, .enter, .reset, .test, .polled true,
          .handleWakeup, .handled, .swap, .call, .push 'b' true, .finishPush ⟨1, true⟩, .ret,
          .finish, .destroyed, .test] = some s ∧
      s.pc = .poll ∧ s.pendingFunctors = [⟨'b', 1, 1⟩] ∧ 0 < s.wakeupFd := by
  obtain ⟨s, hRun, hPc, hPending, hCalls⟩ : ∃ s : EventLoop Char, runAllBy step Inside {}
      [.push 'a' false, .finishPush ⟨0, false⟩, .enter, .reset, .test, .polled true,
        .handleWakeup, .handled, .swap, .call, .push 'b' true, .finishPush ⟨1, true⟩, .ret,
        .finish, .destroyed, .test] = some s ∧
      s.pc = .poll ∧ s.pendingFunctors = [⟨'b', 1, 1⟩] ∧ s.calls = [] := ⟨_, rfl, rfl, rfl, rfl⟩
  refine ⟨s, hRun, hPc, hPending,
    (no_lost_wakeup s).1 (reachesBy_of_runAllBy hRun) hPc ⟨'b', 1, 1⟩ ?_ ?_⟩
  · rw [hPending]
    exact List.mem_singleton.mpr rfl
  · rintro ⟨call, hCall, -⟩
    simp [hCalls] at hCall

/-- A functor that is queued on the loop thread before `loop()`: the first poll has it in
the queue, nobody is about to wake the loop, and the counter is zero. -/
theorem queued_before_loop_not_woken :
    ∃ s : EventLoop Char, runAll step {}
        [.push 'a' true, .finishPush ⟨0, true⟩, .enter, .reset, .test] = some s ∧
      s.pc = .poll ∧ s.pendingFunctors = [⟨'a', 0, 0⟩] ∧ s.calls = [] ∧ s.wakeupFd = 0 :=
  ⟨_, rfl, rfl, rfl, rfl, rfl⟩

end EventLoop

end ReactorNet
