import ReactorNet.Lib.System

/-!
# ReactorNet — the event loop and its queue

`EventLoop` of `src/EventLoop.cpp`: the thread that polls, handles events and runs the
functors that were queued for it, and the other threads that queue them and ask it to
quit. `pc` is where the loop thread is. It runs user code in event callbacks, in functors,
when the functors of a batch are destroyed, and before and after `loop()`; there it may
call `queueInLoop` and `quit` itself.

A call of `queueInLoop` is two steps, the push under the mutex and the wake-up after it,
and anything can happen between them. Pushes are numbered, and a functor carries the
number of its push and how often the queue had been swapped out by then.

Main result: `functors_run_once_in_order`.
-/

namespace ReactorNet

open Lib

/-- A functor in the queue. -/
structure Posted (F : Type) where
  functor : F
  /-- The number of its push. -/
  ticket : Nat
  /-- How many batches had been swapped out when it was pushed. -/
  swaps : Nat
  deriving DecidableEq, Repr

/-- A call of `queueInLoop` that has pushed its functor and not returned yet. -/
structure QueueCall where
  ticket : Nat
  /-- The call is made on the loop thread. -/
  onLoop : Bool
  deriving DecidableEq, Repr

/-- Where the loop thread is. -/
inductive LoopPc where
  /-- Before `loop()`, or after it has returned. -/
  | outside
  /-- In `loop()`, before `quit_ = false`. -/
  | entering
  /-- At the condition of the `while`. -/
  | check
  | poll
  /-- Walking `activeChannels_`; the wake-up channel is still to be handled or not. -/
  | handling (woken : Bool)
  /-- In `doPendingFunctors`, before the swap. -/
  | swapping
  /-- In the loop over the batch. -/
  | running
  /-- In a functor. -/
  | functor
  /-- After that loop: the vector with the batch is destroyed. -/
  | destroying
  deriving DecidableEq, Repr

structure EventLoop (F : Type) where
  pc : LoopPc := .outside
  looping : Bool := false
  quit : Bool := false
  callingPendingFunctors : Bool := false
  iteration : Nat := 0
  pendingFunctors : List (Posted F) := []
  /-- The vector that was swapped out. -/
  batch : List (Posted F) := []
  /-- The functors of it that have not been called yet. -/
  functors : List (Posted F) := []
  /-- The counter of the eventfd. -/
  wakeupFd : Nat := 0
  calls : List QueueCall := []
  /-- Calls of `quit` on other threads that have stored the flag and not returned yet. -/
  quitCalls : Nat := 0
  swaps : Nat := 0
  /-- All pushes, in the order in which the mutex was taken. -/
  pushed : List (Posted F) := []
  /-- The functors that were called, each with the number of its batch. -/
  executed : List (Posted F × Nat) := []

namespace EventLoop

variable {F : Type}

/-- The loop thread is not in the middle of a `queueInLoop` of its own. -/
def free (s : EventLoop F) : Bool := s.calls.all fun call => !call.onLoop

/-- The loop thread is in code of the user. -/
def inUserCode (s : EventLoop F) : Bool :=
  match s.pc with
  | .outside | .handling _ | .functor => true
  -- destructors run only if there is something to destroy
  | .destroying => !s.batch.isEmpty
  | _ => false

def wakeup (s : EventLoop F) : EventLoop F := { s with wakeupFd := s.wakeupFd + 1 }

/-- `queueInLoop`, up to the end of the critical section. -/
def push (s : EventLoop F) (f : F) (onLoop : Bool) : EventLoop F :=
  let p : Posted F := ⟨f, s.pushed.length, s.swaps⟩
  { s with
    pendingFunctors := s.pendingFunctors ++ [p]
    pushed := s.pushed ++ [p]
    calls := ⟨p.ticket, onLoop⟩ :: s.calls }

/-- The rest of that call. -/
def finishQueueInLoop (s : EventLoop F) (call : QueueCall) : EventLoop F :=
  -- the flag is not guarded by the mutex; only the loop thread reads it
  let returned := { s with calls := s.calls.erase call }
  if call.onLoop = false ∨ s.callingPendingFunctors = true then returned.wakeup else returned

/-- What can happen next. -/
inductive Action (F : Type) where
  /-- The loop thread enters `loop()`. -/
  | enter
  /-- `quit_ = false`. -/
  | reset
  /-- `while (!quit_)`. -/
  | test
  /-- `poll` returns, with the wake-up channel in `activeChannels_` or without it. -/
  | polled (woken : Bool)
  | handleWakeup
  /-- All active channels are handled. -/
  | handled
  | swap
  | call
  | ret
  /-- The last functor of the batch has returned. -/
  | finish
  | destroyed
  /-- `queueInLoop`, on the loop thread or on another one. -/
  | push (f : F) (onLoop : Bool)
  | finishPush (call : QueueCall)
  /-- `quit`, on the loop thread. -/
  | quit
  /-- `quit`, on another thread: the store, and the wake-up after it. -/
  | quitStore
  | quitWake
  deriving DecidableEq

def step (s : EventLoop F) : Action F → Option (EventLoop F)
  | .enter =>
    -- the assertion of the source
    if s.pc = .outside ∧ s.free ∧ s.looping = false then
      some { s with pc := .entering, looping := true }
    else none
  | .reset => if s.pc = .entering then some { s with pc := .check, quit := false } else none
  | .test =>
    -- a request is seen here and nowhere else
    if s.pc = .check then
      some (if s.quit then { s with pc := .outside, looping := false } else { s with pc := .poll })
    else none
  | .polled woken =>
    -- the descriptor is readable only if the counter is positive
    if s.pc = .poll ∧ (woken = true → 0 < s.wakeupFd) then
      some { s with pc := .handling woken, iteration := s.iteration + 1 }
    else none
  | .handleWakeup =>
    -- the read takes the whole counter
    if s.pc = .handling true ∧ s.free then
      some { s with pc := .handling false, wakeupFd := 0 }
    else none
  | .handled =>
    if s.pc = .handling false ∧ s.free then
      some { s with pc := .swapping, callingPendingFunctors := true }
    else none
  | .swap =>
    -- under the mutex; the functors run without it
    if s.pc = .swapping then
      some { s with
        pc := .running
        batch := s.pendingFunctors
        functors := s.pendingFunctors
        pendingFunctors := []
        swaps := s.swaps + 1 }
    else none
  | .call =>
    match s.pc, s.functors with
    | .running, p :: rest =>
      some { s with
        pc := .functor
        functors := rest
        executed := s.executed ++ [(p, s.swaps)] }
    | _, _ => none
  | .ret => if s.pc = .functor ∧ s.free then some { s with pc := .running } else none
  | .finish =>
    if s.pc = .running ∧ s.functors = [] then
      some { s with pc := .destroying, callingPendingFunctors := false }
    else none
  | .destroyed =>
    -- the local vector goes when `doPendingFunctors` returns, after the flag
    if s.pc = .destroying ∧ s.free then some { s with pc := .check, batch := [] } else none
  | .push f onLoop =>
    -- other threads push at any time
    if onLoop = true → s.inUserCode ∧ s.free then some (s.push f onLoop) else none
  | .finishPush call => if call ∈ s.calls then some (s.finishQueueInLoop call) else none
  -- the loop thread does not wake itself
  | .quit => if s.inUserCode ∧ s.free then some { s with quit := true } else none
  | .quitStore => some { s with quit := true, quitCalls := s.quitCalls + 1 }
  | .quitWake =>
    if 0 < s.quitCalls then some { s with quitCalls := s.quitCalls - 1 }.wakeup else none

/-- What a step does, with what had to hold for it. -/
inductive Outcome (s : EventLoop F) : Action F → EventLoop F → Prop
  | entered (hPc : s.pc = .outside) (hFree : s.free = true) (hLooping : s.looping = false) :
      Outcome s .enter { s with pc := .entering, looping := true }
  | reset (hPc : s.pc = .entering) : Outcome s .reset { s with pc := .check, quit := false }
  | left (hPc : s.pc = .check) (hQuit : s.quit = true) :
      Outcome s .test { s with pc := .outside, looping := false }
  | polls (hPc : s.pc = .check) (hQuit : s.quit = false) : Outcome s .test { s with pc := .poll }
  | polled (woken : Bool) (hPc : s.pc = .poll) (hWoken : woken = true → 0 < s.wakeupFd) :
      Outcome s (.polled woken) { s with pc := .handling woken, iteration := s.iteration + 1 }
  | read (hPc : s.pc = .handling true) (hFree : s.free = true) :
      Outcome s .handleWakeup { s with pc := .handling false, wakeupFd := 0 }
  | handled (hPc : s.pc = .handling false) (hFree : s.free = true) :
      Outcome s .handled { s with pc := .swapping, callingPendingFunctors := true }
  | swapped (hPc : s.pc = .swapping) :
      Outcome s .swap
        { s with
          pc := .running
          batch := s.pendingFunctors
          functors := s.pendingFunctors
          pendingFunctors := []
          swaps := s.swaps + 1 }
  | called (p : Posted F) (rest : List (Posted F)) (hPc : s.pc = .running)
      (hFunctors : s.functors = p :: rest) :
      Outcome s .call
        { s with pc := .functor, functors := rest, executed := s.executed ++ [(p, s.swaps)] }
  | returned (hPc : s.pc = .functor) (hFree : s.free = true) :
      Outcome s .ret { s with pc := .running }
  | finished (hPc : s.pc = .running) (hFunctors : s.functors = []) :
      Outcome s .finish { s with pc := .destroying, callingPendingFunctors := false }
  | destroyed (hPc : s.pc = .destroying) (hFree : s.free = true) :
      Outcome s .destroyed { s with pc := .check, batch := [] }
  | pushed (f : F) (onLoop : Bool)
      (hUser : onLoop = true → s.inUserCode = true ∧ s.free = true) :
      Outcome s (.push f onLoop) (s.push f onLoop)
  | queued (call : QueueCall) (hCall : call ∈ s.calls) :
      Outcome s (.finishPush call) (s.finishQueueInLoop call)
  | quit (hUser : s.inUserCode = true) : Outcome s .quit { s with quit := true }
  | quitStored : Outcome s .quitStore { s with quit := true, quitCalls := s.quitCalls + 1 }
  | quitWoken (hQuit : 0 < s.quitCalls) :
      Outcome s .quitWake { s with quitCalls := s.quitCalls - 1 }.wakeup

/-- **Inversion of a step.** -/
theorem step_outcome {s s' : EventLoop F} {a : Action F} (h : s.step a = some s') :
    s.Outcome a s' := by
  -- the guard of each action says where the loop thread is
  cases a with
  | enter =>
    simp only [step] at h
    split_ifs at h with hGuard
    exact Option.some.inj h ▸ .entered hGuard.1 hGuard.2.1 hGuard.2.2
  | reset =>
    simp only [step] at h
    split_ifs at h with hPc
    exact Option.some.inj h ▸ .reset hPc
  | test =>
    simp only [step] at h
    split_ifs at h with hPc hQuit
    · exact Option.some.inj h ▸ .left hPc hQuit
    · exact Option.some.inj h ▸ .polls hPc (by simpa using hQuit)
  | polled woken =>
    simp only [step] at h
    split_ifs at h with hGuard
    exact Option.some.inj h ▸ .polled woken hGuard.1 hGuard.2
  | handleWakeup =>
    simp only [step] at h
    split_ifs at h with hGuard
    exact Option.some.inj h ▸ .read hGuard.1 hGuard.2
  | handled =>
    simp only [step] at h
    split_ifs at h with hGuard
    exact Option.some.inj h ▸ .handled hGuard.1 hGuard.2
  | swap =>
    simp only [step] at h
    split_ifs at h with hPc
    exact Option.some.inj h ▸ .swapped hPc
  | call =>
    simp only [step] at h
    split at h
    · exact Option.some.inj h ▸ .called _ _ ‹_› ‹_›
    · cases h
  | ret =>
    simp only [step] at h
    split_ifs at h with hGuard
    exact Option.some.inj h ▸ .returned hGuard.1 hGuard.2
  | finish =>
    simp only [step] at h
    split_ifs at h with hGuard
    exact Option.some.inj h ▸ .finished hGuard.1 hGuard.2
  | destroyed =>
    simp only [step] at h
    split_ifs at h with hGuard
    exact Option.some.inj h ▸ .destroyed hGuard.1 hGuard.2
  | push f onLoop =>
    simp only [step] at h
    split_ifs at h with hGuard
    exact Option.some.inj h ▸ .pushed f onLoop hGuard
  | finishPush call =>
    simp only [step] at h
    split_ifs at h with hCall
    exact Option.some.inj h ▸ .queued call hCall
  | quit =>
    simp only [step] at h
    split_ifs at h with hGuard
    exact Option.some.inj h ▸ .quit hGuard.1
  | quitStore => exact Option.some.inj h ▸ .quitStored
  | quitWake =>
    simp only [step] at h
    split_ifs at h with hQuit
    exact Option.some.inj h ▸ .quitWoken hQuit

/-! ## The order of the functors -/

/-- What was called, what is left of the batch and what is queued are the pushes, in their
order, and each part is from before the swaps that the next one waits for. -/
structure Ordered (s : EventLoop F) : Prop where
  split : s.executed.map Prod.fst ++ s.functors ++ s.pendingFunctors = s.pushed
  numbered : s.pushed.map Posted.ticket = List.range s.pushed.length
  between : s.pc ≠ .running → s.pc ≠ .functor → s.functors = []
  queued : ∀ p ∈ s.pendingFunctors, p.swaps ≤ s.swaps
  batched : ∀ p ∈ s.functors, p.swaps < s.swaps
  called : ∀ e ∈ s.executed, e.1.swaps < e.2

variable {s s' : EventLoop F}

/-- A step that leaves the queue and the histories alone. -/
theorem Ordered.same (h : Ordered s) (hPending : s'.pendingFunctors = s.pendingFunctors)
    (hFunctors : s'.functors = s.functors) (hSwaps : s'.swaps = s.swaps)
    (hPushed : s'.pushed = s.pushed) (hExecuted : s'.executed = s.executed)
    (hPc : s'.pc ≠ .running → s'.pc ≠ .functor → s.functors = []) : Ordered s' where
  split := by rw [hExecuted, hFunctors, hPending, hPushed]; exact h.split
  numbered := by rw [hPushed]; exact h.numbered
  between hRunning hFunctor := by rw [hFunctors]; exact hPc hRunning hFunctor
  queued := by rw [hPending, hSwaps]; exact h.queued
  batched := by rw [hFunctors, hSwaps]; exact h.batched
  called := by rw [hExecuted]; exact h.called

theorem Ordered.push (h : Ordered s) (f : F) (onLoop : Bool) : Ordered (s.push f onLoop) where
  split := by
    show s.executed.map Prod.fst ++ s.functors ++ (s.pendingFunctors ++ [_]) = s.pushed ++ [_]
    rw [← List.append_assoc, h.split]
  numbered := by
    show (s.pushed ++ [_]).map Posted.ticket = List.range (s.pushed ++ [_]).length
    rw [List.map_append, h.numbered, List.length_append, List.length_singleton, List.range_succ]
    rfl
  between := h.between
  queued p hp := by
    rcases List.mem_append.mp hp with hp | hp
    · exact h.queued p hp
    · rw [List.mem_singleton.mp hp]
      exact le_rfl
  batched := h.batched
  called := h.called

theorem Ordered.finishQueueInLoop (h : Ordered s) (call : QueueCall) :
    Ordered (s.finishQueueInLoop call) := by
  unfold EventLoop.finishQueueInLoop
  simp only
  split_ifs
  · exact h.same rfl rfl rfl rfl rfl h.between
  · exact h.same rfl rfl rfl rfl rfl h.between

/-- **The step lemma.** Functors are queued at the back, swapped out together, and run from the
front. -/
theorem ordered_step {a : Action F} (hStep : s.step a = some s') (h : Ordered s) : Ordered s' := by
  -- where the loop thread is not in a batch, there is none to be lost
  have hNone : ∀ {pc : LoopPc}, s.pc = pc → pc ≠ .running → pc ≠ .functor → s.functors = [] :=
    fun hPc hRunning hFunctor => h.between (hPc ▸ hRunning) (hPc ▸ hFunctor)
  cases step_outcome hStep with
  | entered hPc | reset hPc | left hPc | polls hPc | polled _ hPc | read hPc | handled hPc
  | destroyed hPc =>
    exact h.same rfl rfl rfl rfl rfl fun _ _ => hNone hPc (by simp) (by simp)
  | swapped hPc =>
    -- the queue becomes the batch, and all of it was pushed before this swap
    have hEmpty := hNone hPc (by simp) (by simp)
    have hSplit := h.split
    rw [hEmpty, List.append_nil] at hSplit
    exact
      { split := by rw [List.append_nil]; exact hSplit
        numbered := h.numbered
        between := fun hRunning => absurd rfl hRunning
        queued := by simp
        batched := fun p hp => Nat.lt_succ_of_le (h.queued p hp)
        called := h.called }
  | called p rest hPc hFunctors =>
    -- the front of the batch goes over to what was called
    have hSplit := h.split
    rw [hFunctors] at hSplit
    exact
      { split := by simpa using hSplit
        numbered := h.numbered
        between := fun _ hFunctor => absurd rfl hFunctor
        queued := h.queued
        batched := fun q hq => h.batched q (by rw [hFunctors]; exact List.mem_cons_of_mem _ hq)
        called := fun e he => by
          rcases List.mem_append.mp he with he | he
          · exact h.called e he
          · rw [List.mem_singleton.mp he]
            exact h.batched p (by rw [hFunctors]; exact List.mem_cons_self ..) }
  | returned => exact h.same rfl rfl rfl rfl rfl fun hRunning => absurd rfl hRunning
  | finished hPc hFunctors => exact h.same rfl rfl rfl rfl rfl fun _ _ => hFunctors
  | pushed f onLoop => exact h.push f onLoop
  | queued call => exact h.finishQueueInLoop call
  | quit | quitStored | quitWoken => exact h.same rfl rfl rfl rfl rfl h.between

theorem ordered_of_reaches (h : Reaches step ({} : EventLoop F) s) : Ordered s :=
  h.invariant (P := Ordered) ⟨rfl, rfl, fun _ _ => rfl, by simp, by simp, by simp⟩
    fun _ _ _ => ordered_step

/-- **Functors run once and in order.** In every run of the loop thread and of threads that
queue functors, the functors that were called are a prefix of those that were pushed, each
push is called at most once, and each functor is called in a batch that was swapped out
after it was pushed, so never in one that was already running then. -/
theorem functors_run_once_in_order (h : Reaches step ({} : EventLoop F) s) :
    s.executed.map Prod.fst <+: s.pushed ∧
    (s.executed.map fun e => e.1.ticket).Nodup ∧
    ∀ e ∈ s.executed, e.1.swaps < e.2 := by
  have hOrdered := ordered_of_reaches h
  have hSplit := hOrdered.split
  rw [List.append_assoc] at hSplit
  refine ⟨⟨_, hSplit⟩, ?_, hOrdered.called⟩
  -- the numbers of the pushes are `0, 1, 2, ...`
  have hNodup : (s.pushed.map Posted.ticket).Nodup := by
    rw [hOrdered.numbered]
    exact List.nodup_range
  rw [← hSplit, List.map_append, List.map_map] at hNodup
  exact hNodup.of_append_left

/-- Another thread queues `a`, and `a` queues `b`: that is in the next batch. -/
theorem functors_run_once_in_order_nested :
    ∃ s : EventLoop Char, runAll step {}
        [.enter, .reset, .push 'a' false, .finishPush ⟨0, false⟩, .test, .polled true,
          .handleWakeup, .handled, .swap, .call, .push 'b' true, .finishPush ⟨1, true⟩, .ret,
          .finish, .destroyed, .test, .polled true, .handleWakeup, .handled, .swap, .call] =
          some s ∧
      s.executed = [(⟨'a', 0, 0⟩, 1), (⟨'b', 1, 1⟩, 2)] ∧
      s.executed.map Prod.fst <+: s.pushed := by
  obtain ⟨s, hRun, hExecuted⟩ : ∃ s : EventLoop Char, runAll step {}
      [.enter, .reset, .push 'a' false, .finishPush ⟨0, false⟩, .test, .polled true,
        .handleWakeup, .handled, .swap, .call, .push 'b' true, .finishPush ⟨1, true⟩, .ret,
        .finish, .destroyed, .test, .polled true, .handleWakeup, .handled, .swap, .call] =
        some s ∧
      s.executed = [(⟨'a', 0, 0⟩, 1), (⟨'b', 1, 1⟩, 2)] := ⟨_, rfl, rfl⟩
  exact ⟨s, hRun, hExecuted, (functors_run_once_in_order (reaches_of_runAll hRun)).1⟩

end EventLoop

end ReactorNet
