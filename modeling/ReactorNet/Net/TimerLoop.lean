import ReactorNet.Net.TimerBatch

/-!
# ReactorNet — the timer queue in the turns of its loop

`TimerQueue.step` lets the loop read the timerfd and run functors in any order. Here the
order is that of `EventLoop::loop`: `poll`, then the callbacks of the channels, of which the
timerfd is one, then `doPendingFunctors`, which swaps the pending functors out and runs them.
What is queued meanwhile waits for the next turn.

User code runs in the callbacks of any channel, in functors of its own and in the destructors of
callbacks, so it may add and cancel timers at any time at which the queue itself is not at work.

* `turn` — the turn in which a queued functor runs. It is known when the functor is queued,
  and it does not change.
* `good_step` — what the loop adds to the invariants of the queue.
-/

namespace ReactorNet

open Lib

/-- Where the loop is in its turn. -/
inductive LoopPhase where
  /-- In the callbacks of the channels; the timerfd has been read in this turn or not. -/
  | handling (handled : Bool)
  /-- In `doPendingFunctors`, with this many of the functors that were swapped out to run. -/
  | running (left : Nat)
  deriving DecidableEq, Repr

structure TimerLoop where
  queue : TimerQueue := {}
  phase : LoopPhase := .handling false
  iteration : Nat := 0

namespace TimerLoop

open TimerQueue

inductive LoopAction where
  /-- A step of the queue. -/
  | queue (a : Action)
  /-- `functors.swap(pendingFunctors_)` -/
  | swap
  /-- The last functor has returned, and the loop polls again. -/
  | finish
  deriving DecidableEq, Repr

def step (s : TimerLoop) : LoopAction → Option TimerLoop
  | .queue .functor =>
    match s.phase with
    | .running (left + 1) =>
      (s.queue.step .functor).map fun q => { s with queue := q, phase := .running left }
    | _ => none
  | .queue (.handleRead readAt) =>
    match s.phase with
    | .handling false =>
      (s.queue.step (.handleRead readAt)).map fun q =>
        { s with queue := q, phase := .handling true }
    | _ => none
  | .queue a => (s.queue.step a).map fun q => { s with queue := q }
  | .swap =>
    match s.phase, s.queue.control with
    | .handling _, .idle => some { s with phase := .running s.queue.functors.length }
    | _, _ => none
  | .finish =>
    match s.phase, s.queue.control with
    | .running 0, .idle => some { s with phase := .handling false, iteration := s.iteration + 1 }
    | _, _ => none

/-- The steps of the queue that are the same at any time. -/
def anyTime : Action → Bool
  | .functor => false
  | .handleRead _ => false
  | _ => true

/-- What a step does, with what had to hold for it. -/
inductive Turns (s : TimerLoop) : LoopAction → TimerLoop → Prop
  | ran (left : Nat) (q : TimerQueue) (hPhase : s.phase = .running (left + 1))
      (hStep : s.queue.step .functor = some q) :
      Turns s (.queue .functor) { s with queue := q, phase := .running left }
  | handled (readAt : Timestamp) (q : TimerQueue) (hPhase : s.phase = .handling false)
      (hStep : s.queue.step (.handleRead readAt) = some q) :
      Turns s (.queue (.handleRead readAt)) { s with queue := q, phase := .handling true }
  | worked (a : Action) (q : TimerQueue) (hAny : anyTime a = true) (hStep : s.queue.step a = some q) :
      Turns s (.queue a) { s with queue := q }
  | swapped (handled : Bool) (hPhase : s.phase = .handling handled) (hIdle : s.queue.control = .idle) :
      Turns s .swap { s with phase := .running s.queue.functors.length }
  | finished (hPhase : s.phase = .running 0) (hIdle : s.queue.control = .idle) :
      Turns s .finish { s with phase := .handling false, iteration := s.iteration + 1 }

variable {s s' : TimerLoop} {a : LoopAction} {q q' : TimerQueue}

/-- **Inversion of a step.** -/
theorem step_turns (h : s.step a = some s') : s.Turns a s' := by
  cases a with
  | queue a =>
    cases a with
    | functor =>
      simp only [step] at h
      split at h
      · obtain ⟨q, hq, rfl⟩ := Option.map_eq_some_iff.mp h
        exact .ran _ q ‹_› hq
      · cases h
    | handleRead readAt =>
      simp only [step] at h
      split at h
      · obtain ⟨q, hq, rfl⟩ := Option.map_eq_some_iff.mp h
        exact .handled readAt q ‹_› hq
      · cases h
    | _ =>
      obtain ⟨q, hq, rfl⟩ := Option.map_eq_some_iff.mp h
      exact .worked _ q rfl hq
  | swap =>
    simp only [step] at h
    split at h
    · cases h
      exact .swapped _ ‹_› ‹_›
    · cases h
  | finish =>
    simp only [step] at h
    split at h
    · cases h
      exact .finished ‹_› ‹_›
    · cases h

/-- Every step of the loop is a step of the queue, or does nothing to it. -/
theorem Turns.queue (h : s.Turns a s') :
    s'.queue = s.queue ∨ ∃ b, s.queue.step b = some s'.queue := by
  cases h with
  | ran left q _ hStep => exact Or.inr ⟨_, hStep⟩
  | handled readAt q _ hStep => exact Or.inr ⟨_, hStep⟩
  | worked a q _ hStep => exact Or.inr ⟨a, hStep⟩
  | swapped => exact Or.inl rfl
  | finished => exact Or.inl rfl

/-! ## Turns -/

/-- The turn in which the functor at this position runs. -/
def turn (s : TimerLoop) (j : Nat) : Nat :=
  match s.phase with
  | .handling _ => s.iteration
  | .running left => if j < left then s.iteration else s.iteration + 1

theorem iteration_le_turn (s : TimerLoop) (j : Nat) : s.iteration ≤ s.turn j := by
  unfold turn
  split
  · exact le_rfl
  · split_ifs <;> omega

theorem turn_le (s : TimerLoop) (j : Nat) : s.turn j ≤ s.iteration + 1 := by
  unfold turn
  split
  · omega
  · split_ifs <;> omega

/-! ## The invariant -/

/-- The batch of expired timers is worked off while the channels are handled, and no more
functors are to be run than there are. -/
structure Good (s : TimerLoop) : Prop where
  inv : Inv s.queue
  calls : Calls s.queue
  batch : s.queue.control ≠ .idle → s.phase = .handling true
  left_le : ∀ left, s.phase = .running left → left ≤ s.queue.functors.length

theorem functors_cancels {id : TimerId} {allowRetry : Bool} (h : Cancels q id allowRetry q') :
    q.functors <+: q'.functors := by
  cases h with
  | freed => exact List.prefix_rfl
  | marked => exact List.prefix_rfl
  | retried => exact List.prefix_append ..
  | nothing => exact List.prefix_rfl

theorem functors_resets {p : Addr} {now : Timestamp} {t : Timer} (h : Resets q p now t q') :
    q'.functors = q.functors ∧ q'.control = q.control := by
  cases h with
  | cancelled => exact ⟨rfl, rfl⟩
  | restarted => exact ⟨(insert_frame _ p).2.2.2.2.2.1, (insert_frame _ p).2.1⟩
  | ended => exact ⟨rfl, rfl⟩

/-- The timer that is reset next is in memory. -/
theorem memory_of_resetting {p : Addr} {rest : List Addr} {now : Timestamp} {destroying : Bool}
    (hInv : Inv q) (hControl : q.control = .resetting (p :: rest) now destroying) :
    ∃ t, q.memory p = some t := by
  obtain ⟨n, hn⟩ := hInv.sequence_of_mem (p := p) (by simp [owned, hControl, TimerControl.batch])
  obtain ⟨t, ht, -⟩ := Option.map_eq_some_iff.mp hn
  exact ⟨t, ht⟩

/-- The functors that a step of the queue leaves, but for the one it runs. -/
theorem functors_step {a : Action} (hInv : Inv q) (hAny : anyTime a = true)
    (h : q.step a = some q') : q.functors <+: q'.functors := by
  cases step_outcome h with
  | ticked => exact List.prefix_rfl
  | added p when interval repeats =>
    rw [(insert_frame _ p).2.2.2.2.2.1]
    exact List.prefix_rfl
  | posted p => exact List.prefix_append ..
  | cancelled id => exact functors_cancels (hInv.cancels id true)
  | cancelPosted id => exact List.prefix_append ..
  | ranFunctor => cases hAny
  | began => cases hAny
  | called => exact List.prefix_rfl
  | ended => exact List.prefix_rfl
  | reset p rest now _ hControl =>
    obtain ⟨t, ht⟩ := memory_of_resetting hInv hControl
    rw [(functors_resets
      (resets (q := { q with control := .resetting rest now (q.deletes p) }) ht now)).1]
  | finished =>
    obtain ⟨timerfd, lastArmed, hEq⟩ := finishReset_eq q
    rw [hEq]

/-- The functor that is run leaves the others where they are. -/
theorem functors_functor (hInv : Inv q) (h : q.step .functor = some q') :
    ∃ f rest, q.functors = f :: rest ∧ rest <+: q'.functors ∧ q'.control = .idle := by
  cases step_outcome h with
  | ranFunctor f rest hIdle hFunctors =>
    cases f with
    | insert p =>
      obtain ⟨-, hControl, -, -, -, hRest, -⟩ := insert_frame { q with functors := rest } p
      exact ⟨.insert p, rest, hFunctors, hRest ▸ List.prefix_rfl, hControl.trans hIdle⟩
    | cancelInLoop id allowRetry =>
      have hCancel := (hInv.take_cancel hFunctors).cancels id allowRetry
      exact ⟨.cancelInLoop id allowRetry, rest, hFunctors, functors_cancels hCancel,
        hCancel.control.1.trans hIdle⟩

theorem control_step {a : Action} (hInv : Inv q) (hAny : anyTime a = true)
    (h : q.step a = some q') (hBatch : q'.control ≠ .idle) : q.control ≠ .idle := by
  intro hIdle
  cases step_outcome h with
  | ticked => exact hBatch hIdle
  | added p => exact hBatch ((insert_frame _ p).2.1.trans hIdle)
  | posted => exact hBatch hIdle
  | cancelled id => exact hBatch ((hInv.cancels id true).control.1.trans hIdle)
  | cancelPosted => exact hBatch hIdle
  | ranFunctor => cases hAny
  | began => cases hAny
  | called p rest expired now hControl =>
    rw [hControl] at hIdle
    cases hIdle
  | ended expired now hControl =>
    rw [hControl] at hIdle
    cases hIdle
  | reset p rest now _ hControl =>
    rw [hControl] at hIdle
    cases hIdle
  | finished now _ hControl =>
    rw [hControl] at hIdle
    cases hIdle

/-- **The step lemma.** -/
theorem good_step (hStep : s.step a = some s') (h : Good s) : Good s' := by
  have hTurns := step_turns hStep
  have hInv : Inv s'.queue := by
    rcases hTurns.queue with hSame | ⟨b, hb⟩
    · rw [hSame]
      exact h.inv
    · exact inv_step hb h.inv
  have hCalls : Calls s'.queue := by
    rcases hTurns.queue with hSame | ⟨b, hb⟩
    · rw [hSame]
      exact h.calls
    · exact calls_step hb h.inv h.calls
  cases hTurns with
  | ran left q hPhase hq =>
    -- one swapped-out functor less, and new ones go to the back
    obtain ⟨f, rest, hFunctors, hRest, hIdle⟩ := functors_functor h.inv hq
    refine ⟨hInv, hCalls, fun hBatch => absurd hIdle hBatch, fun left' hLeft => ?_⟩
    obtain rfl : left = left' := LoopPhase.running.inj hLeft
    have hLe := h.left_le _ hPhase
    rw [hFunctors, List.length_cons] at hLe
    have hLength := hRest.length_le
    show left ≤ q.functors.length
    omega
  | handled readAt q hPhase hq =>
    exact ⟨hInv, hCalls, fun _ => rfl, fun left hLeft => by cases hLeft⟩
  | worked a q hAny hq =>
    have hFunctors := functors_step h.inv hAny hq
    refine ⟨hInv, hCalls, fun hBatch => h.batch (control_step h.inv hAny hq hBatch),
      fun left hLeft => (h.left_le left hLeft).trans hFunctors.length_le⟩
  | swapped handled hPhase hIdle =>
    refine ⟨hInv, hCalls, fun hBatch => absurd hIdle hBatch, fun left hLeft => ?_⟩
    obtain rfl := LoopPhase.running.inj hLeft
    exact le_rfl
  | finished hPhase hIdle =>
    exact ⟨hInv, hCalls, fun hBatch => absurd hIdle hBatch, fun left hLeft => by cases hLeft⟩

theorem good_new (heap : HeapAlgorithms Addr Int) : Good { queue := { heap := heap } } :=
  ⟨inv_new heap, calls_new heap, fun h => absurd rfl h, fun left hLeft => by cases hLeft⟩

end TimerLoop

end ReactorNet
