import ReactorNet.Net.TimerFate

/-!
# ReactorNet — what `cancel` promises

A cancel that is executed on the loop finds its timer in the heap and frees it, or finds it in
the running batch and marks it for `reset`, or queues its one retry. The retry runs behind the
insert that the cancel may have overtaken: if the insert was among the functors that had been
swapped out, the loop polls in between, and a timer that is due there is called once and, if it
repeats, armed once more before the retry frees it.

A destructor that runs in `reset` comes too late to mark a timer of the batch: its cancel queues
the retry too, and a timer that repeats is armed once more before the retry frees it in the same
turn.

* `Executed` — what the execution of a cancel is, called or taken from the queue.
* `Untouched` — what it leaves alone.
* `cancel_semantics` — what becomes of the timer, in every run.
-/

namespace ReactorNet

open Lib

namespace TimerLoop

open TimerQueue

variable {q q' : TimerQueue} {id : TimerId} {n gone : Nat} {s s' s'' : TimerLoop}

/-! ## Executing a cancel -/

/-- `cancel(id)` is executed on the loop: it is called there, or it was queued and is the
functor that is run. -/
def executesCancel (s : TimerLoop) (id : TimerId) : LoopAction → Prop
  | .queue (.cancel id' onLoop) => id' = id ∧ onLoop = true
  | .queue .functor => s.queue.functors.head? = some (.cancelInLoop id true)
  | _ => False

/-- The functor is among those that the loop has swapped out. -/
def SwappedOut (s : TimerLoop) (i : Nat) : Prop := ∃ left, s.phase = .running left ∧ i < left

/-- The queue when the first functors have been taken from it. -/
def past (q : TimerQueue) (gone : Nat) : TimerQueue := { q with functors := q.functors.drop gone }

/-- `cancelInLoop` is executed: the functor that held it is gone. -/
structure Executed (id : TimerId) (allowRetry : Bool) (gone : Nat) (s s' : TimerLoop) : Prop where
  inv : Inv (past s.queue gone)
  cancels : Cancels (past s.queue gone) id allowRetry s'.queue
  moves : Moves gone s s'
  iteration : s'.iteration = s.iteration
  ours : ∀ f ∈ s.queue.functors.take gone, f = .cancelInLoop id allowRetry
  handling : ∀ handled, s.phase = .handling handled → s'.phase = .handling handled

variable {allowRetry : Bool} {i : Nat}

theorem executed_functor (hGood : Good s)
    (hHead : s.queue.functors.head? = some (.cancelInLoop id allowRetry))
    (hStep : s.step (.queue .functor) = some s') : Executed id allowRetry 1 s s' := by
  cases step_turns hStep with
  | worked _ _ hAny => cases hAny
  | ran left q hPhase hq =>
    cases step_outcome hq with
    | ranFunctor f rest hIdle hFunctors =>
      rw [hFunctors, List.head?_cons, Option.some.injEq] at hHead
      subst hHead
      have hRest : past s.queue 1 = { s.queue with functors := rest } := by rw [past, hFunctors]; rfl
      have hInv := hGood.inv.take_cancel hFunctors
      refine ⟨?_, ?_, moves_ran _ hPhase hIdle, rfl, fun f hf => ?_,
        fun handled hHandling => ?_⟩
      · rw [hRest]
        exact hInv
      · rw [hRest]
        exact hInv.cancels id allowRetry
      · rw [hFunctors] at hf
        exact List.mem_singleton.mp hf
      · rw [hPhase] at hHandling
        cases hHandling

theorem executed_cancel {a : LoopAction} (hGood : Good s) (hCancel : executesCancel s id a)
    (hStep : s.step a = some s') : ∃ gone, Executed id true gone s s' := by
  cases step_turns hStep with
  | ran => exact ⟨1, executed_functor hGood hCancel hStep⟩
  | handled => exact hCancel.elim
  | swapped => exact hCancel.elim
  | finished => exact hCancel.elim
  | worked a q hAny hq =>
    -- of what user code does, only `cancel` itself
    cases step_outcome hq with
    | cancelled id' =>
      obtain ⟨rfl, -⟩ := hCancel
      exact ⟨0, hGood.inv, hGood.inv.cancels id' true, moves_worked _, rfl, (fun f hf => by cases hf),
        fun _ hHandling => hHandling⟩
    | cancelPosted =>
      obtain ⟨-, hOnLoop⟩ := hCancel
      cases hOnLoop
    | ranFunctor => cases hAny
    | began => cases hAny
    | ticked => exact hCancel.elim
    | added => exact hCancel.elim
    | posted => exact hCancel.elim
    | called => exact hCancel.elim
    | ended => exact hCancel.elim
    | reset => exact hCancel.elim
    | finished => exact hCancel.elim

/-! ## Other timers -/

/-- The timer of a handle is left alone. -/
structure Untouched (id : TimerId) (q q' : TimerQueue) : Prop where
  memory : q'.memory id.timer = q.memory id.timer
  timers : id.timer ∈ q'.timers ↔ id.timer ∈ q.timers
  active : id ∈ q'.activeTimers ↔ id ∈ q.activeTimers
  canceling : id ∈ q'.cancelingTimers ↔ id ∈ q.cancelingTimers
  control : q'.control = q.control
  expired : q'.expiredTimers = q.expiredTimers
  inserting : q'.inserting = q.inserting
  log : ∃ new, q'.log = q.log ++ new ∧ ∀ e ∈ new, e.sequence ≠ some id.sequence

theorem inserting_append (fs gs : List TimerFunctor) :
    TimerQueue.inserting { q with functors := fs ++ gs } =
      TimerQueue.inserting { q with functors := fs } ++
        TimerQueue.inserting { q with functors := gs } :=
  List.filterMap_append

theorem inserting_cancels {fs : List TimerFunctor} (h : ∀ f ∈ fs, f = .cancelInLoop id allowRetry) :
    TimerQueue.inserting { q with functors := fs } = [] := by
  refine List.filterMap_eq_nil_iff.mpr fun f hf => ?_
  rw [h f hf]

theorem Executed.inserting (h : Executed id allowRetry gone s s') :
    (past s.queue gone).inserting = s.queue.inserting := by
  have hSplit := inserting_append (q := s.queue) (s.queue.functors.take gone) (s.queue.functors.drop gone)
  rw [List.take_append_drop, inserting_cancels h.ours, List.nil_append] at hSplit
  exact hSplit.symm

/-- **A cancel touches no other timer**, not even one at the same address. -/
theorem Executed.untouched {id' : TimerId} (h : Executed id allowRetry gone s s')
    (hOther : id' ≠ id) (hLive : s.queue.sequence id'.timer = some id'.sequence) :
    Untouched id' s.queue s'.queue := by
  have hQuiet : ∃ new, s.queue.log = s.queue.log ++ new ∧ ∀ e ∈ new, e.sequence ≠ some id'.sequence :=
    ⟨[], (List.append_nil _).symm, fun e he => by cases he⟩
  have hInserting := h.inserting
  have hInv := h.inv
  have hCancels := h.cancels
  generalize s'.queue = q' at hCancels ⊢
  cases hCancels with
  | freed _ hActive =>
    obtain ⟨hMem, hSequence⟩ := (hInv.owns.active id).mp hActive
    -- a live timer at the same address would have the same handle
    have hElsewhere : id'.timer ≠ id.timer := fun hEq => hOther (timerId_unique hEq hLive hSequence)
    have hNumber := sequence_ne (q := past s.queue gone) hInv hLive hElsewhere.symm
    exact
      { memory := Function.update_of_ne hElsewhere _ _
        timers := ((past s.queue gone).heap.makeHeap_perm _).mem_iff.trans (List.mem_erase_of_ne hElsewhere)
        active := Finset.mem_erase.trans (and_iff_right hOther)
        canceling := Iff.rfl
        control := rfl
        expired := rfl
        inserting := hInserting
        log := ⟨_, rfl, fun e he => by
          rw [List.mem_singleton.mp he]
          exact hNumber⟩ }
  | marked =>
    exact
      { memory := rfl
        timers := Iff.rfl
        active := Iff.rfl
        canceling := Finset.mem_insert.trans (or_iff_right hOther)
        control := rfl
        expired := rfl
        inserting := hInserting
        log := hQuiet }
  | retried =>
    refine
      { memory := rfl
        timers := Iff.rfl
        active := Iff.rfl
        canceling := Iff.rfl
        control := rfl
        expired := rfl
        inserting := ?_
        log := hQuiet }
    rw [← hInserting]
    exact (inserting_append (q := s.queue) _ _).trans (List.append_nil _)
  | nothing =>
    exact
      { memory := rfl
        timers := Iff.rfl
        active := Iff.rfl
        canceling := Iff.rfl
        control := rfl
        expired := rfl
        inserting := hInserting
        log := hQuiet }

theorem Executed.functors (h : Executed id allowRetry gone s s') {f : TimerFunctor}
    (hf : f ∈ s'.queue.functors) : f ∈ s.queue.functors ∨ f = .cancelInLoop id false := by
  have hCancels := h.cancels
  generalize s'.queue = q' at hCancels hf
  cases hCancels with
  | freed => exact Or.inl (List.mem_of_mem_drop hf)
  | marked => exact Or.inl (List.mem_of_mem_drop hf)
  | nothing => exact Or.inl (List.mem_of_mem_drop hf)
  | retried =>
    rcases List.mem_append.mp hf with hBefore | hNew
    · exact Or.inl (List.mem_of_mem_drop hBefore)
    · exact Or.inr (List.mem_singleton.mp hNew)

/-! ## Its own timer -/

/-- A timer was freed, and nothing was done to it afterwards. -/
def Freed (q : TimerQueue) (n : Nat) : Prop :=
  ∃ before after, q.log = before ++ .deleted (some n) :: after ∧ ∀ e ∈ after, e.sequence ≠ some n

theorem freed_of_mem (hInv : Inv q) (h : .deleted (some n) ∈ q.log) : Freed q n := by
  obtain ⟨before, after, hLog⟩ := List.append_of_mem h
  refine ⟨before, after, hLog, fun e he => ?_⟩
  have hQuiet := hInv.ledger.quiet
  rw [hLog, List.pairwise_append, List.pairwise_cons] at hQuiet
  exact hQuiet.2.1.1 e he n rfl

theorem functor_of_inserting {p : Addr} (h : p ∈ q.inserting) :
    ∃ i : Nat, q.functors[i]? = some (.insert p) := by
  obtain ⟨f, hf, hInsert⟩ := List.mem_filterMap.mp h
  cases f with
  | insert p' =>
    cases hInsert
    exact List.mem_iff_getElem?.mp hf
  | cancelInLoop => cases hInsert

/-- A live timer waits for its insert, is in the heap, or is in the batch. -/
theorem place_of_live (hInv : Inv q) (hLive : q.sequence id.timer = some id.sequence) :
    id.timer ∈ q.timers ∨ id.timer ∈ q.control.batch ∨ id.timer ∈ q.inserting := by
  have hOwned : id.timer ∈ q.owned := (hInv.owns.live id.timer).mpr (by rw [hLive]; rfl)
  rcases List.mem_append.mp hOwned with hMem | hBatch
  · rcases List.mem_append.mp hMem with hInserting | hTimers
    · exact Or.inr (Or.inr hInserting)
    · exact Or.inl hTimers
  · exact Or.inr (Or.inl hBatch)

/-- **In the heap**: freed at once. -/
theorem Executed.heap (h : Executed id true gone s s')
    (hLive : s.queue.sequence id.timer = some id.sequence) (hTimers : id.timer ∈ s.queue.timers) :
    s'.queue.log = s.queue.log ++ [.deleted (some id.sequence)] := by
  have hActive : id ∈ s.queue.activeTimers := (h.inv.owns.active id).mpr ⟨hTimers, hLive⟩
  have hCancels := h.cancels
  generalize s'.queue = q' at hCancels ⊢
  cases hCancels with
  | freed =>
    rw [← hLive]
    rfl
  | marked _ hNot => exact absurd hActive hNot
  | retried hNot => exact absurd hActive hNot

/-- Neither test of `cancelInLoop` finds the timer: the retry is queued. -/
theorem Executed.retries (h : Executed id true gone s s') (hActive : id ∉ s.queue.activeTimers)
    (hBatch : ¬ (s.queue.callingExpiredTimers = true ∧ id ∈ s.queue.expiredTimers)) :
    s'.queue = (past s.queue gone).queueInLoop (.cancelInLoop id false) := by
  have hCancels := h.cancels
  generalize s'.queue = q' at hCancels ⊢
  cases hCancels with
  | freed _ hMem => exact absurd hMem hActive
  | marked _ _ hMem => exact absurd hMem hBatch
  | retried => rfl

theorem not_active_of_batch (hInv : Inv q) (hBatch : id.timer ∈ q.control.batch) :
    id ∉ q.activeTimers := fun hMem =>
  hInv.not_mem_timers_of_batch hBatch ((hInv.owns.active id).mp hMem).1

/-- **In the batch**, while the callbacks are called: marked. -/
theorem Executed.batch (h : Executed id true gone s s') (hGood : Good s)
    (hLive : s.queue.sequence id.timer = some id.sequence)
    (hBatch : id.timer ∈ s.queue.control.batch) (hCalling : s.queue.callingExpiredTimers = true) :
    Marked id s' ∧ Fate id s.iteration s' 1 0 ∧ s'.queue.log = s.queue.log := by
  have hActive := not_active_of_batch hGood.inv hBatch
  -- what the second test of `cancelInLoop` asks for
  have hExpired : id ∈ s.queue.expiredTimers := by
    obtain ⟨⟨rest, expired, now, hControl⟩, -⟩ := hGood.inv.batched.calling hCalling
    have hHandle := (hGood.calls rest expired now hControl).2.2 id.timer
      (by rw [hControl] at hBatch; exact hBatch)
    rwa [timerId_of_sequence hLive] at hHandle
  have hIteration := h.iteration
  have hCancels := h.cancels
  obtain ⟨hMarked, hLog⟩ : Marked id s' ∧ s'.queue.log = s.queue.log := by
    suffices hQueue : s'.queue =
        { past s.queue gone with cancelingTimers := Insert.insert id s.queue.cancelingTimers } by
      rw [hQueue]
      refine ⟨⟨?_, ?_, ?_⟩, rfl⟩
      · rw [hQueue]
        exact hLive
      · rw [hQueue]
        exact hBatch
      · rw [hQueue]
        exact Finset.mem_insert_self ..
    generalize s'.queue = q' at hCancels ⊢
    cases hCancels with
    | freed _ hMem => exact absurd hMem hActive
    | marked => rfl
    | retried _ hNot => exact absurd ⟨hCalling, hExpired⟩ hNot
  exact ⟨hMarked, .batch hMarked.live hMarked.batch hIteration.le (Or.inl hMarked.marked)
    (fun _ _ _ _ _ => le_rfl), hLog⟩

/-- **In the batch**, from a destructor in `reset`: no callback is to come, and the retry runs
in this turn, in which the timerfd has been read already. -/
theorem Executed.resetting (h : Executed id true gone s s') (hGood : Good s)
    (hLive : s.queue.sequence id.timer = some id.sequence)
    (hBatch : id.timer ∈ s.queue.control.batch) (hCalling : s.queue.callingExpiredTimers = false) :
    Fate id s.iteration s' 0 1 ∧ s'.queue.log = s.queue.log := by
  have hQueue := h.retries (not_active_of_batch hGood.inv hBatch) (by simp [hCalling])
  have hPhase : s'.phase = .handling true :=
    h.handling true (hGood.batch (ne_idle_of_batch hBatch))
  refine ⟨.batch ?_ ?_ h.iteration.le (Or.inr ⟨le_rfl, (s.queue.functors.drop gone).length, ?_, ?_⟩)
    fun rest expired now hControl _ => ?_, by rw [hQueue]; rfl⟩
  · rw [hQueue]
    exact hLive
  · rw [hQueue]
    exact hBatch
  · rw [hQueue]
    exact List.getElem?_concat_length
  · rw [turn, hPhase, h.iteration]
  · -- the flag would be up
    have hFlag := (hGood.calls rest expired now (by rw [hQueue] at hControl; exact hControl)).1
    rw [hCalling] at hFlag
    cases hFlag

/-- The insert stands behind the functor that is gone. -/
theorem Executed.gone_le {p : Addr} (h : Executed id allowRetry gone s s')
    (hi : s.queue.functors[i]? = some (.insert p)) : gone ≤ i := by
  by_contra hLt
  have hTake : (s.queue.functors.take gone)[i]? = some (.insert p) := by
    rw [List.getElem?_take_of_lt (by omega)]
    exact hi
  have hOurs := h.ours _ (List.mem_of_getElem? hTake)
  cases hOurs

/-- Unless the insert was swapped out, the retry runs in the same turn. -/
theorem Executed.turn_le_of_pending (h : Executed id allowRetry gone s s')
    (hPending : ¬ s.SwappedOut i) (j : Nat) : s'.turn j ≤ s.turn i := by
  cases hPhase : s.phase with
  | handling handled => rw [turn, turn, h.handling handled hPhase, hPhase, h.iteration]
  | running left =>
    have hLeft : ¬ i < left := fun hLt => hPending ⟨left, hPhase, hLt⟩
    calc s'.turn j ≤ s'.iteration + 1 := s'.turn_le j
      _ = s.turn i := by
        rw [turn, hPhase, h.iteration]
        exact (if_neg hLeft).symm

/-- **Before its insert**: the retry is queued behind the insert. -/
theorem Executed.queued (h : Executed id true gone s s') (hGood : Good s)
    (hLive : s.queue.sequence id.timer = some id.sequence)
    (hi : s.queue.functors[i]? = some (.insert id.timer)) :
    s'.queue.log = s.queue.log ∧ Fate id (s.iteration + 1) s' 1 2 ∧
      (¬ s.SwappedOut i → Fate id (s.turn i) s' 0 1) := by
  have hInserting := mem_inserting hi
  have hActive : id ∉ s.queue.activeTimers := fun hMem =>
    hGood.inv.not_mem_timers_of_inserting hInserting ((hGood.inv.owns.active id).mp hMem).1
  have hExpired : ¬ (s.queue.callingExpiredTimers = true ∧ id ∈ s.queue.expiredTimers) :=
    fun ⟨hCalling, hMem⟩ => hGood.inv.not_mem_batch_of_inserting hInserting
      ((hGood.inv.batched.calling hCalling).2 id hMem).1
  have hQueue := h.retries hActive hExpired
  obtain ⟨i, rfl⟩ := Nat.exists_eq_add_of_le' (h.gone_le hi)
  have hLength : i < (s.queue.functors.drop gone).length := by
    rw [List.length_drop]
    have hLt := lt_of_functor hi
    omega
  have hFunctors : s'.queue.functors = s.queue.functors.drop gone ++ [.cancelInLoop id false] := by
    rw [hQueue]
    rfl
  have hInsert : s'.queue.functors[i]? = some (.insert id.timer) := by
    rw [hFunctors, List.getElem?_append_left hLength, List.getElem?_drop, Nat.add_comm]
    exact hi
  have hRetry : s'.queue.functors[(s.queue.functors.drop gone).length]? =
      some (.cancelInLoop id false) := by
    rw [hFunctors, List.getElem?_concat_length]
  have hSequence : s'.queue.sequence id.timer = some id.sequence := by
    rw [hQueue]
    exact hLive
  refine ⟨by rw [hQueue]; rfl, .waiting i _ hSequence hInsert hRetry hLength ?_ (by omega)
    fun _ => ⟨le_rfl, le_rfl⟩, fun hPending => .waiting i _ hSequence hInsert hRetry hLength
      (h.turn_le_of_pending hPending _) le_rfl fun hLater => ?_⟩
  · rw [← h.iteration]
    exact s'.turn_le _
  · -- a pending insert and the retry behind it run in one turn
    rw [h.moves.turn i (lt_of_functor hi)] at hLater
    exact absurd hLater (h.turn_le_of_pending hPending _).not_gt

/-! ## Every run -/

/-- What the fate of a timer says about a later state. -/
theorem Fate.later {last more again : Nat} (h : Fate id last s' more again) (hGood : Good s')
    (hLog : s'.queue.log = s.queue.log) (hLater : Reaches TimerLoop.step s' s'') :
    (Freed s''.queue id.sequence ∨ s''.iteration ≤ last) ∧
      starts s''.queue id.sequence ≤ starts s.queue id.sequence + more ∧
      arms s''.queue id.sequence ≤ arms s.queue id.sequence + again := by
  obtain ⟨more', again', hFate, hStarts, hArms⟩ := fate_reaches hGood h hLater
  refine ⟨?_, ?_, ?_⟩
  · by_cases hFreed : .deleted (some id.sequence) ∈ s''.queue.log
    · exact Or.inl (freed_of_mem (good_reaches hGood hLater).inv hFreed)
    · exact Or.inr (hFate.iteration_le hFreed)
  · rw [starts, starts, hLog] at hStarts
    exact (Nat.le_add_right _ _).trans hStarts
  · rw [arms, arms, hLog] at hArms
    exact (Nat.le_add_right _ _).trans hArms

theorem count_mono (hGood : Good s) (h : Reaches TimerLoop.step s s') (e : TimerEvent) :
    s.queue.log.count e ≤ s'.queue.log.count e := by
  obtain ⟨new, hNew⟩ := log_reaches hGood h
  rw [← hNew, List.count_append]
  exact Nat.le_add_right _ _

/-- **Cancellation.** In every run, once `cancel(id)` has been executed on the loop, for a
timer that is alive:

* if it was in the heap, it has been freed, and it is neither called nor armed again;
* if it was in the running batch and the callbacks were being called, its callback is started
  at most once more, it is not armed again, and it is freed at the latest when the batch is done;
* if it was in the running batch and `reset` was at work, so that the cancel comes from a
  destructor, its callback is not started again, it is armed again at most once, and it is freed
  at the latest in this turn of the loop;
* if its insert was still queued, its callback is started at most once more; it is inserted,
  and armed again at most once; and it is freed at the latest in the next turn of the loop. If
  the insert had not been swapped out, it is inserted at most, and freed in that same turn.

There is no fourth place. And whatever the handle, no other timer is affected, by the cancel
or by its retry, which is all it can leave behind. -/
theorem cancel_semantics {heap : HeapAlgorithms Addr Int} {a : LoopAction}
    (hReach : Reaches TimerLoop.step { queue := { heap := heap } } s)
    (hCancel : executesCancel s id a) (hStep : s.step a = some s')
    (hLater : Reaches TimerLoop.step s' s'') :
    (s.queue.sequence id.timer = some id.sequence →
      (id.timer ∈ s.queue.timers ∨ id.timer ∈ s.queue.control.batch ∨
        ∃ i : Nat, s.queue.functors[i]? = some (.insert id.timer)) ∧
      (id.timer ∈ s.queue.timers →
        Freed s''.queue id.sequence ∧
        starts s''.queue id.sequence = starts s.queue id.sequence ∧
        arms s''.queue id.sequence = arms s.queue id.sequence) ∧
      (id.timer ∈ s.queue.control.batch → s.queue.callingExpiredTimers = true →
        (Freed s''.queue id.sequence ∨ id.timer ∈ s''.queue.control.batch) ∧
        starts s''.queue id.sequence ≤ starts s.queue id.sequence + 1 ∧
        arms s''.queue id.sequence = arms s.queue id.sequence) ∧
      (id.timer ∈ s.queue.control.batch → s.queue.callingExpiredTimers = false →
        (Freed s''.queue id.sequence ∨ s''.iteration ≤ s.iteration) ∧
        starts s''.queue id.sequence = starts s.queue id.sequence ∧
        arms s''.queue id.sequence ≤ arms s.queue id.sequence + 1) ∧
      ∀ i : Nat, s.queue.functors[i]? = some (.insert id.timer) →
        (Freed s''.queue id.sequence ∨ s''.iteration ≤ s.iteration + 1) ∧
        starts s''.queue id.sequence ≤ starts s.queue id.sequence + 1 ∧
        arms s''.queue id.sequence ≤ arms s.queue id.sequence + 2 ∧
        (¬ s.SwappedOut i →
          (Freed s''.queue id.sequence ∨ s''.iteration ≤ s.turn i) ∧
          starts s''.queue id.sequence = starts s.queue id.sequence ∧
          arms s''.queue id.sequence ≤ arms s.queue id.sequence + 1)) ∧
    (∀ id', id' ≠ id → s.queue.sequence id'.timer = some id'.sequence →
      Untouched id' s.queue s'.queue) ∧
    (∀ f ∈ s'.queue.functors, f ∈ s.queue.functors ∨ f = .cancelInLoop id false) ∧
    ∀ t id', s''.queue.functors.head? = some (.cancelInLoop id false) →
      s''.step (.queue .functor) = some t → id' ≠ id →
      s''.queue.sequence id'.timer = some id'.sequence → Untouched id' s''.queue t.queue := by
  have hGood : Good s := good_reaches (good_new heap) hReach
  have hGood' : Good s' := good_step hStep hGood
  have hGood'' : Good s'' := good_reaches hGood' hLater
  obtain ⟨gone, hExecuted⟩ := executed_cancel hGood hCancel hStep
  have hRun : Reaches TimerLoop.step s s'' := (Reaches.refl.next a hStep).trans hLater
  refine ⟨fun hLive => ⟨?_, fun hTimers => ?_, fun hBatch hCalling => ?_, fun hBatch hReset => ?_,
      fun i hi => ?_⟩,
    fun id' hOther hLive => hExecuted.untouched hOther hLive, fun f hf => hExecuted.functors hf,
    fun t id' hHead hRetry hOther hLive =>
      (executed_functor hGood'' hHead hRetry).untouched hOther hLive⟩
  · rcases place_of_live hGood.inv hLive with hTimers | hBatch | hInserting
    · exact Or.inl hTimers
    · exact Or.inr (Or.inl hBatch)
    · exact Or.inr (Or.inr (functor_of_inserting hInserting))
  -- in the heap: freed by this very step, so nothing is logged later
  · have hLog := hExecuted.heap hLive hTimers
    have hFreed : .deleted (some id.sequence) ∈ s'.queue.log := by simp [hLog]
    have hNew := log_reaches hGood' hLater
    refine ⟨freed_of_mem hGood''.inv (hNew.subset hFreed), ?_, ?_⟩
    · rw [starts, count_of_freed hGood''.inv hFreed hNew rfl, hLog]
      simp [starts]
    · rw [arms, count_of_freed hGood''.inv hFreed hNew rfl, hLog]
      simp [arms]
  -- in the batch being called: marked, and `reset` frees it
  · obtain ⟨hMarked, hFate, hLog⟩ := hExecuted.batch hGood hLive hBatch hCalling
    obtain ⟨-, hStarts, hArms⟩ := hFate.later hGood' hLog hLater
    refine ⟨?_, hStarts, le_antisymm hArms (count_mono hGood hRun _)⟩
    rcases marked_reaches hGood' hMarked hLater with hStill | hFreed
    · exact Or.inr hStill.batch
    · exact Or.inl (freed_of_mem hGood''.inv hFreed)
  -- in a batch being reset: too late to mark, retried from the queue
  · obtain ⟨hFate, hLog⟩ := hExecuted.resetting hGood hLive hBatch hReset
    obtain ⟨hFreed, hStarts, hArms⟩ := hFate.later hGood' hLog hLater
    exact ⟨hFreed, le_antisymm hStarts (count_mono hGood hRun _), hArms⟩
  -- not yet inserted: the retry runs behind the insertion
  · obtain ⟨hLog, hFate, hPending⟩ := hExecuted.queued hGood hLive hi
    obtain ⟨hFreed, hStarts, hArms⟩ := hFate.later hGood' hLog hLater
    refine ⟨hFreed, hStarts, hArms, fun hNot => ?_⟩
    obtain ⟨hFreed', hStarts', hArms'⟩ := (hPending hNot).later hGood' hLog hLater
    exact ⟨hFreed', le_antisymm hStarts' (count_mono hGood hRun _), hArms'⟩

/-- Another thread adds a repeating timer, and the loop has swapped its insert out. -/
def insertSwappedOut : List LoopAction :=
  [.queue (.addTimer 1 10 5 true false), .swap]

/-- The cancel of user code that runs in `doPendingFunctors` before the insert. -/
def overtakes : LoopAction := .queue (.cancel ⟨1, 1⟩ true)

/-- The insert runs, and in the next turn the timer is due. -/
def dueInNextTurn : List LoopAction :=
  [.queue .functor, .finish, .queue (.tick 30), .queue (.handleRead 30), .queue .run,
    .queue .endCalling, .queue .resetOne, .queue .finishReset]

/-- The retry, and the turn after it. -/
def retryRuns : List LoopAction := [.swap, .queue .functor, .finish]

/-- The callback is started once, and the retry frees the timer. -/
theorem cancel_semantics_overtaken : ∃ s s' s'',
    runAll TimerLoop.step {} insertSwappedOut = some s ∧ s.step overtakes = some s' ∧
    runAll TimerLoop.step s' (dueInNextTurn ++ retryRuns) = some s'' ∧
    Freed s''.queue 1 ∧ starts s''.queue 1 ≤ starts s.queue 1 + 1 := by
  have hAll : (runAll TimerLoop.step {}
      (insertSwappedOut ++ overtakes :: (dueInNextTurn ++ retryRuns))).map (·.iteration) = some 2 := by
    decide
  have hState : (runAll TimerLoop.step {} insertSwappedOut).map
      (fun s => (s.queue.sequence 1, s.queue.functors, s.iteration)) =
        some (some 1, [.insert 1], 0) := by decide
  obtain ⟨s'', hs'', hTurn⟩ := Option.map_eq_some_iff.mp hAll
  obtain ⟨s, hs, hRest⟩ := runAll_append_eq_some.mp hs''
  obtain ⟨s', hStep, hLater⟩ := Option.bind_eq_some_iff.mp hRest
  rw [hs, Option.map_some, Option.some.injEq] at hState
  obtain ⟨hLive, hFunctors, hIteration⟩ : s.queue.sequence 1 = some 1 ∧
      s.queue.functors = [.insert 1] ∧ s.iteration = 0 := by simpa using hState
  have hCancel : executesCancel s ⟨1, 1⟩ overtakes := ⟨rfl, rfl⟩
  obtain ⟨hOwn, -⟩ := cancel_semantics (reaches_of_runAll hs) hCancel hStep (reaches_of_runAll hLater)
  obtain ⟨-, -, -, -, hQueued⟩ := hOwn hLive
  obtain ⟨hFreed, hStarts, -⟩ := hQueued 0 (by rw [hFunctors]; rfl)
  refine ⟨s, s', s'', hs, hStep, hLater, hFreed.resolve_right ?_, hStarts⟩
  omega

/-- Two timers are due, one that fires once and one that repeats. Both callbacks have returned,
and `reset` has deleted the first timer. -/
def firstDeleted : List LoopAction :=
  [.queue (.addTimer 1 10 0 false true), .queue (.addTimer 2 20 5 true true), .queue (.tick 30),
    .queue (.handleRead 30), .queue .run, .queue .run, .queue .endCalling, .queue .resetOne]

/-- A destructor of what the first callback had captured cancels the second timer. -/
def destructorCancels : LoopAction := .queue (.cancel ⟨2, 2⟩ true)

/-- **The timer is armed again after its callback**, although the cancel was executed before.
In the first run its insert was still queued then, and `reset` puts the repeating timer back
before the retry comes. In the second run it was in the running batch, and `reset` was at work:
the cancel marks nothing any more, and the next pass puts the timer back. -/
theorem cancel_arms_again :
    ((runAll TimerLoop.step {} insertSwappedOut).map (fun s => (s.queue.functors, s.queue.log)) =
      some ([.insert 1], []) ∧
    (runAll TimerLoop.step {} (insertSwappedOut ++ overtakes :: dueInNextTurn)).map
      (fun s => (s.queue.timers, s.queue.log)) =
      some ([1], [.inserted (some 1), .ran (some 1), .inserted (some 1)])) ∧
    (runAll TimerLoop.step {} firstDeleted).map (fun s => s.queue.control.batch) = some [2] ∧
    (runAll TimerLoop.step {} (firstDeleted ++ [destructorCancels, .queue .resetOne])).map
      (fun s => (s.queue.timers, s.queue.log)) =
      some ([2], [.inserted (some 1), .inserted (some 2), .ran (some 1), .ran (some 2),
        .deleted (some 1), .inserted (some 2)]) := by
  decide

end TimerLoop

end ReactorNet
