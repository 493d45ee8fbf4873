import ReactorNet.Net.TimerLoop

/-!
# ReactorNet — what becomes of a cancelled timer

A cancel meets its timer in the heap, in the expired batch, or while its insert is still
queued. In the last case it can only queue itself once more, behind the insert, and the timer
is armed in between: `Fate` follows it to its end, with what can still happen to it on the
way. The two numbers of `Fate` bound the starts of the callback and the inserts that are still
to come.

A step is about the timer in few cases (`About`); in all others it passes it by (`Aside`).

* `fate_step` — a step spends what it does to the timer.
* `fate_reaches` — so does a run.
* `marked_reaches` — a timer that is marked in the batch stays there until it is freed.
-/

namespace ReactorNet

open Lib

namespace TimerLoop

open TimerQueue

variable {q q' : TimerQueue} {id : TimerId} {p : Addr} {n : Nat}

/-! ## Passing a timer by -/

/-- A step passes a timer by: what it was in it is still in, and nothing was done to it. The
first functors are gone, and the others have moved up. -/
structure Aside (id : TimerId) (gone : Nat) (q q' : TimerQueue) : Prop where
  sequence : q'.sequence id.timer = q.sequence id.timer
  timers : id.timer ∈ q.timers → id.timer ∈ q'.timers
  batch : id.timer ∈ q.control.batch → id.timer ∈ q'.control.batch
  calling : ∀ rest expired now, q'.control = .calling rest expired now → id.timer ∈ rest →
    ∃ rest' expired' now', q.control = .calling rest' expired' now' ∧ id.timer ∈ rest'
  canceling : id ∈ q.cancelingTimers → id ∈ q'.cancelingTimers
  functors : ∀ j f, q.functors[j + gone]? = some f → q'.functors[j]? = some f
  log : ∃ new, q'.log = q.log ++ new ∧ ∀ e ∈ new, e.sequence ≠ some id.sequence

/-- A step that leaves the control where it is. -/
theorem Aside.frame {gone : Nat} (hMemory : q'.memory id.timer = q.memory id.timer)
    (hTimers : id.timer ∈ q.timers → id.timer ∈ q'.timers) (hControl : q'.control = q.control)
    (hCanceling : id ∈ q.cancelingTimers → id ∈ q'.cancelingTimers)
    (hFunctors : q.functors.drop gone <+: q'.functors)
    (hLog : ∃ new, q'.log = q.log ++ new ∧ ∀ e ∈ new, e.sequence ≠ some id.sequence) :
    Aside id gone q q' where
  sequence := by rw [TimerQueue.sequence, TimerQueue.sequence, hMemory]
  timers := hTimers
  batch := by
    rw [hControl]
    exact fun h => h
  calling rest expired now hNow hMem := ⟨rest, expired, now, hControl ▸ hNow, hMem⟩
  canceling := hCanceling
  functors j f hf := by
    obtain ⟨new, hNew⟩ := hFunctors
    have hDrop : (q.functors.drop gone)[j]? = some f := by
      rw [List.getElem?_drop, Nat.add_comm]
      exact hf
    rw [← hNew, List.getElem?_append_left (List.getElem?_eq_some_iff.mp hDrop).1, hDrop]
  log := hLog

/-- What a step of the queue does that is not a functor and not `handleRead`. -/
inductive About (id : TimerId) (q q' : TimerQueue) : Prop
  | aside (h : Aside id 0 q q')
  | freed (hLog : q'.log = q.log ++ [.deleted (some id.sequence)])
  | called (rest expired : List Addr) (now : Timestamp)
      (hControl : q.control = .calling (id.timer :: rest) expired now)
      (hNext : q' = TimerQueue.record { q with control := .calling rest expired now }
        (.ran (some id.sequence)))
  | restarted (rest : List Addr) (now : Timestamp)
      (hControl : ∃ destroying, q.control = .resetting (id.timer :: rest) now destroying)
      (hMarked : id ∉ q.cancelingTimers) (hTimers : id.timer ∈ q'.timers)
      (hSequence : q'.sequence id.timer = some id.sequence) (hFunctors : q'.functors = q.functors)
      (hLog : q'.log = q.log ++ [.inserted (some id.sequence)])

theorem sequence_ne (hInv : Inv q) (hLive : q.sequence id.timer = some id.sequence)
    (hp : p ≠ id.timer) : q.sequence p ≠ some id.sequence := fun h =>
  hp (hInv.ledger.distinct p id.timer id.sequence h hLive)

theorem ne_of_free (hLive : q.sequence id.timer = some id.sequence) (hFree : q.memory p = none) :
    id.timer ≠ p := by
  rintro rfl
  rw [TimerQueue.sequence, hFree] at hLive
  cases hLive

/-- A cancel of another timer passes a timer by. -/
theorem aside_cancels {id' : TimerId} {allowRetry : Bool} (hInv : Inv q)
    (hLive : q.sequence id.timer = some id.sequence) (h : Cancels q id' allowRetry q') :
    Aside id 0 q q' ∨ id' = id ∧ id ∈ q.activeTimers ∧
      q'.log = q.log ++ [.deleted (some id.sequence)] := by
  have hFunctors : q.functors.drop 0 <+: q'.functors := functors_cancels h
  cases h with
  | freed _ hActive =>
    obtain ⟨hMem, hSequence⟩ := (hInv.owns.active id').mp hActive
    -- two live handles of one address are the same handle
    by_cases hSame : id' = id
    · subst hSame
      refine Or.inr ⟨rfl, hActive, ?_⟩
      rw [← hSequence]
      rfl
    · have hOther : id'.timer ≠ id.timer := fun hEq => hSame (timerId_unique hEq hSequence hLive)
      refine Or.inl (.frame (Function.update_of_ne hOther.symm _ _) (fun hTimer => ?_) rfl
        (fun hMem => hMem) hFunctors ⟨[.deleted (q.sequence id'.timer)], rfl, ?_⟩)
      · exact (q.heap.makeHeap_perm _).mem_iff.mpr (hInv.nodup.2.1.mem_erase_iff.mpr ⟨hOther.symm, hTimer⟩)
      · intro e he
        rw [List.mem_singleton.mp he]
        exact sequence_ne hInv hLive hOther
  | marked =>
    exact Or.inl (.frame rfl (fun h => h) rfl (fun h => Finset.mem_insert_of_mem h) hFunctors
      ⟨[], (List.append_nil _).symm, fun e he => by cases he⟩)
  | retried =>
    exact Or.inl (.frame rfl (fun h => h) rfl (fun h => h) hFunctors
      ⟨[], (List.append_nil _).symm, fun e he => by cases he⟩)
  | nothing =>
    exact Or.inl (.frame rfl (fun h => h) rfl (fun h => h) hFunctors
      ⟨[], (List.append_nil _).symm, fun e he => by cases he⟩)

theorem log_insert (q : TimerQueue) (p : Addr) :
    (q.insert p).log = q.log ++ [.inserted (q.sequence p)] := by
  obtain ⟨timerfd, lastArmed, hEq⟩ := insert_eq q p
  rw [hEq]

variable {now : Timestamp} {rest : List Addr} {f : TimerFunctor} {left : Nat} {a : LoopAction}

/-- The timer that is reset is freed, or it goes back into the heap. -/
theorem resets_self {t : Timer} (ht : q.memory p = some t) (h : Resets q p now t q') :
    q'.log = q.log ++ [.deleted (some t.sequence)] ∨
      q.timerId p ∉ q.cancelingTimers ∧ p ∈ q'.timers ∧ q'.sequence p = some t.sequence ∧
        q'.log = q.log ++ [.inserted (some t.sequence)] := by
  have hSequence : q.sequence p = some t.sequence := by rw [TimerQueue.sequence, ht]; rfl
  cases h with
  | cancelled => exact Or.inl (by rw [← hSequence]; rfl)
  | restarted hMarked =>
    have hMemory := (insert_frame
      { q with memory := Function.update q.memory p (some (t.restart now)) } p).1
    have hRestart : TimerQueue.sequence
        { q with memory := Function.update q.memory p (some (t.restart now)) } p = some t.sequence :=
      (congrFun (sequence_restart ht now) p).trans hSequence
    refine Or.inr ⟨hMarked, mem_timers_insert.mpr (Or.inl rfl), ?_, ?_⟩
    · rw [sequence_congr hMemory]
      exact hRestart
    · rw [log_insert, hRestart]
  | ended => exact Or.inl (by rw [← hSequence]; rfl)

theorem resets_other {t : Timer} (ht : q.memory p = some t) (h : Resets q p now t q') :
    (∀ p', p' ≠ p → q'.memory p' = q.memory p') ∧ (∀ p' ∈ q.timers, p' ∈ q'.timers) ∧
      (∀ id' ∈ q.cancelingTimers, id'.timer ≠ p → id' ∈ q'.cancelingTimers) ∧
      ∃ e, q'.log = q.log ++ [e] ∧ e.sequence = q.sequence p := by
  cases h with
  | cancelled =>
    exact ⟨fun p' hp' => Function.update_of_ne hp' _ _, fun _ hMem => hMem,
      fun id' hid' hp => Finset.mem_erase_of_ne_of_mem (fun hEq => hp (by rw [hEq]; rfl)) hid',
      _, rfl, rfl⟩
  | restarted =>
    obtain ⟨hMemory, -, -, -, hCanceling, -⟩ := insert_frame
      { q with memory := Function.update q.memory p (some (t.restart now)) } p
    refine ⟨fun p' hp' => ?_, fun p' hMem => mem_timers_insert.mpr (Or.inr hMem),
      fun id' hid' _ => ?_, _, log_insert _ p, congrFun (sequence_restart ht now) p⟩
    · rw [hMemory]
      exact Function.update_of_ne hp' _ _
    · rw [hCanceling]
      exact hid'
  | ended =>
    exact ⟨fun p' hp' => Function.update_of_ne hp' _ _, fun _ hMem => hMem,
      fun id' hid' _ => hid', _, rfl, rfl⟩

/-- A timer that is reset: it is ours, or it passes ours by. -/
theorem about_reset {destroying : Bool} (hInv : Inv q)
    (hLive : q.sequence id.timer = some id.sequence)
    (hControl : q.control = .resetting (p :: rest) now destroying) (deletes : Bool) :
    About id q (TimerQueue.resetOne { q with control := .resetting rest now deletes } p now) := by
  obtain ⟨t, ht⟩ := memory_of_resetting hInv hControl
  have ht' : TimerQueue.memory { q with control := .resetting rest now deletes } p = some t := ht
  have hResets := resets ht' now
  obtain ⟨hFunctors, hControl'⟩ := functors_resets hResets
  have hSelf := resets_self ht' hResets
  obtain ⟨hMemory, hTimers, hCanceling, e, hLog, hEvent⟩ := resets_other ht' hResets
  generalize TimerQueue.resetOne { q with control := .resetting rest now deletes } p now = q' at *
  -- `reset` looks a timer up by its handle, which is ours if the address is
  by_cases hp : p = id.timer
  · subst hp
    have hNumber : t.sequence = id.sequence := by
      rw [TimerQueue.sequence, ht] at hLive
      exact Option.some.inj hLive
    have hId : q.timerId id.timer = id := timerId_of_sequence hLive
    rw [hNumber] at hSelf
    rcases hSelf with hFreed | ⟨hMarked, hMem, hSequence, hInserted⟩
    · exact .freed hFreed
    · exact .restarted rest now ⟨_, hControl⟩ (hId ▸ hMarked) hMem hSequence hFunctors hInserted
  · have hOther : id.timer ≠ p := fun hEq => hp hEq.symm
    refine .aside
      { sequence := ?_
        timers := hTimers id.timer
        batch := fun hMem => ?_
        calling := fun rest' expired' now' hNow => ?_
        canceling := fun hMem => hCanceling id hMem hOther
        functors := fun j f hf => by rw [hFunctors]; exact hf
        log := ⟨[e], hLog, fun e' he' => ?_⟩ }
    · rw [TimerQueue.sequence, TimerQueue.sequence, hMemory id.timer hOther]
    · rw [hControl] at hMem
      rw [hControl']
      exact (List.mem_cons.mp hMem).resolve_left hOther
    · rw [hControl'] at hNow
      cases hNow
    · have hNumber := sequence_ne hInv hLive hp
      rw [List.mem_singleton.mp he', hEvent]
      exact hNumber

/-- **A step that is not a functor and not `handleRead`.** -/
theorem about_step {a : Action} (hInv : Inv q) (hLive : q.sequence id.timer = some id.sequence)
    (hAny : anyTime a = true) (h : q.step a = some q') : About id q q' := by
  have hQuiet : ∃ new, q.log = q.log ++ new ∧ ∀ e ∈ new, e.sequence ≠ some id.sequence :=
    ⟨[], (List.append_nil _).symm, fun e he => by cases he⟩
  have hSame : q.functors.drop 0 <+: q.functors := List.prefix_rfl
  cases step_outcome h with
  | ticked => exact .aside (.frame rfl (fun h => h) rfl (fun h => h) hSame hQuiet)
  | added p when interval repeats hFree =>
    have hOther := ne_of_free hLive hFree
    obtain ⟨hMemory, hControl, -, -, hCanceling, hFunctors, -⟩ :=
      insert_frame (q.create p when interval repeats) p
    refine .aside (.frame ?_ (fun hMem => mem_timers_insert.mpr (Or.inr hMem)) hControl ?_ ?_
      ⟨_, log_insert _ p, ?_⟩)
    · rw [hMemory]
      exact memory_create q hOther when interval repeats
    · rw [hCanceling]
      exact fun h => h
    · rw [hFunctors]
      exact hSame
    · -- the new timer has a new number
      intro e he
      rw [List.mem_singleton.mp he]
      show TimerQueue.sequence _ p ≠ some id.sequence
      rw [sequence_create, if_pos rfl]
      have hLe := hInv.ledger.fresh _ _ hLive
      intro hEq
      have hNumber := Option.some.inj hEq
      omega
  | posted p when interval repeats hFree =>
    exact .aside (.frame (memory_create q (ne_of_free hLive hFree) when interval repeats)
      (fun h => h) rfl (fun h => h) (List.prefix_append ..) hQuiet)
  | cancelled id' =>
    rcases aside_cancels hInv hLive (hInv.cancels id' true) with hAside | ⟨-, -, hLog⟩
    · exact .aside hAside
    · exact .freed hLog
  | cancelPosted id' =>
    exact .aside (.frame rfl (fun h => h) rfl (fun h => h)
      (List.prefix_append ..) hQuiet)
  | ranFunctor => cases hAny
  | began => cases hAny
  | called p rest expired now hControl =>
    by_cases hp : p = id.timer
    · subst hp
      exact .called rest expired now hControl (by rw [hLive])
    · refine .aside
        { sequence := rfl
          timers := fun h => h
          batch := fun hMem => ?_
          calling := fun rest' expired' now' hNow hMem => ?_
          canceling := fun h => h
          functors := fun j f hf => hf
          log := ⟨[.ran (q.sequence p)], rfl, fun e he => ?_⟩ }
      · rw [hControl] at hMem
        exact hMem
      · obtain ⟨rfl, rfl, -⟩ := TimerControl.calling.inj hNow
        exact ⟨_, _, _, hControl, List.mem_cons_of_mem p hMem⟩
      · rw [List.mem_singleton.mp he]
        exact sequence_ne hInv hLive hp
  | ended expired now hControl =>
    refine .aside
      { sequence := rfl
        timers := fun h => h
        batch := fun hMem => ?_
        calling := fun rest' expired' now' hNow => by cases hNow
        canceling := fun h => h
        functors := fun j f hf => hf
        log := hQuiet }
    rw [hControl] at hMem
    exact hMem
  | reset p rest now _ hControl => exact about_reset hInv hLive hControl _
  | finished now _ hControl =>
    obtain ⟨timerfd, lastArmed, hEq⟩ := finishReset_eq q
    rw [hEq]
    refine .aside
      { sequence := rfl
        timers := fun h => h
        batch := fun hMem => ?_
        calling := fun rest' expired' now' hNow => by cases hNow
        canceling := fun h => h
        functors := fun j f hf => hf
        log := hQuiet }
    rw [hControl] at hMem
    cases hMem

/-- **A functor**: it inserts the timer, or it cancels it in the heap, or it passes it by. -/
theorem about_functor {rest : List TimerFunctor} (hInv : Inv q)
    (hLive : q.sequence id.timer = some id.sequence) (hFunctors : q.functors = f :: rest)
    (h : q.step .functor = some q') :
    Aside id 1 q q' ∧ f ≠ .insert id.timer ∧ (id.timer ∈ q.timers → f ≠ .cancelInLoop id false) ∨
      f = .insert id.timer ∧ id.timer ∈ q'.timers ∧ q'.sequence id.timer = some id.sequence ∧
        q'.functors = rest ∧ q'.log = q.log ++ [.inserted (some id.sequence)] ∨
      q'.log = q.log ++ [.deleted (some id.sequence)] := by
  cases step_outcome h with
  | ranFunctor f' rest' hIdle hFunctors' =>
    obtain ⟨rfl, rfl⟩ := List.cons.inj (hFunctors.symm.trans hFunctors')
    cases f with
    | insert p =>
      obtain ⟨hMemory, hControl, -, -, hCanceling, hRest, -⟩ :=
        insert_frame { q with functors := rest } p
      by_cases hp : p = id.timer
      · subst hp
        refine Or.inr (Or.inl ⟨rfl, mem_timers_insert.mpr (Or.inl rfl), ?_, hRest, ?_⟩)
        · rw [← hLive]
          exact congrFun (sequence_congr hMemory) id.timer
        · rw [← hLive]
          exact log_insert { q with functors := rest } id.timer
      · refine Or.inl ⟨.frame (congrFun hMemory id.timer)
          (fun hMem => mem_timers_insert.mpr (Or.inr hMem)) hControl ?_ ?_
          ⟨_, log_insert _ p, ?_⟩, fun hEq => hp (TimerFunctor.insert.inj hEq), fun _ hEq => by cases hEq⟩
        · rw [show (TimerQueue.runFunctor { q with functors := rest } (.insert p)).cancelingTimers =
            q.cancelingTimers from hCanceling]
          exact fun h => h
        · rw [hFunctors]
          exact hRest ▸ List.prefix_rfl
        · intro e he
          have hNumber := sequence_ne hInv hLive hp
          rw [List.mem_singleton.mp he]
          exact hNumber
    | cancelInLoop id' allowRetry =>
      have hSame := hInv.take_cancel hFunctors
      have hCancel := hSame.cancels id' allowRetry
      rcases aside_cancels hSame hLive hCancel with hAside | ⟨-, -, hLog⟩
      · refine Or.inl ⟨?_, (fun hEq => by cases hEq), fun hTimers hEq => ?_⟩
        · exact
            { hAside with
              functors := fun j f hf => by
                rw [hFunctors, List.getElem?_cons_succ] at hf
                exact hAside.functors j f hf }
        · -- a retry finds a timer that is in the heap
          obtain ⟨rfl, rfl⟩ := TimerFunctor.cancelInLoop.inj hEq
          have hActive : id' ∈ q.activeTimers := (hInv.owns.active id').mpr ⟨hTimers, hLive⟩
          have hGone := hAside.sequence
          generalize TimerQueue.cancelInLoop { q with functors := rest } id' false = q'' at hCancel hGone
          cases hCancel with
          | freed =>
            rw [sequence_delete, if_pos rfl] at hGone
            exact absurd (hGone.trans hLive) (by simp)
          | marked _ hNot => exact hNot hActive
          | nothing hNot => exact hNot hActive
      · exact Or.inr (Or.inr hLog)

/-- **`handleRead`** takes the timer into its batch, or passes it by. -/
theorem about_handleRead (id : TimerId) {readAt : Timestamp} (hInv : Inv q)
    (h : q.step (.handleRead readAt) = some q') :
    q.control = .idle ∧ q'.sequence id.timer = q.sequence id.timer ∧ q'.functors = q.functors ∧
      q'.log = q.log ∧ (Aside id 0 q q' ∨ id.timer ∈ q.timers ∧ id.timer ∈ q'.control.batch) := by
  cases step_outcome h with
  | began _ hIdle =>
    obtain ⟨expired, others, timerfd, hExpired, hOthers, hEq⟩ :=
      handleRead_spec hInv.owns.heap readAt
    rw [hEq]
    refine ⟨hIdle, rfl, rfl, rfl, ?_⟩
    -- taken into the batch, or not due and left in the heap
    by_cases hMem : id.timer ∈ expired
    · exact Or.inr ⟨List.mem_of_mem_filter (hExpired.mem_iff.mp hMem), hMem⟩
    · refine Or.inl
        { sequence := rfl
          timers := fun hTimers => ?_
          batch := fun hBatch => ?_
          calling := fun rest expired' now hNow hRest => ?_
          canceling := fun h => h
          functors := fun j f hf => hf
          log := ⟨[], (List.append_nil _).symm, fun e he => by cases he⟩ }
      · refine hOthers.mem_iff.mpr (List.mem_filter.mpr ⟨hTimers, ?_⟩)
        have hNotDue : ¬ q.due q.clock id.timer = true := fun hDue =>
          hMem (hExpired.mem_iff.mpr (List.mem_filter.mpr ⟨hTimers, hDue⟩))
        simpa using hNotDue
      · rw [hIdle] at hBatch
        cases hBatch
      · obtain ⟨rfl, -⟩ := TimerControl.calling.inj hNow
        exact absurd hRest hMem

/-! ## The fate of a timer -/

/-- How often the callback of a timer was started. -/
def starts (q : TimerQueue) (n : Nat) : Nat := q.log.count (.ran (some n))

/-- How often a timer was put into the heap. -/
def arms (q : TimerQueue) (n : Nat) : Nat := q.log.count (.inserted (some n))

/-- A cancelled timer on its way. It is freed in the turn `last` at the latest, its callback
is started at most `more` times, and it is put into the heap at most `again` times. -/
inductive Fate (id : TimerId) (last : Nat) (s : TimerLoop) (more again : Nat) : Prop
  /-- Its insert is queued, and the retry behind it. If both run in one turn, the loop does
  not read the timerfd in between. -/
  | waiting (i j : Nat) (hLive : s.queue.sequence id.timer = some id.sequence)
      (hInsert : s.queue.functors[i]? = some (.insert id.timer))
      (hRetry : s.queue.functors[j]? = some (.cancelInLoop id false)) (hBehind : i < j)
      (hLast : s.turn j ≤ last) (hAgain : 1 ≤ again)
      (hMore : s.turn i < s.turn j → 1 ≤ more ∧ 2 ≤ again)
  /-- It is in the heap, and the retry is queued. -/
  | armed (j : Nat) (hLive : s.queue.sequence id.timer = some id.sequence)
      (hTimers : id.timer ∈ s.queue.timers)
      (hRetry : s.queue.functors[j]? = some (.cancelInLoop id false)) (hLast : s.turn j ≤ last)
      (hMore : s.phase = .handling false ∨ s.iteration < s.turn j → 1 ≤ more ∧ 1 ≤ again)
  /-- It is in the batch, and marked there or with its retry queued. -/
  | batch (hLive : s.queue.sequence id.timer = some id.sequence)
      (hBatch : id.timer ∈ s.queue.control.batch) (hLast : s.iteration ≤ last)
      (hEnd : id ∈ s.queue.cancelingTimers ∨
        1 ≤ again ∧ ∃ j, s.queue.functors[j]? = some (.cancelInLoop id false) ∧ s.turn j ≤ last)
      (hMore : ∀ rest expired now, s.queue.control = .calling rest expired now →
        id.timer ∈ rest → 1 ≤ more)
  | freed (hFreed : .deleted (some id.sequence) ∈ s.queue.log)

/-- How a step moves the turns of the functors. -/
structure Moves (gone : Nat) (s s' : TimerLoop) : Prop where
  turn : ∀ j, j + gone < s.queue.functors.length → s'.turn j = s.turn (j + gone)
  fresh : ∀ j, j + gone < s.queue.functors.length →
    s'.phase = .handling false ∨ s'.iteration < s'.turn j →
    s.phase = .handling false ∨ s.iteration < s.turn (j + gone)
  iteration : s.queue.control ≠ .idle → s'.iteration = s.iteration

variable {s s' : TimerLoop} {last more again gone : Nat}

theorem lt_of_functor {j : Nat} (h : s.queue.functors[j]? = some f) : j < s.queue.functors.length :=
  (List.getElem?_eq_some_iff.mp h).1

theorem ne_idle_of_batch (h : p ∈ q.control.batch) : q.control ≠ .idle := by
  intro hIdle
  rw [hIdle] at h
  cases h

/-- **A step that passes the timer by** leaves its fate as it is. -/
theorem Fate.aside (h : Fate id last s more again) (hAside : Aside id gone s.queue s'.queue)
    (hMoves : Moves gone s s')
    (hInsert : ∀ i, s.queue.functors[i]? = some (.insert id.timer) → gone ≤ i)
    (hRetry : id.timer ∈ s.queue.timers ∨ id.timer ∈ s.queue.control.batch →
      ∀ j, s.queue.functors[j]? = some (.cancelInLoop id false) → gone ≤ j) :
    Fate id last s' more again := by
  cases h with
  | waiting i j hLive hi hj hBehind hLast hAgain hMore =>
    -- the insert is not among the functors that are gone, and the retry stands behind it
    obtain ⟨i, rfl⟩ := Nat.exists_eq_add_of_le' (hInsert i hi)
    obtain ⟨j, rfl⟩ := Nat.exists_eq_add_of_le' (show gone ≤ j by omega)
    have hTurn := hMoves.turn j (lt_of_functor hj)
    have hTurn' := hMoves.turn i (lt_of_functor hi)
    exact .waiting i j (hAside.sequence.trans hLive) (hAside.functors i _ hi)
      (hAside.functors j _ hj) (by omega) (by rw [hTurn]; exact hLast) hAgain
      (by rw [hTurn, hTurn']; exact hMore)
  | armed j hLive hTimers hj hLast hMore =>
    obtain ⟨j, rfl⟩ := Nat.exists_eq_add_of_le' (hRetry (Or.inl hTimers) j hj)
    have hTurn := hMoves.turn j (lt_of_functor hj)
    exact .armed j (hAside.sequence.trans hLive) (hAside.timers hTimers) (hAside.functors j _ hj)
      (by rw [hTurn]; exact hLast) fun hFresh => hMore (hMoves.fresh j (lt_of_functor hj) hFresh)
  | batch hLive hBatch hLast hEnd hMore =>
    have hIteration := hMoves.iteration (ne_idle_of_batch hBatch)
    refine .batch (hAside.sequence.trans hLive) (hAside.batch hBatch) (by rw [hIteration]; exact hLast)
      ?_ fun rest expired now hNow hMem => ?_
    · rcases hEnd with hMarked | ⟨hAgain, j, hj, hTurn⟩
      · exact Or.inl (hAside.canceling hMarked)
      · obtain ⟨j, rfl⟩ := Nat.exists_eq_add_of_le' (hRetry (Or.inr hBatch) j hj)
        refine Or.inr ⟨hAgain, j, hAside.functors j _ hj, ?_⟩
        rw [hMoves.turn j (lt_of_functor hj)]
        exact hTurn
    · obtain ⟨rest', expired', now', hBefore, hMem'⟩ := hAside.calling rest expired now hNow hMem
      exact hMore rest' expired' now' hBefore hMem'
  | freed hFreed =>
    obtain ⟨new, hLog, -⟩ := hAside.log
    refine .freed ?_
    rw [hLog]
    exact List.mem_append_left new hFreed

/-! ## One place at a time -/

theorem mem_inserting {i : Nat} (h : q.functors[i]? = some (.insert p)) : p ∈ q.inserting :=
  List.mem_filterMap.mpr ⟨.insert p, List.mem_of_getElem? h, rfl⟩

theorem not_mem_rest_of_insert {rest : List TimerFunctor} (hInv : Inv q)
    (h : q.functors = .insert p :: rest) : .insert p ∉ rest := by
  have hInserting := hInv.nodup.1
  intro hMem
  simp only [inserting, h, List.filterMap_cons, List.nodup_cons] at hInserting
  exact hInserting.1 (List.mem_filterMap.mpr ⟨.insert p, hMem, rfl⟩)

theorem not_mem_rest_of_calling {expired : List Addr} (hInv : Inv q) (hCalls : Calls q)
    (h : q.control = .calling (p :: rest) expired now) : p ∉ rest ∧ p ∈ q.control.batch := by
  obtain ⟨-, hSuffix, -⟩ := hCalls _ _ _ h
  have hBatch : q.control.batch = expired := by rw [h]; rfl
  have hExpired : expired.Nodup := hBatch ▸ hInv.nodup.2.2
  refine ⟨(List.nodup_cons.mp (hExpired.sublist hSuffix.sublist)).1, ?_⟩
  rw [hBatch]
  exact hSuffix.subset (List.mem_cons_self ..)

/-! ## Every step -/

theorem moves_worked (q : TimerQueue) : Moves 0 s { s with queue := q } where
  turn _ _ := rfl
  fresh _ _ h := h
  iteration _ := rfl

theorem moves_ran (q : TimerQueue) (hPhase : s.phase = .running (left + 1))
    (hIdle : s.queue.control = .idle) :
    Moves 1 s { s with queue := q, phase := .running left } where
  turn j _ := by
    simp only [turn, hPhase, Nat.add_lt_add_iff_right]
  fresh j _ := by
    simp only [turn, hPhase, Nat.add_lt_add_iff_right, reduceCtorEq, false_or]
    exact fun h => h
  iteration h := absurd hIdle h

theorem moves_handled (q : TimerQueue) (hPhase : s.phase = .handling false)
    (hIdle : s.queue.control = .idle) : Moves 0 s { s with queue := q, phase := .handling true } where
  turn j _ := by simp only [turn, hPhase]
  fresh _ _ _ := Or.inl hPhase
  iteration h := absurd hIdle h

theorem moves_swapped {handled : Bool} (hPhase : s.phase = .handling handled)
    (hIdle : s.queue.control = .idle) :
    Moves 0 s { s with phase := .running s.queue.functors.length } where
  turn j hj := by
    simp only [turn, hPhase, Nat.add_zero] at hj ⊢
    rw [if_pos hj]
  fresh j hj h := by
    -- all that is queued is swapped out, so it runs in this turn
    simp only [turn, reduceCtorEq, false_or, Nat.add_zero] at hj h
    rw [if_pos hj] at h
    exact absurd h (lt_irrefl _)
  iteration h := absurd hIdle h

theorem moves_finished (hPhase : s.phase = .running 0) (hIdle : s.queue.control = .idle) :
    Moves 0 s { s with phase := .handling false, iteration := s.iteration + 1 } where
  turn j _ := by simp only [turn, hPhase, Nat.not_lt_zero, if_false]
  fresh j _ _ := by
    right
    simp only [turn, hPhase, Nat.not_lt_zero, if_false]
    omega
  iteration h := absurd hIdle h

theorem Aside.refl (id : TimerId) (q : TimerQueue) : Aside id 0 q q :=
  .frame rfl (fun h => h) rfl (fun h => h) List.prefix_rfl
    ⟨[], (List.append_nil _).symm, fun e he => by cases he⟩

/-- What was recorded about other timers does not count. -/
theorem count_other {new : List TimerEvent} {e : TimerEvent} (hLog : q'.log = q.log ++ new)
    (hNew : ∀ e' ∈ new, e'.sequence ≠ some n) (he : e.sequence = some n) :
    q'.log.count e = q.log.count e := by
  rw [hLog, List.count_append, List.count_eq_zero.mpr fun hMem => hNew e hMem he, Nat.add_zero]

theorem starts_aside (h : Aside id gone q q') : starts q' id.sequence = starts q id.sequence := by
  obtain ⟨new, hLog, hNew⟩ := h.log
  exact count_other hLog hNew rfl

theorem arms_aside (h : Aside id gone q q') : arms q' id.sequence = arms q id.sequence := by
  obtain ⟨new, hLog, hNew⟩ := h.log
  exact count_other hLog hNew rfl

theorem log_cancels {allowRetry : Bool} (h : Cancels q id allowRetry q') : q.log <+: q'.log := by
  cases h with
  | freed => exact List.prefix_append ..
  | marked => exact List.prefix_rfl
  | retried => exact List.prefix_rfl
  | nothing => exact List.prefix_rfl

theorem log_step {a : Action} (hInv : Inv q) (h : q.step a = some q') : q.log <+: q'.log := by
  cases step_outcome h with
  | ticked => exact List.prefix_rfl
  | added p =>
    rw [log_insert]
    exact List.prefix_append ..
  | posted => exact List.prefix_rfl
  | cancelled id => exact log_cancels (hInv.cancels id true)
  | cancelPosted => exact List.prefix_rfl
  | ranFunctor f rest _ hFunctors =>
    cases f with
    | insert p =>
      show q.log <+: (TimerQueue.insert { q with functors := rest } p).log
      rw [log_insert]
      exact List.prefix_append ..
    | cancelInLoop id allowRetry =>
      have hLog := log_cancels ((hInv.take_cancel hFunctors).cancels id allowRetry)
      exact hLog
  | began readAt =>
    obtain ⟨expired, others, timerfd, -, -, hEq⟩ := handleRead_spec hInv.owns.heap readAt
    rw [hEq]
  | called p => exact List.prefix_append ..
  | ended => exact List.prefix_rfl
  | reset p rest now _ hControl =>
    obtain ⟨t, ht⟩ := memory_of_resetting hInv hControl
    have ht' : TimerQueue.memory { q with control := .resetting rest now (q.deletes p) } p = some t := ht
    obtain ⟨-, -, -, e, hLog, -⟩ := resets_other ht' (resets ht' now)
    rw [hLog]
    exact List.prefix_append ..
  | finished =>
    obtain ⟨timerfd, lastArmed, hEq⟩ := finishReset_eq q
    rw [hEq]

/-- Nothing is recorded about a timer after it was freed. -/
theorem count_of_freed {e : TimerEvent} (hInv : Inv q') (hFreed : .deleted (some n) ∈ q.log)
    (hLog : q.log <+: q'.log) (he : e.sequence = some n) : q'.log.count e = q.log.count e := by
  obtain ⟨new, hNew⟩ := hLog
  refine count_other hNew.symm (fun e' he' => ?_) he
  have hQuiet := hInv.ledger.quiet
  rw [← hNew, List.pairwise_append] at hQuiet
  exact hQuiet.2.2 _ hFreed e' he' n rfl

/-- What a step may leave of the two numbers. -/
def Spends (n : Nat) (q q' : TimerQueue) (more again more' again' : Nat) : Prop :=
  starts q' n + more' ≤ starts q n + more ∧ arms q' n + again' ≤ arms q n + again

theorem spends_aside (h : Aside id gone q q') (more again : Nat) :
    Spends id.sequence q q' more again more again := by
  rw [Spends, starts_aside h, arms_aside h]
  exact ⟨le_rfl, le_rfl⟩

theorem spends_ran (hLog : q'.log = q.log ++ [.ran (some n)]) (hMore : 1 ≤ more) :
    Spends n q q' more again (more - 1) again := by
  have hStarts : starts q' n = starts q n + 1 := by
    rw [starts, hLog, List.count_append, List.count_singleton_self, starts]
  have hArms : arms q' n = arms q n := by simp [arms, hLog]
  rw [Spends, hStarts, hArms]
  omega

theorem spends_inserted (hLog : q'.log = q.log ++ [.inserted (some n)]) (hAgain : 1 ≤ again) :
    Spends n q q' more again more (again - 1) := by
  have hStarts : starts q' n = starts q n := by simp [starts, hLog]
  have hArms : arms q' n = arms q n + 1 := by
    rw [arms, hLog, List.count_append, List.count_singleton_self, arms]
  rw [Spends, hStarts, hArms]
  omega

/-- **A step that passes the timer by** and runs no functor. -/
theorem Fate.passed (h : Fate id last s more again) (hAside : Aside id 0 s.queue s'.queue)
    (hMoves : Moves 0 s s') : Fate id last s' more again ∧
      Spends id.sequence s.queue s'.queue more again more again :=
  ⟨h.aside hAside hMoves (fun _ _ => Nat.zero_le _) (fun _ _ _ => Nat.zero_le _),
    spends_aside hAside more again⟩

/-- A timer of the batch is in no other place. -/
theorem Fate.of_batch (h : Fate id last s more again) (hInv : Inv s.queue)
    (hLive : s.queue.sequence id.timer = some id.sequence)
    (hBatch : id.timer ∈ s.queue.control.batch) :
    s.iteration ≤ last ∧
      (id ∈ s.queue.cancelingTimers ∨
        1 ≤ again ∧ ∃ j, s.queue.functors[j]? = some (.cancelInLoop id false) ∧ s.turn j ≤ last) ∧
      ∀ rest expired now, s.queue.control = .calling rest expired now → id.timer ∈ rest → 1 ≤ more := by
  cases h with
  | waiting i j _ hi => exact absurd hBatch (hInv.not_mem_batch_of_inserting (mem_inserting hi))
  | armed j _ hTimers => exact absurd hTimers (hInv.not_mem_timers_of_batch hBatch)
  | freed hFreed => exact absurd hLive ((hInv.ledger.buried _ hFreed).2 id.timer)
  | batch _ _ hLast hEnd hMore => exact ⟨hLast, hEnd, hMore⟩

/-- A timer that is freed: nothing is left to be done. -/
theorem fate_freed (hLog : s'.queue.log = s.queue.log ++ [.deleted (some id.sequence)])
    (last more again : Nat) :
    Fate id last s' more again ∧ Spends id.sequence s.queue s'.queue more again more again := by
  refine ⟨.freed (by rw [hLog]; simp), ?_⟩
  simp [Spends, starts, arms, hLog]

theorem Fate.called (h : Fate id last s more again) (hGood : Good s) {expired : List Addr}
    (hControl : s.queue.control = .calling (id.timer :: rest) expired now)
    (hNext : q = TimerQueue.record { s.queue with control := .calling rest expired now } (.ran
      (some id.sequence))) (hLive : s.queue.sequence id.timer = some id.sequence) :
    ∃ more', Fate id last { s with queue := q } more' again ∧
      Spends id.sequence s.queue q more again more' again := by
  obtain ⟨hNot, hBatch⟩ := not_mem_rest_of_calling hGood.inv hGood.calls hControl
  obtain ⟨hLast, hEnd, hMore⟩ := h.of_batch hGood.inv hLive hBatch
  have hPos := hMore _ _ _ hControl (List.mem_cons_self ..)
  have hBatch' : q.control.batch = s.queue.control.batch := by
    rw [hNext, hControl]
    rfl
  refine ⟨more - 1, .batch ?_ (hBatch' ▸ hBatch) hLast ?_ ?_, spends_ran ?_ hPos⟩
  · rw [hNext]
    exact hLive
  · rw [hNext]
    exact hEnd
  · -- the callback that is called is not among those still to come
    intro rest' expired' now' hNow hMem
    rw [hNext] at hNow
    obtain ⟨rfl, -⟩ := TimerControl.calling.inj hNow
    exact absurd hMem hNot
  · rw [hNext]
    rfl

/-- The timer goes back into the heap, and its retry is still to come. -/
theorem Fate.restarted (h : Fate id last s more again) (hGood : Good s)
    (hControl : ∃ destroying, s.queue.control = .resetting (id.timer :: rest) now destroying)
    (hMarked : id ∉ s.queue.cancelingTimers) (hTimers : id.timer ∈ q.timers)
    (hSequence : q.sequence id.timer = some id.sequence)
    (hFunctors : q.functors = s.queue.functors)
    (hLog : q.log = s.queue.log ++ [.inserted (some id.sequence)])
    (hLive : s.queue.sequence id.timer = some id.sequence) :
    ∃ again', Fate id last { s with queue := q } more again' ∧
      Spends id.sequence s.queue q more again more again' := by
  have hBatch : id.timer ∈ s.queue.control.batch := by
    obtain ⟨_, hResetting⟩ := hControl
    rw [hResetting]
    exact List.mem_cons_self ..
  obtain ⟨-, hEnd, -⟩ := h.of_batch hGood.inv hLive hBatch
  obtain ⟨hAgain, j, hj, hLe⟩ := hEnd.resolve_left hMarked
  refine ⟨again - 1, .armed j hSequence hTimers (hFunctors ▸ hj) hLe fun hFresh => ?_,
    spends_inserted hLog hAgain⟩
  -- the timerfd has been read in this turn, and the retry runs in it
  have hHandled := hGood.batch (ne_idle_of_batch hBatch)
  rcases hFresh with hFresh | hFresh
  · cases hHandled.symm.trans hFresh
  · have hTurn : s.turn j = s.iteration := by rw [turn, hHandled]
    exact absurd hTurn (Nat.ne_of_gt hFresh)

theorem Fate.inserted (h : Fate id last s more again) (hGood : Good s) {rest : List TimerFunctor}
    (hPhase : s.phase = .running (left + 1))
    (hBefore : s.queue.functors = .insert id.timer :: rest) (hIdle : s.queue.control = .idle)
    (hTimers : id.timer ∈ q.timers) (hSequence : q.sequence id.timer = some id.sequence)
    (hFunctors : q.functors = rest) (hLog : q.log = s.queue.log ++ [.inserted (some id.sequence)])
    (hLive : s.queue.sequence id.timer = some id.sequence) :
    ∃ again', Fate id last { s with queue := q, phase := .running left } more again' ∧
      Spends id.sequence s.queue q more again more again' := by
  have hMoves := moves_ran q hPhase hIdle
  have hMem : id.timer ∈ s.queue.inserting := mem_inserting (i := 0) (by rw [hBefore]; rfl)
  cases h with
  | armed j _ hHeap => exact absurd hHeap (hGood.inv.not_mem_timers_of_inserting hMem)
  | batch _ hBatch =>
    rw [hIdle] at hBatch
    cases hBatch
  | freed hFreed => exact absurd hLive ((hGood.inv.ledger.buried _ hFreed).2 id.timer)
  | waiting i j _ hi hj hBehind hLast hAgain hMore =>
    -- the insert at the front is the only one
    obtain rfl : i = 0 := by
      cases i with
      | zero => rfl
      | succ i =>
        rw [hBefore, List.getElem?_cons_succ] at hi
        exact absurd (List.mem_of_getElem? hi) (not_mem_rest_of_insert hGood.inv hBefore)
    obtain ⟨j, rfl⟩ := Nat.exists_eq_succ_of_ne_zero (show j ≠ 0 by omega)
    have hTurn := hMoves.turn j (lt_of_functor hj)
    have hFirst : s.turn 0 = s.iteration := by
      rw [turn, hPhase]
      exact if_pos (Nat.succ_pos left)
    refine ⟨again - 1, .armed j hSequence hTimers ?_ (by rw [hTurn]; exact hLast) fun hFresh => ?_,
      spends_inserted hLog hAgain⟩
    · rw [hBefore, List.getElem?_cons_succ] at hj
      exact hFunctors ▸ hj
    · -- the loop reads the timerfd in between only if the retry runs in a later turn
      rcases hFresh with hFresh | hFresh
      · cases hFresh
      · rw [hTurn] at hFresh
        have hBoth := hMore (by rw [hFirst]; exact hFresh)
        omega

theorem Fate.taken (h : Fate id last s more again) (hGood : Good s) (hPhase : s.phase = .handling false)
    (hIdle : s.queue.control = .idle) (hTimers : id.timer ∈ s.queue.timers)
    (hBatch : id.timer ∈ q.control.batch)
    (hSequence : q.sequence id.timer = s.queue.sequence id.timer)
    (hFunctors : q.functors = s.queue.functors)
    (hLive : s.queue.sequence id.timer = some id.sequence) :
    Fate id last { s with queue := q, phase := .handling true } more again := by
  cases h with
  | waiting i j _ hi => exact absurd hTimers (hGood.inv.not_mem_timers_of_inserting (mem_inserting hi))
  | batch _ hBefore =>
    rw [hIdle] at hBefore
    cases hBefore
  | freed hFreed => exact absurd hLive ((hGood.inv.ledger.buried _ hFreed).2 id.timer)
  | armed j _ _ hj hLast hMore =>
    obtain ⟨hPos, hAgain⟩ := hMore (Or.inl hPhase)
    refine .batch (hSequence.trans hLive) hBatch ((s.iteration_le_turn j).trans hLast)
      (Or.inr ⟨hAgain, j, hFunctors ▸ hj, ?_⟩) fun _ _ _ _ _ => hPos
    rw [(moves_handled q hPhase hIdle).turn j (lt_of_functor hj)]
    exact hLast

theorem Fate.live (h : Fate id last s more again) (hFreed : .deleted (some id.sequence) ∉ s.queue.log) :
    s.queue.sequence id.timer = some id.sequence := by
  cases h with
  | waiting _ _ hLive => exact hLive
  | armed _ hLive => exact hLive
  | batch hLive => exact hLive
  | freed h => exact absurd h hFreed

/-- A functor that passes the timer by is neither its insert nor, once it is armed, its
retry. -/
theorem Fate.aside_functor {rest : List TimerFunctor} (h : Fate id last s more again)
    (hPhase : s.phase = .running (left + 1)) (hIdle : s.queue.control = .idle)
    (hFunctors : s.queue.functors = f :: rest) (hAside : Aside id 1 s.queue q)
    (hInsert : f ≠ .insert id.timer)
    (hRetry : id.timer ∈ s.queue.timers → f ≠ .cancelInLoop id false) :
    Fate id last { s with queue := q, phase := .running left } more again := by
  refine h.aside hAside (moves_ran q hPhase hIdle) (fun i hi => ?_) fun hPlace j hj => ?_
  · refine Nat.one_le_iff_ne_zero.mpr fun hZero => hInsert ?_
    rw [hZero, hFunctors] at hi
    exact Option.some.inj hi
  · rcases hPlace with hTimers | hBatch
    · refine Nat.one_le_iff_ne_zero.mpr fun hZero => hRetry hTimers ?_
      rw [hZero, hFunctors] at hj
      exact Option.some.inj hj
    · rw [hIdle] at hBatch
      cases hBatch

theorem log_turns (hGood : Good s) (hStep : s.step a = some s') : s.queue.log <+: s'.queue.log := by
  rcases (step_turns hStep).queue with hSame | ⟨b, hb⟩
  · rw [hSame]
  · exact log_step hGood.inv hb

/-- **The step lemma.** What a step spends of the starts and inserts left to the timer comes off
the bounds. -/
theorem fate_step (hGood : Good s) (hStep : s.step a = some s') (h : Fate id last s more again) :
    ∃ more' again', Fate id last s' more' again' ∧
      Spends id.sequence s.queue s'.queue more again more' again' := by
  -- a freed timer stays freed, and is neither called nor inserted
  by_cases hFreed : .deleted (some id.sequence) ∈ s.queue.log
  · have hLog := log_turns hGood hStep
    have hInv := (good_step hStep hGood).inv
    refine ⟨more, again, .freed (hLog.subset hFreed), ?_⟩
    rw [Spends, starts, starts, arms, arms, count_of_freed hInv hFreed hLog rfl,
      count_of_freed hInv hFreed hLog rfl]
    exact ⟨le_rfl, le_rfl⟩
  have hLive := h.live hFreed
  cases step_turns hStep with
  | worked a q hAny hq =>
    -- what a step does to the timer is one of four things
    cases about_step hGood.inv hLive hAny hq with
    | aside hAside =>
      exact ⟨more, again, h.passed hAside (moves_worked q)⟩
    | freed hLog => exact ⟨more, again, fate_freed hLog last more again⟩
    | called rest expired now hControl hNext =>
      obtain ⟨more', hFate⟩ := h.called hGood hControl hNext hLive
      exact ⟨more', again, hFate⟩
    | restarted rest now hControl hMarked hTimers hSequence hFunctors hLog =>
      obtain ⟨again', hFate⟩ := h.restarted hGood hControl hMarked hTimers hSequence
        hFunctors hLog hLive
      exact ⟨more, again', hFate⟩
  | ran left q hPhase hq =>
    obtain ⟨f, rest, hFunctors, -⟩ := functors_functor hGood.inv hq
    -- the batch was worked off before the functors were swapped out
    have hIdle : s.queue.control = .idle := by
      by_contra hBusy
      have hHandled := hGood.batch hBusy
      rw [hPhase] at hHandled
      cases hHandled
    rcases about_functor hGood.inv hLive hFunctors hq with
      ⟨hAside, hInsert, hRetry⟩ | ⟨rfl, hTimers, hSequence, hRest, hLog⟩ | hLog
    · exact ⟨more, again, h.aside_functor hPhase hIdle hFunctors hAside hInsert hRetry,
        spends_aside hAside more again⟩
    · obtain ⟨again', hFate⟩ := h.inserted hGood hPhase hFunctors hIdle hTimers hSequence
        hRest hLog hLive
      exact ⟨more, again', hFate⟩
    · exact ⟨more, again, fate_freed hLog last more again⟩
  | handled readAt q hPhase hq =>
    obtain ⟨hIdle, hSequence, hFunctors, hLog, hAbout⟩ := about_handleRead id hGood.inv hq
    rcases hAbout with hAside | ⟨hTimers, hBatch⟩
    · exact ⟨more, again, h.passed hAside (moves_handled q hPhase hIdle)⟩
    · refine ⟨more, again,
        h.taken hGood hPhase hIdle hTimers hBatch hSequence hFunctors hLive, ?_⟩
      simp only [Spends, starts, arms, hLog, le_refl, and_self]
  | swapped handled hPhase hIdle =>
    exact ⟨more, again, h.passed (.refl id s.queue) (moves_swapped hPhase hIdle)⟩
  | finished hPhase hIdle =>
    exact ⟨more, again, h.passed (.refl id s.queue) (moves_finished hPhase hIdle)⟩

/-! ## Runs -/

theorem good_reaches (hGood : Good s) (h : Reaches TimerLoop.step s s') : Good s' :=
  h.invariant hGood fun _ _ _ => good_step

theorem log_reaches (hGood : Good s) (h : Reaches TimerLoop.step s s') :
    s.queue.log <+: s'.queue.log := by
  induction h with
  | refl => exact List.prefix_rfl
  | next hRun a hStep ih => exact ih.trans (log_turns (good_reaches hGood hRun) hStep)

/-- **The run lemma.** -/
theorem fate_reaches (hGood : Good s) (h : Fate id last s more again)
    (hRun : Reaches TimerLoop.step s s') :
    ∃ more' again', Fate id last s' more' again' ∧
      Spends id.sequence s.queue s'.queue more again more' again' := by
  induction hRun with
  | refl => exact ⟨more, again, h, le_rfl, le_rfl⟩
  | next hRun a hStep ih =>
    obtain ⟨more₁, again₁, hFate, hStarts, hArms⟩ := ih
    obtain ⟨more₂, again₂, hFate', hStarts', hArms'⟩ :=
      fate_step (good_reaches hGood hRun) hStep hFate
    exact ⟨more₂, again₂, hFate', hStarts'.trans hStarts, hArms'.trans hArms⟩

/-- The bound on the turn: a timer that has not been freed has not outlived it. -/
theorem Fate.iteration_le (h : Fate id last s more again)
    (hFreed : .deleted (some id.sequence) ∉ s.queue.log) : s.iteration ≤ last := by
  cases h with
  | waiting i j _ _ _ _ hLast => exact (s.iteration_le_turn j).trans hLast
  | armed j _ _ _ hLast => exact (s.iteration_le_turn j).trans hLast
  | batch _ _ hLast => exact hLast
  | freed h => exact absurd h hFreed

/-- A timer of the batch that `reset` is to free. -/
structure Marked (id : TimerId) (s : TimerLoop) : Prop where
  live : s.queue.sequence id.timer = some id.sequence
  batch : id.timer ∈ s.queue.control.batch
  marked : id ∈ s.queue.cancelingTimers

/-- It stays in the batch until it is freed. -/
theorem marked_step (hGood : Good s) (hStep : s.step a = some s') (h : Marked id s) :
    Marked id s' ∨ .deleted (some id.sequence) ∈ s'.queue.log := by
  -- while there is a batch the loop neither reads the timerfd nor runs functors
  have hBusy : s.queue.control ≠ .idle := ne_idle_of_batch h.batch
  cases step_turns hStep with
  | worked a q hAny hq =>
    cases about_step hGood.inv h.live hAny hq with
    | aside hAside =>
      exact Or.inl ⟨hAside.sequence.trans h.live, hAside.batch h.batch, hAside.canceling h.marked⟩
    | freed hLog => exact Or.inr (by simp [hLog])
    | called rest expired now hControl hNext =>
      have hBatch : q.control.batch = s.queue.control.batch := by
        rw [hNext, hControl]
        rfl
      refine Or.inl ⟨?_, hBatch ▸ h.batch, ?_⟩
      · rw [hNext]
        exact h.live
      · rw [hNext]
        exact h.marked
    | restarted _ _ _ hMarked => exact absurd h.marked hMarked
  | ran left q hPhase =>
    have hHandled := hGood.batch hBusy
    rw [hPhase] at hHandled
    cases hHandled
  | handled readAt q hPhase =>
    have hHandled := hGood.batch hBusy
    rw [hPhase] at hHandled
    cases hHandled
  | swapped _ _ hIdle => exact absurd hIdle hBusy
  | finished _ hIdle => exact absurd hIdle hBusy

theorem marked_reaches (hGood : Good s) (h : Marked id s) (hRun : Reaches TimerLoop.step s s') :
    Marked id s' ∨ .deleted (some id.sequence) ∈ s'.queue.log := by
  induction hRun with
  | refl => exact Or.inl h
  | next hRun a hStep ih =>
    have hGood' := good_reaches hGood hRun
    rcases ih with hMarked | hFreed
    · exact marked_step hGood' hStep hMarked
    · exact Or.inr ((log_turns hGood' hStep).subset hFreed)

end TimerLoop

end ReactorNet
