import Mathlib.Data.Set.Insert
import ReactorNet.Net.TimerWakeup

/-!
# ReactorNet — what a batch of expired timers does to the queue

The first half is about `getExpired` alone, in any state in which the heap is in order. The
second half is about the whole of `handleRead`, with everything that its callbacks and other
threads do in between.

What is in the queue is a set of timers with their addresses (`queued`). What the callbacks
do to it is said by `Schedule.after`, which knows nothing of heaps, handles and marks. The
batch then adds the repeating timers that were not cancelled. A destructor that runs in `reset`
is user code like a callback, with one difference: a cancel of a timer that `reset` has still to
come to marks nothing any more (`late`), and the timer goes back into the queue.

Main results:

* `getExpired_spec` — the timers that are due, in the order of their expiration; the others
  stay.
* `Calls` — while the callbacks run, `expiredTimers_` has the handles of the whole batch.
* `batch_queued` — what is in the queue after a batch.
-/

namespace ReactorNet

open Lib

namespace TimerQueue

variable {q q' : TimerQueue} {p : Addr} {now : Timestamp}

/-! ## Extracting the expired timers -/

/-- The timer is due. -/
def due (q : TimerQueue) (now : Timestamp) (p : Addr) : Bool := q.expiration p ≤ now

theorem expiration_le_of_key_le {p' : Addr} (h : q.key p ≤ q.key p') :
    q.expiration p ≤ q.expiration p' :=
  Int64.le_iff_toInt_le.mpr h

/-- Behind a front that is not due nothing is. -/
theorem not_due_of_front {front : Addr} {rest : List Addr} (hHeap : IsHeap q.key (front :: rest))
    (hFront : ¬ q.expiration front ≤ now) : ∀ p ∈ front :: rest, q.due now p = false := by
  intro p hp
  refine decide_eq_false fun hDue => hFront ?_
  have hLe := expiration_le_of_key_le (hHeap.front_le hp)
  rw [Int64.le_iff_toInt_le] at hLe hDue ⊢
  exact hLe.trans hDue

/-- **`getExpired`** takes exactly the timers that are due, in the order of their expiration.
The others stay in the heap, which is in order again. -/
theorem getExpired_spec {fuel : Nat} (hHeap : IsHeap q.key q.timers)
    (hFuel : q.timers.length ≤ fuel) (now : Timestamp) :
    (getExpired fuel q now).2.Perm (q.timers.filter (q.due now)) ∧
      (getExpired fuel q now).2.Pairwise (fun p p' => q.expiration p ≤ q.expiration p') ∧
      ∃ others, others.Perm (q.timers.filter fun p => !q.due now p) ∧ IsHeap q.key others ∧
        (getExpired fuel q now).1 =
          { q with
            timers := others
            activeTimers :=
              q.activeTimers \ ((getExpired fuel q now).2.map q.timerId).toFinset } := by
  induction fuel generalizing q with
  | zero =>
    have hNil : q.timers = [] := List.length_eq_zero_iff.mp (Nat.le_zero.mp hFuel)
    exact ⟨by simp [getExpired, hNil], List.Pairwise.nil, q.timers, by simp [hNil], hHeap,
      by simp [getExpired]⟩
  | succ fuel ih =>
    simp only [getExpired]
    split
    · rename_i hNil
      exact ⟨by simp [hNil], List.Pairwise.nil, q.timers, by simp [hNil], hHeap, by simp⟩
    · rename_i front rest hTimers
      rw [hTimers] at hHeap hFuel ⊢
      split_ifs with hDue
      · obtain ⟨others, hPop, hPerm, hOthers⟩ := q.heap.popHeap_spec hHeap
        have hLength : others.length ≤ fuel := by
          rw [hPerm.length_eq]
          exact Nat.le_of_succ_le_succ hFuel
        -- neither the keys nor the handles change with the containers
        obtain ⟨hExpired, hSorted, others', hKept, hHeap', hEq⟩ := @ih
          { q with
            activeTimers := q.activeTimers.erase (q.timerId front)
            timers := others } hOthers hLength
        simp only [hPop, List.dropLast_concat, List.getLast?_concat, Option.toList_some,
          List.singleton_append, List.map_cons, List.toFinset_cons]
        refine ⟨?_, ?_, others', ?_, hHeap', ?_⟩
        · rw [List.filter_cons_of_pos (by simpa [due] using hDue)]
          exact (hExpired.trans (hPerm.filter _)).cons front
        · refine List.pairwise_cons.mpr ⟨fun p hp => ?_, hSorted⟩
          have hMem : p ∈ rest :=
            hPerm.mem_iff.mp (List.mem_of_mem_filter (hExpired.mem_iff.mp hp))
          exact expiration_le_of_key_le (hHeap.front_le (List.mem_cons_of_mem _ hMem))
        · rw [List.filter_cons_of_neg (by simpa [due] using hDue)]
          exact hKept.trans (hPerm.filter _)
        · rw [hEq, Finset.sdiff_insert, Finset.erase_sdiff_comm]
          rfl
      · have hNone := not_due_of_front hHeap hDue
        refine ⟨?_, List.Pairwise.nil, q.timers, ?_, ?_, ?_⟩
        · rw [List.filter_eq_nil_iff.mpr fun p hp => by simp [hNone p hp]]
        · rw [hTimers, List.filter_eq_self.mpr fun p hp => by simp [hNone p hp]]
        · rw [hTimers]
          exact hHeap
        · simp

/-! ## What a cancel does -/

/-- The four things a cancel can do. -/
inductive Cancels (q : TimerQueue) (id : TimerId) : Bool → TimerQueue → Prop
  | freed (allowRetry : Bool) (hActive : id ∈ q.activeTimers) :
      Cancels q id allowRetry
        (TimerQueue.delete
          { q with
            activeTimers := q.activeTimers.erase id
            timers := q.heap.makeHeap q.key (q.timers.erase id.timer) } id.timer)
  | marked (allowRetry : Bool) (hActive : id ∉ q.activeTimers)
      (hBatch : q.callingExpiredTimers = true ∧ id ∈ q.expiredTimers) :
      Cancels q id allowRetry { q with cancelingTimers := Insert.insert id q.cancelingTimers }
  | retried (hActive : id ∉ q.activeTimers)
      (hBatch : ¬ (q.callingExpiredTimers = true ∧ id ∈ q.expiredTimers)) :
      Cancels q id true (q.queueInLoop (.cancelInLoop id false))
  | nothing (hActive : id ∉ q.activeTimers)
      (hBatch : ¬ (q.callingExpiredTimers = true ∧ id ∈ q.expiredTimers)) :
      Cancels q id false q

theorem Inv.cancels (h : Inv q) (id : TimerId) (allowRetry : Bool) :
    Cancels q id allowRetry (q.cancelInLoop id allowRetry) := by
  unfold TimerQueue.cancelInLoop
  split_ifs with hActive hTimers hBatch hRetry
  · exact .freed allowRetry hActive
  · exact absurd ((h.owns.active id).mp hActive).1 hTimers
  · exact .marked allowRetry hActive hBatch
  · subst hRetry
    exact .retried hActive hBatch
  · obtain rfl : allowRetry = false := by simpa using hRetry
    exact .nothing hActive hBatch

/-- A free address is in none of the containers. -/
theorem Inv.not_mem_owned_of_free (h : Inv q) (hFree : q.memory p = none) : p ∉ q.owned := by
  intro hMem
  obtain ⟨n, hn⟩ := h.sequence_of_mem hMem
  simp [sequence, hFree] at hn

variable {id : TimerId} {allowRetry : Bool} {t : Timer}

/-- A cancel leaves the timers of the batch alone. -/
theorem Cancels.memory_of_batch (hCancel : Cancels q id allowRetry q') (h : Inv q)
    (hp : p ∈ q.control.batch) : q'.memory p = q.memory p := by
  cases hCancel with
  | freed _ hActive =>
    refine Function.update_of_ne ?_ _ _
    rintro rfl
    exact h.not_mem_timers_of_batch hp ((h.owns.active id).mp hActive).1
  | marked => rfl
  | retried => rfl
  | nothing => rfl

theorem Cancels.control (hCancel : Cancels q id allowRetry q') :
    q'.control = q.control ∧ q'.callingExpiredTimers = q.callingExpiredTimers ∧
      q'.expiredTimers = q.expiredTimers ∧ q'.numCreated = q.numCreated := by
  cases hCancel <;> exact ⟨rfl, rfl, rfl, rfl⟩

/-- The three things `reset` does with a timer. -/
inductive Resets (q : TimerQueue) (p : Addr) (now : Timestamp) (t : Timer) : TimerQueue → Prop
  | cancelled (hMarked : q.timerId p ∈ q.cancelingTimers) :
      Resets q p now t
        (TimerQueue.delete
          { q with cancelingTimers := q.cancelingTimers.erase (q.timerId p) } p)
  | restarted (hMarked : q.timerId p ∉ q.cancelingTimers) (hRepeats : t.repeats = true) :
      Resets q p now t
        (TimerQueue.insert
          { q with memory := Function.update q.memory p (some (t.restart now)) } p)
  | ended (hMarked : q.timerId p ∉ q.cancelingTimers) (hRepeats : t.repeats = false) :
      Resets q p now t (q.delete p)

theorem resets (ht : q.memory p = some t) (now : Timestamp) :
    Resets q p now t (q.resetOne p now) := by
  unfold resetOne
  split_ifs with hMarked
  · exact .cancelled hMarked
  · rw [ht]
    dsimp only
    split_ifs with hRepeats
    · exact .restarted hMarked hRepeats
    · exact .ended hMarked (by simpa using hRepeats)

/-! ## While the callbacks run -/

/-- While the callbacks run, those that are still to come are the end of the batch, and a
cancel finds every timer of the batch in `expiredTimers_`. -/
def Calls (q : TimerQueue) : Prop :=
  ∀ rest expired now, q.control = .calling rest expired now →
    q.callingExpiredTimers = true ∧ rest <:+ expired ∧ ∀ p ∈ expired, q.timerId p ∈ q.expiredTimers

theorem timerId_congr (h : q'.memory p = q.memory p) : q'.timerId p = q.timerId p := by
  simp only [timerId, sequence, h]

theorem Calls.keep (h : Calls q) (hControl : q'.control = q.control)
    (hCalling : q'.callingExpiredTimers = q.callingExpiredTimers)
    (hExpired : q'.expiredTimers = q.expiredTimers)
    (hMemory : ∀ p ∈ q.control.batch, q'.memory p = q.memory p) : Calls q' := by
  intro rest expired now hNow
  rw [hControl] at hNow
  obtain ⟨hFlag, hSuffix, hHandles⟩ := h rest expired now hNow
  have hBatch : q.control.batch = expired := by rw [hNow]; rfl
  refine ⟨hCalling.trans hFlag, hSuffix, fun p hp => ?_⟩
  rw [hExpired, timerId_congr (hMemory p (hBatch ▸ hp))]
  exact hHandles p hp

theorem calls_of_not_calling (h : ∀ rest expired now, q.control ≠ .calling rest expired now) :
    Calls q := fun rest expired now hNow => absurd hNow (h rest expired now)

theorem insert_frame (q : TimerQueue) (p : Addr) :
    (q.insert p).memory = q.memory ∧ (q.insert p).control = q.control ∧
      (q.insert p).callingExpiredTimers = q.callingExpiredTimers ∧
      (q.insert p).expiredTimers = q.expiredTimers ∧
      (q.insert p).cancelingTimers = q.cancelingTimers ∧
      (q.insert p).functors = q.functors ∧ (q.insert p).numCreated = q.numCreated := by
  obtain ⟨timerfd, lastArmed, hEq⟩ := insert_eq q p
  rw [hEq]
  exact ⟨rfl, rfl, rfl, rfl, rfl, rfl, rfl⟩

theorem memory_create (q : TimerQueue) {p' : Addr} (h : p' ≠ p) (when : Timestamp)
    (interval : Int64) (repeats : Bool) :
    (q.create p when interval repeats).memory p' = q.memory p' :=
  Function.update_of_ne h _ _

theorem Inv.memory_create_of_batch (h : Inv q) (hFree : q.memory p = none) (when : Timestamp)
    (interval : Int64) (repeats : Bool) :
    ∀ p' ∈ q.control.batch, (q.create p when interval repeats).memory p' = q.memory p' := by
  intro p' hp'
  refine memory_create q ?_ when interval repeats
  rintro rfl
  exact h.not_mem_owned_of_free hFree (by simp [owned, hp'])

theorem calls_step {a : Action} (hStep : q.step a = some q') (hInv : Inv q) (h : Calls q) :
    Calls q' := by
  cases step_outcome hStep with
  | ticked now => exact h.keep rfl rfl rfl fun _ _ => rfl
  | added p when interval repeats hFree =>
    obtain ⟨hMemory, hControl, hCalling, hExpired, -⟩ :=
      insert_frame (q.create p when interval repeats) p
    refine h.keep hControl hCalling hExpired fun p' hp' => ?_
    rw [hMemory]
    exact hInv.memory_create_of_batch hFree when interval repeats p' hp'
  | posted p when interval repeats hFree =>
    exact h.keep rfl rfl rfl (hInv.memory_create_of_batch hFree when interval repeats)
  | cancelled id =>
    have hCancel := hInv.cancels id true
    obtain ⟨hControl, hCalling, hExpired, -⟩ := hCancel.control
    exact h.keep hControl hCalling hExpired fun p hp => hCancel.memory_of_batch hInv hp
  | cancelPosted id => exact h.keep rfl rfl rfl fun _ _ => rfl
  | ranFunctor f rest hIdle hFunctors =>
    -- neither functor starts a batch
    refine calls_of_not_calling fun rest' expired now hNow => ?_
    have hControl : ({ q with functors := rest }.runFunctor f).control = q.control := by
      cases f with
      | insert p => exact (insert_frame _ p).2.1
      | cancelInLoop id allowRetry =>
        exact ((hInv.take_cancel hFunctors).cancels id allowRetry).control.1
    rw [hControl, hIdle] at hNow
    cases hNow
  | began readAt hIdle =>
    -- the whole batch is still to be called
    intro rest expired now hNow
    obtain ⟨rfl, rfl, -⟩ := TimerControl.calling.inj hNow
    exact ⟨rfl, List.suffix_refl _, fun p hp => List.mem_toFinset.mpr (List.mem_map_of_mem hp)⟩
  | called p rest expired now hControl =>
    obtain ⟨hFlag, hSuffix, hHandles⟩ := h _ _ _ hControl
    intro rest' expired' now' hNow
    obtain ⟨rfl, rfl, -⟩ := TimerControl.calling.inj hNow
    exact ⟨hFlag, (List.suffix_cons p rest).trans hSuffix, hHandles⟩
  | ended expired now =>
    exact calls_of_not_calling fun _ _ _ hNow => by cases hNow
  | reset p rest now =>
    refine calls_of_not_calling fun rest' expired' now' hNow => ?_
    have hControl : ({ q with control := .resetting rest now (q.deletes p) }.resetOne p now).control =
        .resetting rest now (q.deletes p) := by
      unfold resetOne
      split_ifs
      · rfl
      · split
        · split_ifs
          · exact (insert_frame _ p).2.1
          · rfl
        · rfl
    rw [hControl] at hNow
    cases hNow
  | finished now =>
    obtain ⟨timerfd, lastArmed, hEq⟩ := finishReset_eq q
    rw [hEq]
    exact calls_of_not_calling fun _ _ _ hNow => by cases hNow

theorem calls_new (heap : HeapAlgorithms Addr Int) : Calls { heap := heap } :=
  calls_of_not_calling fun _ _ _ hNow => by cases hNow

/-! ## What is in the queue -/

/-- The timers in the queue, with their addresses. -/
def queued (q : TimerQueue) : Set (Addr × Timer) :=
  { x | x.1 ∈ q.timers ∧ q.memory x.1 = some x.2 }

/-- The handle of a timer in the queue. -/
def handle (x : Addr × Timer) : TimerId := ⟨x.1, x.2.sequence⟩

theorem queued_insert (q : TimerQueue) (p : Addr) (ht : q.memory p = some t) :
    queued (q.insert p) = Insert.insert (p, t) (queued q) := by
  have hMemory := (insert_frame q p).1
  ext ⟨p', t'⟩
  simp only [queued, Set.mem_ofPred_eq, Set.mem_insert_iff, mem_timers_insert, hMemory,
    Prod.mk.injEq]
  constructor
  · rintro ⟨rfl | hMem, ht'⟩
    · exact Or.inl ⟨rfl, Option.some.inj (ht'.symm.trans ht)⟩
    · exact Or.inr ⟨hMem, ht'⟩
  · rintro (⟨rfl, rfl⟩ | ⟨hMem, ht'⟩)
    · exact ⟨Or.inl rfl, ht⟩
    · exact ⟨Or.inr hMem, ht'⟩

theorem queued_of_not_mem (hTimers : q'.timers = q.timers) (hp : p ∉ q.timers)
    (hMemory : ∀ p', p' ≠ p → q'.memory p' = q.memory p') : queued q' = queued q := by
  ext ⟨p', t'⟩
  simp only [queued, Set.mem_ofPred_eq, hTimers]
  refine and_congr_right fun hMem => ?_
  rw [hMemory p' fun hEq => hp (hEq ▸ hMem)]

/-- A handle is active exactly if it is that of a timer in the queue. -/
theorem Inv.mem_activeTimers (h : Inv q) : id ∈ q.activeTimers ↔ ∃ x ∈ queued q, handle x = id := by
  rw [h.owns.active, sequence, Option.map_eq_some_iff]
  constructor
  · rintro ⟨hMem, t, ht, hSequence⟩
    exact ⟨(id.timer, t), ⟨hMem, ht⟩, by rw [handle, hSequence]⟩
  · rintro ⟨⟨p, t⟩, ⟨hMem, ht⟩, rfl⟩
    exact ⟨hMem, t, ht, rfl⟩

theorem Cancels.queued (hCancel : Cancels q id allowRetry q') (h : Inv q) :
    TimerQueue.queued q' = { x ∈ TimerQueue.queued q | handle x ≠ id } := by
  -- a handle that is not active is nobody's
  have hNobody : id ∉ q.activeTimers →
      TimerQueue.queued q = { x ∈ TimerQueue.queued q | handle x ≠ id } := by
    intro hActive
    ext x
    refine ⟨fun hx => ⟨hx, fun hEq => hActive (h.mem_activeTimers.mpr ⟨x, hx, hEq⟩)⟩, fun hx => hx.1⟩
  cases hCancel with
  | freed _ hActive =>
    obtain ⟨hMem, hSequence⟩ := (h.owns.active id).mp hActive
    ext ⟨p, t⟩
    simp only [TimerQueue.queued, TimerQueue.delete, Set.mem_ofPred_eq, (q.heap.makeHeap_perm _).mem_iff,
      h.nodup.2.1.mem_erase_iff, Function.update_apply]
    constructor
    · rintro ⟨⟨hne, hp⟩, ht⟩
      rw [if_neg hne] at ht
      exact ⟨⟨hp, ht⟩, fun hEq => hne (congrArg TimerId.timer hEq)⟩
    · rintro ⟨⟨hp, ht⟩, hne⟩
      have hOther : p ≠ id.timer := by
        rintro rfl
        rw [sequence, ht] at hSequence
        exact hne (by rw [handle, Option.some.inj hSequence])
      exact ⟨⟨hOther, hp⟩, by rw [if_neg hOther]; exact ht⟩
  | marked _ hActive => exact hNobody hActive
  | retried hActive => exact hNobody hActive
  | nothing hActive => exact hNobody hActive

/-! ## What the callbacks do -/

/-- The timers that are scheduled, and how many were ever created. -/
structure Schedule where
  created : Nat
  queued : Set (Addr × Timer)

/-- A timer that a callback adds is scheduled at once, and one that it cancels is not
scheduled any more. Another thread only creates its timer. -/
def Schedule.after (s : Schedule) : Action → Schedule
  | .addTimer p when interval repeats true =>
    ⟨s.created + 1, Insert.insert (p, ⟨when, interval, repeats, s.created + 1⟩) s.queued⟩
  | .addTimer _ _ _ _ false => { s with created := s.created + 1 }
  | .cancel id true => { s with queued := { x ∈ s.queued | handle x ≠ id } }
  | _ => s

/-- The timers of a batch that go back into the queue: those that repeat and were not
cancelled by a callback. -/
def rearmed (q : TimerQueue) (now : Timestamp) (cancelled : Set TimerId) (batch : List Addr) :
    Set (Addr × Timer) :=
  { x | ∃ p ∈ batch, ∃ t, q.memory p = some t ∧ t.repeats = true ∧ handle (p, t) ∉ cancelled ∧
    x = (p, { t with expiration := now + t.interval }) }

/-- What the callbacks have cancelled. -/
def cancelledBy (acts : List Action) : Set TimerId := { id | .cancel id true ∈ acts }

/-- A cancel that comes too late for the batch: user code that runs in `reset` cancels a timer
that is still to be reset. No cancel of a callback is late. -/
def late (q : TimerQueue) : Action → Bool
  | .cancel id true =>
    match q.control with
    | .resetting rest _ _ => id ∈ rest.map q.timerId
    | _ => false
  | _ => false

/-- The actions of a run, without the cancels that come too late. -/
def timely : TimerQueue → List Action → List Action
  | _, [] => []
  | q, a :: acts =>
    match q.step a with
    | some next => if q.late a then timely next acts else a :: timely next acts
    | none => []

theorem timely_sublist (q : TimerQueue) (acts : List Action) : (timely q acts).Sublist acts := by
  induction acts generalizing q with
  | nil => exact .refl _
  | cons a acts ih =>
    rw [timely]
    split
    · split_ifs
      · exact (ih _).cons a
      · exact (ih _).cons_cons a
    · exact List.nil_sublist _

/-- The middle of a batch that began in the state `q`: what was done so far, and which timers
of the batch are still to be reset. -/
structure During (q : TimerQueue) (expired : List Addr) (s : Schedule) (cancelled : Set TimerId)
    (q' : TimerQueue) : Prop where
  inv : Inv q'
  calls : Calls q'
  now : q'.control.now = some q.clock
  created : s.created = q'.numCreated
  memory : ∀ p ∈ q'.control.batch, q'.memory p = q.memory p
  marks : ∀ p ∈ q'.control.batch, q.timerId p ∈ q'.cancelingTimers ↔ q.timerId p ∈ cancelled
  queued : ∃ done, expired = done ++ q'.control.batch ∧
    TimerQueue.queued q' = s.queued ∪ rearmed q q.clock cancelled done

variable {expired : List Addr} {s : Schedule} {cancelled cancelled' : Set TimerId}
  {q'' : TimerQueue}

theorem rearmed_append (q : TimerQueue) (now : Timestamp) (cancelled : Set TimerId)
    (done : List Addr) (p : Addr) :
    rearmed q now cancelled (done ++ [p]) = rearmed q now cancelled done ∪ rearmed q now cancelled [p] := by
  ext x
  simp only [rearmed, Set.mem_union, Set.mem_ofPred_eq, List.mem_append, or_and_right, exists_or]

/-- A timer that is cancelled, or does not repeat, is not armed again. -/
theorem rearmed_empty (ht : q.memory p = some t)
    (h : t.repeats = false ∨ handle (p, t) ∈ cancelled) : rearmed q now cancelled [p] = ∅ := by
  refine Set.eq_empty_of_forall_notMem ?_
  rintro x ⟨p', hp', t', ht', hRepeats, hNot, -⟩
  obtain rfl := List.mem_singleton.mp hp'
  obtain rfl := Option.some.inj (ht'.symm.trans ht)
  rcases h with h | h
  · rw [h] at hRepeats
    cases hRepeats
  · exact hNot h

theorem rearmed_singleton (ht : q.memory p = some t) (hRepeats : t.repeats = true)
    (hNot : handle (p, t) ∉ cancelled) :
    rearmed q now cancelled [p] = {(p, { t with expiration := now + t.interval })} := by
  ext x
  constructor
  · rintro ⟨p', hp', t', ht', -, -, rfl⟩
    obtain rfl := List.mem_singleton.mp hp'
    obtain rfl := Option.some.inj (ht'.symm.trans ht)
    rfl
  · rintro rfl
    exact ⟨p, List.mem_singleton_self p, t, ht, hRepeats, hNot, rfl⟩

/-- A cancel takes a timer out of what goes back. -/
theorem rearmed_cancel (h : ∀ id', id' ∈ cancelled' ↔ id' ∈ cancelled ∨ id' = id)
    (done : List Addr) :
    rearmed q now cancelled' done = { x ∈ rearmed q now cancelled done | handle x ≠ id } := by
  ext x
  constructor
  · rintro ⟨p, hp, t, ht, hRepeats, hNot, rfl⟩
    rw [h, not_or] at hNot
    exact ⟨⟨p, hp, t, ht, hRepeats, hNot.1, rfl⟩, hNot.2⟩
  · rintro ⟨⟨p, hp, t, ht, hRepeats, hNot, rfl⟩, hne⟩
    refine ⟨p, hp, t, ht, hRepeats, ?_, rfl⟩
    rw [h, not_or]
    exact ⟨hNot, hne⟩

theorem During.keep (h : During q expired s cancelled q') (hInv : Inv q'') (hCalls : Calls q'')
    (hNow : q''.control.now = q'.control.now) (hBatch : q''.control.batch = q'.control.batch)
    (hMemory : q''.memory = q'.memory) (hTimers : q''.timers = q'.timers)
    (hCanceling : q''.cancelingTimers = q'.cancelingTimers)
    (hCreated : q''.numCreated = q'.numCreated) : During q expired s cancelled q'' where
  inv := hInv
  calls := hCalls
  now := hNow.trans h.now
  created := h.created.trans hCreated.symm
  memory := by
    rw [hBatch, hMemory]
    exact h.memory
  marks := by
    rw [hBatch, hCanceling]
    exact h.marks
  queued := by
    rw [hBatch]
    obtain ⟨done, hExpired, hQueued⟩ := h.queued
    refine ⟨done, hExpired, ?_⟩
    rw [← hQueued]
    simp only [TimerQueue.queued, hTimers, hMemory]

theorem During.handle_eq (h : During q expired s cancelled q') (hp : p ∈ q'.control.batch) :
    ∃ t, q'.memory p = some t ∧ q.memory p = some t ∧ q.timerId p = handle (p, t) ∧
      q'.timerId p = handle (p, t) := by
  obtain ⟨n, hn⟩ := h.inv.sequence_of_mem (show p ∈ q'.owned by simp [owned, hp])
  obtain ⟨t, ht, rfl⟩ := Option.map_eq_some_iff.mp hn
  have ht' := (h.memory p hp).symm.trans ht
  refine ⟨t, ht, ht', ?_, ?_⟩
  · simp [timerId, sequence, ht', handle]
  · simp [timerId, sequence, ht, handle]

theorem During.create (h : During q expired s cancelled q') (hFree : q'.memory p = none)
    (when : Timestamp) (interval : Int64) (repeats : Bool) :
    (∀ p' ∈ q'.control.batch, (q'.create p when interval repeats).memory p' = q.memory p') ∧
      TimerQueue.queued (q'.create p when interval repeats) = TimerQueue.queued q' := by
  constructor
  · intro p' hp'
    rw [h.inv.memory_create_of_batch hFree when interval repeats p' hp']
    exact h.memory p' hp'
  · refine queued_of_not_mem rfl (fun hMem => ?_) fun p' hp' => memory_create q' hp' when interval repeats
    exact h.inv.not_mem_owned_of_free hFree (by simp [owned, hMem])

theorem During.added (h : During q expired s cancelled q') (hFree : q'.memory p = none)
    (when : Timestamp) (interval : Int64) (repeats : Bool)
    (hInv : Inv ((q'.create p when interval repeats).insert p))
    (hCalls : Calls ((q'.create p when interval repeats).insert p)) :
    During q expired (s.after (.addTimer p when interval repeats true)) cancelled
      ((q'.create p when interval repeats).insert p) := by
  obtain ⟨hMemory, hQueued⟩ := h.create hFree when interval repeats
  obtain ⟨hFrame, hControl, -, -, hCanceling, -, hCreated⟩ :=
    insert_frame (q'.create p when interval repeats) p
  have hNew : (q'.create p when interval repeats).memory p =
      some ⟨when, interval, repeats, q'.numCreated + 1⟩ := Function.update_self ..
  exact
    { inv := hInv
      calls := hCalls
      now := by rw [hControl]; exact h.now
      created := by rw [hCreated]; exact congrArg (· + 1) h.created
      memory := by rw [hControl, hFrame]; exact hMemory
      marks := by rw [hControl, hCanceling]; exact h.marks
      queued := by
        obtain ⟨done, hExpired, hBefore⟩ := h.queued
        refine ⟨done, by rw [hControl]; exact hExpired, ?_⟩
        rw [queued_insert _ p hNew, hQueued, hBefore, ← h.created]
        exact (Set.insert_union ..).symm }

theorem During.posted (h : During q expired s cancelled q') (hFree : q'.memory p = none)
    (when : Timestamp) (interval : Int64) (repeats : Bool)
    (hInv : Inv ((q'.create p when interval repeats).queueInLoop (.insert p)))
    (hCalls : Calls ((q'.create p when interval repeats).queueInLoop (.insert p))) :
    During q expired (s.after (.addTimer p when interval repeats false)) cancelled
      ((q'.create p when interval repeats).queueInLoop (.insert p)) := by
  obtain ⟨hMemory, hQueued⟩ := h.create hFree when interval repeats
  exact
    { inv := hInv
      calls := hCalls
      now := h.now
      created := congrArg (· + 1) h.created
      memory := hMemory
      marks := h.marks
      queued := by
        obtain ⟨done, hExpired, hBefore⟩ := h.queued
        exact ⟨done, hExpired, hQueued.trans hBefore⟩ }

/-- Which marks a cancel sets that is not late. -/
theorem During.marks_cancel (h : During q expired s cancelled q')
    (hCancel : Cancels q' id true q'') (hTimely : q'.late (.cancel id true) = false)
    (hp : p ∈ q'.control.batch) :
    q.timerId p ∈ q''.cancelingTimers ↔ q.timerId p ∈ cancelled ∨ q.timerId p = id := by
  obtain ⟨t, ht, -, hId, hId'⟩ := h.handle_eq hp
  cases hCancel with
  | freed _ hActive =>
    -- that timer is in the heap and not in the batch
    have hOther : q.timerId p ≠ id := by
      rintro rfl
      exact h.inv.not_mem_timers_of_batch hp ((h.inv.owns.active _).mp hActive).1
    rw [or_iff_left hOther]
    exact h.marks p hp
  | marked _ hActive hBatch =>
    rw [Finset.mem_insert, or_comm, h.marks p hp]
  | retried hActive hBatch =>
    have hOther : q.timerId p ≠ id := by
      rintro rfl
      cases hControl : q'.control with
      | idle =>
        rw [hControl] at hp
        cases hp
      | calling rest expired' now =>
        obtain ⟨hFlag, -, hHandles⟩ := h.calls rest expired' now hControl
        rw [hControl] at hp
        exact hBatch ⟨hFlag, by rw [hId, ← hId']; exact hHandles p hp⟩
      | resetting rest now destroying =>
        -- the timer is still to be reset, so its cancel would be late
        rw [hControl] at hp
        simp only [late, hControl, decide_eq_false_iff_not] at hTimely
        exact hTimely (List.mem_map.mpr ⟨p, hp, hId'.trans hId.symm⟩)
    rw [or_iff_left hOther]
    exact h.marks p hp

theorem During.cancels (h : During q expired s cancelled q') (hCancel : Cancels q' id true q'')
    (hTimely : q'.late (.cancel id true) = false) (hInv : Inv q'') (hCalls : Calls q'')
    (hCancelled : ∀ id', id' ∈ cancelled' ↔ id' ∈ cancelled ∨ id' = id) :
    During q expired (s.after (.cancel id true)) cancelled' q'' := by
  obtain ⟨hControl, -, -, hCreated⟩ := hCancel.control
  exact
    { inv := hInv
      calls := hCalls
      now := by rw [hControl]; exact h.now
      created := by rw [hCreated]; exact h.created
      memory := by
        rw [hControl]
        intro p hp
        rw [hCancel.memory_of_batch h.inv hp]
        exact h.memory p hp
      marks := by
        rw [hControl]
        intro p hp
        rw [hCancelled]
        exact h.marks_cancel hCancel hTimely hp
      -- in the schedule the cancel removes what it removes from the queue
      queued := by
        obtain ⟨done, hExpired, hBefore⟩ := h.queued
        refine ⟨done, by rw [hControl]; exact hExpired, ?_⟩
        rw [hCancel.queued h.inv, hBefore, rearmed_cancel hCancelled]
        ext x
        simp only [Schedule.after, Set.mem_ofPred_eq, Set.mem_union, or_and_right] }

/-- A late cancel only queues its retry: the timer is not in the heap, and no mark is set. -/
theorem During.late (h : During q expired s cancelled q') (hCancel : Cancels q' id true q'')
    (hLate : q'.late (.cancel id true) = true) (hInv : Inv q'') (hCalls : Calls q'') :
    During q expired s cancelled q'' := by
  unfold TimerQueue.late at hLate
  cases hControl : q'.control with
  | idle => simp [hControl] at hLate
  | calling => simp [hControl] at hLate
  | resetting rest now destroying =>
    simp only [hControl, decide_eq_true_eq] at hLate
    obtain ⟨p, hp, rfl⟩ := List.mem_map.mp hLate
    cases hCancel with
    | freed _ hActive =>
      have hBatch : p ∈ q'.control.batch := by rw [hControl]; exact hp
      exact absurd ((h.inv.owns.active _).mp hActive).1 (h.inv.not_mem_timers_of_batch hBatch)
    | marked _ _ hBatch =>
      -- the flag is down in `reset`
      obtain ⟨⟨_, _, _, hCalling⟩, -⟩ := h.inv.batched.calling hBatch.1
      rw [hControl] at hCalling
      cases hCalling
    | retried => exact h.keep hInv hCalls rfl rfl rfl rfl rfl rfl

/-- One timer is reset: it is the first of those that are left. -/
theorem During.reset (h : During q expired s cancelled q') {rest : List Addr}
    {destroying deletes : Bool} (hControl : q'.control = .resetting (p :: rest) now destroying)
    (hInv : Inv (TimerQueue.resetOne { q' with control := .resetting rest now deletes } p now))
    (hCalls : Calls (TimerQueue.resetOne { q' with control := .resetting rest now deletes } p
      now)) :
    During q expired s cancelled
      (TimerQueue.resetOne { q' with control := .resetting rest now deletes } p now) := by
  have hBatch : q'.control.batch = p :: rest := by rw [hControl]; rfl
  have hClock : now = q.clock := by
    have hNow := h.now
    rw [hControl] at hNow
    exact Option.some.inj hNow
  have hp : p ∈ q'.control.batch := by
    rw [hBatch]
    exact List.mem_cons_self ..
  obtain ⟨t, ht, ht', hId, hId'⟩ := h.handle_eq hp
  have hNot : p ∉ q'.timers := h.inv.not_mem_timers_of_batch hp
  -- the batch has every timer once, so the rest of it is not touched
  have hOther : ∀ p' ∈ rest, p' ≠ p := by
    have hCons : (p :: rest).Nodup := hBatch ▸ h.inv.nodup.2.2
    intro p' hp' hEq
    exact (List.nodup_cons.mp hCons).1 (hEq ▸ hp')
  have hMemory : ∀ p' ∈ rest, q'.memory p' = q.memory p' := fun p' hp' =>
    h.memory p' (by rw [hBatch]; exact List.mem_cons_of_mem p hp')
  have hMarks : ∀ p' ∈ rest, q.timerId p' ∈ q'.cancelingTimers ↔ q.timerId p' ∈ cancelled :=
    fun p' hp' => h.marks p' (by rw [hBatch]; exact List.mem_cons_of_mem p hp')
  have hMark : handle (p, t) ∈ q'.cancelingTimers ↔ handle (p, t) ∈ cancelled :=
    hId ▸ h.marks p hp
  obtain ⟨done, hExpired, hBefore⟩ := h.queued
  have hExpired' : expired = done ++ [p] ++ rest := by
    rw [hExpired, hBatch, List.append_assoc]
    rfl
  have hResets := resets (q := { q' with control := .resetting rest now deletes }) ht now
  generalize TimerQueue.resetOne { q' with control := .resetting rest now deletes } p now = q'' at *
  cases hResets with
  | cancelled hMarked =>
    have hCancelled : handle (p, t) ∈ cancelled := hMark.mp (hId' ▸ hMarked)
    exact
      { inv := hInv
        calls := hCalls
        now := congrArg some hClock
        created := h.created
        memory := fun p' hp' => (Function.update_of_ne (hOther p' hp') _ _).trans (hMemory p' hp')
        marks := fun p' hp' => by
          have hne : q.timerId p' ≠ q'.timerId p := fun hEq =>
            hOther p' hp' (congrArg TimerId.timer hEq)
          exact (Finset.mem_erase.trans (and_iff_right hne)).trans (hMarks p' hp')
        queued := by
          refine ⟨done ++ [p], hExpired', ?_⟩
          rw [rearmed_append, rearmed_empty ht' (.inr hCancelled), Set.union_empty, ← hBefore]
          exact queued_of_not_mem rfl hNot fun p' hp' => Function.update_of_ne hp' _ _ }
  | restarted hMarked hRepeats =>
    have hLive : handle (p, t) ∉ cancelled := fun hMem => hMarked (hId' ▸ hMark.mpr hMem)
    obtain ⟨hFrame, hControl', -, -, hCanceling, -, hCreated⟩ := insert_frame
      { q' with
        control := .resetting rest now deletes
        memory := Function.update q'.memory p (some (t.restart now)) } p
    have hTime : t.restart now = { t with expiration := now + t.interval } := by
      rw [Timer.restart, if_pos hRepeats]
    exact
      { inv := hInv
        calls := hCalls
        now := by rw [hControl']; exact congrArg some hClock
        created := by rw [hCreated]; exact h.created
        memory := by
          rw [hControl', hFrame]
          intro p' hp'
          exact (Function.update_of_ne (hOther p' hp') _ _).trans (hMemory p' hp')
        marks := by
          rw [hControl', hCanceling]
          exact hMarks
        queued := by
          refine ⟨done ++ [p], by rw [hControl']; exact hExpired', ?_⟩
          have hSame : TimerQueue.queued
              { q' with
                control := .resetting rest now deletes
                memory := Function.update q'.memory p (some (t.restart now)) } =
              TimerQueue.queued q' :=
            queued_of_not_mem rfl hNot fun p' hp' => Function.update_of_ne hp' _ _
          rw [queued_insert _ p (Function.update_self ..), hSame, hBefore, rearmed_append,
            rearmed_singleton ht' hRepeats hLive, ← Set.union_assoc, Set.union_singleton, hTime,
            hClock] }
  | ended hMarked hRepeats =>
    exact
      { inv := hInv
        calls := hCalls
        now := congrArg some hClock
        created := h.created
        memory := fun p' hp' => (Function.update_of_ne (hOther p' hp') _ _).trans (hMemory p' hp')
        marks := hMarks
        queued := by
          refine ⟨done ++ [p], hExpired', ?_⟩
          rw [rearmed_append, rearmed_empty ht' (.inl hRepeats), Set.union_empty, ← hBefore]
          exact queued_of_not_mem rfl hNot fun p' hp' => Function.update_of_ne hp' _ _ }

/-- **One step in the middle of a batch**, if it is no late cancel. -/
theorem During.step {a : Action} (h : During q expired s cancelled q')
    (hStep : q'.step a = some q'') (hLast : a ≠ .finishReset) (hTimely : q'.late a = false)
    (hCancelled : ∀ id, id ∈ cancelled' ↔ id ∈ cancelled ∨ a = .cancel id true) :
    During q expired (s.after a) cancelled' q'' := by
  have hInv := inv_step hStep h.inv
  have hCalls := calls_step hStep h.inv h.calls
  have hNotIdle : q'.control ≠ .idle := fun hIdle => by
    have hNow := h.now
    rw [hIdle] at hNow
    cases hNow
  -- every action but one leaves the cancelled handles alone
  have hSame : (∀ id, a ≠ .cancel id true) → cancelled' = cancelled := fun hNot => by
    ext id
    rw [hCancelled, or_iff_left (hNot id)]
  cases step_outcome hStep with
  | ticked now =>
    rw [hSame fun _ hEq => by cases hEq]
    exact h.keep hInv hCalls rfl rfl rfl rfl rfl rfl
  | added p when interval repeats hFree =>
    rw [hSame fun _ hEq => by cases hEq]
    exact h.added hFree when interval repeats hInv hCalls
  | posted p when interval repeats hFree =>
    rw [hSame fun _ hEq => by cases hEq]
    exact h.posted hFree when interval repeats hInv hCalls
  | cancelled id =>
    refine h.cancels (h.inv.cancels id true) hTimely hInv hCalls fun id' => ?_
    rw [hCancelled id', Action.cancel.injEq, eq_comm, and_iff_left rfl]
  | cancelPosted id =>
    rw [hSame fun _ hEq => by cases hEq]
    exact h.keep hInv hCalls rfl rfl rfl rfl rfl rfl
  | ranFunctor f rest hIdle => exact absurd hIdle hNotIdle
  | began readAt hIdle => exact absurd hIdle hNotIdle
  | called p rest expired' now hControl =>
    rw [hSame fun _ hEq => by cases hEq]
    exact h.keep hInv hCalls (by rw [hControl]; rfl) (by rw [hControl]; rfl) rfl rfl rfl rfl
  | ended expired' now hControl =>
    rw [hSame fun _ hEq => by cases hEq]
    exact h.keep hInv hCalls (by rw [hControl]; rfl) (by rw [hControl]; rfl) rfl rfl rfl rfl
  | reset p rest now _ hControl =>
    rw [hSame fun _ hEq => by cases hEq]
    exact h.reset hControl hInv hCalls
  | finished => exact absurd rfl hLast

/-- **The middle of a batch**, step after step. -/
theorem During.run {acts : List Action} (h : During q expired s cancelled q')
    (hRun : runAll TimerQueue.step q' acts = some q'') (hLast : .finishReset ∉ acts) :
    During q expired ((timely q' acts).foldl Schedule.after s)
      (cancelled ∪ cancelledBy (timely q' acts)) q'' := by
  induction acts generalizing q' s cancelled with
  | nil =>
    cases hRun
    have hNone : cancelled ∪ cancelledBy (timely q'' []) = cancelled := by
      ext id
      simp [cancelledBy, timely]
    rw [hNone]
    exact h
  | cons a acts ih =>
    obtain ⟨next, hStep, hRest⟩ := Option.bind_eq_some_iff.mp hRun
    rw [List.mem_cons, not_or] at hLast
    rw [timely, hStep]
    dsimp only
    split_ifs with hLate
    · -- only cancels of user code can be late
      cases step_outcome hStep with
      | cancelled id =>
        exact ih (h.late (h.inv.cancels id true) hLate (inv_step hStep h.inv)
          (calls_step hStep h.inv h.calls)) hRest hLast.2
      | _ => cases hLate
    · have hOne : During q expired (s.after a) (cancelled ∪ { id | a = .cancel id true }) next :=
        h.step hStep (Ne.symm hLast.1) (by simpa using hLate) fun id => Iff.rfl
      have hNext := ih hOne hRest hLast.2
      have hSplit : cancelled ∪ { id | a = .cancel id true } ∪ cancelledBy (timely next acts) =
          cancelled ∪ cancelledBy (a :: timely next acts) := by
        ext id
        simp [cancelledBy, or_assoc, eq_comm]
      rw [hSplit] at hNext
      exact hNext

/-! ## The whole batch -/

theorem handleRead_spec (hHeap : IsHeap q.key q.timers) (readAt : Timestamp) :
    ∃ expired others timerfd, expired.Perm (q.timers.filter (q.due q.clock)) ∧
      others.Perm (q.timers.filter fun p => !q.due q.clock p) ∧
      q.handleRead readAt =
        { q with
          clock := readAt
          timerfd := timerfd
          timers := others
          activeTimers := q.activeTimers \ (expired.map q.timerId).toFinset
          expiredTimers := (expired.map q.timerId).toFinset
          callingExpiredTimers := true
          control := .calling expired expired q.clock } := by
  obtain ⟨timerfd, hTimerfd⟩ := readTimerfd_eq { q with clock := readAt }
  have hHeap' : IsHeap (TimerQueue.key { q with clock := readAt, timerfd := timerfd }) q.timers := hHeap
  obtain ⟨hExpired, -, others, hOthers, -, hEq⟩ := getExpired_spec hHeap' le_rfl q.clock
  refine ⟨_, others, timerfd, hExpired, hOthers, ?_⟩
  simp only [handleRead, hTimerfd, hEq]
  rfl

/-- The callbacks of a batch are about to run. -/
theorem during_handleRead (hInv : Inv q) (hIdle : q.control = .idle) (readAt : Timestamp) :
    ∃ expired, (∀ p, p ∈ expired ↔ p ∈ q.timers ∧ q.expiration p ≤ q.clock) ∧
      During q expired ⟨q.numCreated, { x ∈ queued q | q.clock < x.2.expiration }⟩ ∅
        (q.handleRead readAt) := by
  have hNext := hInv.handleRead hIdle readAt
  obtain ⟨expired, others, timerfd, hExpired, hOthers, hEq⟩ := handleRead_spec hInv.owns.heap readAt
  have hUnmarked : q.cancelingTimers = ∅ := by
    refine Finset.eq_empty_of_forall_notMem fun id hid => ?_
    have hMem := (hInv.batched.canceling id hid).1
    rw [hIdle] at hMem
    cases hMem
  refine ⟨expired, fun p => ?_, ?_⟩
  · rw [hExpired.mem_iff, List.mem_filter, due, decide_eq_true_iff]
  rw [hEq] at hNext ⊢
  refine
    { inv := hNext
      calls := fun rest expired' now hNow => ?_
      now := rfl
      created := rfl
      memory := fun _ _ => rfl
      marks := fun p _ => by simp [hUnmarked]
      queued := ⟨[], rfl, ?_⟩ }
  · obtain ⟨rfl, rfl, -⟩ := TimerControl.calling.inj hNow
    exact ⟨rfl, List.suffix_refl _, fun p hp => List.mem_toFinset.mpr (List.mem_map_of_mem hp)⟩
  · ext ⟨p, t⟩
    have hNone : rearmed q q.clock ∅ [] = ∅ := by
      refine Set.eq_empty_of_forall_notMem ?_
      rintro x ⟨p, hp, -⟩
      cases hp
    rw [hNone, Set.union_empty]
    simp only [queued, Set.mem_ofPred_eq, hOthers.mem_iff, List.mem_filter, due, Bool.not_eq_true',
      decide_eq_false_iff_not, and_assoc]
    -- a timer in memory has its own expiration
    refine and_congr_right fun _ => ⟨fun h => ⟨h.2, ?_⟩, fun h => ⟨?_, h.1⟩⟩
    · rw [expiration, h.2] at h
      exact Int64.not_le.mp h.1
    · rw [expiration, h.1]
      exact Int64.not_le.mpr h.2

/-- **What is in the queue after a batch**: what the callbacks left of the timers that were
not due, and the repeating timers of the batch that were not cancelled. -/
theorem batch_queued {acts : List Action} {readAt : Timestamp} {q₁ q₂ q₃ : TimerQueue}
    (hInv : Inv q) (hBegin : q.step (.handleRead readAt) = some q₁)
    (hRun : runAll TimerQueue.step q₁ acts = some q₂) (hLast : .finishReset ∉ acts)
    (hFinish : q₂.step .finishReset = some q₃) :
    queued q₃ =
      ((timely q₁ acts).foldl Schedule.after
        ⟨q.numCreated, { x ∈ queued q | q.clock < x.2.expiration }⟩).queued ∪
      { x | ∃ y ∈ queued q, y.2.expiration ≤ q.clock ∧ y.2.repeats = true ∧
        .cancel (handle y) true ∉ timely q₁ acts ∧
        x = (y.1, { y.2 with expiration := q.clock + y.2.interval }) } := by
  cases step_outcome hBegin with
  | began _ hIdle =>
    obtain ⟨expired, hExpired, hStart⟩ := during_handleRead hInv hIdle readAt
    have hEnd := hStart.run hRun hLast
    cases step_outcome hFinish with
    | finished now _ hControl =>
      obtain ⟨timerfd, lastArmed, hEq⟩ := finishReset_eq q₂
      obtain ⟨done, hDone, hQueued⟩ := hEnd.queued
      -- `finishReset` runs when nothing of the batch is left
      have hAll : done = expired := by
        rw [hDone, hControl]
        exact (List.append_nil done).symm
      have hSame : queued q₂.finishReset = queued q₂ := by rw [hEq]; rfl
      rw [hSame, hQueued, hAll, Set.empty_union]
      congr 1
      -- rearmed timers, once by their addresses and once by their records
      ext x
      constructor
      · rintro ⟨p, hp, t, ht, hRepeats, hNot, rfl⟩
        obtain ⟨hMem, hLe⟩ := (hExpired p).mp hp
        rw [expiration, ht] at hLe
        exact ⟨(p, t), ⟨hMem, ht⟩, hLe, hRepeats, hNot, rfl⟩
      · rintro ⟨⟨p, t⟩, ⟨hMem, ht⟩, hLe, hRepeats, hNot, rfl⟩
        refine ⟨p, (hExpired p).mpr ⟨hMem, ?_⟩, t, ht, hRepeats, hNot, rfl⟩
        rw [expiration, ht]
        exact hLe

/-- **Expired timers.** In any state with the heap in order, `getExpired` takes exactly the
timers that are due, in the order of their expiration, each once, out of the heap and out of
the active handles, and leaves the rest a heap. And in every run, after `reset` the queue
holds what the callbacks left of the timers that were not due, together with the repeating
timers of the batch that were not cancelled, each with its interval added to the time of the
batch; the heap is in order and the active handles are those of the timers in it. User code
that runs in `reset` counts like a callback, but for its late cancels. -/
theorem expired_and_reset (heap : HeapAlgorithms Addr Int) :
    (∀ (q : TimerQueue) (now : Timestamp), IsHeap q.key q.timers →
      ∃ expired others,
        getExpired q.timers.length q now =
          ({ q with
            timers := others
            activeTimers := q.activeTimers \ (expired.map q.timerId).toFinset }, expired) ∧
        expired.Perm (q.timers.filter (q.due now)) ∧
        expired.Pairwise (fun p p' => q.expiration p ≤ q.expiration p') ∧
        others.Perm (q.timers.filter fun p => !q.due now p) ∧ IsHeap q.key others) ∧
    ∀ (q q₁ q₂ q₃ : TimerQueue) (readAt : Timestamp) (acts : List Action),
      Reaches TimerQueue.step { heap := heap } q → q.step (.handleRead readAt) = some q₁ →
      runAll TimerQueue.step q₁ acts = some q₂ → .finishReset ∉ acts →
      q₂.step .finishReset = some q₃ →
      queued q₃ =
        ((timely q₁ acts).foldl Schedule.after
          ⟨q.numCreated, { x ∈ queued q | q.clock < x.2.expiration }⟩).queued ∪
        { x | ∃ y ∈ queued q, y.2.expiration ≤ q.clock ∧ y.2.repeats = true ∧
          .cancel (handle y) true ∉ timely q₁ acts ∧
          x = (y.1, { y.2 with expiration := q.clock + y.2.interval }) } ∧
      q₃.timers.Nodup ∧ IsHeap q₃.key q₃.timers ∧
      ∀ id, id ∈ q₃.activeTimers ↔ ∃ x ∈ queued q₃, handle x = id := by
  constructor
  · intro q now hHeap
    obtain ⟨hExpired, hSorted, others, hOthers, hHeap', hEq⟩ := getExpired_spec hHeap le_rfl now
    exact ⟨_, others, Prod.ext hEq rfl, hExpired, hSorted, hOthers, hHeap'⟩
  · intro q q₁ q₂ q₃ readAt acts hReach hBegin hRun hLast hFinish
    have hInv : Inv q := hReach.invariant (inv_new heap) fun _ _ _ => inv_step
    have hInv₁ := inv_step hBegin hInv
    have hInv₂ : Inv q₂ := (reaches_of_runAll hRun).invariant hInv₁ fun _ _ _ => inv_step
    have hInv₃ := inv_step hFinish hInv₂
    exact ⟨batch_queued hInv hBegin hRun hLast hFinish, hInv₃.nodup.2.1, hInv₃.owns.heap,
      fun id => hInv₃.mem_activeTimers⟩

/-- Two repeating timers that are due, and a later one. -/
def threeTimers : List Action :=
  [.addTimer 1 10 5 true true, .addTimer 2 20 5 true true, .addTimer 3 90 0 false true, .tick 30]

/-- The first callback cancels its own timer. -/
def firstCancels : List Action :=
  [.run, .cancel ⟨1, 1⟩ true, .run, .endCalling, .resetOne, .resetOne]

/-- The second timer goes back into the queue. -/
theorem expired_and_reset_threeTimers : ∃ q q₁ q₂ q₃,
    runAll TimerQueue.step {} threeTimers = some q ∧ q.step (.handleRead 30) = some q₁ ∧
    runAll TimerQueue.step q₁ firstCancels = some q₂ ∧ q₂.step .finishReset = some q₃ ∧
    (2, ⟨35, 5, true, 2⟩) ∈ queued q₃ := by
  have hAll : (runAll TimerQueue.step {}
      (threeTimers ++ (.handleRead 30 :: (firstCancels ++ [.finishReset])))).isSome = true := by decide
  have hState : (runAll TimerQueue.step {} threeTimers).map
      (fun q => (q.timers, q.memory 2, q.clock)) = some ([1, 2, 3], some ⟨20, 5, true, 2⟩, 30) := by
    decide
  obtain ⟨q₃, hq₃⟩ := Option.isSome_iff_exists.mp hAll
  obtain ⟨q, hq, hRest⟩ := runAll_append_eq_some.mp hq₃
  obtain ⟨q₁, hBegin, hRest⟩ := Option.bind_eq_some_iff.mp hRest
  obtain ⟨q₂, hRun, hEnd⟩ := runAll_append_eq_some.mp hRest
  obtain ⟨q₄, hFinish, hSame⟩ := Option.bind_eq_some_iff.mp hEnd
  cases hSame
  rw [hq, Option.map_some, Option.some.injEq] at hState
  obtain ⟨hTimers, hMemory, hClock⟩ : q.timers = [1, 2, 3] ∧ q.memory 2 = some ⟨20, 5, true, 2⟩ ∧
      q.clock = 30 := by simpa using hState
  obtain ⟨hQueued, -⟩ := (expired_and_reset binaryHeap).2 q q₁ q₂ q₃ 30 firstCancels
    (reaches_of_runAll hq) hBegin hRun (by decide) hFinish
  refine ⟨q, q₁, q₂, q₃, hq, hBegin, hRun, hFinish, ?_⟩
  rw [hQueued, hClock]
  refine Or.inr ⟨(2, ⟨20, 5, true, 2⟩), ⟨?_, hMemory⟩, by decide, rfl,
    fun hMem => absurd ((timely_sublist q₁ firstCancels).subset hMem) (by decide), rfl⟩
  rw [hTimers]
  decide

end TimerQueue

end ReactorNet
