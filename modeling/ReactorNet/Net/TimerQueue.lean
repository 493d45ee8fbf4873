import ReactorNet.Lib.Heap
import ReactorNet.Lib.System
import Mathlib.Data.Finset.Dedup

/-!
# ReactorNet — the timer queue

`TimerQueue` of `src/TimerQueue.cpp` with the functors of its loop that belong to it, the
monotone clock and the timerfd. Timers are objects in memory, and the containers hold
their addresses: a timer that is deleted leaves its address free for another one, and an
address that is used after that finds no timer, or the wrong one.

`handleRead` calls user code in the middle, and that code may add and cancel timers. So
the model is a machine: `control` says where the loop thread is, cut before each callback
of the expired batch and, in `reset`, before each of its timers. The clock can move on
between any two steps. A call that arms the timerfd takes no time: the timerfd is armed
at the instant that `howMuchTimeFromNow` reads.

`log` records what was done to which timer. The callbacks are user code, and so are the
destructors of what they captured, which run in `delete timer`. A timer that `cancelInLoop`
deletes is deleted by user code or by the functors of the loop, where user code may come next
anyway; in `reset` a destructor may come between two timers of the batch, and `control` says so.

The heap algorithms are those of any standard library (`HeapAlgorithms`): timers with the same
expiration may come in any order.
-/

namespace ReactorNet

open Lib

/-- `Timestamp`: microseconds of the monotone clock. -/
abbrev Timestamp := Int64

/-- An address at which a `Timer` can be. -/
abbrev Addr := Nat

structure Timer where
  expiration : Timestamp
  /-- The interval in microseconds, as `Timestamp::operator+=` adds it. -/
  interval : Int64
  /-- The interval is positive, in seconds. -/
  repeats : Bool
  sequence : Nat
  deriving DecidableEq, Repr

def Timer.restart (t : Timer) (now : Timestamp) : Timer :=
  { t with expiration := if t.repeats then now + t.interval else 0 }

/-- The handle of a timer. -/
structure TimerId where
  timer : Addr
  sequence : Nat
  deriving DecidableEq, Repr

/-- What the queue puts into the functors of its loop. -/
inductive TimerFunctor where
  | insert (timer : Addr)
  | cancelInLoop (timerId : TimerId) (allowRetry : Bool)
  deriving DecidableEq, Repr

/-- Where the loop thread is. -/
inductive TimerControl where
  /-- Not in `handleRead`. -/
  | idle
  /-- Running the callbacks of the batch, with these still to come. -/
  | calling (rest expired : List Addr) (now : Timestamp)
  /-- In `reset`, with these still to be reset; the timer before them was deleted, and what
  its callback had captured is being destroyed, or it was not. -/
  | resetting (rest : List Addr) (now : Timestamp) (destroying : Bool)
  deriving DecidableEq, Repr

/-- User code can be running: outside of `handleRead`, in a callback of the batch, or in a
destructor in `reset`. -/
def TimerControl.userCode : TimerControl → Bool
  | .idle => true
  | .calling rest expired _ => rest.length < expired.length
  | .resetting _ _ destroying => destroying

/-- What was done to a timer, by the sequence number of the timer that was found at the
address; there is none if it was deleted. -/
inductive TimerEvent where
  | ran (sequence : Option Nat)
  | inserted (sequence : Option Nat)
  | deleted (sequence : Option Nat)
  deriving DecidableEq, Repr

def TimerEvent.sequence : TimerEvent → Option Nat
  | .ran n | .inserted n | .deleted n => n

structure TimerQueue where
  /-- The heap algorithms of the standard library that the program is built with. -/
  heap : HeapAlgorithms Addr Int := binaryHeap
  /-- The timers in memory. -/
  memory : Addr → Option Timer := fun _ => none
  /-- `Timer::s_numCreated_`. -/
  numCreated : Nat := 0
  timers : List Addr := []
  activeTimers : Finset TimerId := ∅
  callingExpiredTimers : Bool := false
  expiredTimers : Finset TimerId := ∅
  cancelingTimers : Finset TimerId := ∅
  functors : List TimerFunctor := []
  control : TimerControl := .idle
  clock : Timestamp := 0
  /-- The instant at which the timerfd expires, until that is read. -/
  timerfd : Option Int := none
  /-- The time of the last arming. -/
  lastArmed : Int := 0
  log : List TimerEvent := []

namespace TimerQueue

/-- `timer->sequence()`. -/
def sequence (q : TimerQueue) (p : Addr) : Option Nat := (q.memory p).map Timer.sequence

/-- `timer->expiration()`. -/
def expiration (q : TimerQueue) (p : Addr) : Timestamp :=
  match q.memory p with
  | some t => t.expiration
  | none => 0

/-- `TimerId(timer, timer->sequence())`. -/
def timerId (q : TimerQueue) (p : Addr) : TimerId := ⟨p, (q.sequence p).getD 0⟩

/-- The key of `TimerPtrComparator`. -/
def key (q : TimerQueue) (p : Addr) : Int := (q.expiration p).toInt

def record (q : TimerQueue) (e : TimerEvent) : TimerQueue := { q with log := q.log ++ [e] }

def queueInLoop (q : TimerQueue) (f : TimerFunctor) : TimerQueue :=
  { q with functors := q.functors ++ [f] }

/-- `new Timer` at this address. -/
def create (q : TimerQueue) (p : Addr) (when : Timestamp) (interval : Int64) (repeats : Bool) :
    TimerQueue :=
  { q with
    memory := Function.update q.memory p (some ⟨when, interval, repeats, q.numCreated + 1⟩)
    numCreated := q.numCreated + 1 }

/-- `delete timer`. -/
def delete (q : TimerQueue) (p : Addr) : TimerQueue :=
  { q with
    memory := Function.update q.memory p none
    log := q.log ++ [.deleted (q.sequence p)] }

/-! ## The timerfd -/

def howMuchTimeFromNow (now when : Timestamp) : Int64 :=
  let microseconds := when - now
  if microseconds < 100 then 100 else microseconds

def resetTimerfd (q : TimerQueue) (expiration : Timestamp) : TimerQueue :=
  { q with
    timerfd := some (q.clock.toInt + (howMuchTimeFromNow q.clock expiration).toInt)
    lastArmed := q.clock.toInt }

/-- Reading an expired timerfd disarms it; before that there is nothing to read. -/
def readTimerfd (q : TimerQueue) : TimerQueue :=
  match q.timerfd with
  | some instant => if instant ≤ q.clock.toInt then { q with timerfd := none } else q
  | none => q

/-! ## Adding and cancelling -/

/-- The timer would be the first of the heap. -/
def earliestChanged (q : TimerQueue) (p : Addr) : Bool :=
  match q.timers with
  | [] => true
  | front :: _ => q.expiration p < q.expiration front

def insert (q : TimerQueue) (p : Addr) : TimerQueue :=
  let inserted :=
    { q with
      timers := q.heap.pushHeap q.key (q.timers ++ [p])
      activeTimers := Insert.insert (q.timerId p) q.activeTimers
      log := q.log ++ [.inserted (q.sequence p)] }
  if q.earliestChanged p then inserted.resetTimerfd (q.expiration p) else inserted

def cancelInLoop (q : TimerQueue) (id : TimerId) (allowRetry : Bool) : TimerQueue :=
  if id ∈ q.activeTimers then
    -- the sequence number tells a timer from a later one at the same address
    { q with
      activeTimers := q.activeTimers.erase id
      timers :=
        if id.timer ∈ q.timers then q.heap.makeHeap q.key (q.timers.erase id.timer)
        else q.timers }.delete id.timer
  else if q.callingExpiredTimers ∧ id ∈ q.expiredTimers then
    -- `reset` still holds the pointer
    { q with cancelingTimers := Insert.insert id q.cancelingTimers }
  else if allowRetry then
    -- the insert may still be queued
    q.queueInLoop (.cancelInLoop id false)
  else q

def runFunctor (q : TimerQueue) : TimerFunctor → TimerQueue
  | .insert p => q.insert p
  | .cancelInLoop id allowRetry => q.cancelInLoop id allowRetry

/-! ## The expired batch -/

/-- The loop of `getExpired`; there are at most as many passes as timers. -/
def getExpired : Nat → TimerQueue → Timestamp → TimerQueue × List Addr
  | 0, q, _ => (q, [])
  | fuel + 1, q, now =>
    match q.timers with
    | [] => (q, [])
    | front :: _ =>
      if q.expiration front ≤ now then
        -- the front is moved to the end and taken off there
        let popped := q.heap.popHeap q.key q.timers
        let next := getExpired fuel
          { q with
            activeTimers := q.activeTimers.erase (q.timerId front)
            timers := popped.dropLast } now
        (next.1, popped.getLast?.toList ++ next.2)
      else (q, [])

/-- `handleRead`, up to the callbacks; the timerfd is read a little later than the clock. -/
def handleRead (q : TimerQueue) (readAt : Timestamp) : TimerQueue :=
  let now := q.clock
  let got := getExpired q.timers.length { q with clock := readAt }.readTimerfd now
  { got.1 with
    expiredTimers := (got.2.map got.1.timerId).toFinset
    callingExpiredTimers := true
    control := .calling got.2 got.2 now }

/-- One pass of the loop in `reset`. -/
def resetOne (q : TimerQueue) (p : Addr) (now : Timestamp) : TimerQueue :=
  if q.timerId p ∈ q.cancelingTimers then
    -- a callback of the batch has cancelled it
    { q with cancelingTimers := q.cancelingTimers.erase (q.timerId p) }.delete p
  else
    match q.memory p with
    | some t =>
      if t.repeats then
        { q with memory := Function.update q.memory p (some (t.restart now)) }.insert p
      else q.delete p
    | none => q.delete p

/-- `reset` deletes this timer, and does not restart it. -/
def deletes (q : TimerQueue) (p : Addr) : Bool :=
  q.timerId p ∈ q.cancelingTimers || !(q.memory p).any Timer.repeats

/-- The rest of `reset`, and of `handleRead`. -/
def finishReset (q : TimerQueue) : TimerQueue :=
  let armed :=
    match q.timers with
    | [] => q
    -- `valid()`
    | front :: _ => if 0 < q.expiration front then q.resetTimerfd (q.expiration front) else q
  { armed with expiredTimers := ∅, control := .idle }

/-! ## The machine -/

inductive Action where
  /-- The clock moves on. -/
  | tick (now : Timestamp)
  /-- `addTimer`, on the loop thread or on another; the address is the allocator's choice. -/
  | addTimer (p : Addr) (when : Timestamp) (interval : Int64) (repeats onLoop : Bool)
  /-- `cancel`, with any handle. -/
  | cancel (id : TimerId) (onLoop : Bool)
  /-- The loop runs the next functor. -/
  | functor
  | handleRead (readAt : Timestamp)
  /-- The next callback of the batch. -/
  | run
  /-- The last callback has returned. -/
  | endCalling
  /-- The next timer of `reset`. -/
  | resetOne
  | finishReset
  deriving DecidableEq, Repr

def step (q : TimerQueue) : Action → Option TimerQueue
  | .tick now => if q.clock ≤ now then some { q with clock := now } else none
  | .addTimer p when interval repeats onLoop =>
    if q.memory p = none ∧ (onLoop = true → q.control.userCode = true) then
      let q := q.create p when interval repeats
      some (if onLoop then q.insert p else q.queueInLoop (.insert p))
    else none
  | .cancel id onLoop =>
    if onLoop = true → q.control.userCode = true then
      some (if onLoop then q.cancelInLoop id true else q.queueInLoop (.cancelInLoop id true))
    else none
  | .functor =>
    match q.control, q.functors with
    | .idle, f :: rest => some ({ q with functors := rest }.runFunctor f)
    | _, _ => none
  | .handleRead readAt =>
    if q.control = .idle ∧ q.clock ≤ readAt then some (q.handleRead readAt) else none
  | .run =>
    match q.control with
    | .calling (p :: rest) expired now =>
      some ({ q with control := .calling rest expired now }.record (.ran (q.sequence p)))
    | _ => none
  | .endCalling =>
    match q.control with
    | .calling [] expired now =>
      some { q with callingExpiredTimers := false, control := .resetting expired now false }
    | _ => none
  | .resetOne =>
    match q.control with
    | .resetting (p :: rest) now _ =>
      some ({ q with control := .resetting rest now (q.deletes p) }.resetOne p now)
    | _ => none
  | .finishReset =>
    match q.control with
    | .resetting [] _ _ => some q.finishReset
    | _ => none

/-- What a step does, with what had to hold for it. -/
inductive Outcome (q : TimerQueue) : Action → TimerQueue → Prop
  | ticked (now : Timestamp) (hNow : q.clock ≤ now) :
      Outcome q (.tick now) { q with clock := now }
  | added (p : Addr) (when : Timestamp) (interval : Int64) (repeats : Bool)
      (hFree : q.memory p = none) (hUser : q.control.userCode = true) :
      Outcome q (.addTimer p when interval repeats true)
        ((q.create p when interval repeats).insert p)
  | posted (p : Addr) (when : Timestamp) (interval : Int64) (repeats : Bool)
      (hFree : q.memory p = none) :
      Outcome q (.addTimer p when interval repeats false)
        ((q.create p when interval repeats).queueInLoop (.insert p))
  | cancelled (id : TimerId) (hUser : q.control.userCode = true) :
      Outcome q (.cancel id true) (q.cancelInLoop id true)
  | cancelPosted (id : TimerId) :
      Outcome q (.cancel id false) (q.queueInLoop (.cancelInLoop id true))
  | ranFunctor (f : TimerFunctor) (rest : List TimerFunctor) (hIdle : q.control = .idle)
      (hFunctors : q.functors = f :: rest) :
      Outcome q .functor ({ q with functors := rest }.runFunctor f)
  | began (readAt : Timestamp) (hIdle : q.control = .idle) (hClock : q.clock ≤ readAt) :
      Outcome q (.handleRead readAt) (q.handleRead readAt)
  | called (p : Addr) (rest expired : List Addr) (now : Timestamp)
      (hControl : q.control = .calling (p :: rest) expired now) :
      Outcome q .run ({ q with control := .calling rest expired now }.record (.ran (q.sequence p)))
  | ended (expired : List Addr) (now : Timestamp) (hControl : q.control = .calling [] expired now) :
      Outcome q .endCalling
        { q with callingExpiredTimers := false, control := .resetting expired now false }
  | reset (p : Addr) (rest : List Addr) (now : Timestamp) (destroying : Bool)
      (hControl : q.control = .resetting (p :: rest) now destroying) :
      Outcome q .resetOne
        ({ q with control := .resetting rest now (q.deletes p) }.resetOne p now)
  | finished (now : Timestamp) (destroying : Bool)
      (hControl : q.control = .resetting [] now destroying) :
      Outcome q .finishReset q.finishReset

/-- **Inversion of a step.** -/
theorem step_outcome {q q' : TimerQueue} {a : Action} (h : q.step a = some q') :
    q.Outcome a q' := by
  cases a with
  | tick now =>
    simp only [step] at h
    split_ifs at h with hNow
    exact Option.some.inj h ▸ .ticked now hNow
  | addTimer p when interval repeats onLoop =>
    simp only [step] at h
    split_ifs at h with hFree hLoop
    · subst hLoop
      exact Option.some.inj h ▸ .added p when interval repeats hFree.1 (hFree.2 rfl)
    · obtain rfl : onLoop = false := by simpa using hLoop
      exact Option.some.inj h ▸ .posted p when interval repeats hFree.1
  | cancel id onLoop =>
    simp only [step] at h
    split_ifs at h with hUser hLoop
    · subst hLoop
      exact Option.some.inj h ▸ .cancelled id (hUser rfl)
    · obtain rfl : onLoop = false := by simpa using hLoop
      exact Option.some.inj h ▸ .cancelPosted id
  | functor =>
    simp only [step] at h
    split at h
    · exact Option.some.inj h ▸ .ranFunctor _ _ ‹_› ‹_›
    · cases h
  | handleRead readAt =>
    simp only [step] at h
    split_ifs at h with hIdle
    exact Option.some.inj h ▸ .began readAt hIdle.1 hIdle.2
  | run =>
    simp only [step] at h
    split at h
    · exact Option.some.inj h ▸ .called _ _ _ _ ‹_›
    · cases h
  | endCalling =>
    simp only [step] at h
    split at h
    · exact Option.some.inj h ▸ .ended _ _ ‹_›
    · cases h
  | resetOne =>
    simp only [step] at h
    split at h
    · exact Option.some.inj h ▸ .reset _ _ _ _ ‹_›
    · cases h
  | finishReset =>
    simp only [step] at h
    split at h
    · exact Option.some.inj h ▸ .finished _ _ ‹_›
    · cases h

end TimerQueue

end ReactorNet
