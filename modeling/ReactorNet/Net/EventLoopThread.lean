import ReactorNet.Net.LoopWakeup

/-!
# ReactorNet — a thread with an event loop

`EventLoopThread` of `src/EventLoopThread.cpp`: the owner starts the IO thread, waits until
it has published its loop, and in the destructor asks the loop to quit and joins the
thread. `loop()` begins with `quit_ = false`, and the loop is published before that. The
owner's request is a store to the same flag, so it is overwritten when it comes too early,
and there is no other.

Main result: `quit_not_lost`.
-/

namespace ReactorNet

open Lib EventLoop

/-- Where the IO thread is in `threadFunc`. -/
inductive IoPc where
  /-- There is no thread yet. -/
  | absent
  /-- Before the loop is published. -/
  | created
  /-- Before the call of `loop()`. -/
  | published
  /-- In `loop()`, or returned from it. -/
  | looping
  /-- `loop_` is cleared and the loop is destroyed. -/
  | finished
  deriving DecidableEq, Repr

/-- Where the owner is. -/
inductive OwnerPc where
  | constructed
  /-- In `startLoop`, waiting for `loop_`. -/
  | starting
  | started
  /-- In the destructor, before the lock is taken. -/
  | destroying
  /-- In `quit()`, with the lock held: the flag is stored, the wake-up is to come. -/
  | quitting
  /-- The lock is released. -/
  | joining
  | joined
  deriving DecidableEq, Repr

structure EventLoopThread (F : Type) where
  loop : EventLoop F := {}
  io : IoPc := .absent
  owner : OwnerPc := .constructed
  /-- `loop_ != nullptr`. -/
  hasLoop : Bool := false
  /-- The destructor has called `quit()`. -/
  quitRequested : Bool := false

/-- Steps of the loop thread, as opposed to those that other threads make on the loop. -/
def EventLoop.Action.onLoopThread {F : Type} : EventLoop.Action F → Bool
  | .push _ onLoop => onLoop
  | .finishPush c => c.onLoop
  | .quitStore | .quitWake => false
  | _ => true

namespace EventLoopThread

variable {F : Type}

inductive Action (F : Type) where
  | startLoop
  /-- The IO thread publishes its loop. -/
  | publish
  | startLoopReturns
  /-- The IO thread calls `loop()`. -/
  | enter
  /-- A step in `loop()`, or of another thread on the loop. -/
  | loop (a : EventLoop.Action F)
  /-- The IO thread clears `loop_` and destroys the loop. -/
  | clear
  | destroy
  /-- `quit()` of the destructor: the store, and the wake-up after it. -/
  | quitStore
  | quitWake
  /-- The destructor finds no loop. -/
  | skipQuit
  | join

/-- Who may take this step of the loop: the IO thread in `loop()`, other threads as long as
there is a loop. -/
def mayStep (s : EventLoopThread F) (a : EventLoop.Action F) : Bool :=
  if a.onLoopThread then s.io = .looping ∧ s.loop.pc ≠ .outside else s.hasLoop

def step (s : EventLoopThread F) : Action F → Option (EventLoopThread F)
  | .startLoop =>
    if s.owner = .constructed then some { s with owner := .starting, io := .created } else none
  | .publish =>
    if s.io = .created then some { s with io := .published, hasLoop := true } else none
  | .startLoopReturns =>
    if s.owner = .starting ∧ s.hasLoop then some { s with owner := .started } else none
  | .enter =>
    if s.io = .published then
      (s.loop.step .enter).map fun loop => { s with loop := loop, io := .looping }
    else none
  | .loop a => if s.mayStep a then (s.loop.step a).map fun loop => { s with loop := loop } else none
  | .clear =>
    -- `loop()` has returned, and the owner does not hold the lock
    if s.io = .looping ∧ s.loop.pc = .outside ∧ s.owner ≠ .quitting then
      some { s with io := .finished, hasLoop := false }
    else none
  | .destroy =>
    if s.owner = .constructed ∨ s.owner = .started then some { s with owner := .destroying }
    else none
  | .quitStore =>
    -- `loop_` is tested and used under the lock
    if s.owner = .destroying ∧ s.hasLoop then
      some { s with
        owner := .quitting
        loop := { s.loop with quit := true }
        quitRequested := true }
    else none
  | .quitWake =>
    if s.owner = .quitting then some { s with owner := .joining, loop := s.loop.wakeup } else none
  | .skipQuit =>
    if s.owner = .destroying ∧ s.hasLoop = false then some { s with owner := .joining } else none
  | .join =>
    -- a thread that was never started is not joinable
    if s.owner = .joining ∧ (s.io = .absent ∨ s.io = .finished) then
      some { s with owner := .joined }
    else none

/-- The IO thread is at or inside the `while` of `loop()`. -/
def InWhile (s : EventLoopThread F) : Prop :=
  s.io = .looping ∧ s.loop.pc ≠ .outside ∧ s.loop.pc ≠ .entering

/-- The IO thread has published its loop and not yet executed `quit_ = false`. -/
def beforeReset (s : EventLoopThread F) : Bool :=
  s.io = .published ∨ s.io = .looping ∧ s.loop.pc = .entering

/-- The destructor asks the loop to quit only after `quit_ = false`. -/
def QuitsInLoop (s : EventLoopThread F) : Action F → Prop
  | .quitStore => s.beforeReset = false
  | _ => True

instance (s : EventLoopThread F) : ∀ a, Decidable (s.QuitsInLoop a)
  | .quitStore => inferInstanceAs (Decidable (_ = _))
  | .startLoop | .publish | .startLoopReturns | .enter | .loop _ | .clear | .destroy | .quitWake
  | .skipQuit | .join => .isTrue trivial

variable {s s' : EventLoopThread F}

/-- What a step does, with what had to hold for it. -/
inductive Outcome (s : EventLoopThread F) : Action F → EventLoopThread F → Prop
  | starts (hOwner : s.owner = .constructed) :
      Outcome s .startLoop { s with owner := .starting, io := .created }
  | published (hIo : s.io = .created) :
      Outcome s .publish { s with io := .published, hasLoop := true }
  | started (hOwner : s.owner = .starting) (hLoop : s.hasLoop = true) :
      Outcome s .startLoopReturns { s with owner := .started }
  | entered (l : EventLoop F) (hIo : s.io = .published) (hLoop : s.loop.step .enter = some l) :
      Outcome s .enter { s with loop := l, io := .looping }
  /-- The IO thread takes a step in `loop()`. -/
  | inLoop (a : EventLoop.Action F) (l : EventLoop F) (hIo : s.io = .looping)
      (hPc : s.loop.pc ≠ .outside) (hLoop : s.loop.step a = some l) :
      Outcome s (.loop a) { s with loop := l }
  /-- Another thread takes a step on the loop. -/
  | offLoop (a : EventLoop.Action F) (l : EventLoop F) (ha : a.onLoopThread = false)
      (hHas : s.hasLoop = true) (hLoop : s.loop.step a = some l) :
      Outcome s (.loop a) { s with loop := l }
  | cleared (hIo : s.io = .looping) (hPc : s.loop.pc = .outside) (hOwner : s.owner ≠ .quitting) :
      Outcome s .clear { s with io := .finished, hasLoop := false }
  | destroys (hOwner : s.owner = .constructed ∨ s.owner = .started) :
      Outcome s .destroy { s with owner := .destroying }
  | quitStored (hOwner : s.owner = .destroying) (hHas : s.hasLoop = true) :
      Outcome s .quitStore
        { s with owner := .quitting, loop := { s.loop with quit := true }, quitRequested := true }
  | quitWoken (hOwner : s.owner = .quitting) :
      Outcome s .quitWake { s with owner := .joining, loop := s.loop.wakeup }
  | skipped (hOwner : s.owner = .destroying) (hHas : s.hasLoop = false) :
      Outcome s .skipQuit { s with owner := .joining }
  | joined (hOwner : s.owner = .joining) (hIo : s.io = .absent ∨ s.io = .finished) :
      Outcome s .join { s with owner := .joined }

variable {a : Action F} {l l' : EventLoop F}

/-- **Inversion of a step.** -/
theorem step_outcome (h : s.step a = some s') : s.Outcome a s' := by
  cases a with
  | startLoop =>
    simp only [step] at h
    split_ifs at h with hOwner
    exact Option.some.inj h ▸ .starts hOwner
  | publish =>
    simp only [step] at h
    split_ifs at h with hIo
    exact Option.some.inj h ▸ .published hIo
  | startLoopReturns =>
    simp only [step] at h
    split_ifs at h with hGuard
    exact Option.some.inj h ▸ .started hGuard.1 hGuard.2
  | enter =>
    simp only [step] at h
    split_ifs at h with hIo
    obtain ⟨l, hLoop, rfl⟩ := Option.map_eq_some_iff.mp h
    exact .entered l hIo hLoop
  | loop a =>
    simp only [step] at h
    split_ifs at h with hMay
    obtain ⟨l, hLoop, rfl⟩ := Option.map_eq_some_iff.mp h
    unfold mayStep at hMay
    split_ifs at hMay with hOn
    · obtain ⟨hIo, hPc⟩ : s.io = .looping ∧ s.loop.pc ≠ .outside := by simpa using hMay
      exact .inLoop a l hIo hPc hLoop
    · exact .offLoop a l (by simpa using hOn) hMay hLoop
  | clear =>
    simp only [step] at h
    split_ifs at h with hGuard
    exact Option.some.inj h ▸ .cleared hGuard.1 hGuard.2.1 hGuard.2.2
  | destroy =>
    simp only [step] at h
    split_ifs at h with hOwner
    exact Option.some.inj h ▸ .destroys hOwner
  | quitStore =>
    simp only [step] at h
    split_ifs at h with hGuard
    exact Option.some.inj h ▸ .quitStored hGuard.1 hGuard.2
  | quitWake =>
    simp only [step] at h
    split_ifs at h with hOwner
    exact Option.some.inj h ▸ .quitWoken hOwner
  | skipQuit =>
    simp only [step] at h
    split_ifs at h with hGuard
    exact Option.some.inj h ▸ .skipped hGuard.1 hGuard.2
  | join =>
    simp only [step] at h
    split_ifs at h with hGuard
    exact Option.some.inj h ▸ .joined hGuard.1 hGuard.2

/-! ## What other threads and the loop thread do to the flag -/

/-- Threads other than the loop's do not move it, nor do they take back a request. -/
theorem offLoop_frame {a : EventLoop.Action F} (hStep : l.step a = some l')
    (ha : a.onLoopThread = false) :
    l'.pc = l.pc ∧ l'.looping = l.looping ∧ (l.free = true → l'.free = true) ∧
      (l.quit = true → l'.quit = true) ∧ l.wakeupFd ≤ l'.wakeupFd := by
  cases EventLoop.step_outcome hStep with
  | pushed f onLoop =>
    obtain rfl : onLoop = false := ha
    exact ⟨rfl, rfl, fun hFree => by simpa [EventLoop.push, EventLoop.free] using hFree,
      fun h => h, le_rfl⟩
  | queued call =>
    have hFd := wakeupFd_le_finishQueueInLoop l call
    rw [finishQueueInLoop_eq] at hFd ⊢
    refine ⟨rfl, rfl, fun hFree => ?_, fun h => h, hFd⟩
    exact List.all_eq_true.mpr fun c hc =>
      List.all_eq_true.mp hFree c (List.mem_of_mem_erase hc)
  | quitStored => exact ⟨rfl, rfl, fun h => h, fun _ => rfl, le_rfl⟩
  | quitWoken => exact ⟨rfl, rfl, fun h => h, fun h => h, Nat.le_succ _⟩
  | entered | reset | left | polls | polled | read | handled | swapped | called | returned
  | finished | destroyed | quit => simp [EventLoop.Action.onLoopThread] at ha

/-- In the `while` with a request made: it stays made, the loop polls no more, and a poll it
is in keeps its wake-up. -/
theorem inLoop_frame {a : EventLoop.Action F} (hStep : l.step a = some l')
    (hOut : l.pc ≠ .outside) (hEnter : l.pc ≠ .entering) (hQuit : l.quit = true) :
    l'.pc ≠ .entering ∧ l'.quit = true ∧
      (l'.pc = .poll → l.pc = .poll ∧ l.wakeupFd ≤ l'.wakeupFd) := by
  cases EventLoop.step_outcome hStep with
  | entered hPc => exact absurd hPc hOut
  | reset hPc => exact absurd hPc hEnter
  | polls _ hQuit' => simp [hQuit] at hQuit'
  | left | polled | read | handled | swapped | called | returned | finished | destroyed =>
    exact ⟨by simp, hQuit, by simp⟩
  | pushed => exact ⟨hEnter, hQuit, fun hPc => ⟨hPc, le_rfl⟩⟩
  | queued call =>
    have hFd := wakeupFd_le_finishQueueInLoop l call
    rw [finishQueueInLoop_eq] at hFd ⊢
    exact ⟨hEnter, hQuit, fun hPc => ⟨hPc, hFd⟩⟩
  | quit | quitStored => exact ⟨hEnter, rfl, fun hPc => ⟨hPc, le_rfl⟩⟩
  | quitWoken => exact ⟨hEnter, hQuit, fun hPc => ⟨hPc, Nat.le_succ _⟩⟩

/-! ## Where the threads are -/

structure Placed (s : EventLoopThread F) : Prop where
  fresh : s.io ≠ .looping → s.io ≠ .finished →
    s.loop.pc = .outside ∧ s.loop.looping = false ∧ s.loop.free = true
  pointer : s.hasLoop = true ↔ s.io = .published ∨ s.io = .looping
  unstarted : s.owner = .constructed → s.io = .absent
  /-- The owner holds the lock only while there is a loop. -/
  locked : s.owner = .quitting → s.hasLoop = true
  requested : s.quitRequested = true → s.io ≠ .absent ∧ s.io ≠ .created

theorem placed_step (hStep : s.step a = some s') (h : Placed s) : Placed s' := by
  cases step_outcome hStep with
  | starts hOwner =>
    have hAbsent := h.unstarted hOwner
    have hFresh := h.fresh (by simp [hAbsent]) (by simp [hAbsent])
    exact
      { fresh := fun _ _ => hFresh
        pointer := by simpa [hAbsent] using h.pointer
        unstarted := by simp
        locked := by simp
        requested := fun hReq => absurd hAbsent (h.requested hReq).1 }
  | published hIo =>
    exact
      { fresh := fun _ _ => h.fresh (by simp [hIo]) (by simp [hIo])
        pointer := by simp
        unstarted := fun hOwner => by simpa [hIo] using h.unstarted hOwner
        locked := fun _ => rfl
        requested := fun _ => by simp }
  | entered l hIo hLoop =>
    exact
      { fresh := fun hLooping => absurd rfl hLooping
        pointer := by simp [h.pointer, hIo]
        unstarted := fun hOwner => by simpa [hIo] using h.unstarted hOwner
        locked := h.locked
        requested := fun _ => by simp }
  | inLoop a l hIo => exact { h with fresh := fun hLooping => absurd hIo hLooping }
  | offLoop a l ha hHas hLoop =>
    -- other threads only queue and wake: the loop stays where it is
    obtain ⟨hPc, hLooping, hFree, -⟩ := offLoop_frame hLoop ha
    refine { h with fresh := fun hNot hFinished => ?_ }
    obtain ⟨hOut, hOff, hAll⟩ := h.fresh hNot hFinished
    exact ⟨hPc.trans hOut, hLooping.trans hOff, hFree hAll⟩
  | cleared hIo hPc hOwner =>
    exact
      { fresh := fun _ hFinished => absurd rfl hFinished
        pointer := by simp
        unstarted := fun hOwner => by simpa [hIo] using h.unstarted hOwner
        locked := fun hQuitting => absurd hQuitting hOwner
        requested := fun _ => by simp }
  | quitStored hOwner hHas =>
    -- under the lock the pointer is the published one
    refine { h with unstarted := by simp, locked := fun _ => hHas, requested := fun _ => ?_ }
    rcases h.pointer.mp hHas with hIo | hIo <;> simp [hIo]
  | quitWoken hOwner => exact { h with unstarted := by simp, locked := by simp }
  | started | destroys | skipped | joined =>
    exact { h with unstarted := by simp, locked := by simp }

theorem placed_of_reaches (h : Reaches step ({} : EventLoopThread F) s) : Placed s :=
  h.invariant (P := Placed) ⟨fun _ _ => ⟨rfl, rfl, rfl⟩, by simp, fun _ => rfl, by simp, by simp⟩
    fun _ _ _ => placed_step

/-! ## While the condition holds -/

/-- A request was made after the reset, and nothing takes it back. -/
structure Asked (s : EventLoopThread F) : Prop where
  past : s.io = .looping ∧ s.loop.pc ≠ .entering ∨ s.io = .finished
  flag : s.InWhile → s.loop.quit = true
  woken : s.owner ≠ .quitting → s.InWhile → s.loop.pc = .poll → 0 < s.loop.wakeupFd

/-- Nothing of this is about the owner, once it has woken the loop. -/
theorem Asked.sameLoop (h : Asked s) (hLoop : s'.loop = s.loop) (hIo : s'.io = s.io)
    (hOwner : s.owner ≠ .quitting) : Asked s' where
  past := by rw [hLoop, hIo]; exact h.past
  flag hIn := by
    rw [InWhile, hLoop, hIo] at hIn
    rw [hLoop]
    exact h.flag hIn
  woken _ hIn hPc := by
    rw [InWhile, hLoop, hIo] at hIn
    rw [hLoop] at hPc ⊢
    exact h.woken hOwner hIn hPc

/-- The loop moves on in a way that keeps a request. -/
theorem Asked.moved (h : Asked s) (hIo : s.io = .looping) (hEnter : l.pc ≠ .entering)
    (hQuit : l.pc ≠ .outside → l.quit = true)
    (hPoll : l.pc = .poll → s.loop.pc = .poll ∧ s.loop.wakeupFd ≤ l.wakeupFd) :
    Asked { s with loop := l } where
  past := .inl ⟨hIo, hEnter⟩
  flag hIn := hQuit hIn.2.1
  woken hOwner hIn hPc := by
    obtain ⟨hWas, hLe⟩ := hPoll hPc
    have hWhile : s.InWhile := ⟨hIo, by simp [hWas], by simp [hWas]⟩
    exact Nat.lt_of_lt_of_le (h.woken hOwner hWhile hWas) hLe

/-- **The step lemma**: a request stands once it is made. -/
theorem asked_step (hStep : s.step a = some s') (hPlaced : Placed s) (h : Asked s) : Asked s' := by
  cases step_outcome hStep with
  | starts hOwner =>
    rcases h.past with ⟨hIo, -⟩ | hIo <;> simp [hPlaced.unstarted hOwner] at hIo
  | published hIo | entered _ hIo => rcases h.past with ⟨hIo', -⟩ | hIo' <;> simp [hIo] at hIo'
  | inLoop a l hIo hOut hLoop =>
    -- the reset is past, so the flag can only be read
    have hEnter : s.loop.pc ≠ .entering := by
      rcases h.past with ⟨-, hPc⟩ | hIo'
      · exact hPc
      · simp [hIo] at hIo'
    obtain ⟨hNext, hQuit, hPoll⟩ := inLoop_frame hLoop hOut hEnter (h.flag ⟨hIo, hOut, hEnter⟩)
    exact h.moved hIo hNext (fun _ => hQuit) hPoll
  | offLoop a l ha hHas hLoop =>
    obtain ⟨hPc, -, -, hQuit, hFd⟩ := offLoop_frame hLoop ha
    rcases h.past with ⟨hIo, hEnter⟩ | hIo
    · refine h.moved hIo (hPc ▸ hEnter) (fun hOut => hQuit (h.flag ⟨hIo, hPc ▸ hOut, hEnter⟩))
        fun hPoll => ⟨hPc ▸ hPoll, hFd⟩
    · -- there is no loop to take a step on
      have hPointer := hPlaced.pointer.mp hHas
      simp [hIo] at hPointer
  | cleared =>
    exact ⟨.inr rfl, fun hIn => by simp [InWhile] at hIn, fun _ hIn => by simp [InWhile] at hIn⟩
  | quitStored hOwner hHas =>
    exact ⟨h.past, fun _ => rfl, fun hQuitting => absurd rfl hQuitting⟩
  | quitWoken hOwner => exact ⟨h.past, h.flag, fun _ _ _ => Nat.succ_pos _⟩
  | started hOwner | skipped hOwner | joined hOwner =>
    exact h.sameLoop rfl rfl (by simp [hOwner])
  | destroys hOwner =>
    refine h.sameLoop rfl rfl ?_
    rcases hOwner with hOwner | hOwner <;> simp [hOwner]

/-- A request that is made after the reset. -/
theorem asked_quitStore (hPlaced : Placed s) (hHas : s.hasLoop = true)
    (hLate : s.beforeReset = false) :
    Asked { s with owner := .quitting, loop := { s.loop with quit := true },
                   quitRequested := true } where
  past := by
    simp only [beforeReset, decide_eq_false_iff_not, not_or, not_and] at hLate
    rcases hPlaced.pointer.mp hHas with hIo | hIo
    · exact absurd hIo hLate.1
    · exact .inl ⟨hIo, hLate.2 hIo⟩
  flag _ := rfl
  woken hQuitting := absurd rfl hQuitting

theorem asked_of_reachesBy (h : ReachesBy step QuitsInLoop ({} : EventLoopThread F) s) :
    Placed s ∧ (s.quitRequested = true → Asked s) := by
  refine h.invariant (P := fun s => Placed s ∧ (s.quitRequested = true → Asked s))
    ⟨placed_of_reaches .refl, by simp⟩ fun t t' a hStep hOk ⟨hPlaced, hAsked⟩ =>
      ⟨placed_step hStep hPlaced, fun hRequested => ?_⟩
  by_cases hBefore : t.quitRequested = true
  · exact asked_step hStep hPlaced (hAsked hBefore)
  · -- the request is made in this step
    cases step_outcome hStep with
    | quitStored hOwner hHas => exact asked_quitStore hPlaced hHas hOk
    | starts | published | started | entered | inLoop | offLoop | cleared | destroys | quitWoken
    | skipped | joined => exact absurd hRequested hBefore

/-! ## When it does not -/

/-- Nobody else asks the loop to quit. -/
def NoOtherQuit (_ : EventLoopThread F) : Action F → Prop
  | .loop .quit | .loop .quitStore => False
  | _ => True

/-- The request is gone, and the owner is waiting for the thread to end. -/
structure Stuck (s : EventLoopThread F) : Prop where
  owner : s.owner = .joining
  inWhile : s.InWhile
  flag : s.loop.quit = false

/-- Without a request the loop stays in its `while`. -/
theorem inLoop_stays {a : EventLoop.Action F} (hStep : l.step a = some l')
    (hAsk : a ≠ .quit ∧ a ≠ .quitStore) (hOut : l.pc ≠ .outside) (hEnter : l.pc ≠ .entering)
    (hQuit : l.quit = false) : l'.pc ≠ .outside ∧ l'.pc ≠ .entering ∧ l'.quit = false := by
  cases EventLoop.step_outcome hStep with
  | entered hPc => exact absurd hPc hOut
  | reset hPc => exact absurd hPc hEnter
  | left _ hQuit' => simp [hQuit] at hQuit'
  | polls | polled | read | handled | swapped | called | returned | finished | destroyed =>
    exact ⟨by simp, by simp, hQuit⟩
  | pushed | quitWoken => exact ⟨hOut, hEnter, hQuit⟩
  | queued call =>
    rw [finishQueueInLoop_eq]
    exact ⟨hOut, hEnter, hQuit⟩
  | quit => exact absurd rfl hAsk.1
  | quitStored => exact absurd rfl hAsk.2

theorem stuck_step (hStep : s.step a = some s') (hOk : s.NoOtherQuit a) (h : Stuck s) :
    Stuck s' := by
  obtain ⟨hIo, hOut, hEnter⟩ := h.inWhile
  -- on its own thread and from others alike, the loop is only taken around
  have hLoop : ∀ (a : EventLoop.Action F) (l : EventLoop F), s.NoOtherQuit (.loop a) →
      s.loop.step a = some l → Stuck { s with loop := l } := by
    intro a l hOk hLoop
    have hAsk : a ≠ .quit ∧ a ≠ .quitStore :=
      ⟨fun ha => by simp [ha, NoOtherQuit] at hOk, fun ha => by simp [ha, NoOtherQuit] at hOk⟩
    obtain ⟨hOut', hEnter', hQuit'⟩ := inLoop_stays hLoop hAsk hOut hEnter h.flag
    exact ⟨h.owner, ⟨hIo, hOut', hEnter'⟩, hQuit'⟩
  have hOwner := h.owner
  cases step_outcome hStep with
  | inLoop a l _ _ hNext | offLoop a l _ _ hNext => exact hLoop a l hOk hNext
  | starts h' | started h' | quitStored h' | quitWoken h' | skipped h' | destroys h' =>
    simp [hOwner] at h'
  | published h' | entered _ h' | joined _ h' => simp [hIo] at h'
  | cleared _ hPc => exact absurd hPc hOut

/-- A request made before the reset is overwritten by it. -/
theorem quit_lost (h : Reaches step ({} : EventLoopThread F) s) (hOwner : s.owner = .destroying)
    (hBefore : s.beforeReset = true) :
    ∃ s₁ s₂, s.step .quitStore = some s₁ ∧ Reaches step s₁ s₂ ∧ s₂.quitRequested = true ∧
      Stuck s₂ := by
  have hPlaced := placed_of_reaches h
  simp only [beforeReset, decide_eq_true_eq] at hBefore
  have hHas : s.hasLoop = true := hPlaced.pointer.mpr (hBefore.imp id And.left)
  have hStore : s.step .quitStore = some { s with
      owner := .quitting, loop := { s.loop with quit := true }, quitRequested := true } :=
    if_pos ⟨hOwner, hHas⟩
  rcases hBefore with hIo | ⟨hIo, hPc⟩
  · -- the IO thread has not called `loop()` yet
    obtain ⟨hPc, hLooping, hFree⟩ := hPlaced.fresh (by simp [hIo]) (by simp [hIo])
    have hRun : runAll step { s with
          owner := .quitting, loop := { s.loop with quit := true }, quitRequested := true }
        [.quitWake, .enter, .loop .reset] = some { s with
          owner := .joining
          io := .looping
          quitRequested := true
          loop := { s.loop with pc := .check, looping := true, quit := false,
                                wakeupFd := s.loop.wakeupFd + 1 } } := by
      have hOff : ∀ call ∈ s.loop.calls, call.onLoop = false := fun call hCall => by
        simpa using List.all_eq_true.mp hFree call hCall
      simp [runAll, step, EventLoop.step, mayStep, EventLoop.Action.onLoopThread,
        EventLoop.wakeup, EventLoop.free, hIo, hPc, hLooping, if_pos hOff]
    exact ⟨_, _, hStore, reaches_of_runAll hRun, rfl, ⟨rfl, ⟨rfl, by simp, by simp⟩, rfl⟩⟩
  · -- it is in `loop()`, about to reset the flag
    have hRun : runAll step { s with
          owner := .quitting, loop := { s.loop with quit := true }, quitRequested := true }
        [.quitWake, .loop .reset] = some { s with
          owner := .joining
          quitRequested := true
          loop := { s.loop with pc := .check, quit := false,
                                wakeupFd := s.loop.wakeupFd + 1 } } := by
      simp [runAll, step, EventLoop.step, mayStep, EventLoop.Action.onLoopThread,
        EventLoop.wakeup, hIo, hPc]
    exact ⟨_, _, hStore, reaches_of_runAll hRun, rfl, ⟨rfl, ⟨hIo, by simp, by simp⟩, rfl⟩⟩

/-- **A quit request is not lost.** In every run in which the destructor asks the loop to
quit only after `quit_ = false`: once its `quit()` has returned, the flag is set as long as
the IO thread is in the `while`, a poll it is in does not block, and it does not poll
again. If the destructor asks earlier, the request can be overwritten, and then the thread
stays in its `while` and the owner in `join` unless somebody else asks. -/
theorem quit_not_lost (s : EventLoopThread F) :
    (ReachesBy step QuitsInLoop {} s → s.quitRequested = true → s.owner ≠ .quitting →
      s.InWhile →
        s.loop.quit = true ∧ (s.loop.pc = .poll → 0 < s.loop.wakeupFd) ∧
        ∀ a s', s.step a = some s' → s'.loop.pc = .poll → s.loop.pc = .poll) ∧
    (Reaches step {} s → s.owner = .destroying → s.beforeReset = true →
      ∃ s₁ s₂, s.step .quitStore = some s₁ ∧ Reaches step s₁ s₂ ∧ s₂.quitRequested = true ∧
        ∀ s₃, ReachesBy step NoOtherQuit s₂ s₃ →
          s₃.owner = .joining ∧ s₃.InWhile ∧ s₃.loop.quit = false) := by
  constructor
  · intro h hRequested hOwner hIn
    have hAsked := (asked_of_reachesBy h).2 hRequested
    refine ⟨hAsked.flag hIn, hAsked.woken hOwner hIn, fun a s' hStep hPoll => ?_⟩
    obtain ⟨hIo, hOut, hEnter⟩ := hIn
    cases step_outcome hStep with
    | inLoop a l _ _ hLoop =>
      exact ((inLoop_frame hLoop hOut hEnter (hAsked.flag ⟨hIo, hOut, hEnter⟩)).2.2 hPoll).1
    | offLoop a l ha _ hLoop => exact (offLoop_frame hLoop ha).1 ▸ hPoll
    | entered _ hIo' => simp [hIo] at hIo'
    | starts | published | started | cleared | destroys | quitStored | quitWoken | skipped
    | joined => exact hPoll
  · intro h hOwner hBefore
    obtain ⟨s₁, s₂, hStore, hRun, hRequested, hStuck⟩ := quit_lost h hOwner hBefore
    refine ⟨s₁, s₂, hStore, hRun, hRequested, fun s₃ hRun' => ?_⟩
    have hStuck' : Stuck s₃ := hRun'.invariant (P := Stuck) hStuck fun _ _ _ => stuck_step
    exact ⟨hStuck'.owner, hStuck'.inWhile, hStuck'.flag⟩

/-- The loop is polling when the owner destroys the thread: it is woken with the flag set. -/
theorem quit_not_lost_polling :
    ∃ s : EventLoopThread Char, runAllBy step QuitsInLoop {}
        [.startLoop, .publish, .startLoopReturns, .enter, .loop .reset, .loop .test, .destroy,
          .quitStore, .quitWake] = some s ∧
      s.loop.pc = .poll ∧ s.loop.quit = true ∧ 0 < s.loop.wakeupFd := by
  obtain ⟨s, hRun, hRequested, hOwner, hIo, hPc⟩ : ∃ s : EventLoopThread Char,
      runAllBy step QuitsInLoop {}
        [.startLoop, .publish, .startLoopReturns, .enter, .loop .reset, .loop .test, .destroy,
          .quitStore, .quitWake] = some s ∧
      s.quitRequested = true ∧ s.owner = .joining ∧ s.io = .looping ∧ s.loop.pc = .poll :=
    ⟨_, rfl, rfl, rfl, rfl, rfl⟩
  obtain ⟨hQuit, hWoken, -⟩ := (quit_not_lost s).1 (reachesBy_of_runAllBy hRun) hRequested
    (by simp [hOwner]) ⟨hIo, by simp [hPc], by simp [hPc]⟩
  exact ⟨s, hRun, hPc, hQuit, hWoken hPc⟩

/-- The owner destroys the thread as soon as `startLoop` has returned. Its `quit()` is over
when the IO thread enters the `while`, with the flag false. -/
theorem quit_overwritten :
    ∃ s : EventLoopThread Char, runAll step {}
        [.startLoop, .publish, .startLoopReturns, .destroy, .quitStore, .quitWake, .enter,
          .loop .reset] = some s ∧
      s.quitRequested = true ∧ s.owner = .joining ∧ s.io = .looping ∧ s.loop.pc = .check ∧
      s.loop.quit = false :=
  ⟨_, rfl, rfl, rfl, rfl, rfl, rfl⟩

end EventLoopThread

end ReactorNet
