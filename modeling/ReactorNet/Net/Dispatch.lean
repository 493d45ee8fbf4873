import ReactorNet.Lib.System

/-!
# ReactorNet — dispatching the active channels

One iteration of `EventLoop::loop` over the channels that `EPollPoller::poll` found ready.
The list of them is taken before any callback runs, and the callbacks may do anything to
the channels of the loop: register new ones, change their interest, remove them. What the
loop goes on with is the list as it was.

Main result: `removed_not_dispatched`.
-/

namespace ReactorNet

open Lib

variable {C : Type} [DecidableEq C]

/-! ## The poller -/

/-- `index_` of a channel. -/
inductive ChannelIndex where
  /-- `-1`: not known to the poller. -/
  | fresh
  /-- `0`: known, and taken out of the epoll set for want of interest. -/
  | deleted
  /-- `1`: in the epoll set. -/
  | added
  deriving DecidableEq, Repr

/-- The poller's part of its channels, and the epoll set of the kernel. -/
structure EPollPoller (C : Type) where
  index : C → ChannelIndex := fun _ => .fresh
  epoll : List C := []
  /-- `events_.size()`, at first `kInitEventListSize`. -/
  eventsSize : Nat := 16

namespace EPollPoller

def setIndex (p : EPollPoller C) (c : C) (i : ChannelIndex) : EPollPoller C :=
  { p with index := fun c' => if c' = c then i else p.index c' }

/-- `EPOLL_CTL_ADD`, which fails for a descriptor that is in the set. -/
def ctlAdd (p : EPollPoller C) (c : C) : EPollPoller C :=
  if c ∈ p.epoll then p else { p with epoll := p.epoll ++ [c] }

/-- `EPOLL_CTL_DEL`. -/
def ctlDel (p : EPollPoller C) (c : C) : EPollPoller C := { p with epoll := p.epoll.erase c }

def updateChannel (p : EPollPoller C) (c : C) (isNoneEvent : Bool) : EPollPoller C :=
  match p.index c with
  | .fresh | .deleted => (p.setIndex c .added).ctlAdd c
  | .added =>
    if isNoneEvent then (p.ctlDel c).setIndex c .deleted
    -- `EPOLL_CTL_MOD` changes the mask only
    else p

def removeChannel (p : EPollPoller C) (c : C) : EPollPoller C :=
  let p' := if p.index c = .added then p.ctlDel c else p
  p'.setIndex c .fresh

/-- The result array is doubled when it was full. -/
def grow (p : EPollPoller C) (numEvents : Nat) : EPollPoller C :=
  if numEvents = p.eventsSize then { p with eventsSize := p.eventsSize * 2 } else p

end EPollPoller

/-! ## The walk -/

/-- What the loop did in this iteration. -/
inductive DispatchEvent (C : Type) where
  | handleEvent (c : C)
  | removeChannel (c : C)
  deriving DecidableEq, Repr

structure Dispatch (C : Type) where
  poller : EPollPoller C := {}
  activeChannels : List C := []
  /-- How many of them the loop has come to. -/
  position : Nat := 0
  /-- The loop is in the `handleEvent` of the last of these. -/
  handling : Bool := false
  /-- Since the last poll. -/
  log : List (DispatchEvent C) := []

namespace Dispatch

/-- The active channels that the loop has still to come to. -/
def waiting (s : Dispatch C) : List C := s.activeChannels.drop s.position

inductive Action (C : Type) where
  /-- `poll` returns with these channels ready. -/
  | poll (ready : List C)
  /-- The loop calls `handleEvent` of the next active channel. -/
  | dispatch
  /-- `handleEvent` returns. -/
  | ret
  /-- `updateChannel`, in a callback or elsewhere on the loop. -/
  | update (c : C) (isNoneEvent : Bool)
  /-- `removeChannel`, likewise. -/
  | remove (c : C)
  deriving DecidableEq

/-- User code runs in a callback, or when the walk is over. -/
def inUserCode (s : Dispatch C) : Prop := s.handling = true ∨ s.waiting = []

instance (s : Dispatch C) : Decidable s.inUserCode := inferInstanceAs (Decidable (_ ∨ _))

def step (s : Dispatch C) : Action C → Option (Dispatch C)
  | .poll ready =>
    -- epoll reports descriptors of its set, each once, and as many as the array holds
    if s.handling = false ∧ s.waiting = [] ∧ ready.Nodup ∧ (∀ c ∈ ready, c ∈ s.poller.epoll) ∧
        ready.length ≤ s.poller.eventsSize then
      some
        { poller := s.poller.grow ready.length
          activeChannels := ready }
    else none
  | .dispatch =>
    match s.handling, s.waiting with
    | false, c :: _ =>
      some { s with
        position := s.position + 1
        handling := true
        log := s.log ++ [.handleEvent c] }
    | _, _ => none
  | .ret => if s.handling then some { s with handling := false } else none
  | .update c isNoneEvent =>
    if s.inUserCode then some { s with poller := s.poller.updateChannel c isNoneEvent } else none
  | .remove c =>
    if s.inUserCode then
      some { s with
        poller := s.poller.removeChannel c
        log := s.log ++ [.removeChannel c] }
    else none

/-- The loop called `handleEvent` of the channel after the channel was removed. -/
def DispatchedAfterRemoval (log : List (DispatchEvent C)) (c : C) : Prop :=
  ∃ before after, log = before ++ .removeChannel c :: after ∧ .handleEvent c ∈ after

/-- No channel is removed that the loop has still to come to. -/
def RemovesNoneWaiting (s : Dispatch C) : Action C → Prop
  | .remove c => c ∉ s.waiting
  | _ => True

instance (s : Dispatch C) : ∀ a, Decidable (s.RemovesNoneWaiting a)
  | .remove _ => inferInstanceAs (Decidable (¬ _))
  | .poll _ | .dispatch | .ret | .update .. => .isTrue trivial

/-- The steps up to the next poll. -/
def SameIteration (_ : Dispatch C) : Action C → Prop
  | .poll _ => False
  | _ => True

variable {s s' : Dispatch C} {c : C}

/-- What a step does, with what had to hold for it. -/
inductive Outcome (s : Dispatch C) : Action C → Dispatch C → Prop
  | polled (ready : List C) :
      Outcome s (.poll ready)
        { poller := s.poller.grow ready.length, activeChannels := ready }
  | dispatched (c : C) (rest : List C) (hWaiting : s.waiting = c :: rest) :
      Outcome s .dispatch
        { s with
          position := s.position + 1
          handling := true
          log := s.log ++ [.handleEvent c] }
  | returned : Outcome s .ret { s with handling := false }
  | updated (c : C) (isNoneEvent : Bool) :
      Outcome s (.update c isNoneEvent)
        { s with poller := s.poller.updateChannel c isNoneEvent }
  | removed (c : C) (hUser : s.inUserCode) :
      Outcome s (.remove c)
        { s with
          poller := s.poller.removeChannel c
          log := s.log ++ [.removeChannel c] }

/-- **Inversion of a step.** -/
theorem step_outcome {a : Action C} (h : s.step a = some s') : s.Outcome a s' := by
  cases a with
  | poll ready =>
    simp only [step] at h
    split_ifs at h
    exact Option.some.inj h ▸ .polled ready
  | dispatch =>
    simp only [step] at h
    split at h
    · exact Option.some.inj h ▸ .dispatched _ _ ‹_›
    · cases h
  | ret =>
    simp only [step] at h
    split_ifs at h
    exact Option.some.inj h ▸ .returned
  | update c isNoneEvent =>
    simp only [step] at h
    split_ifs at h
    exact Option.some.inj h ▸ .updated c isNoneEvent
  | remove c =>
    simp only [step] at h
    split_ifs at h with hUser
    exact Option.some.inj h ▸ .removed c hUser

omit [DecidableEq C] in
theorem waiting_succ {rest : List C} (h : s.waiting = c :: rest) :
    s.activeChannels.drop (s.position + 1) = rest := by
  rw [waiting] at h
  rw [← List.drop_drop, h, List.drop_succ_cons, List.drop_zero]

/-! ## While the condition holds -/

/-- What was removed is not waiting, and was not dispatched since. -/
structure Clean (s : Dispatch C) : Prop where
  gone : ∀ c, .removeChannel c ∈ s.log → c ∉ s.waiting
  order : s.log.Pairwise fun e e' => ∀ c, e = .removeChannel c → e' ≠ .handleEvent c

theorem clean_step {a : Action C} (hStep : s.step a = some s') (ha : s.RemovesNoneWaiting a)
    (h : Clean s) : Clean s' := by
  cases step_outcome hStep with
  | polled ready => exact ⟨by simp, .nil⟩
  | dispatched c rest hWaiting =>
    refine ⟨fun d hd => ?_, ?_⟩
    · have hOld : d ∉ s.waiting := h.gone d (by simpa using hd)
      rw [hWaiting] at hOld
      show d ∉ s.activeChannels.drop (s.position + 1)
      rw [waiting_succ hWaiting]
      exact fun hMem => hOld (List.mem_cons_of_mem _ hMem)
    · -- the channel was waiting, so it has not been removed
      refine List.pairwise_append.mpr ⟨h.order, List.pairwise_singleton .., ?_⟩
      intro e he e' he' d hRemoved hHandled
      rw [List.mem_singleton.mp he', DispatchEvent.handleEvent.injEq] at hHandled
      subst hHandled hRemoved
      exact h.gone c he (by rw [hWaiting]; exact List.mem_cons_self ..)
  | returned | updated => exact ⟨h.gone, h.order⟩
  | removed c =>
    refine ⟨fun d hd => ?_, ?_⟩
    · rcases List.mem_append.mp hd with hd | hd
      · exact h.gone d hd
      · obtain rfl : d = c := by simpa using hd
        exact ha
    · refine List.pairwise_append.mpr ⟨h.order, List.pairwise_singleton .., ?_⟩
      intro e _ e' he' d _
      rw [List.mem_singleton.mp he']
      simp

theorem clean_of_reachesBy (h : ReachesBy step RemovesNoneWaiting ({} : Dispatch C) s) : Clean s :=
  h.invariant (P := Clean) ⟨by simp, .nil⟩ fun _ _ _ => clean_step

omit [DecidableEq C] in
theorem Clean.not_dispatched (h : Clean s) (c : C) : ¬ DispatchedAfterRemoval s.log c := by
  rintro ⟨before, after, hLog, hMem⟩
  have hOrder := h.order
  rw [hLog, List.pairwise_append, List.pairwise_cons] at hOrder
  exact hOrder.2.1.1 _ hMem c rfl rfl

/-! ## When it does not -/

/-- A removed channel is waiting, or its turn has come. -/
def Doomed (c : C) (s : Dispatch C) : Prop :=
  (.removeChannel c ∈ s.log ∧ c ∈ s.waiting) ∨ DispatchedAfterRemoval s.log c

omit [DecidableEq C] in
/-- What has happened is not undone by what happens later. -/
theorem DispatchedAfterRemoval.append {log : List (DispatchEvent C)}
    (h : DispatchedAfterRemoval log c) (es : List (DispatchEvent C)) :
    DispatchedAfterRemoval (log ++ es) c := by
  obtain ⟨before, after, rfl, hMem⟩ := h
  exact ⟨before, after ++ es, by simp, List.mem_append_left _ hMem⟩

theorem doomed_step {a : Action C} (hStep : s.step a = some s') (ha : s.SameIteration a)
    (h : Doomed c s) : Doomed c s' := by
  cases step_outcome hStep with
  | polled => exact ha.elim
  | dispatched d rest hWaiting =>
    rcases h with ⟨hRemoved, hMem⟩ | hDone
    · rw [hWaiting] at hMem
      rcases List.mem_cons.mp hMem with rfl | hRest
      · -- its turn
        obtain ⟨before, after, hLog⟩ := List.append_of_mem hRemoved
        refine .inr ⟨before, after ++ [.handleEvent c], ?_, by simp⟩
        show s.log ++ [_] = _
        rw [hLog]
        simp
      · refine .inl ⟨List.mem_append_left _ hRemoved, ?_⟩
        show c ∈ s.activeChannels.drop (s.position + 1)
        rw [waiting_succ hWaiting]
        exact hRest
    · exact .inr (hDone.append _)
  | returned | updated => exact h
  | removed d =>
    rcases h with ⟨hRemoved, hMem⟩ | hDone
    · exact .inl ⟨List.mem_append_left _ hRemoved, hMem⟩
    · exact .inr (hDone.append _)

/-- The loop gets to the end of its list when the callbacks return. -/
theorem walk_ends (s : Dispatch C) : ∃ s', ReachesBy step SameIteration s s' ∧ s'.waiting = [] := by
  -- one channel less is waiting after each dispatch
  generalize hRest : s.waiting = rest
  induction rest generalizing s with
  | nil => exact ⟨s, .refl, hRest⟩
  | cons c rest ih =>
    have hFree : ∃ t, ReachesBy step SameIteration s t ∧ t.handling = false ∧
        t.waiting = c :: rest := by
      rcases Bool.eq_false_or_eq_true s.handling with hHandling | hHandling
      · have hRet : s.step .ret = some { s with handling := false } := if_pos hHandling
        exact ⟨{ s with handling := false }, ReachesBy.refl.next .ret trivial hRet, rfl, hRest⟩
      · exact ⟨s, .refl, hHandling, hRest⟩
    obtain ⟨t, hRun, hIdle, hWaiting⟩ := hFree
    have hDispatch : t.step .dispatch = some { t with
        position := t.position + 1, handling := true, log := t.log ++ [.handleEvent c] } := by
      simp only [step, hIdle, hWaiting]
    obtain ⟨s', hRun', hEnd⟩ := ih { t with
      position := t.position + 1, handling := true, log := t.log ++ [.handleEvent c] }
      (waiting_succ hWaiting)
    exact ⟨s', (hRun.next .dispatch trivial hDispatch).trans hRun', hEnd⟩

/-- **A removed channel is not dispatched.** In every run in which callbacks remove only
channels that the loop does not have still to come to, no `handleEvent` of a channel
follows its removal in the same iteration. A channel that is removed while the loop has
still to come to it is dispatched all the same: it has been when the walk is over, and the
walk can always be finished. -/
theorem removed_not_dispatched (s : Dispatch C) :
    (ReachesBy step RemovesNoneWaiting {} s → ∀ c, ¬ DispatchedAfterRemoval s.log c) ∧
    (Reaches step {} s → ∀ c s₁, c ∈ s.waiting → s.step (.remove c) = some s₁ →
      (∀ s₂, ReachesBy step SameIteration s₁ s₂ → s₂.waiting = [] →
        DispatchedAfterRemoval s₂.log c) ∧
      ∃ s₂, ReachesBy step SameIteration s₁ s₂ ∧ s₂.waiting = []) := by
  constructor
  · intro h c
    exact (clean_of_reachesBy h).not_dispatched c
  · intro _ c s₁ hWaiting hRemove
    refine ⟨fun s₂ hRun hEnd => ?_, walk_ends s₁⟩
    have hStart : Doomed c s₁ := by
      cases step_outcome hRemove with
      | removed => exact .inl ⟨by simp, hWaiting⟩
    have hDoomed : Doomed c s₂ := hRun.invariant (P := Doomed c) hStart fun _ _ _ => doomed_step
    rcases hDoomed with ⟨-, hMem⟩ | hDone
    · simp [hEnd] at hMem
    · exact hDone

/-- The second of two ready channels removes the first, which has had its turn. -/
theorem removed_not_dispatched_backwards :
    ∃ s : Dispatch Nat, runAllBy step RemovesNoneWaiting {}
        [.update 3 false, .update 4 false, .poll [3, 4], .dispatch, .ret, .dispatch, .remove 3,
          .ret] = some s ∧
      s.log = [.handleEvent 3, .handleEvent 4, .removeChannel 3] ∧
      ¬ DispatchedAfterRemoval s.log 3 := by
  obtain ⟨s, hRun, hLog⟩ : ∃ s : Dispatch Nat, runAllBy step RemovesNoneWaiting {}
      [.update 3 false, .update 4 false, .poll [3, 4], .dispatch, .ret, .dispatch, .remove 3,
        .ret] = some s ∧
      s.log = [.handleEvent 3, .handleEvent 4, .removeChannel 3] := ⟨_, rfl, rfl⟩
  exact ⟨s, hRun, hLog, (removed_not_dispatched s).1 (reachesBy_of_runAllBy hRun) 3⟩

/-- The first of two ready channels removes the second, which the loop has in its list already and
handles all the same. -/
theorem dispatched_after_removal :
    ∃ s : Dispatch Nat, runAll step {}
        [.update 3 false, .update 4 false, .poll [3, 4], .dispatch, .remove 4, .ret,
          .dispatch] = some s ∧
      DispatchedAfterRemoval s.log 4 :=
  ⟨_, rfl, [.handleEvent 3], [.handleEvent 4], rfl, by decide⟩

end Dispatch

end ReactorNet
