import ReactorNet.Net.Lifecycle

/-!
# ReactorNet — forceClose on other threads

`forceClose` may be called on any thread. It loads the state, and if the connection is
up it stores `kDisconnecting` and queues the close. The loop thread can get in between:
if it closes the connection after the load, the store takes the connection out of
`kDisconnected`, and the queued functor closes it once more.

The steps of the other threads are the three atomic ones. A step of the loop thread is
one of `TcpConnection.step`: it runs to the next callback.

Main result: `force_close_once` — the connection is closed once if it is not closed while
a thread is between its load and its store, and a close at such a time can always be
undone by that thread.
-/

namespace ReactorNet

open Lib TcpConnection

/-- A connection and the threads that are in its `forceClose`. -/
structure SharedConnection where
  conn : TcpConnection := {}
  /-- Threads that have loaded `kConnected` or `kDisconnecting`. -/
  loaded : Nat := 0
  /-- Threads that have stored `kDisconnecting`. -/
  stored : Nat := 0

namespace SharedConnection

inductive Action where
  | loop (a : TcpConnection.Action)
  | load
  | store
  | queue

def step (s : SharedConnection) : Action → Option SharedConnection
  | .loop a => (s.conn.step a).map fun c => { s with conn := c }
  | .load =>
    if s.conn.state = .kConnected ∨ s.conn.state = .kDisconnecting then
      some { s with loaded := s.loaded + 1 }
    -- the thread returns
    else some s
  | .store =>
    if 0 < s.loaded then
      some { conn := { s.conn with state := .kDisconnecting }
             loaded := s.loaded - 1
             stored := s.stored + 1 }
    else none
  | .queue =>
    if 0 < s.stored then
      some { s with conn := s.conn.queueInLoop .forceCloseInLoop, stored := s.stored - 1 }
    else none

/-- The loop thread closes the connection only when no thread is between its load and its
store. -/
def ClosesAlone (s : SharedConnection) : Action → Prop
  | .loop a => a.Reported ∧ (s.conn.Closes a → s.loaded = 0)
  | _ => True

instance (s : SharedConnection) : ∀ a, Decidable (s.ClosesAlone a)
  | .loop _ => inferInstanceAs (Decidable (_ ∧ (_ → _)))
  | .load | .store | .queue => .isTrue trivial

variable {s s' : SharedConnection}

/-- What a step does, with what had to hold for it. -/
inductive Outcome (s : SharedConnection) : Action → SharedConnection → Prop
  | looped (a : TcpConnection.Action) (c : TcpConnection) (hStep : s.conn.step a = some c) :
      Outcome s (.loop a) { s with conn := c }
  | loaded (hUp : s.conn.state = .kConnected ∨ s.conn.state = .kDisconnecting) :
      Outcome s .load { s with loaded := s.loaded + 1 }
  | returned : Outcome s .load s
  | stored (hLoaded : 0 < s.loaded) :
      Outcome s .store
        { conn := { s.conn with state := .kDisconnecting }
          loaded := s.loaded - 1
          stored := s.stored + 1 }
  | queued (hStored : 0 < s.stored) :
      Outcome s .queue
        { s with conn := s.conn.queueInLoop .forceCloseInLoop, stored := s.stored - 1 }

variable {a : Action}

/-- **Inversion of a step.** -/
theorem step_outcome (hStep : s.step a = some s') : s.Outcome a s' := by
  cases a with
  | loop a =>
    obtain ⟨c, hc, rfl⟩ := Option.map_eq_some_iff.mp hStep
    exact .looped a c hc
  | load =>
    simp only [step] at hStep
    split_ifs at hStep with hUp
    · exact Option.some.inj hStep ▸ .loaded hUp
    · exact Option.some.inj hStep ▸ .returned
  | store =>
    simp only [step] at hStep
    split_ifs at hStep with hLoaded
    exact Option.some.inj hStep ▸ .stored hLoaded
  | queue =>
    simp only [step] at hStep
    split_ifs at hStep with hStored
    exact Option.some.inj hStep ▸ .queued hStored

/-! ## While the condition holds -/

structure Inv (s : SharedConnection) : Prop where
  life : s.conn.Lifecycle
  fresh : s.conn.state = .kConnecting → s.loaded = 0 ∧ s.stored = 0
  down : s.conn.state = .kDisconnected → s.loaded = 0

/-- A thread that is about to store finds the connection up. -/
theorem Inv.up (h : Inv s) (hLoaded : 0 < s.loaded) : Up s.conn := by
  rcases h.life with hFresh | hUp | hDown
  · exact absurd (h.fresh hFresh.state).1 (Nat.ne_of_gt hLoaded)
  · exact hUp
  · exact absurd (h.down hDown.state) (Nat.ne_of_gt hLoaded)

theorem Inv.loop (h : Inv s) {a : TcpConnection.Action} (ha : s.ClosesAlone (.loop a))
    {c : TcpConnection} (hStep : s.conn.step a = some c) : Inv { s with conn := c } where
  life := lifecycle_step ha.1 hStep h.life
  fresh hState := by
    have hRank := rank_le_step ha.1 hStep h.life
    simp only at hState
    rw [hState] at hRank
    exact h.fresh (StateE.eq_kConnecting hRank)
  down hState := by
    simp only at hState
    rcases h.life with hFresh | hUp | hDown
    · rcases hFresh.step hStep with hNext | hNext
      · simp [hNext.state] at hState
      · exact absurd hState hNext.ne_disconnected
    · rcases hUp.step ha.1 hStep with hNext | hNext
      · exact absurd hState hNext.ne_disconnected
      · exact ha.2 hNext.1
    · exact h.down hDown.state

theorem inv_step (hStep : s.step a = some s') (ha : s.ClosesAlone a) (h : Inv s) : Inv s' := by
  cases step_outcome hStep with
  | looped a c hc => exact h.loop ha hc
  | loaded hUp =>
    exact
      { life := h.life
        fresh := fun hState => by simp [show s.conn.state = _ from hState] at hUp
        down := fun hState => by simp [show s.conn.state = _ from hState] at hUp }
  | returned => exact h
  | stored hLoaded =>
    -- the store comes before any close, so it overwrites an up state
    exact
      { life := .inr (.inl (h.up hLoaded).setDisconnecting)
        fresh := fun hState => by simp at hState
        down := fun hState => by simp at hState }
  | queued hStored =>
    refine
      { life := ?_
        fresh := fun hState => absurd (h.fresh hState).2 (Nat.ne_of_gt hStored)
        down := h.down }
    rcases h.life with hFresh | hUp | hDown
    · exact absurd (h.fresh hFresh.state).2 (Nat.ne_of_gt hStored)
    · exact .inr (.inl { hUp with tasks := by simpa [queueInLoop] using hUp.tasks })
    · exact .inr (.inr { hDown with })

theorem disconnected_step (hStep : s.step a = some s') (h : Inv s)
    (hState : s.conn.state = .kDisconnected) : s'.conn.state = .kDisconnected := by
  have hDown : Down s.conn := h.life.down_of_state hState
  cases step_outcome hStep with
  | looped a c hc => exact (hDown.step hc).state
  | loaded => exact hState
  | returned => exact hState
  | stored hLoaded => exact absurd (h.down hState) (Nat.ne_of_gt hLoaded)
  | queued => exact hState

theorem inv_of_reachesBy (h : ReachesBy step ClosesAlone {} s) : Inv s :=
  h.invariant (P := Inv) ⟨.inl fresh_new, fun _ => ⟨rfl, rfl⟩, fun _ => rfl⟩
    fun _ _ _ => inv_step

theorem disconnected_of_reachesBy (h : Inv s) (hState : s.conn.state = .kDisconnected)
    (hRun : ReachesBy step ClosesAlone s s') : s'.conn.state = .kDisconnected := by
  have hBoth : Inv s' ∧ s'.conn.state = .kDisconnected :=
    hRun.invariant (P := fun t => Inv t ∧ t.conn.state = .kDisconnected) ⟨h, hState⟩
      fun _ _ _ hStep ha ⟨hInv, hDown⟩ => ⟨inv_step hStep ha hInv, disconnected_step hStep hInv hDown⟩
  exact hBoth.2

/-! ## When it does not -/

/-- A thread that has loaded has seen the connection established. -/
theorem established_step (hStep : s.step a = some s')
    (h : 0 < s.loaded → s.conn.state ≠ .kConnecting) :
    0 < s'.loaded → s'.conn.state ≠ .kConnecting := by
  cases step_outcome hStep with
  | looped a c hc =>
    intro hLoaded
    by_cases ha : a = .connectEstablished
    · subst ha
      cases TcpConnection.step_outcome hc with
      | established => simp [connectEstablished, TcpConnection.call, updateChannel]
    · rcases leaves_step ha hc with hState | hState | hState
      · simpa [hState] using h hLoaded
      · simp [hState]
      · simp [hState]
  | loaded hUp =>
    intro _ hState
    simp [show s.conn.state = _ from hState] at hUp
  | returned => exact h
  | stored => simp
  | queued => exact h

/-- **`forceClose` from any thread.** In every run in which the loop thread closes the
connection only when no thread is between its load and its store, `kDisconnected` is never
left, and the disconnected notification and the close callback are each delivered at most
once. If it closes the connection at such a time, whatever the run was, the thread's store
takes the connection out of `kDisconnected` again. -/
theorem force_close_once (s : SharedConnection) :
    (ReachesBy step ClosesAlone {} s →
      (∀ s', ReachesBy step ClosesAlone s s' → s.conn.state = .kDisconnected →
        s'.conn.state = .kDisconnected) ∧
      s.conn.log.count (.connectionCallback false) ≤ 1 ∧
      s.conn.log.count .closeCallback ≤ 1) ∧
    (Reaches step {} s → ∀ a s', s.step (.loop a) = some s' → s.conn.Closes a → 0 < s.loaded →
      s'.conn.state = .kDisconnected ∧
      ∃ s'', s'.step .store = some s'' ∧ s''.conn.state = .kDisconnecting) := by
  constructor
  · intro h
    have hInv := inv_of_reachesBy h
    obtain ⟨-, hDown, hClosed⟩ := hInv.life.counts
    exact ⟨fun s' hRun hState => disconnected_of_reachesBy hInv hState hRun, hDown, hClosed⟩
  · intro h a s' hStep hCloses hLoaded
    have hState : 0 < s.loaded → s.conn.state ≠ .kConnecting :=
      h.invariant (P := fun s => 0 < s.loaded → s.conn.state ≠ .kConnecting)
        (by simp) fun _ _ _ => established_step
    obtain ⟨c, hc, rfl⟩ := Option.map_eq_some_iff.mp hStep
    exact ⟨hCloses.state (hState hLoaded) hc, _, if_pos hLoaded, rfl⟩

/-- The peer ends its stream, and the loop thread closes the connection. -/
def peerCloses : List Action :=
  [.loop (.event { epollin := true }), .loop (.resume (.bytes []) (.accepted 0)),
    .loop (.resume (.bytes []) (.accepted 0)), .loop (.resume (.bytes []) (.accepted 0)),
    .loop .ret, .loop (.resume (.bytes []) (.accepted 0)),
    .loop (.resume (.bytes []) (.accepted 0))]

/-- A whole `forceClose` on another thread, and then the close. -/
theorem force_close_once_alone :
    ∃ s, runAllBy step ClosesAlone {}
        [.loop .connectEstablished, .loop .ret, .load, .store, .queue, .loop (.task (.accepted 0)),
          .loop .ret, .loop (.resume (.bytes []) (.accepted 0))] = some s ∧
      s.conn.state = .kDisconnected ∧ s.conn.log.count .closeCallback ≤ 1 := by
  have hRun : (runAllBy step ClosesAlone {}
      [.loop .connectEstablished, .loop .ret, .load, .store, .queue, .loop (.task (.accepted 0)),
        .loop .ret, .loop (.resume (.bytes []) (.accepted 0))]).map (fun s => s.conn.state) =
      some .kDisconnected := rfl
  obtain ⟨s, hs, hState⟩ := Option.map_eq_some_iff.mp hRun
  obtain ⟨-, -, hClosed⟩ := (force_close_once s).1 (reachesBy_of_runAllBy hs)
  exact ⟨s, hs, hState, hClosed⟩

/-- The thread loads, the peer's end of the stream closes the connection, and the thread
goes on: the connection comes back from `kDisconnected` and is closed a second time. -/
theorem closed_twice :
    ((runAll step {} (([.loop .connectEstablished, .loop .ret, .load] : List Action) ++
        peerCloses)).map fun s => s.conn.state) = some .kDisconnected ∧
    ((runAll step {} (([.loop .connectEstablished, .loop .ret, .load] : List Action) ++
        peerCloses ++ ([.store] : List Action))).map fun s => s.conn.state) =
      some .kDisconnecting ∧
    ((runAll step {} (([.loop .connectEstablished, .loop .ret, .load] : List Action) ++
        peerCloses ++ ([.store, .queue, .loop (.task (.accepted 0)), .loop .ret,
          .loop (.resume (.bytes []) (.accepted 0))] : List Action))).map fun s =>
        (s.conn.log.count (.connectionCallback false), s.conn.log.count .closeCallback)) =
      some (2, 2) := by
  refine ⟨?_, ?_, ?_⟩ <;> decide +kernel

end SharedConnection

end ReactorNet
