import ReactorNet.Net.Lifecycle

/-!
# ReactorNet — tearing a live connection down

The owner of a connection that goes away calls `connectDestroyed` on it, whatever the
connection is doing. On a connected one that is a close: the state is set, the channel is
silenced, the user is notified, and the channel is removed. On one in `kDisconnecting` only
the last of these happens.

Between the report of an event and its dispatch other channels of the same batch have their
turn, and so may the owner's destructor. Here the two are separate steps: a connection that
was torn down meanwhile is dispatched all the same. (That takes a holder of the connection
other than the owner; without one the channel is gone, and the loop has a dangling pointer.)

Main result: `teardown_iff` — a teardown does its work if the connection is connected and
no event that reads or closes is waiting to be dispatched, and in no other live state.
-/

namespace ReactorNet

open Lib TcpConnection

/-- A connection, the event of it that waits in `activeChannels_`, and whether its owner has
called `connectDestroyed`. -/
structure OwnedConnection where
  conn : TcpConnection := {}
  reported : Option Revents := none
  destroyed : Bool := false

namespace OwnedConnection

inductive Action where
  | conn (a : TcpConnection.Action)
  /-- `epoll_wait` returns an event of the connection. -/
  | poll (m : Revents)
  /-- The loop comes to the connection's channel. -/
  | dispatch
  /-- The owner calls `connectDestroyed`, on the loop thread. -/
  | destroy
  deriving DecidableEq

/-- A step of the connection itself. -/
def lift (s : OwnedConnection) (a : TcpConnection.Action) : Option OwnedConnection :=
  (s.conn.step a).map fun c => { s with conn := c }

def step (s : OwnedConnection) : Action → Option OwnedConnection
  -- an event is reported first and dispatched later
  | .conn (.event _) => none
  -- functors run when all events of the batch have been dispatched
  | .conn (.task w) => if s.reported = none then s.lift (.task w) else none
  | .conn a => s.lift a
  | .poll m =>
    if s.conn.stack = [] ∧ s.conn.channel.inEpoll = true ∧ s.reported = none then
      some { s with reported := some m }
    else none
  | .dispatch =>
    match s.reported with
    | none => none
    | some m =>
      -- nobody looks whether the channel has been removed since
      if s.conn.stack = [] then
        some { s with conn := { s.conn with stack := [.dispatch m .close] }, reported := none }
      else none
  | .destroy =>
    -- in user code that this connection has called, or elsewhere on the loop
    if (s.conn.stack = [] ∨ s.conn.stack.head? = some .callback) ∧ s.destroyed = false then
      some { s with conn := s.conn.connectDestroyed, destroyed := true }
    else none

/-- What a step does, with what had to hold for it. -/
inductive Outcome (s : OwnedConnection) : Action → OwnedConnection → Prop
  | conn (a : TcpConnection.Action) (c : TcpConnection) (hEvent : ∀ m, a ≠ .event m)
      (hTask : ∀ w, a = .task w → s.reported = none) (hStep : s.conn.step a = some c) :
      Outcome s (.conn a) { s with conn := c }
  | polled (m : Revents) (hStack : s.conn.stack = []) (hEpoll : s.conn.channel.inEpoll = true)
      (hReported : s.reported = none) : Outcome s (.poll m) { s with reported := some m }
  | dispatched (m : Revents) (hReported : s.reported = some m) (hStack : s.conn.stack = []) :
      Outcome s .dispatch
        { s with conn := { s.conn with stack := [.dispatch m .close] }, reported := none }
  | destroyed (hTop : s.conn.stack = [] ∨ s.conn.stack.head? = some .callback)
      (hOnce : s.destroyed = false) :
      Outcome s .destroy { s with conn := s.conn.connectDestroyed, destroyed := true }

variable {s s' s₁ : OwnedConnection} {a : Action}

theorem lift_outcome {a : TcpConnection.Action} (h : s.lift a = some s')
    (hEvent : ∀ m, a ≠ .event m) (hTask : ∀ w, a = .task w → s.reported = none) :
    Outcome s (.conn a) s' := by
  obtain ⟨c, hStep, rfl⟩ := Option.map_eq_some_iff.mp h
  exact .conn a c hEvent hTask hStep

theorem step_outcome (h : s.step a = some s') : Outcome s a s' := by
  cases a with
  | conn a =>
    -- the first two patterns of `step` single out actions of the connection
    cases a with
    | event m => cases h
    | task w =>
      simp only [step] at h
      split_ifs at h with hReported
      exact lift_outcome h (by simp) fun _ _ => hReported
    | connectEstablished | resume | user | ret | removeConnection | postSend =>
      exact lift_outcome h (by simp) (by simp)
  | poll m =>
    simp only [step] at h
    split_ifs at h with hPoll
    exact Option.some.inj h ▸ .polled m hPoll.1 hPoll.2.1 hPoll.2.2
  | dispatch =>
    simp only [step] at h
    split at h
    · cases h
    · split_ifs at h with hStack
      exact Option.some.inj h ▸ .dispatched _ ‹_› hStack
  | destroy =>
    simp only [step] at h
    split_ifs at h with hTop
    exact Option.some.inj h ▸ .destroyed hTop.1 hTop.2

/-- The mask that a step reports is one that epoll can report. -/
def Action.Reported : Action → Prop
  | .poll m => m.Reported
  | _ => True

instance : ∀ a : Action, Decidable a.Reported
  | .poll m => inferInstanceAs (Decidable m.Reported)
  | .conn _ | .dispatch | .destroy => .isTrue trivial

/-- A run in which epoll reports what is assumed of it. -/
def Runs (s s' : OwnedConnection) : Prop := ReachesBy step (fun _ a => a.Reported) s s'

end OwnedConnection

/-! ## Before the teardown -/

namespace TcpConnection

variable {c c' : TcpConnection} {a : Action}

/-- The stacks of a connection that is up. A callback that is called by a dispatch is called
by its read branch, and has only the write branch ahead. -/
inductive UpStack : List Frame → Prop
  | idle : UpStack []
  | dispatch (m : Revents) (b : Branch) : UpStack [.dispatch m b]
  | callback : UpStack [.callback]
  | message (m : Revents) : UpStack [.callback, .dispatch m .write]
  | writeComplete : UpStack [.callback, .afterWriteComplete]
  | written : UpStack [.afterWriteComplete]

theorem user_stack (c : TcpConnection) (op : UserOp) : (c.user op).stack = c.stack := by
  obtain ⟨state, tasks, -, hWorks⟩ := works_user c op
  exact hWorks.stack

/-- The stack after a read: that of before, or with a callback on it, if it was no close. -/
theorem handleRead_stack (c : TcpConnection) (r : ReadResult)
    (h : (c.handleRead r).state ≠ .kDisconnected) :
    (c.handleRead r).stack = c.stack ∨ (c.handleRead r).stack = .callback :: c.stack := by
  cases r with
  | failed errno => exact .inl rfl
  | bytes chunk =>
    simp only [handleRead] at h ⊢
    split_ifs at h ⊢
    · exact .inr rfl
    · exact .inl rfl
    · exact absurd rfl h

theorem handleWrite_stack (c : TcpConnection) (w : WriteResult) :
    (c.handleWrite w).stack = c.stack ∨
      (c.handleWrite w).stack = .callback :: .afterWriteComplete :: c.stack := by
  cases w with
  | failed errno =>
    simp only [handleWrite]
    split_ifs <;> exact .inl rfl
  | accepted n =>
    simp only [handleWrite]
    split_ifs
    · exact .inr rfl
    · exact .inl rfl
    · exact .inl rfl
    · exact .inl rfl

theorem UpStack.dispatched {m : Revents} {b : Branch} {r : ReadResult} {w : WriteResult}
    (hStack : c.stack = []) (hState : (c.dispatch m r w b).state ≠ .kDisconnected) :
    UpStack (c.dispatch m r w b).stack := by
  cases b with
  | close =>
    simp only [TcpConnection.dispatch] at hState ⊢
    split_ifs at hState ⊢
    · exact absurd rfl hState
    · exact hStack ▸ .dispatch m .error
  | error =>
    show UpStack (.dispatch m .read :: c.stack)
    exact hStack ▸ .dispatch m .read
  | read =>
    simp only [TcpConnection.dispatch] at hState ⊢
    split_ifs at hState ⊢
    · rcases handleRead_stack _ r hState with hRead | hRead
      · rw [hRead, hStack]
        exact .dispatch m .write
      · rw [hRead, hStack]
        exact .message m
    · exact hStack ▸ .dispatch m .write
  | write =>
    simp only [TcpConnection.dispatch]
    split_ifs
    · rcases handleWrite_stack c w with hWrite | hWrite
      · rw [hWrite, hStack]
        exact .idle
      · rw [hWrite, hStack]
        exact .writeComplete
    · exact hStack ▸ .idle

theorem UpStack.tail {f : Frame} {rest : List Frame} (h : UpStack (f :: rest)) : UpStack rest := by
  cases h with
  | dispatch | callback | written => exact .idle
  | message m => exact .dispatch m .write
  | writeComplete => exact .written

/-- A connection that stays up keeps to these stacks. -/
theorem UpStack.step (h : Up c) (hs : UpStack c.stack) (hStep : c.step a = some c') (h' : Up c') :
    UpStack c'.stack := by
  cases TcpConnection.step_outcome hStep with
  | established _ hState => exact absurd hState h.ne_connecting
  | reported m => exact .dispatch m .close
  | dispatched m b rest r w hStack =>
    -- there is nothing below a dispatch
    obtain rfl : rest = [] := by
      rw [hStack] at hs
      cases hs
      rfl
    exact .dispatched rfl h'.ne_disconnected
  | afterWriteComplete rest r w hStack =>
    rw [(works_afterWriteComplete _).stack]
    exact UpStack.tail (hStack ▸ hs)
  | afterDisconnected rest r w hStack | afterDestroyed rest r w hStack =>
    exact absurd (h.frames _ (hStack ▸ List.mem_cons_self ..)) (by simp [Frame.whileUp])
  | user op =>
    rw [user_stack]
    exact hs
  | returned rest hStack => exact UpStack.tail (hStack ▸ hs)
  | ran w t rest hStack =>
    cases t with
    | sendInLoop message =>
      show UpStack (sendInLoop _ message w).stack
      rw [(works_sendInLoop _ message w).stack]
      exact hs
    | writeComplete =>
      show UpStack (.callback :: ([] ++ c.stack))
      rw [hStack]
      exact .callback
    | forceCloseInLoop =>
      -- a forced close of a connection that is up is a close
      have hDown : ({ c with tasks := rest } : TcpConnection).forceCloseInLoop.state =
          .kDisconnected := by
        rw [forceCloseInLoop, if_pos h.state]
        rfl
      exact absurd hDown h'.ne_disconnected
    | connectDestroyed => exact absurd (‹c.tasks = _› ▸ List.mem_cons_self ..) h.tasks
  | removed hRemoving => simp [h.removing] at hRemoving
  | posted => exact hs

theorem Works.remove_mem (h : Works c c') (hMem : .remove ∈ c'.log) : .remove ∈ c.log := by
  obtain ⟨es, hLog, hEs⟩ := h.log
  rw [hLog] at hMem
  exact (List.mem_append.mp hMem).resolve_right fun h => by simpa [ConnEvent.isOutput] using hEs _ h

theorem user_log (c : TcpConnection) (op : UserOp) (hMem : .remove ∈ (c.user op).log) :
    .remove ∈ c.log := by
  obtain ⟨state, tasks, -, hWorks⟩ := works_user c op
  exact hWorks.remove_mem hMem

/-- Nothing removes the channel of a connection that is up. -/
theorem Up.not_removed (h : Up c) (hNot : .remove ∉ c.log) (hStep : c.step a = some c') :
    .remove ∉ c'.log := by
  intro hMem
  cases TcpConnection.step_outcome hStep with
  | established _ hState => exact absurd hState h.ne_connecting
  | dispatched m b rest r w =>
    exact hNot (((adds_dispatch { c with stack := rest } m r w b).mem rfl).mp hMem)
  | afterWriteComplete rest =>
    exact hNot ((works_afterWriteComplete { c with stack := rest }).remove_mem hMem)
  | afterDisconnected rest r w hStack | afterDestroyed rest r w hStack =>
    exact absurd (h.frames _ (hStack ▸ List.mem_cons_self ..)) (by simp [Frame.whileUp])
  | user op => exact hNot (user_log c op hMem)
  | ran w t rest hStack hTasks =>
    cases t with
    | sendInLoop message =>
      exact hNot ((works_sendInLoop { c with tasks := rest } message w).remove_mem hMem)
    | writeComplete =>
      exact hNot (by simpa [TcpConnection.runTask, TcpConnection.call] using hMem)
    | forceCloseInLoop =>
      simp only [TcpConnection.runTask, forceCloseInLoop, if_pos h.state, handleClose_log] at hMem
      exact hNot (by simpa using hMem)
    | connectDestroyed => exact absurd (hTasks ▸ List.mem_cons_self ..) h.tasks
  | reported | returned | removed | posted => exact hNot hMem

end TcpConnection

namespace OwnedConnection

variable {s s' s₁ : OwnedConnection} {a : Action}

/-- The invariant of a connection that its owner has not torn down. -/
structure Whole (s : OwnedConnection) : Prop where
  life : Lifecycle s.conn
  stack : Up s.conn → UpStack s.conn.stack
  log : Up s.conn → .remove ∉ s.conn.log
  waiting : ∀ m, s.reported = some m → Up s.conn ∧ s.conn.stack = [] ∧ m.Reported

/-- No event of a connection that is down is waiting. -/
theorem Whole.not_reported (h : Whole s) (hState : s.conn.state = .kDisconnected) :
    s.reported = none := by
  by_contra hSome
  obtain ⟨m, hm⟩ := Option.ne_none_iff_exists'.mp hSome
  exact (h.waiting m hm).1.ne_disconnected hState

/-- While an event waits, only user code and other threads get to the connection. -/
theorem Whole.wait (h : Whole s) {a : TcpConnection.Action} {c : TcpConnection}
    (hEvent : ∀ m, a ≠ .event m) (hTask : ∀ w, a = .task w → s.reported = none)
    (hStep : s.conn.step a = some c) {m : Revents} (hReported : s.reported = some m) :
    Up c ∧ c.stack = [] ∧ m.Reported := by
  obtain ⟨hUp, hStack, hm⟩ := h.waiting m hReported
  cases TcpConnection.step_outcome hStep with
  | established _ hState => exact absurd hState hUp.ne_connecting
  | reported m => exact absurd rfl (hEvent m)
  | dispatched _ _ _ _ _ hTop | afterWriteComplete _ _ _ hTop | afterDisconnected _ _ _ hTop
  | afterDestroyed _ _ _ hTop | returned _ hTop => simp [hStack] at hTop
  | user op => exact ⟨hUp.user op, (user_stack _ op).trans hStack, hm⟩
  | ran w => simp [hTask w rfl] at hReported
  | removed hRemoving => simp [hUp.removing] at hRemoving
  | posted message hState =>
    have hPosted : Up (s.conn.queueInLoop (.sendInLoop message)) :=
      { hUp with tasks := by simpa [queueInLoop] using hUp.tasks }
    exact ⟨hPosted, hStack, hm⟩

theorem Whole.conn (h : Whole s) {a : TcpConnection.Action} {c : TcpConnection}
    (hEvent : ∀ m, a ≠ .event m) (hTask : ∀ w, a = .task w → s.reported = none)
    (hStep : s.conn.step a = some c) : Whole { s with conn := c } := by
  have ha : a.Reported := by
    cases a with
    | event m => exact absurd rfl (hEvent m)
    | connectEstablished | resume | user | ret | task | removeConnection | postSend => trivial
  have hWait : ∀ m, s.reported = some m → Up c ∧ c.stack = [] ∧ m.Reported := fun m hReported =>
    h.wait hEvent hTask hStep hReported
  rcases h.life with hFresh | hUp | hDown
  · -- the first callback of a connection has nothing below it
    rcases hFresh.step_eq hStep with rfl | rfl
    · exact h
    · have hFirst : UpStack s.conn.connectEstablished.stack := by
        show UpStack (.callback :: ([] ++ s.conn.stack))
        rw [hFresh.stack]
        exact .callback
      have hLog : .remove ∉ s.conn.connectEstablished.log := by
        simp [connectEstablished, TcpConnection.call, updateChannel, hFresh.log]
      exact ⟨.inr (.inl hFresh.connectEstablished), fun _ => hFirst, fun _ => hLog, hWait⟩
  · exact ⟨lifecycle_step ha hStep h.life, UpStack.step hUp (h.stack hUp) hStep,
      fun _ => hUp.not_removed (h.log hUp) hStep, hWait⟩
  · -- down for good
    have hNot : ¬ Up c := fun hUp => hUp.ne_disconnected (hDown.step hStep).state
    exact ⟨.inr (.inr (hDown.step hStep)), fun hUp => absurd hUp hNot, fun hUp => absurd hUp hNot,
      hWait⟩

/-- **The step lemma.** Until `connectDestroyed` runs, the connection goes through its lifecycle.
-/
theorem Whole.step (h : Whole s) (ha : a.Reported) (hOnce : s'.destroyed = false)
    (hStep : s.step a = some s') : Whole s' := by
  cases step_outcome hStep with
  | conn a c hEvent hTask hConn => exact h.conn hEvent hTask hConn
  | polled m hStack hEpoll =>
    -- only a connection that is up is in the set
    have hUp : Up s.conn := by
      rcases h.life with hFresh | hUp | hDown
      · simp [hFresh.channel] at hEpoll
      · exact hUp
      · simp [hDown.inEpoll] at hEpoll
    refine ⟨h.life, h.stack, h.log, fun m' hReported => ?_⟩
    obtain rfl := Option.some.inj hReported
    exact ⟨hUp, hStack, ha⟩
  | dispatched m hReported =>
    obtain ⟨hUp, -, hm⟩ := h.waiting m hReported
    have hNext : Up { s.conn with stack := [.dispatch m .close] } :=
      hUp.setStack (List.forall_mem_singleton.mpr hm) (by simp)
    exact ⟨.inr (.inl hNext), fun _ => .dispatch m .close, fun _ => h.log hUp, by simp⟩
  | destroyed => cases hOnce

theorem destroyed_step (hStep : s.step a = some s') (h : s'.destroyed = false) :
    s.destroyed = false := by
  cases step_outcome hStep with
  | conn | polled | dispatched => exact h
  | destroyed => cases h

theorem whole_of_runs (h : Runs {} s) (hOnce : s.destroyed = false) : Whole s := by
  refine ReachesBy.invariant (P := fun s => s.destroyed = false → Whole s) h (fun _ => ?_)
    (fun s s' a hStep ha ih hOnce => ?_) hOnce
  · have hNot : ¬ Up ({} : TcpConnection) := fun hUp => by simpa using hUp.state
    exact ⟨.inl fresh_new, fun hUp => absurd hUp hNot, fun hUp => absurd hUp hNot, by simp⟩
  · exact (ih (destroyed_step hStep hOnce)).step ha hOnce hStep

end OwnedConnection

/-! ## After the teardown of a connected connection -/

/-- What may be on the stack: a dispatch that does not read or close any more. -/
def Frame.whileTornDown : Frame → Prop
  | .dispatch _ .write => True
  | .dispatch m .close => m.closes = false ∧ m.reads = false
  | .dispatch m _ => m.reads = false
  | .afterDisconnected => False
  | _ => True

/-- Events that neither notify nor deliver. -/
def ConnEvent.isSilent (e : ConnEvent) : Prop := e.isNotification = false ∧ e ≠ .messageCallback

namespace TcpConnection

variable {c c' : TcpConnection} {a : Action}

/-- `connectDestroyed` has begun on a connection that was connected. -/
structure TornDown (c : TcpConnection) : Prop where
  state : c.state = .kDisconnected
  channel : c.channel = {}
  notified : c.log.count (.connectionCallback false) = 1
  /-- The channel was removed, or that is what `connectDestroyed` does next. -/
  removed : c.log.count .remove + c.stack.count .afterDestroyed = 1
  tasks : .connectDestroyed ∉ c.tasks
  frames : ∀ f ∈ c.stack, f.whileTornDown
  removing : c.removing = false

/-- The stack changes, and what is logged is silent. -/
theorem TornDown.extend (h : TornDown c) (es : List ConnEvent) (hState : c'.state = c.state)
    (hChannel : c'.channel = c.channel) (hLog : c'.log = c.log ++ es)
    (hEs : ∀ e ∈ es, e.isSilent)
    (hRemoved : es.count .remove + c'.stack.count .afterDestroyed = c.stack.count .afterDestroyed)
    (hTasks : .connectDestroyed ∉ c'.tasks) (hFrames : ∀ f ∈ c'.stack, f.whileTornDown)
    (hRemoving : c'.removing = c.removing) :
    TornDown c' ∧ ∃ es, c'.log = c.log ++ es ∧ ∀ e ∈ es, e.isSilent := by
  have hNone : es.count (.connectionCallback false) = 0 :=
    List.count_eq_zero_of_not_mem fun hMem => by
      simpa [ConnEvent.isNotification] using (hEs _ hMem).1
  refine ⟨{
    state := hState.trans h.state
    channel := hChannel.trans h.channel
    notified := by rw [hLog, List.count_append, hNone, h.notified]
    removed := by
      rw [hLog, List.count_append, Nat.add_assoc, hRemoved, h.removed]
    tasks := hTasks
    frames := hFrames
    removing := hRemoving.trans h.removing }, es, hLog, hEs⟩

theorem TornDown.setStack (h : TornDown c) {stack : List Frame}
    (hRemoved : stack.count .afterDestroyed = c.stack.count .afterDestroyed)
    (hFrames : ∀ f ∈ stack, f.whileTornDown) : TornDown { c with stack := stack } :=
  { h with removed := by rw [← h.removed, ← hRemoved], frames := hFrames }

theorem TornDown.handleWrite (h : TornDown c) (w : WriteResult) : c.handleWrite w = c := by
  simp [TcpConnection.handleWrite, h.channel]

/-- A dispatch goes on: it has nothing to do. -/
theorem TornDown.dispatch (h : TornDown c) {m : Revents} {b : Branch} {rest : List Frame}
    (hStack : c.stack = .dispatch m b :: rest) (r : ReadResult) (w : WriteResult) :
    TornDown ({ c with stack := rest }.dispatch m r w b) ∧
      ({ c with stack := rest }.dispatch m r w b).log = c.log := by
  have hFrame := h.frames _ (hStack ▸ List.mem_cons_self ..)
  have hRest : ∀ f ∈ rest, f.whileTornDown := fun f hf =>
    h.frames f (hStack ▸ List.mem_cons_of_mem _ hf)
  have hCount : rest.count .afterDestroyed = c.stack.count .afterDestroyed := by
    rw [hStack, List.count_cons_of_ne (by simp)]
  -- a torn-down connection gets no closing and no reading event
  have hNext : ∀ next, (Frame.dispatch m next).whileTornDown →
      TornDown { c with stack := .dispatch m next :: rest } := fun next hWhile =>
    h.setStack (by rw [List.count_cons_of_ne (by simp), hCount])
      (List.forall_mem_cons.mpr ⟨hWhile, hRest⟩)
  cases b with
  | close =>
    obtain ⟨hCloses, hReads⟩ : m.closes = false ∧ m.reads = false := hFrame
    simp only [TcpConnection.dispatch, hCloses]
    exact ⟨hNext .error hReads, rfl⟩
  | error => exact ⟨hNext .read hFrame, rfl⟩
  | read =>
    have hReads : m.reads = false := hFrame
    simp only [TcpConnection.dispatch, hReads]
    exact ⟨hNext .write trivial, rfl⟩
  | write =>
    have hEmpty : TornDown { c with stack := rest } := h.setStack hCount hRest
    simp only [TcpConnection.dispatch, hEmpty.handleWrite]
    split_ifs <;> exact ⟨hEmpty, rfl⟩

theorem TornDown.runTask (h : TornDown c) {t : LoopTask} {rest : List LoopTask}
    (hTasks : c.tasks = t :: rest) (w : WriteResult) :
    TornDown ({ c with tasks := rest }.runTask w t) ∧
      ∃ es, ({ c with tasks := rest }.runTask w t).log = c.log ++ es ∧ ∀ e ∈ es, e.isSilent := by
  have hNot := h.tasks
  rw [hTasks, List.mem_cons, not_or] at hNot
  have hState : ({ c with tasks := rest } : TcpConnection).state = .kDisconnected := h.state
  cases t with
  | sendInLoop message =>
    simp only [TcpConnection.runTask, sendInLoop_of_disconnected hState]
    exact h.extend [.sendInLoop message] rfl rfl rfl
      (by simp [ConnEvent.isSilent, ConnEvent.isNotification]) (by simp [record]) hNot.2 h.frames
      rfl
  | writeComplete =>
    refine h.extend [.writeCompleteCallback] rfl rfl rfl
      (by simp [ConnEvent.isSilent, ConnEvent.isNotification]) ?_ hNot.2 ?_ rfl
    · simp [TcpConnection.runTask, TcpConnection.call]
    · simpa [TcpConnection.runTask, TcpConnection.call, Frame.whileTornDown] using h.frames
  | forceCloseInLoop =>
    simp only [TcpConnection.runTask, forceCloseInLoop_of_disconnected hState]
    exact h.extend [] rfl rfl (List.append_nil _).symm (by simp) (by simp) hNot.2 h.frames rfl
  | connectDestroyed => exact absurd rfl hNot.1

/-- **Nothing more happens** to a connection that was torn down: what its functions and
functors still do notifies nobody. -/
theorem TornDown.step (h : TornDown c) (hStep : c.step a = some c') :
    TornDown c' ∧ ∃ es, c'.log = c.log ++ es ∧ ∀ e ∈ es, e.isSilent := by
  have hPop : ∀ {f : Frame} {rest : List Frame}, c.stack = f :: rest → f ≠ .afterDestroyed →
      TornDown { c with stack := rest } := fun hStack hf =>
    h.setStack (by rw [hStack, List.count_cons_of_ne hf]) fun f hf =>
      h.frames f (hStack ▸ List.mem_cons_of_mem _ hf)
  have hSame : ∃ es, c.log = c.log ++ es ∧ ∀ e ∈ es, e.isSilent :=
    ⟨[], (List.append_nil _).symm, by simp⟩
  cases TcpConnection.step_outcome hStep with
  | established _ hState => simp [h.state] at hState
  | reported m _ hEpoll => simp [h.channel] at hEpoll
  | dispatched m b rest r w hStack =>
    obtain ⟨hNext, hLog⟩ := h.dispatch hStack r w
    exact ⟨hNext, [], by rw [hLog, List.append_nil], by simp⟩
  | afterWriteComplete rest r w hStack =>
    -- the rest of `handleWrite` is about a connection that is disconnecting
    have hSkip : { c with stack := rest }.afterWriteComplete = { c with stack := rest } := by
      simp [TcpConnection.afterWriteComplete, h.state]
    rw [hSkip]
    exact ⟨hPop hStack (by simp), hSame⟩
  | afterDisconnected rest r w hStack =>
    exact absurd (h.frames _ (hStack ▸ List.mem_cons_self ..)) (by simp [Frame.whileTornDown])
  | afterDestroyed rest r w hStack =>
    refine h.extend [.remove] rfl ?_ rfl (by simp [ConnEvent.isSilent, ConnEvent.isNotification])
      ?_ h.tasks (fun f hf => h.frames f (hStack ▸ List.mem_cons_of_mem _ hf)) rfl
    · simp [TcpConnection.afterDestroyed, record, h.channel, Channel.remove]
    · show [ConnEvent.remove].count .remove + rest.count .afterDestroyed = _
      rw [hStack, List.count_singleton_self, List.count_cons_self, Nat.add_comm]
  | user op =>
    rw [user_of_ne (by simp [h.state]) (by simp [h.state])]
    exact ⟨h, hSame⟩
  | returned rest hStack => exact ⟨hPop hStack (by simp), hSame⟩
  | ran w t rest hStack hTasks => exact h.runTask hTasks w
  | removed hRemoving => simp [h.removing] at hRemoving
  | posted message =>
    exact ⟨{ h with tasks := by simpa [queueInLoop] using h.tasks }, hSame⟩

theorem Up.tornDown (h : Up c) (hState : c.state = .kConnected) (hStack : UpStack c.stack)
    (hTop : c.stack = [] ∨ c.stack.head? = some .callback) (hLog : .remove ∉ c.log) :
    TornDown c.connectDestroyed := by
  have hEq : c.connectDestroyed =
      { c with
        state := .kDisconnected
        channel := c.channel.disableAll
        log := c.log ++ [.update, .connectionCallback false]
        stack := .callback :: .afterDestroyed :: c.stack } := by
    simp [TcpConnection.connectDestroyed, hState, TcpConnection.call, updateChannel, connected]
  have hNoFrame : c.stack.count .afterDestroyed = 0 :=
    List.count_eq_zero_of_not_mem fun hMem => h.frames _ hMem
  rw [hEq]
  exact {
    state := rfl
    channel := by simp [Channel.disableAll, Channel.update, h.inEpoll]
    notified := by
      rw [List.count_append, List.count_eq_zero_of_not_mem h.notDown]
      rfl
    removed := by
      have hFrames : (Frame.callback :: .afterDestroyed :: c.stack).count .afterDestroyed = 1 := by
        rw [List.count_cons_of_ne (by simp), List.count_cons_self, hNoFrame]
      rw [List.count_append, List.count_eq_zero_of_not_mem hLog, hFrames]
      rfl
    tasks := h.tasks
    frames := by
      -- below the user code that destroys the owner no read branch is left
      have hBelow : ∀ f ∈ c.stack, f.whileTornDown := by
        generalize c.stack = stack at hStack hTop
        cases hStack with
        | idle => simp
        | dispatch m b => simp at hTop
        | callback => simp [Frame.whileTornDown]
        | message m => simp [Frame.whileTornDown]
        | writeComplete => simp [Frame.whileTornDown]
        | written => simp at hTop
      simpa [Frame.whileTornDown] using hBelow
    removing := h.removing }

end TcpConnection

namespace OwnedConnection

variable {s s' s₁ : OwnedConnection} {a : Action}

/-- The teardown has begun, and the event that waits for its dispatch, if there is one, is
harmless. -/
structure Harmless (s : OwnedConnection) : Prop where
  conn : TornDown s.conn
  waiting : ∀ m, s.reported = some m → m.closes = false ∧ m.reads = false
  destroyed : s.destroyed = true

theorem Harmless.step (h : Harmless s) (hStep : s.step a = some s') : Harmless s' := by
  cases step_outcome hStep with
  | conn a c _ _ hConn => exact ⟨(h.conn.step hConn).1, h.waiting, h.destroyed⟩
  | polled m _ hEpoll => simp [h.conn.channel] at hEpoll
  | dispatched m hReported hStack =>
    have hCount : [Frame.dispatch m .close].count .afterDestroyed =
        s.conn.stack.count .afterDestroyed := by
      rw [hStack]
      rfl
    exact ⟨h.conn.setStack hCount (List.forall_mem_singleton.mpr (h.waiting m hReported)),
      by simp, h.destroyed⟩
  | destroyed _ hOnce => simp [h.destroyed] at hOnce

/-! ## The verdict -/

/-- What a teardown owes, from the call of `connectDestroyed` on: when it has returned, and
ever after, the connection is disconnected, its channel was removed with no events
registered, and the user was told once. -/
def TearsDown (s : OwnedConnection) : Prop :=
  ∀ s', Runs s s' → .afterDestroyed ∉ s'.conn.stack →
    s'.conn.state = .kDisconnected ∧ s'.conn.channel = {} ∧ s'.conn.log.count .remove = 1 ∧
      s'.conn.log.count (.connectionCallback false) = 1

theorem Harmless.tearsDown (h : Harmless s) : TearsDown s := by
  intro s' hRuns hReturned
  have h' : Harmless s' := ReachesBy.invariant hRuns h fun _ _ _ hStep _ h => h.step hStep
  have hRemoved := h'.conn.removed
  rw [List.count_eq_zero_of_not_mem hReturned] at hRemoved
  exact ⟨h'.conn.state, h'.conn.channel, hRemoved, h'.conn.notified⟩

theorem Runs.refl (s : OwnedConnection) : Runs s s := ReachesBy.refl

theorem Runs.conn {a : TcpConnection.Action} (h : Runs s s₁)
    (hStep : s₁.step (.conn a) = some s') : Runs s s' :=
  ReachesBy.next h (.conn a) trivial hStep

theorem Runs.dispatch (h : Runs s s₁) (hStep : s₁.step .dispatch = some s') : Runs s s' :=
  ReachesBy.next h .dispatch trivial hStep

theorem step_resume {r : ReadResult} {w : WriteResult} {c : TcpConnection}
    (h : s.conn.resume r w = some c) :
    s.step (.conn (.resume r w)) = some { s with conn := c } := by
  simp [step, lift, TcpConnection.step, h]

/-- `connectDestroyed` returns, on a connection with no user code in the way. -/
theorem resume_afterDestroyed {rest : List Frame} (hStack : s.conn.stack = .afterDestroyed :: rest)
    (r : ReadResult) (w : WriteResult) :
    s.step (.conn (.resume r w)) =
      some { s with conn := { s.conn with stack := rest }.afterDestroyed } :=
  step_resume (by simp [resume, hStack])

/-- The end of the stream is read on a connection that was torn down. -/
theorem handleRead_eof_harm (c : TcpConnection) :
    (c.handleRead (.bytes [])).state = .kDisconnecting ∨
      (c.handleRead (.bytes [])).log.count (.connectionCallback false) =
        c.log.count (.connectionCallback false) + 1 := by
  simp only [handleRead]
  split_ifs with hChunk hOutput
  · simp at hChunk
  · exact .inl rfl
  · refine .inr ?_
    rw [handleClose_log]
    simp [record]

/-- A dispatch that closes or reads does harm on a connection that was torn down: the state
is set back, or the user is told once more. -/
theorem exists_harm {m : Revents} (hStack : s.conn.stack = [.dispatch m .close])
    (hHarm : m.closes = true ∨ m.reads = true) :
    ∃ s', Runs s s' ∧ .afterDestroyed ∉ s'.conn.stack ∧
      (s'.conn.state = .kDisconnecting ∨
        s'.conn.log.count (.connectionCallback false) =
          s.conn.log.count (.connectionCallback false) + 1) := by
  let c : TcpConnection := { s.conn with stack := [] }
  by_cases hCloses : m.closes = true
  · -- `handleClose` does not ask for the state
    let c₁ := { c with stack := [.dispatch m .error] }.handleClose
    have hStep : s.step (.conn (.resume (.bytes []) (.accepted 0))) =
        some { s with conn := c₁ } :=
      step_resume (by simp [resume, hStack, TcpConnection.dispatch, hCloses, c₁, c])
    refine ⟨_, (Runs.refl s).conn hStep, ?_, .inr ?_⟩
    · simp [c₁, handleClose, TcpConnection.call, updateChannel]
    · show c₁.log.count _ = _
      rw [handleClose_log]
      simp [c]
  · -- the dispatch goes on to its read branch, and reads the end of the stream
    have hReads : m.reads = true := hHarm.resolve_left hCloses
    let s₁ : OwnedConnection := { s with conn := { c with stack := [.dispatch m .error] } }
    let s₂ : OwnedConnection := { s with conn := { c with stack := [.dispatch m .read] } }
    let c₃ := { c with stack := [.dispatch m .write] }.handleRead (.bytes [])
    have h₁ : s.step (.conn (.resume (.bytes []) (.accepted 0))) = some s₁ :=
      step_resume (by simp [resume, hStack, TcpConnection.dispatch, hCloses, c])
    have h₂ : s₁.step (.conn (.resume (.bytes []) (.accepted 0))) = some s₂ :=
      step_resume (s := s₁) (by simp [resume, TcpConnection.dispatch, s₁, c])
    have h₃ : s₂.step (.conn (.resume (.bytes []) (.accepted 0))) = some { s₂ with conn := c₃ } :=
      step_resume (s := s₂) (by simp [resume, TcpConnection.dispatch, hReads, s₂, c₃, c])
    have hRuns := (((Runs.refl s).conn h₁).conn h₂).conn h₃
    refine ⟨_, hRuns, ?_, handleRead_eof_harm _⟩
    show .afterDestroyed ∉ c₃.stack
    simp only [c₃, handleRead]
    split_ifs <;> simp [handleClose, TcpConnection.call, updateChannel, TcpConnection.record]

/-- An event that reads or closes comes to its dispatch after all. -/
theorem TearsDown.not_harmful (hDown : TearsDown s) (hRuns : Runs s s₁)
    (hStack : s₁.conn.stack = []) {m : Revents} (hReported : s₁.reported = some m) :
    m.closes = false ∧ m.reads = false := by
  by_contra hHarm
  rw [not_and_or, Bool.not_eq_false, Bool.not_eq_false] at hHarm
  let s₂ : OwnedConnection :=
    { s₁ with conn := { s₁.conn with stack := [.dispatch m .close] }, reported := none }
  have hDispatch : s₁.step .dispatch = some s₂ := by
    simp [step, hReported, hStack, s₂]
  obtain ⟨s', hRuns', hReturned, hWrong⟩ := exists_harm (s := s₂) rfl hHarm
  obtain ⟨hState, -, -, hOnce⟩ := hDown s' ((hRuns.dispatch hDispatch).trans hRuns') hReturned
  rcases hWrong with hWrong | hWrong
  · simp [hState] at hWrong
  · -- the user had been told already
    have hTold : s₂.conn.log.count (.connectionCallback false) = 1 :=
      (hDown _ (hRuns.dispatch hDispatch) (by simp [s₂])).2.2.2
    omega

/-- The end of `connectDestroyed` on a connected connection: the user code returns, and then
the channel is removed. -/
theorem destroyed_connected (hState : s.conn.state = .kConnected) :
    ∃ s₂, Runs { s with conn := s.conn.connectDestroyed, destroyed := true } s₂ ∧
      s₂.conn.stack = s.conn.stack ∧ s₂.reported = s.reported := by
  let s₁ : OwnedConnection := { s with conn := s.conn.connectDestroyed, destroyed := true }
  let s₂ : OwnedConnection :=
    { s₁ with conn := { s₁.conn with stack := .afterDestroyed :: s.conn.stack } }
  let c₃ : TcpConnection := { s₁.conn with stack := s.conn.stack }.afterDestroyed
  have hCalled : s₁.conn.stack = .callback :: .afterDestroyed :: s.conn.stack := by
    simp [s₁, connectDestroyed, hState, TcpConnection.call, updateChannel]
  have hRet : s₁.step (.conn .ret) = some s₂ := by
    simp [step, lift, TcpConnection.step, hCalled, s₂]
  have hEnd : s₂.step (.conn (.resume (.bytes []) (.accepted 0))) =
      some { s₂ with conn := c₃ } := resume_afterDestroyed rfl _ _
  exact ⟨_, ((Runs.refl s₁).conn hRet).conn hEnd, rfl, rfl⟩

/-- The same on one that is disconnecting: the channel is removed, and that is all. -/
theorem destroyed_disconnecting (hState : s.conn.state = .kDisconnecting) :
    ∃ s₂, Runs { s with conn := s.conn.connectDestroyed, destroyed := true } s₂ ∧
      s₂.conn.stack = s.conn.stack ∧ s₂.conn.state = .kDisconnecting := by
  have hEq : s.conn.connectDestroyed =
      { s.conn with stack := .afterDestroyed :: s.conn.stack } := by
    simp [connectDestroyed, hState]
  let s₁ : OwnedConnection := { s with conn := s.conn.connectDestroyed, destroyed := true }
  have hStack : s₁.conn.stack = .afterDestroyed :: s.conn.stack := by
    show s.conn.connectDestroyed.stack = _
    rw [hEq]
  refine ⟨_, (Runs.refl s₁).conn (resume_afterDestroyed hStack (.bytes []) (.accepted 0)), rfl, ?_⟩
  show s.conn.connectDestroyed.state = _
  rw [hEq]
  exact hState

/-- **A live connection can be torn down only if it is connected.** Let the owner of a
connection, in any live state that a run leads to, call `connectDestroyed`. The call comes to
its end, when the user code that it calls returns. It does what a teardown owes exactly if
the connection was connected and no event that reads or closes was waiting to be dispatched.
-/
theorem teardown_iff (h : Runs {} s)
    (hLive : s.conn.state = .kConnected ∨ s.conn.state = .kDisconnecting)
    (hDestroy : s.step .destroy = some s₁) :
    (∃ s₂, Runs s₁ s₂ ∧ .afterDestroyed ∉ s₂.conn.stack) ∧
    (TearsDown s₁ ↔ s.conn.state = .kConnected ∧
      ∀ m, s.reported = some m → m.closes = false ∧ m.reads = false) := by
  cases step_outcome hDestroy with
  | destroyed hTop hOnce =>
    have hWhole := whole_of_runs h hOnce
    have hUp : Up s.conn := hWhole.life.up_of_state hLive
    have hFrame : .afterDestroyed ∉ s.conn.stack := fun hMem => hUp.frames _ hMem
    rcases hLive with hState | hState
    · have hTorn : TornDown s.conn.connectDestroyed :=
        hUp.tornDown hState (hWhole.stack hUp) hTop (hWhole.log hUp)
      obtain ⟨s₂, hRuns, hStack, hReported⟩ := destroyed_connected hState
      refine ⟨⟨s₂, hRuns, hStack ▸ hFrame⟩, ?_⟩
      constructor
      · intro hDown
        refine ⟨hState, fun m hSome => ?_⟩
        obtain ⟨-, hIdle, -⟩ := hWhole.waiting m hSome
        exact hDown.not_harmful hRuns (hStack.trans hIdle) (hReported.trans hSome)
      · rintro ⟨-, hWaiting⟩
        exact Harmless.tearsDown ⟨hTorn, hWaiting, rfl⟩
    · obtain ⟨s₂, hRuns, hStack, hState'⟩ := destroyed_disconnecting hState
      refine ⟨⟨s₂, hRuns, hStack ▸ hFrame⟩, ?_⟩
      constructor
      · -- the state is left as it was
        intro hDown
        obtain ⟨hGone, -⟩ := hDown s₂ hRuns (hStack ▸ hFrame)
        simp [hState'] at hGone
      · rintro ⟨hConnected, -⟩
        simp [hState] at hConnected

/-- A connection right after its first callback. -/
def justConnected : List Action := [.conn .connectEstablished, .conn .ret]

/-- The owner of a connected connection goes away. -/
theorem teardown_iff_connected :
    ∃ s s₁, runAllBy step (fun _ a => a.Reported) {} justConnected = some s ∧
      s.step .destroy = some s₁ ∧ s.conn.state = .kConnected ∧ TearsDown s₁ := by
  obtain ⟨s, s₁, hRun, hDestroy, hState, hReported⟩ : ∃ s s₁,
      runAllBy step (fun _ a => a.Reported) {} justConnected = some s ∧
        s.step .destroy = some s₁ ∧ s.conn.state = .kConnected ∧ s.reported = none :=
    ⟨_, _, rfl, rfl, rfl, rfl⟩
  have hIff := (teardown_iff (reachesBy_of_runAllBy hRun) (.inl hState) hDestroy).2
  exact ⟨s, s₁, hRun, hDestroy, hState, hIff.mpr ⟨hState, by simp [hReported]⟩⟩

/-- `shutdown`, and the owner goes away before the peer has closed its end. -/
def halfClosed : List Action :=
  justConnected ++ [.conn (.user .shutdown), .destroy, .conn (.resume (.bytes []) (.accepted 0))]

/-- **A half-closed connection is not torn down.** `connectDestroyed` has returned; the state
is `kDisconnecting`, the channel was removed with its interest in reading, and the user was
not told. -/
theorem half_closed_not_torn_down :
    ∃ s, runAllBy step (fun _ a => a.Reported) {} halfClosed = some s ∧
      s.conn.stack = [] ∧ s.conn.state = .kDisconnecting ∧ s.conn.channel.reading = true ∧
      .remove ∈ s.conn.log ∧ .connectionCallback false ∉ s.conn.log :=
  ⟨_, rfl, rfl, rfl, rfl, by decide, by decide⟩

end OwnedConnection

end ReactorNet
