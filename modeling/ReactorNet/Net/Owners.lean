import ReactorNet.Net.Teardown

/-!
# ReactorNet — callbacks into a destroyed owner

A `TcpClient` or a `TcpServer` owns connections that may outlive it. What can lead back to
the owner is the close callback of a connection, the functor that a server's sub-loop queues
in the base loop when a connection of it is closed, the functors that hold the owner because
another thread has called it, and, for a client, the connection and message callbacks that
were registered through it. The destructors disarm some of these. A connection with its
owner is a `Link`; `touched` records that code of the owner ran after its destructor had
returned.

The destructor is not one step. It tears down one connection after the other, and the
callbacks of a connection that is torn down are user code, which may do something to the
next one. The threads of the sub-loops are joined before it returns.

Main result: `owner_not_touched` — no code of a destroyed owner runs, if each connection is
found in a state that the destructor can deal with (`Link.Ready`), no functor of the owner is
queued when the destructor begins, and no sub-loop closes a connection while the destructor
is waiting for it.
-/

namespace ReactorNet

open Lib TcpConnection OwnedConnection

/-- A connection, as its owner has it. -/
structure Link where
  owned : OwnedConnection := {}
  /-- The owner is a `TcpClient`. -/
  client : Bool
  /-- The connection's loop is a sub-loop of the server. -/
  remote : Bool
  /-- The owner holds the connection: `connection_`, or an entry of `connections_`. -/
  inTable : Bool := true
  /-- The destructor has been at this connection. -/
  torn : Bool := false
  /-- The close callback is the owner's. -/
  armed : Bool := true
  /-- Code of the destroyed owner was run. -/
  touched : Bool := false

namespace Link

/-- `newConnection`: on the owner's own loop the connection is established at once. -/
def new (client remote : Bool) : Link where
  owned := { conn := if remote then {} else ({} : TcpConnection).connectEstablished }
  client := client
  remote := remote

/-- The functor of `removeConnection`. -/
def isRemoval : OwnedConnection.Action → Bool
  | .conn .removeConnection => true
  | _ => false

/-- An event that runs code of the owner. -/
def leadsBack (l : Link) : ConnEvent → Bool
  | .closeCallback => l.armed
  | .connectionCallback _ | .messageCallback => l.client
  | _ => false

/-- The step runs code of the owner. -/
def touches (l : Link) (a : OwnedConnection.Action) (c : TcpConnection) : Bool :=
  isRemoval a || (c.log.drop l.owned.conn.log.length).any l.leadsBack

/-- What the close callback does on the owner's own loop, where `removeConnection` is not
queued. -/
def removeNow (l : Link) : Link :=
  if l.owned.conn.removing = true ∧ l.remote = false then
    let c := { l.owned.conn with removing := false }
    if l.armed then
      { l with owned := { l.owned with conn := c.queueInLoop .connectDestroyed }, inTable := false }
    else { l with owned := { l.owned with conn := c } }
  else l

/-- Who is there to take the step. -/
def possible (l : Link) (gone : Bool) : OwnedConnection.Action → Bool
  -- the destructor's part is `teardown`
  | .destroy => false
  -- the functor that a sub-loop has queued in the base loop
  | .conn .removeConnection => l.remote
  -- the thread of a sub-loop ends before the owner's destructor does
  | _ => !(l.remote && gone)

def step (l : Link) (gone : Bool) (a : OwnedConnection.Action) : Option Link :=
  if l.possible gone a then
    (l.owned.step a).map fun o =>
      { l with
        owned := o
        inTable := l.inTable && !isRemoval a
        touched := l.touched || gone && l.touches a o.conn }.removeNow
  else none

/-- What the destructor does with a connection that the owner holds. -/
def teardown (l : Link) : Option Link :=
  if l.remote then
    -- `connectDestroyed` is queued in the connection's own loop
    some { l with
      owned := { l.owned with conn := l.owned.conn.queueInLoop .connectDestroyed }, torn := true }
  else if l.client = true ∧ l.owned.conn.state ≠ .kConnected then
    -- a close is in flight: the client only disarms the close callback
    some { l with
      owned := { l.owned with conn := l.owned.conn.forceClose }, torn := true, armed := false }
  else
    (l.owned.step .destroy).map fun o =>
      { l with owned := o, torn := true, armed := l.armed && !l.client }

/-- The destructor can deal with the connection. On the owner's loop it is connected, and no
event of it that reads or closes is waiting; or it is closed already, and the owner is a
client. On a sub-loop its close has not begun. -/
def Ready (l : Link) : Prop :=
  if l.remote then l.owned.conn.state ≠ .kDisconnected
  else
    (l.owned.conn.state = .kConnected ∧
      ∀ m ∈ l.owned.reported, m.closes = false ∧ m.reads = false) ∨
    (l.client = true ∧ l.owned.conn.state = .kDisconnected)

instance (l : Link) : Decidable l.Ready := by
  unfold Ready
  infer_instance

end Link

/-- Where the destructor of the owner is. -/
inductive Phase where
  | alive
  | destroying
  | gone
  deriving DecidableEq, Repr

structure Owner where
  /-- A `TcpClient`, and not a `TcpServer`. -/
  client : Bool
  links : List Link := []
  /-- The functors in the queue of the owner's loop that hold the owner. -/
  posted : Nat := 0
  phase : Phase := .alive
  /-- A functor was run on the destroyed owner. -/
  touched : Bool := false

namespace Owner

inductive Action where
  /-- `newConnection`. -/
  | connect (remote : Bool)
  | link (i : Nat) (a : OwnedConnection.Action)
  /-- Another thread calls a function of the owner that hops onto the loop. -/
  | post
  /-- The loop runs such a functor. -/
  | run
  /-- The destructor begins. -/
  | begin
  | teardown (i : Nat)
  /-- The destructor returns. -/
  | finish

/-- The destructor is done with the connection. -/
def Done (l : Link) : Prop :=
  (l.inTable = true → l.torn = true) ∧ (l.remote = false → .afterDestroyed ∉ l.owned.conn.stack)

instance (l : Link) : Decidable (Done l) := inferInstanceAs (Decidable ((_ → _) ∧ (_ → _)))

def step (s : Owner) : Action → Option Owner
  | .connect remote =>
    -- a client has one connection, on its own loop
    if s.phase = .alive ∧ (s.client = true → s.links = [] ∧ remote = false) then
      some { s with links := s.links ++ [Link.new s.client remote] }
    else none
  | .link i a =>
    match s.links[i]? with
    | none => none
    | some l => (l.step (s.phase == .gone) a).map fun l' => { s with links := s.links.set i l' }
  | .post => if s.phase = .alive then some { s with posted := s.posted + 1 } else none
  | .run =>
    if 0 < s.posted then
      some { s with posted := s.posted - 1, touched := s.touched || s.phase == .gone }
    else none
  | .begin => if s.phase = .alive then some { s with phase := .destroying } else none
  | .teardown i =>
    match s.links[i]? with
    | none => none
    | some l =>
      if s.phase = .destroying ∧ l.inTable = true ∧ l.torn = false then
        l.teardown.map fun l' => { s with links := s.links.set i l' }
      else none
  | .finish =>
    if s.phase = .destroying ∧ ∀ l ∈ s.links, Done l then some { s with phase := .gone } else none

/-- The condition on a step of a connection: epoll reports what is assumed of it, and a
sub-loop does not close a connection that the destructor has been at. -/
def Calm (l : Link) (a : OwnedConnection.Action) : Prop :=
  a.Reported ∧ (l.remote = true → l.torn = true →
    match a with
    | .conn a => ¬ l.owned.conn.Closes a
    | _ => True)

instance (l : Link) (a : OwnedConnection.Action) : Decidable (Calm l a) := by
  unfold Calm
  cases a <;> infer_instance

/-- The destructor begins with no functor of the owner in the queue and finds each connection
ready. -/
def Clean (s : Owner) : Action → Prop
  | .link i a => ∀ l ∈ s.links[i]?, Calm l a
  | .begin => s.posted = 0
  | .teardown i => ∀ l ∈ s.links[i]?, l.Ready
  | _ => True

instance (s : Owner) : ∀ a, Decidable (s.Clean a)
  | .link i a => inferInstanceAs (Decidable (∀ l ∈ s.links[i]?, Calm l a))
  | .begin => inferInstanceAs (Decidable (s.posted = 0))
  | .teardown i => inferInstanceAs (Decidable (∀ l ∈ s.links[i]?, l.Ready))
  | .connect _ | .post | .run | .finish => .isTrue trivial

end Owner

/-! ## Closing and logging -/

namespace TcpConnection

variable {c c' : TcpConnection} {a : Action}

theorem user_removing (c : TcpConnection) (op : UserOp) : (c.user op).removing = c.removing := by
  obtain ⟨state, tasks, -, hWorks⟩ := works_user c op
  exact hWorks.removing

theorem runTask_removing (c : TcpConnection) (w : WriteResult) (t : LoopTask) :
    (c.runTask w t).removing = c.removing := by
  cases t with
  | sendInLoop message => exact (works_sendInLoop c message w).removing
  | writeComplete => rfl
  | forceCloseInLoop =>
    simp only [runTask, forceCloseInLoop]
    split_ifs <;> rfl
  | connectDestroyed =>
    simp only [runTask, connectDestroyed]
    split_ifs <;> rfl

/-- The owner is told of the close by the close callback, at the end of `handleClose`. -/
theorem removing_step (hStep : c.step a = some c') (hRemoving : c'.removing = true) :
    c.removing = true ∨ .afterDisconnected ∈ c.stack ∧ .closeCallback ∈ c'.log := by
  cases step_outcome hStep with
  | afterDisconnected rest r w hStack =>
    exact .inr ⟨hStack ▸ List.mem_cons_self .., by simp [afterDisconnected, record]⟩
  | dispatched m b rest r w =>
    rw [(dispatch_frame { c with stack := rest } m r w b).2] at hRemoving
    exact .inl hRemoving
  | afterWriteComplete =>
    rw [(works_afterWriteComplete _).removing] at hRemoving
    exact .inl hRemoving
  | user op =>
    rw [user_removing] at hRemoving
    exact .inl hRemoving
  | ran w t rest =>
    rw [runTask_removing] at hRemoving
    exact .inl hRemoving
  | removed => simp [queueInLoop] at hRemoving
  | established | reported | afterDestroyed | returned | posted => exact .inl hRemoving

theorem Adds.log_grows (h : Adds c c') : c.log <+: c'.log := by
  obtain ⟨es, hLog, -⟩ := h
  exact ⟨es, hLog.symm⟩

theorem Works.log_grows (h : Works c c') : c.log <+: c'.log := by
  obtain ⟨es, hLog, -⟩ := h.log
  exact ⟨es, hLog.symm⟩

theorem step_log_grows (hStep : c.step a = some c') : c.log <+: c'.log := by
  cases step_outcome hStep with
  | established =>
    exact ⟨[.update, .connectionCallback true],
      by simp [connectEstablished, call, updateChannel, connected]⟩
  | dispatched m b rest r w => exact (adds_dispatch { c with stack := rest } m r w b).log_grows
  | afterWriteComplete rest =>
    exact (works_afterWriteComplete { c with stack := rest }).log_grows
  | user op =>
    obtain ⟨state, tasks, -, hWorks⟩ := works_user c op
    exact hWorks.log_grows
  | ran w t rest =>
    cases t with
    | sendInLoop message => exact (works_sendInLoop { c with tasks := rest } message w).log_grows
    | writeComplete => exact List.prefix_append ..
    | forceCloseInLoop =>
      simp only [runTask, forceCloseInLoop]
      split_ifs
      · exact (adds_handleClose { c with tasks := rest }).log_grows
      · exact List.prefix_rfl
    | connectDestroyed =>
      simp only [runTask, connectDestroyed]
      split_ifs
      · exact ⟨[.update, .connectionCallback false], by simp [call, updateChannel, connected]⟩
      · exact List.prefix_rfl
  | afterDisconnected | afterDestroyed => exact List.prefix_append ..
  | reported | returned | removed | posted => exact List.prefix_rfl

/-- No close is under way. -/
def NotClosing (c : TcpConnection) : Prop :=
  c.removing = false ∧ .afterDisconnected ∉ c.stack

theorem handleRead_notClosing {r : ReadResult} (hEof : ¬ (r = .bytes [] ∧
    c.outputBuffer.readableBytes = 0)) (h : .afterDisconnected ∉ c.stack) :
    .afterDisconnected ∉ (c.handleRead r).stack := by
  cases r with
  | failed errno => exact h
  | bytes chunk =>
    simp only [handleRead]
    split_ifs with hChunk hOutput
    · simpa [call] using h
    · exact h
    · obtain rfl : chunk = [] := List.length_eq_zero_iff.mp (Nat.eq_zero_of_not_pos hChunk)
      exact absurd ⟨rfl, Nat.eq_zero_of_not_pos hOutput⟩ hEof

/-- A close begins only in a step that closes, whatever state the connection is in. -/
theorem NotClosing.step (h : NotClosing c) (hCloses : ¬ c.Closes a) (hStep : c.step a = some c') :
    NotClosing c' := by
  obtain ⟨hRemoving, hStack⟩ := h
  -- what is below the top of the stack is no close either
  have hPop : ∀ {f : Frame} {rest : List Frame}, c.stack = f :: rest →
      .afterDisconnected ∉ rest := fun hTop hMem => hStack (hTop ▸ List.mem_cons_of_mem _ hMem)
  cases step_outcome hStep with
  | established =>
    exact ⟨hRemoving, by simpa [connectEstablished, call, updateChannel] using hStack⟩
  | reported m => exact ⟨hRemoving, by simp⟩
  | dispatched m b rest r w hTop =>
    -- a hang-up and an end of stream would be closes: both are excluded
    refine ⟨(dispatch_frame _ m r w b).2.trans hRemoving, ?_⟩
    have hRest := hPop hTop
    have hNext : ∀ next, .afterDisconnected ∉ (.dispatch m next :: rest : List Frame) :=
      fun next => by simpa using hRest
    cases b with
    | close =>
      have hm : ¬ m.closes = true := by simpa [Closes, hTop] using hCloses
      simp only [dispatch, if_neg hm]
      exact hNext .error
    | error => exact hNext .read
    | read =>
      simp only [dispatch]
      split_ifs with hReads
      · have hEof : ¬ (r = .bytes [] ∧ c.outputBuffer.readableBytes = 0) := fun hEof =>
          hCloses (by simpa [Closes, hTop] using ⟨hReads, hEof⟩)
        exact handleRead_notClosing (c := { c with stack := .dispatch m .write :: rest }) hEof
          (hNext .write)
      · exact hNext .write
    | write =>
      simp only [dispatch]
      split_ifs
      · rcases handleWrite_stack { c with stack := rest } w with hWrite | hWrite
        · rw [hWrite]
          exact hRest
        · rw [hWrite]
          simpa using hRest
      · exact hRest
  | afterWriteComplete rest r w hTop =>
    have hWorks := works_afterWriteComplete { c with stack := rest }
    refine ⟨hWorks.removing.trans hRemoving, ?_⟩
    rw [hWorks.stack]
    exact hPop hTop
  | afterDisconnected rest r w hTop => exact absurd (hTop ▸ List.mem_cons_self ..) hStack
  | afterDestroyed rest r w hTop => exact ⟨hRemoving, hPop hTop⟩
  | user op => exact ⟨(user_removing c op).trans hRemoving, by rwa [user_stack]⟩
  | returned rest hTop => exact ⟨hRemoving, hPop hTop⟩
  | ran w t rest hIdle hTasks =>
    refine ⟨(runTask_removing _ w t).trans hRemoving, ?_⟩
    cases t with
    | sendInLoop message =>
      show _ ∉ (sendInLoop _ message w).stack
      rw [(works_sendInLoop _ message w).stack]
      exact hStack
    | writeComplete => simpa [runTask, call] using hStack
    | forceCloseInLoop => exact absurd (by simp [Closes, hIdle, hTasks]) hCloses
    | connectDestroyed =>
      simp only [runTask, connectDestroyed]
      split_ifs
      · simpa [call, updateChannel] using hStack
      · simpa using hStack
  | removed hTrue => simp [hRemoving] at hTrue
  | posted => exact ⟨hRemoving, hStack⟩

theorem Up.notClosing (h : Up c) : NotClosing c :=
  ⟨h.removing, fun hMem => h.frames _ hMem⟩

theorem Fresh.notClosing (h : Fresh c) : NotClosing c :=
  ⟨h.removing, by simp [h.stack]⟩

/-- What a connection that is down still logs is no notification and no message; only the
close callback may be outstanding. -/
theorem Down.silent (h : Down c) (h' : Down c') {es : List ConnEvent} (hLog : c'.log = c.log ++ es)
    {e : ConnEvent} (he : e ∈ es) :
    (∀ b, e ≠ .connectionCallback b) ∧ e ≠ .messageCallback ∧
      (.closeCallback ∈ c.log → e ≠ .closeCallback) := by
  have hCount : ∀ e, c'.log.count e = c.log.count e + es.count e := fun e => by
    rw [hLog, List.count_append]
  have hPos : 0 < es.count e := List.count_pos_iff.mpr he
  refine ⟨fun b hb => ?_, fun hMessage => ?_, fun hClosed hClose => ?_⟩
  · have hEq := hCount e
    subst hb
    cases b with
    | true => rw [h'.notified, h.notified] at hEq; omega
    | false => rw [h'.notifiedDown, h.notifiedDown] at hEq; omega
  · -- the message would come after the notification
    have hQuiet := h'.quiet
    rw [hLog, List.pairwise_append] at hQuiet
    have hDown : .connectionCallback false ∈ c.log :=
      List.count_pos_iff.mp (by rw [h.notifiedDown]; exact Nat.one_pos)
    exact (hQuiet.2.2 _ hDown _ he rfl).1 hMessage
  · have hEq := hCount e
    have hOne := h'.closed
    subst hClose
    have hBefore := List.count_pos_iff.mpr hClosed
    omega

end TcpConnection

namespace Link

variable {l l' : Link} {gone : Bool} {a : OwnedConnection.Action} {o : OwnedConnection}

/-! ## The invariant of a connection and its owner -/

/-- The owner has torn the connection down. -/
def TornSafely (l : Link) : Prop :=
  if l.remote then NotClosing l.owned.conn
  else Harmless l.owned ∨
    l.armed = false ∧ Down l.owned.conn ∧ l.owned.reported = none

theorem tornSafely_remote (h : l.remote = true) : l.TornSafely ↔ NotClosing l.owned.conn := by
  rw [TornSafely, if_pos h]

theorem tornSafely_local (h : ¬ l.remote = true) :
    l.TornSafely ↔ Harmless l.owned ∨
      l.armed = false ∧ Down l.owned.conn ∧ l.owned.reported = none := by
  rw [TornSafely, if_neg h]

structure Sound (l : Link) : Prop where
  whole : l.torn = false → Whole l.owned ∧ l.owned.destroyed = false ∧ l.armed = true
  /-- On the owner's loop the removal is part of the close callback. -/
  inline : l.remote = false → l.owned.conn.removing = false
  told : l.torn = false → l.owned.conn.removing = true ∨ l.inTable = false →
    .closeCallback ∈ l.owned.conn.log
  /-- The functor of the removal has run. -/
  out : l.torn = false → l.inTable = false → l.owned.conn.removing = false
  torn : l.torn = true → l.TornSafely

@[simp] theorem removeNow_touched (l : Link) : l.removeNow.touched = l.touched := by
  simp only [removeNow]
  split_ifs <;> rfl

@[simp] theorem removeNow_torn (l : Link) : l.removeNow.torn = l.torn := by
  simp only [removeNow]
  split_ifs <;> rfl

theorem removeNow_of_not (h : l.owned.conn.removing = false ∨ l.remote = true) :
    l.removeNow = l := by
  refine if_neg fun hNow => ?_
  rcases h with h | h
  · simp [h] at hNow
  · simp [h] at hNow

theorem step_eq (h : l.step gone a = some l') :
    l.possible gone a = true ∧ ∃ o, l.owned.step a = some o ∧
      l' = Link.removeNow { l with
        owned := o
        inTable := l.inTable && !isRemoval a
        touched := l.touched || gone && l.touches a o.conn } := by
  simp only [step] at h
  split_ifs at h with hPossible
  obtain ⟨o, hStep, hEq⟩ := Option.map_eq_some_iff.mp h
  exact ⟨hPossible, o, hStep, hEq.symm⟩

theorem not_destroyed_step (hPossible : l.possible gone a = true)
    (hStep : l.owned.step a = some o) : o.destroyed = l.owned.destroyed := by
  cases step_outcome hStep with
  | conn | polled | dispatched => rfl
  | destroyed => simp [possible] at hPossible

/-- The functor of `removeConnection` runs on a sub-loop's connection that was closed. -/
theorem removing_of_removal (hRemoval : isRemoval a = true) (hStep : l.owned.step a = some o) :
    l.owned.conn.removing = true ∧ o.conn.removing = false ∧ o.conn.log = l.owned.conn.log := by
  cases step_outcome hStep with
  | conn a c _ _ hConn =>
    cases step_outcome hConn with
    | removed hRemoving => exact ⟨hRemoving, rfl, rfl⟩
    | established | reported | dispatched | afterWriteComplete | afterDisconnected
    | afterDestroyed | user | returned | ran | posted => cases hRemoval
  | polled | dispatched | destroyed => cases hRemoval

theorem owned_log_grows (hPossible : l.possible gone a = true)
    (hStep : l.owned.step a = some o) : l.owned.conn.log <+: o.conn.log := by
  cases step_outcome hStep with
  | conn a c _ _ hConn => exact step_log_grows hConn
  | polled | dispatched => exact List.prefix_rfl
  | destroyed => simp [possible] at hPossible

/-- A connection that was closed and of which the owner was told is down for good. -/
theorem down_of_told (h : Whole o) (hTold : .closeCallback ∈ o.conn.log) :
    Down o.conn ∧ .afterDisconnected ∉ o.conn.stack ∧ o.reported = none := by
  have hDown : Down o.conn := by
    rcases h.life with hFresh | hUp | hDown
    · simp [hFresh.log] at hTold
    · exact absurd hTold hUp.notClosed
    · exact hDown
  refine ⟨hDown, fun hMem => ?_, h.not_reported hDown.state⟩
  -- one frame or one close callback, and not both
  have hOne := hDown.closed
  have hLogged := List.count_pos_iff.mpr hTold
  have hFrame := List.count_pos_iff.mpr hMem
  omega

/-- What is left to happen to a connection that is down happens in the connection itself. -/
theorem step_of_down (hDown : Down l.owned.conn) (hReported : l.owned.reported = none)
    (hPossible : l.possible gone a = true) (hStep : l.owned.step a = some o) :
    ∃ a' c, a = .conn a' ∧ l.owned.conn.step a' = some c ∧ o = { l.owned with conn := c } := by
  cases step_outcome hStep with
  | conn a' c _ _ hConn => exact ⟨a', c, rfl, hConn, rfl⟩
  | polled m _ hEpoll => simp [hDown.inEpoll] at hEpoll
  | dispatched m hSome => simp [hReported] at hSome
  | destroyed => simp [possible] at hPossible

theorem removing_owned (hPossible : l.possible gone a = true) (hStep : l.owned.step a = some o)
    (hRemoving : o.conn.removing = true) :
    l.owned.conn.removing = true ∨
      .afterDisconnected ∈ l.owned.conn.stack ∧ .closeCallback ∈ o.conn.log := by
  cases step_outcome hStep with
  | conn a c _ _ hConn => exact removing_step hConn hRemoving
  | polled | dispatched => exact .inl hRemoving
  | destroyed => simp [possible] at hPossible

/-- A step of a connection that the destructor has not been at. -/
theorem Sound.step_whole (h : Sound l) (hTorn : l.torn = false) (ha : a.Reported)
    (hPossible : l.possible gone a = true) (hStep : l.owned.step a = some o) (touched : Bool) :
    Sound (removeNow
      { l with owned := o, inTable := l.inTable && !isRemoval a, touched := touched }) := by
  obtain ⟨hWhole, hOnce, hArmed⟩ := h.whole hTorn
  have hOnce' : o.destroyed = false := (not_destroyed_step hPossible hStep).trans hOnce
  have hWhole' : Whole o := hWhole.step ha hOnce' hStep
  have hPrefix := owned_log_grows hPossible hStep
  have hTold : o.conn.removing = true → .closeCallback ∈ o.conn.log := fun hRemoving => by
    rcases removing_owned hPossible hStep hRemoving with hOld | ⟨-, hNew⟩
    · exact hPrefix.subset (h.told hTorn (.inl hOld))
    · exact hNew
  by_cases hNow : o.conn.removing = true ∧ l.remote = false
  · -- the close callback removes the connection from the table and queues its destruction
    have hRemoved : o.conn.step .removeConnection =
        some ({ o.conn with removing := false }.queueInLoop .connectDestroyed) := if_pos hNow.1
    have hEq : removeNow
        { l with owned := o, inTable := l.inTable && !isRemoval a, touched := touched } =
        { l with
          owned := { o with
            conn := ({ o.conn with removing := false } : TcpConnection).queueInLoop
              .connectDestroyed }
          inTable := false
          touched := touched } := by
      simp [removeNow, hNow.1, hNow.2, hArmed]
    rw [hEq]
    exact {
      whole := fun _ => ⟨hWhole'.conn (by simp) (by simp) hRemoved, hOnce', hArmed⟩
      inline := fun _ => rfl
      told := fun _ _ => hTold hNow.1
      out := fun _ _ => rfl
      torn := fun hTorn' => by simp [show l.torn = true from hTorn'] at hTorn }
  · have hStay : o.conn.removing = false ∨ l.remote = true := by
      rw [not_and_or] at hNow
      simpa using hNow
    rw [removeNow_of_not (by exact hStay)]
    exact {
      whole := fun _ => ⟨hWhole', hOnce', hArmed⟩
      inline := fun hLocal => hStay.resolve_right (by simp [show l.remote = false from hLocal])
      told := fun _ hCase => by
        rcases hCase with hRemoving | hTable
        · exact hTold hRemoving
        · rw [Bool.and_eq_false_iff, Bool.not_eq_false'] at hTable
          rcases hTable with hTable | hRemoval
          · exact hPrefix.subset (h.told hTorn (.inr hTable))
          · exact hPrefix.subset
              (h.told hTorn (.inl (removing_of_removal hRemoval hStep).1))
      out := fun _ hTable => by
        rw [Bool.and_eq_false_iff, Bool.not_eq_false'] at hTable
        rcases hTable with hTable | hRemoval
        · -- nothing is left of the close that could tell the owner once more
          have hClosed := h.told hTorn (.inr hTable)
          by_contra hRemoving
          rcases removing_owned hPossible hStep (by simpa using hRemoving) with hOld | ⟨hFrame, -⟩
          · simp [h.out hTorn hTable] at hOld
          · exact (down_of_told hWhole hClosed).2.1 hFrame
        · exact (removing_of_removal hRemoval hStep).2.1
      torn := fun hTorn' => by simp [show l.torn = true from hTorn'] at hTorn }

/-! The parts of `Sound` that are about a connection before the teardown say nothing after
it. -/

theorem sound_of_torn (hTorn : l.torn = true)
    (hInline : l.remote = false → l.owned.conn.removing = false) (h : l.TornSafely) : Sound l where
  whole := fun hNot => by simp [hTorn] at hNot
  inline := hInline
  told := fun hNot => by simp [hTorn] at hNot
  out := fun hNot => by simp [hTorn] at hNot
  torn := fun _ => h

theorem sound_of_torn_remote (hTorn : l.torn = true) (hRemote : l.remote = true)
    (h : NotClosing l.owned.conn) : Sound l :=
  sound_of_torn hTorn (fun hLocal => by simp [hLocal] at hRemote)
    ((tornSafely_remote hRemote).mpr h)

theorem sound_of_torn_local (hTorn : l.torn = true) (hRemote : ¬ l.remote = true)
    (hRemoving : l.owned.conn.removing = false)
    (h : Harmless l.owned ∨ l.armed = false ∧ Down l.owned.conn ∧ l.owned.reported = none) :
    Sound l :=
  sound_of_torn hTorn (fun _ => hRemoving) ((tornSafely_local hRemote).mpr h)

/-- A step of a connection that the destructor has been at. -/
theorem Sound.step_torn (h : Sound l) (hTorn : l.torn = true) (hCalm : Owner.Calm l a)
    (hPossible : l.possible gone a = true) (hStep : l.owned.step a = some o)
    (inTable touched : Bool) :
    Sound (removeNow { l with owned := o, inTable := inTable, touched := touched }) := by
  by_cases hRemote : l.remote = true
  · -- on a sub-loop: no step of it closes
    have hSafe := (tornSafely_remote hRemote).mp (h.torn hTorn)
    rw [removeNow_of_not (by exact .inr hRemote)]
    refine sound_of_torn_remote hTorn hRemote ?_
    cases step_outcome hStep with
    | conn a c _ _ hConn => exact hSafe.step (hCalm.2 hRemote hTorn) hConn
    | polled => exact hSafe
    | dispatched => exact ⟨hSafe.1, by simp⟩
    | destroyed => simp [possible] at hPossible
  · have hLocal : l.remote = false := by simpa using hRemote
    rcases (tornSafely_local hRemote).mp (h.torn hTorn) with hHarmless | ⟨hArmed, hDown, hReported⟩
    · -- torn down while connected
      have hNext := hHarmless.step hStep
      have hRemoving : o.conn.removing = false := hNext.conn.removing
      rw [removeNow_of_not (by exact .inl hRemoving)]
      exact sound_of_torn_local hTorn hRemote hRemoving (.inl hNext)
    · -- closed before: at most the disarmed close callback is left
      obtain ⟨a', c, rfl, hConn, rfl⟩ := step_of_down hDown hReported hPossible hStep
      have hNext : Down c := hDown.step hConn
      by_cases hRemoving : c.removing = true
      · have hEq : removeNow { l with
              owned := { l.owned with conn := c }, inTable := inTable, touched := touched } =
            { l with
              owned := { l.owned with conn := { c with removing := false } }
              inTable := inTable
              touched := touched } := by
          simp [removeNow, hRemoving, hLocal, hArmed]
        rw [hEq]
        exact sound_of_torn_local hTorn hRemote rfl (.inr ⟨hArmed, { hNext with }, hReported⟩)
      · have hFalse : c.removing = false := by simpa using hRemoving
        rw [removeNow_of_not (by exact .inl hFalse)]
        exact sound_of_torn_local hTorn hRemote hFalse (.inr ⟨hArmed, hNext, hReported⟩)

/-! ## Nothing leads back -/

theorem touches_eq_false {es : List ConnEvent} (hRemoval : isRemoval a = false)
    (hLog : o.conn.log = l.owned.conn.log ++ es) (hEs : ∀ e ∈ es, l.leadsBack e = false) :
    l.touches a o.conn = false := by
  rw [touches, hRemoval, Bool.false_or, hLog, List.drop_left, List.any_eq_false]
  intro e he
  simp [hEs e he]

/-- A connection that is down leads back to its owner only by the close callback. -/
theorem leadsBack_of_down {c c' : TcpConnection} (h : Down c) (h' : Down c')
    {es : List ConnEvent} (hLog : c'.log = c.log ++ es)
    (hClose : .closeCallback ∈ c.log ∨ l.armed = false) :
    ∀ e ∈ es, l.leadsBack e = false := by
  intro e he
  obtain ⟨hNotify, hMessage, hClosed⟩ := h.silent h' hLog he
  cases e with
  | connectionCallback b => exact absurd rfl (hNotify b)
  | messageCallback => exact absurd rfl hMessage
  | closeCallback => exact hClose.elim (fun hMem => absurd rfl (hClosed hMem)) fun h => h
  | sendInLoop | written | shutdownWrite | eofClose | update | remove | writeCompleteCallback => rfl

theorem untouched_of_down (hDown : Down l.owned.conn) (hReported : l.owned.reported = none)
    (hClose : .closeCallback ∈ l.owned.conn.log ∨ l.armed = false) (hRemoval : isRemoval a = false)
    (hPossible : l.possible gone a = true) (hStep : l.owned.step a = some o) :
    l.touches a o.conn = false := by
  obtain ⟨a', c, rfl, hConn, rfl⟩ := step_of_down hDown hReported hPossible hStep
  obtain ⟨es, hLog⟩ := step_log_grows hConn
  exact touches_eq_false hRemoval hLog.symm
    (leadsBack_of_down hDown (hDown.step hConn) hLog.symm hClose)

/-- A connection that was torn down while it was connected does not lead back at all. -/
theorem untouched_of_harmless (h : Harmless l.owned) (hRemoval : isRemoval a = false)
    (hPossible : l.possible gone a = true) (hStep : l.owned.step a = some o) :
    l.touches a o.conn = false := by
  cases step_outcome hStep with
  | conn a c _ _ hConn =>
    obtain ⟨-, es, hLog, hEs⟩ := h.conn.step hConn
    refine touches_eq_false hRemoval hLog fun e he => ?_
    obtain ⟨hNotify, hMessage⟩ := hEs e he
    cases e with
    | connectionCallback | closeCallback => cases hNotify
    | messageCallback => exact absurd rfl hMessage
    | sendInLoop | written | shutdownWrite | eofClose | update | remove
    | writeCompleteCallback => rfl
  | polled m _ hEpoll => simp [h.conn.channel] at hEpoll
  | dispatched => exact touches_eq_false hRemoval (List.append_nil _).symm (by simp)
  | destroyed => simp [possible] at hPossible

/-- Of a connection on a sub-loop only the functor in the base loop outlives the destructor. -/
theorem isRemoval_of_remote (hRemote : l.remote = true) (hPossible : l.possible true a = true) :
    isRemoval a = true := by
  cases a with
  | conn a =>
    cases a with
    | removeConnection => rfl
    | connectEstablished | event | resume | user | ret | task | postSend =>
      simp [possible, hRemote] at hPossible
  | poll | dispatch | destroy => simp [possible, hRemote] at hPossible

/-- After the destructor has returned no step of a connection runs code of the owner. -/
theorem Sound.untouched (h : Sound l) (hDone : l.inTable = true → l.torn = true)
    (hPossible : l.possible true a = true) (hStep : l.owned.step a = some o) :
    l.touches a o.conn = false := by
  have hOut : l.torn = false → l.inTable = false := fun hNot => by
    by_contra hIn
    simp [hDone (by simpa using hIn)] at hNot
  by_cases hRemote : l.remote = true
  · -- the thread is gone, and no removal is left in the queue
    have hRemoving := (removing_of_removal (isRemoval_of_remote hRemote hPossible) hStep).1
    cases hTorn : l.torn with
    | false => simp [h.out hTorn (hOut hTorn)] at hRemoving
    | true =>
      have hSafe := (tornSafely_remote hRemote).mp (h.torn hTorn)
      simp [hSafe.1] at hRemoving
  · -- on the owner's loop a removal is part of the close callback
    have hRemoval : isRemoval a = false := by
      by_contra hIs
      have hRemoving := (removing_of_removal (by simpa using hIs) hStep).1
      simp [h.inline (by simpa using hRemote)] at hRemoving
    cases hTorn : l.torn with
    | false =>
      have hTold := h.told hTorn (.inr (hOut hTorn))
      obtain ⟨hDown, -, hReported⟩ := down_of_told (h.whole hTorn).1 hTold
      exact untouched_of_down hDown hReported (.inl hTold) hRemoval hPossible hStep
    | true =>
      have hSafe := (tornSafely_local hRemote).mp (h.torn hTorn)
      rcases hSafe with hHarmless | ⟨hArmed, hDown, hReported⟩
      · exact untouched_of_harmless hHarmless hRemoval hPossible hStep
      · exact untouched_of_down hDown hReported (.inr hArmed) hRemoval hPossible hStep

/-- **The step lemma.** -/
theorem Sound.step (h : Sound l) (hCalm : Owner.Calm l a) (hStep : l.step gone a = some l') :
    Sound l' := by
  obtain ⟨hPossible, o, hOwned, rfl⟩ := step_eq hStep
  rcases Bool.eq_false_or_eq_true l.torn with hTorn | hTorn
  · exact h.step_torn hTorn hCalm hPossible hOwned _ _
  · exact h.step_whole hTorn hCalm.1 hPossible hOwned _

/-! ## The teardown -/

/-- A connection that the owner holds is not closed on its own loop without the close callback
in front of it. -/
theorem Sound.teardown (h : Sound l) (hTorn : l.torn = false) (hReady : l.Ready)
    (hStep : l.teardown = some l') : Sound l' ∧ l'.torn = true ∧ l'.touched = l.touched := by
  obtain ⟨hWhole, hOnce, hArmed⟩ := h.whole hTorn
  simp only [Link.teardown] at hStep
  unfold Ready at hReady
  split_ifs at hStep hReady with hRemote hClient
  · -- sub-loop: the close has not begun
    cases hStep
    refine ⟨sound_of_torn_remote rfl hRemote ?_, rfl, rfl⟩
    rcases hWhole.life with hFresh | hUp | hDown
    · exact hFresh.notClosing
    · exact hUp.notClosing
    · exact absurd hDown.state hReady
  · -- a client whose connection is closed
    cases hStep
    have hState : l.owned.conn.state = .kDisconnected := by
      rcases hReady with hConnected | hClosed
      · exact absurd hConnected.1 hClient.2
      · exact hClosed.2
    have hNothing : l.owned.conn.forceClose = l.owned.conn := by
      simp [forceClose, hState]
    rw [hNothing]
    have hRemoving : l.owned.conn.removing = false := h.inline (by simpa using hRemote)
    exact ⟨sound_of_torn_local rfl hRemote hRemoving
      (.inr ⟨rfl, hWhole.life.down_of_state hState, hWhole.not_reported hState⟩), rfl, rfl⟩
  · -- connected: `connectDestroyed`
    obtain ⟨o, hDestroy, rfl⟩ := Option.map_eq_some_iff.mp hStep
    have hConnected : l.owned.conn.state = .kConnected ∧
        ∀ m ∈ l.owned.reported, m.closes = false ∧ m.reads = false := by
      refine hReady.resolve_right fun hClosed => hClient ⟨hClosed.1, ?_⟩
      simp [hClosed.2]
    have hUp : Up l.owned.conn := hWhole.life.up_of_state (.inl hConnected.1)
    cases step_outcome hDestroy with
    | destroyed hTop =>
      have hHarmless : Harmless
          { l.owned with conn := l.owned.conn.connectDestroyed, destroyed := true } :=
        ⟨hUp.tornDown hConnected.1 (hWhole.stack hUp) hTop (hWhole.log hUp), hConnected.2, rfl⟩
      exact ⟨sound_of_torn_local rfl hRemote hHarmless.conn.removing (.inl hHarmless), rfl, rfl⟩

theorem sound_new (client remote : Bool) : Sound (new client remote) := by
  have hNew : Whole {} := whole_of_runs (Runs.refl _) rfl
  have hUp : Whole { conn := ({} : TcpConnection).connectEstablished } :=
    hNew.conn (a := .connectEstablished) (by simp) (by simp) rfl
  cases remote with
  | true =>
    exact {
      whole := fun _ => ⟨hNew, rfl, rfl⟩
      inline := fun _ => rfl
      told := fun _ hCase => by simp [new] at hCase
      out := fun _ hTable => by simp [new] at hTable
      torn := fun hTorn => by simp [new] at hTorn }
  | false =>
    exact {
      whole := fun _ => ⟨hUp, rfl, rfl⟩
      inline := fun _ => rfl
      told := fun _ hCase => by
        simp [new, connectEstablished, TcpConnection.call, updateChannel] at hCase
      out := fun _ hTable => by simp [new] at hTable
      torn := fun hTorn => by simp [new] at hTorn }

theorem step_table (hStep : l.step gone a = some l') :
    l'.torn = l.torn ∧ (l'.inTable = true → l.inTable = true) := by
  obtain ⟨-, o, -, rfl⟩ := step_eq hStep
  refine ⟨removeNow_torn _, fun hIn => ?_⟩
  simp only [removeNow] at hIn
  split_ifs at hIn
  · exact (Bool.and_eq_true_iff.mp hIn).1
  · exact (Bool.and_eq_true_iff.mp hIn).1

end Link

/-! ## The owner -/

namespace Owner

open Link

variable {s s' : Owner} {a : Action}

structure Inv (s : Owner) : Prop where
  links : ∀ l ∈ s.links, l.Sound
  untouched : s.touched = false ∧ ∀ l ∈ s.links, l.touched = false
  posted : s.phase ≠ .alive → s.posted = 0
  done : s.phase = .gone → ∀ l ∈ s.links, l.inTable = true → l.torn = true

/-- One connection changes, and keeps what the invariant says of it. -/
theorem Inv.set (h : Inv s) (i : Nat) {l : Link} (hSound : l.Sound) (hTouched : l.touched = false)
    (hDone : s.phase = .gone → l.inTable = true → l.torn = true) :
    Inv { s with links := s.links.set i l } where
  links := by
    intro l' hl'
    rcases List.mem_or_eq_of_mem_set hl' with hl' | rfl
    · exact h.links l' hl'
    · exact hSound
  untouched := by
    refine ⟨h.untouched.1, fun l' hl' => ?_⟩
    rcases List.mem_or_eq_of_mem_set hl' with hl' | rfl
    · exact h.untouched.2 l' hl'
    · exact hTouched
  posted := h.posted
  done := by
    intro hGone l' hl'
    rcases List.mem_or_eq_of_mem_set hl' with hl' | rfl
    · exact h.done hGone l' hl'
    · exact hDone hGone

theorem Inv.link (h : Inv s) {i : Nat} {a : OwnedConnection.Action} {l l' : Link}
    (hGet : s.links[i]? = some l) (hCalm : Calm l a)
    (hStep : l.step (s.phase == .gone) a = some l') :
    Inv { s with links := s.links.set i l' } := by
  have hMem := List.mem_of_getElem? hGet
  obtain ⟨hTorn, hTable⟩ := step_table hStep
  have hTouched : l'.touched = false := by
    obtain ⟨hPossible, o, hOwned, rfl⟩ := step_eq hStep
    rw [removeNow_touched]
    show (l.touched || (s.phase == .gone) && l.touches a o.conn) = false
    rw [h.untouched.2 l hMem, Bool.false_or]
    by_cases hGone : s.phase = .gone
    · -- the destructor has returned
      have hTrue : (s.phase == .gone) = true := by simp [hGone]
      rw [hTrue] at hPossible
      rw [(h.links l hMem).untouched (h.done hGone l hMem) hPossible hOwned, Bool.and_false]
    · simp [hGone]
  refine h.set i ((h.links l hMem).step hCalm hStep) hTouched fun hGone hIn => ?_
  rw [hTorn]
  exact h.done hGone l hMem (hTable hIn)

/-- The functors of the owner are all run while it is alive. -/
theorem Inv.run (h : Inv s) (hPosted : 0 < s.posted) :
    Inv { s with posted := s.posted - 1, touched := s.touched || s.phase == .gone } := by
  have hAlive : s.phase = .alive := by
    by_contra hNot
    simp [h.posted hNot] at hPosted
  exact {
    links := h.links
    untouched := ⟨by simp [h.untouched.1, hAlive], h.untouched.2⟩
    posted := fun hNot => absurd hAlive hNot
    done := h.done }

theorem Inv.teardown (h : Inv s) {i : Nat} {l l' : Link} (hGet : s.links[i]? = some l)
    (hTorn : l.torn = false) (hReady : l.Ready) (hStep : l.teardown = some l') :
    Inv { s with links := s.links.set i l' } := by
  have hMem := List.mem_of_getElem? hGet
  obtain ⟨hSound, hTorn', hTouched⟩ := (h.links l hMem).teardown hTorn hReady hStep
  exact h.set i hSound (hTouched.trans (h.untouched.2 l hMem)) fun _ _ => hTorn'

/-- **The step lemma.** -/
theorem Inv.step (h : Inv s) (hClean : s.Clean a) (hStep : s.step a = some s') : Inv s' := by
  cases a with
  | connect remote =>
    -- the new connection is sound, and no functor of it is queued
    simp only [Owner.step] at hStep
    split_ifs at hStep with hAlive
    cases hStep
    have hNew : ∀ l ∈ s.links ++ [Link.new s.client remote], l ∈ s.links ∨
        l = Link.new s.client remote := fun l hl => by simpa using hl
    exact {
      links := fun l hl => (hNew l hl).elim (h.links l) fun hEq => hEq ▸ sound_new ..
      untouched := ⟨h.untouched.1, fun l hl =>
        (hNew l hl).elim (h.untouched.2 l) fun hEq => by rw [hEq]; rfl⟩
      posted := h.posted
      done := fun hGone => by simp [hAlive.1] at hGone }
  | link i a =>
    simp only [Owner.step] at hStep
    split at hStep
    · cases hStep
    · rename_i l hGet
      obtain ⟨l', hLink, rfl⟩ := Option.map_eq_some_iff.mp hStep
      exact h.link hGet (hClean l hGet) hLink
  | post =>
    simp only [Owner.step] at hStep
    split_ifs at hStep with hAlive
    cases hStep
    exact { h with posted := fun hNot => absurd hAlive hNot }
  | run =>
    simp only [Owner.step] at hStep
    split_ifs at hStep with hPosted
    cases hStep
    exact h.run hPosted
  | begin =>
    -- the destructor begins with no functor of the owner queued
    simp only [Owner.step] at hStep
    split_ifs at hStep with hAlive
    cases hStep
    exact {
      links := h.links
      untouched := h.untouched
      posted := fun _ => hClean
      done := fun hGone => by simp at hGone }
  | teardown i =>
    simp only [Owner.step] at hStep
    split at hStep
    · cases hStep
    · rename_i l hGet
      split_ifs at hStep with hNow
      obtain ⟨l', hTeardown, rfl⟩ := Option.map_eq_some_iff.mp hStep
      exact h.teardown hGet hNow.2.2 (hClean l hGet) hTeardown
  | finish =>
    simp only [Owner.step] at hStep
    split_ifs at hStep with hDone
    cases hStep
    exact {
      links := h.links
      untouched := h.untouched
      posted := fun _ => h.posted (by simp [hDone.1])
      done := fun _ l hl => (hDone.2 l hl).1 }

/-- **No callback into a destroyed owner.** Take a `TcpClient` or a `TcpServer` with its
connections, and any run in which the destructor begins with no functor of the owner in the
queue of the loop, finds every connection ready, and no sub-loop closes a connection that the
destructor has been at. After the destructor has returned, no functor is run on the owner, and
no step of a connection runs code of it; for a client this includes the connection and message
callbacks that were registered through it. -/
theorem owner_not_touched (client : Bool) (s : Owner)
    (h : ReachesBy step Clean { client := client } s) :
    s.touched = false ∧ ∀ l ∈ s.links, l.touched = false := by
  have hNew : Inv { client := client } :=
    { links := by simp
      untouched := by simp
      posted := fun _ => rfl
      done := by simp }
  have hInv : Inv s := h.invariant hNew fun _ _ _ hStep hClean h => h.step hClean hStep
  exact hInv.untouched

/-- A client that is destroyed while its connection is connected; the user code of the
disconnected notification returns, and so do `connectDestroyed` and the destructor. -/
def destroyedConnected : List Action :=
  [.connect false, .link 0 (.conn .ret), .begin, .teardown 0, .link 0 (.conn .ret),
    .link 0 (.conn (.resume (.bytes []) (.accepted 0))), .finish]

theorem owner_not_touched_connected :
    ∃ s, runAllBy step Clean { client := true } destroyedConnected = some s ∧
      s.phase = .gone ∧ s.touched = false ∧ ∀ l ∈ s.links, l.touched = false := by
  obtain ⟨s, hRun, hPhase⟩ : ∃ s,
      runAllBy step Clean { client := true } destroyedConnected = some s ∧ s.phase = .gone :=
    ⟨_, rfl, rfl⟩
  exact ⟨s, hRun, hPhase, owner_not_touched true s (reachesBy_of_runAllBy hRun)⟩

/-- A client is destroyed after it has shut its connection down, and before the peer has
closed its end. The destructor forces a close, and the loop carries it out. -/
def destroyedHalfClosed : List Action :=
  [.connect false, .link 0 (.conn .ret), .link 0 (.conn (.user .shutdown)), .begin, .teardown 0,
    .finish, .link 0 (.conn (.task (.accepted 0)))]

/-- A server is destroyed after a sub-loop has closed a connection and before the base loop
has run `removeConnectionInLoop`. -/
def destroyedRemoving : List Action :=
  [.connect true, .link 0 (.conn .connectEstablished), .link 0 (.conn .ret),
    .link 0 (.conn (.user .forceClose)), .link 0 (.conn (.task (.accepted 0))),
    .link 0 (.conn .ret), .link 0 (.conn (.resume (.bytes []) (.accepted 0))), .begin, .teardown 0,
    .finish, .link 0 (.conn .removeConnection)]

/-- **Callbacks into destroyed owners.** The connection callback that was registered through
the client runs after the client's destructor has returned, and `removeConnectionInLoop` runs
on the destroyed server. -/
theorem destroyed_owner_touched :
    (∃ s l, runAll step { client := true } destroyedHalfClosed = some s ∧ s.links = [l] ∧
      s.phase = .gone ∧ l.touched = true ∧ .connectionCallback false ∈ l.owned.conn.log) ∧
    (∃ s l, runAll step { client := false } destroyedRemoving = some s ∧ s.links = [l] ∧
      s.phase = .gone ∧ l.touched = true) :=
  ⟨⟨_, _, rfl, rfl, rfl, rfl, by decide⟩, ⟨_, _, rfl, rfl, rfl, rfl⟩⟩

end Owner

end ReactorNet
