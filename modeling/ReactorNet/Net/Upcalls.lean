import ReactorNet.Net.SendPath

/-!
# ReactorNet — what is seen of a connection from above

The steps of a connection that are not user code, by what they are to the layer above: most
are nothing at all, and the others are the connection coming up, a message, the end of the
peer's stream with output pending, and the connection going down (`Seen`). Beside this there
is what such a step logs (`Logs`), and with it what it does to the messages that were sent and
to the bytes that were written; and what the functions do to the stack and the queue.

Main result: `TcpConnection.seen_of_step`.
-/

namespace ReactorNet

open Lib

/-- The callbacks that the RPC layer sets. -/
def ConnEvent.isUpcall : ConnEvent → Bool
  | .connectionCallback _ | .messageCallback => true
  | _ => false

namespace TcpConnection

variable {c c' : TcpConnection}

/-! ## What the layer above sees of a step -/

/-- The callback that was invoked on the way from one state to another. -/
def upcall (before after : TcpConnection) : Option ConnEvent :=
  (after.log.drop before.log.length).find? ConnEvent.isUpcall

theorem upcall_of_log (es : List ConnEvent) (h : c'.log = c.log ++ es) :
    upcall c c' = es.find? ConnEvent.isUpcall := by
  rw [upcall, h, List.drop_left]

theorem upcall_eq_none (es : List ConnEvent) (h : c'.log = c.log ++ es)
    (hEs : ∀ e ∈ es, e.isUpcall = false) : upcall c c' = none := by
  rw [upcall_of_log es h, List.find?_eq_none]
  intro e he
  simp [hEs e he]

/-- The next thing that the loop thread does is to read the socket. -/
def readsNext (c : TcpConnection) : Bool :=
  match c.stack with
  | .dispatch m .read :: _ => m.reads
  | _ => false

/-- Nothing that the layer above sees. -/
structure Quiet (c c' : TcpConnection) : Prop where
  state : c'.state = c.state
  input : c'.inputBuffer = c.inputBuffer
  queued : c.state ≠ .kDisconnected →
    (.forceCloseInLoop ∈ c'.tasks ↔ .forceCloseInLoop ∈ c.tasks)
  call : upcall c c' = none

/-- The connection is established, and its callback runs. -/
structure Opens (c c' : TcpConnection) : Prop where
  fresh : Fresh c
  state : c'.state = .kConnected
  input : c'.inputBuffer = c.inputBuffer
  tasks : c'.tasks = []
  call : upcall c c' = some (.connectionCallback true)

/-- Bytes are put into the input buffer, and the message callback runs. -/
structure Delivers (chunk : Bytes) (c c' : TcpConnection) : Prop where
  nonempty : chunk ≠ []
  up : Up c
  state : c'.state = c.state
  input : c'.inputBuffer = c.inputBuffer.append chunk
  tasks : c'.tasks = c.tasks
  call : upcall c c' = some .messageCallback

/-- The peer's stream ends while output is pending: the connection is shut down, and nobody is
called. -/
structure HalfCloses (c c' : TcpConnection) : Prop where
  up : Up c
  state : c'.state = .kDisconnecting
  input : c'.inputBuffer = c.inputBuffer
  tasks : c'.tasks = c.tasks
  call : upcall c c' = none

/-- The connection goes down, and its callback runs. -/
structure GoesDown (c c' : TcpConnection) : Prop where
  up : Up c
  state : c'.state = .kDisconnected
  input : c'.inputBuffer = c.inputBuffer
  call : upcall c c' = some (.connectionCallback false)

/-- What a step that is not user code is to the layer above. -/
inductive Seen (c : TcpConnection) (a : Action) (c' : TcpConnection) : Prop
  | quiet (h : Quiet c c')
  | up (h : Opens c c')
  | message (chunk : Bytes) (w : WriteResult) (hRead : a = .resume (.bytes chunk) w)
      (h : Delivers chunk c c')
      (hStack : ∃ m, c.stack = [.dispatch m .read] ∧ c'.stack = [.callback, .dispatch m .write])
  | halfClosed (w : WriteResult) (hRead : a = .resume (.bytes []) w) (hReads : c.readsNext = true)
      (h : HalfCloses c c')
  | down (h : GoesDown c c')

/-- A step that leaves the queue alone and calls neither of the callbacks is not seen. -/
theorem Quiet.of_log (es : List ConnEvent) (hState : c'.state = c.state)
    (hInput : c'.inputBuffer = c.inputBuffer) (hTasks : c'.tasks = c.tasks)
    (hLog : c'.log = c.log ++ es) (hEs : ∀ e ∈ es, e.isUpcall = false) : Quiet c c' :=
  ⟨hState, hInput, fun _ => by rw [hTasks], upcall_eq_none es hLog hEs⟩

theorem Quiet.of_same (hState : c'.state = c.state) (hInput : c'.inputBuffer = c.inputBuffer)
    (hTasks : c'.tasks = c.tasks) (hLog : c'.log = c.log) : Quiet c c' :=
  .of_log [] hState hInput hTasks (hLog.trans (List.append_nil _).symm) (by simp)

/-! ## What a step logs -/

/-- The actions of the loop and of the owner. -/
def Action.isOwn : Action → Bool
  | .user _ | .postSend _ => false
  | _ => true

/-- The socket takes something, as far as the step writes at all. -/
def Action.accepts : Action → Bool
  | .user (.send _ (.accepted _)) | .resume _ (.accepted _) | .task (.accepted _) => true
  | _ => false

/-- What a step that is not user code logs. -/
inductive Logs (c : TcpConnection) (a : Action) (c' : TcpConnection) : Prop
  | neutral (es : List ConnEvent) (hLog : c'.log = c.log ++ es)
      (hEs : ∀ e ∈ es, e.isNeutral = true)
  | shut (q : Nat) (hLog : c'.log = c.log ++ [.shutdownWrite q])
  /-- Bytes are written only to a socket that takes them, on a connection that is not down. -/
  | wrote (bytes : Bytes) (es : List ConnEvent) (hLog : c'.log = c.log ++ .written bytes :: es)
      (hEs : ∀ e ∈ es, e.isNeutral = true) (hUp : c'.state ≠ .kDisconnected)
      (hTakes : a.accepts = true)
  /-- The end of the stream takes the connection down only with nothing buffered. -/
  | finished (q : Nat) (es : List ConnEvent) (hLog : c'.log = c.log ++ .eofClose q :: es)
      (hEs : ∀ e ∈ es, e.isNeutral = true) (hUp : Up c) (hDown : c'.state = .kDisconnected)
      (hOutput : c.outputBuffer.contents = [])

variable {a : Action} {m : Revents} {b : Branch} {t : LoopTask}

theorem Logs.nothing (h : c'.log = c.log) : Logs c a c' :=
  .neutral [] (h.trans (List.append_nil _).symm) (by simp)

/-! ## Steps -/

theorem unseen (hState : c'.state = c.state) (hInput : c'.inputBuffer = c.inputBuffer)
    (hTasks : c'.tasks = c.tasks) (hLog : c'.log = c.log) : Seen c a c' ∧ Logs c a c' :=
  ⟨.quiet (.of_same hState hInput hTasks hLog), .nothing hLog⟩

theorem seen_handleClose (h : Up c) (a : Action) (c' : TcpConnection)
    (hInput : c'.inputBuffer = c.inputBuffer) (hLog : c'.log = c.log) :
    Seen c a c'.handleClose ∧ Logs c a c'.handleClose := by
  have hNew : c'.handleClose.log = c.log ++ [.update, .connectionCallback false] := by
    rw [handleClose_log, hLog]
  exact ⟨.down ⟨h, rfl, hInput, upcall_of_log _ hNew⟩, .neutral _ hNew (by simp [ConnEvent.isNeutral])⟩

theorem seen_handleWrite (h : Up c) (rest : List Frame) (r : ReadResult) (w : WriteResult) :
    Seen c (.resume r w) ({ c with stack := rest }.handleWrite w) ∧
      Logs c (.resume r w) ({ c with stack := rest }.handleWrite w) := by
  cases w with
  | failed errno =>
    simp only [handleWrite]
    split_ifs <;> exact unseen rfl rfl rfl rfl
  | accepted n =>
    simp only [handleWrite]
    split_ifs
    · exact ⟨.quiet (.of_log
          [.written (c.outputBuffer.contents.take n), .update, .writeCompleteCallback] rfl rfl rfl
          (by simp [call, updateChannel, record]) (by simp [ConnEvent.isUpcall])),
        .wrote (c.outputBuffer.contents.take n) [.update, .writeCompleteCallback]
          (by simp [call, updateChannel, record]) (by simp [ConnEvent.isNeutral])
          h.ne_disconnected rfl⟩
    · exact ⟨.quiet (.of_log [.written (c.outputBuffer.contents.take n)] rfl rfl rfl rfl
          (by simp [ConnEvent.isUpcall])),
        .wrote (c.outputBuffer.contents.take n) [] rfl (by simp) h.ne_disconnected rfl⟩
    · exact unseen rfl rfl rfl rfl
    · exact unseen rfl rfl rfl rfl

/-- A dispatch goes on, on a connection that is up. -/
theorem seen_dispatch (h : Up c) {rest : List Frame} (hStack : c.stack = .dispatch m b :: rest)
    (r : ReadResult) (w : WriteResult) :
    Seen c (.resume r w) ({ c with stack := rest }.dispatch m r w b) ∧
      Logs c (.resume r w) ({ c with stack := rest }.dispatch m r w b) := by
  -- in the order of `handleEventWithGuard`; nothing is below the dispatch
  obtain rfl := h.alone hStack
  cases b with
  | close =>
    simp only [dispatch]
    split_ifs
    · exact seen_handleClose h _ { c with stack := [.dispatch m .error] } rfl rfl
    · exact unseen rfl rfl rfl rfl
  | error => exact unseen rfl rfl rfl rfl
  | write =>
    simp only [dispatch]
    split_ifs
    · exact seen_handleWrite h [] r w
    · exact unseen rfl rfl rfl rfl
  | read =>
    simp only [dispatch]
    split_ifs with hReads
    · cases r with
      | failed errno => exact unseen rfl rfl rfl rfl
      | bytes chunk =>
        simp only [handleRead]
        split_ifs with hChunk hOutput
        · exact ⟨.message chunk w rfl ⟨List.length_pos_iff.mp hChunk, h, rfl, rfl, rfl,
              upcall_of_log [.messageCallback] rfl⟩ ⟨m, hStack, rfl⟩,
            .neutral [.messageCallback] rfl (by simp [ConnEvent.isNeutral])⟩
        · obtain rfl : chunk = [] := List.length_eq_zero_iff.mp (Nat.eq_zero_of_not_pos hChunk)
          exact ⟨.halfClosed w rfl (by simpa [readsNext, hStack] using hReads) ⟨h, rfl, rfl, rfl,
            upcall_eq_none [] (List.append_nil _).symm (by simp)⟩, .nothing rfl⟩
        -- the end of the stream with nothing left to write is a close
        · have hLog : ((record { c with stack := [.dispatch m .write] }
              (.eofClose c.outputBuffer.readableBytes)).handleClose).log =
              c.log ++ [.eofClose c.outputBuffer.readableBytes, .update,
                .connectionCallback false] := by
            rw [handleClose_log]
            simp [record]
          have hNone : c.outputBuffer.contents = [] := by
            rw [← List.length_eq_zero_iff, Buffer.length_contents]
            exact Nat.eq_zero_of_not_pos hOutput
          exact ⟨.down ⟨h, rfl, rfl, upcall_of_log _ hLog⟩,
            .finished _ [.update, .connectionCallback false] hLog (by simp [ConnEvent.isNeutral])
              h rfl hNone⟩
    · exact unseen rfl rfl rfl rfl

/-- A dispatch of a connection that is down has nothing left to do. -/
theorem unseen_dispatch (h : Down c) {rest : List Frame}
    (hStack : c.stack = .dispatch m b :: rest) (r : ReadResult) (w : WriteResult) :
    Seen c (.resume r w) ({ c with stack := rest }.dispatch m r w b) ∧
      Logs c (.resume r w) ({ c with stack := rest }.dispatch m r w b) := by
  have hFrame := h.frames _ (hStack ▸ List.mem_cons_self ..)
  cases b with
  | close => exact absurd hFrame (by simp [Frame.whileDown])
  | error => exact unseen rfl rfl rfl rfl
  | read =>
    simp only [dispatch]
    rw [if_neg (by simpa [Frame.whileDown] using hFrame)]
    exact unseen rfl rfl rfl rfl
  | write =>
    simp only [dispatch, (h.pop hStack (by simp)).handleWrite]
    split_ifs <;> exact unseen rfl rfl rfl rfl

theorem seen_runTask (hLife : Lifecycle c) {rest : List LoopTask} (hTasks : c.tasks = t :: rest)
    (hPosted : ∀ m, t ≠ .sendInLoop m) (w : WriteResult) (a : Action) :
    Seen c a ({ c with tasks := rest }.runTask w t) ∧
      Logs c a ({ c with tasks := rest }.runTask w t) := by
  -- apart from a forced close, no functor is about closing
  have hQueued : t ≠ .forceCloseInLoop →
      (.forceCloseInLoop ∈ rest ↔ .forceCloseInLoop ∈ c.tasks) := by
    intro hNe
    rw [hTasks, List.mem_cons, or_iff_right hNe.symm]
  cases t with
  | sendInLoop message => exact absurd rfl (hPosted message)
  | writeComplete =>
    exact ⟨.quiet ⟨rfl, rfl, fun _ => hQueued (by simp),
        upcall_eq_none [.writeCompleteCallback] rfl (by simp [ConnEvent.isUpcall])⟩,
      .neutral [.writeCompleteCallback] rfl (by simp [ConnEvent.isNeutral])⟩
  | forceCloseInLoop =>
    simp only [runTask, forceCloseInLoop]
    split_ifs with hState
    · exact seen_handleClose (hLife.up_of_state hState) a { c with tasks := rest } rfl rfl
    · refine ⟨.quiet ⟨rfl, rfl, fun hNot => ?_,
        upcall_eq_none [] (List.append_nil _).symm (by simp)⟩, .nothing rfl⟩
      -- a connection that is fresh has nothing queued
      rcases hLife with hFresh | hUp | hDown
      · simp [hFresh.tasks] at hTasks
      · exact absurd hUp.state hState
      · exact absurd hDown.state hNot
  | connectDestroyed =>
    simp only [runTask, connectDestroyed]
    split_ifs with hState
    · have hUp := hLife.up_of_state (.inl hState)
      exact absurd (hTasks ▸ List.mem_cons_self ..) hUp.tasks
    · exact ⟨.quiet ⟨rfl, rfl, fun _ => hQueued (by simp),
        upcall_eq_none [] (List.append_nil _).symm (by simp)⟩, .nothing rfl⟩

/-- **Every step of the loop or the owner is of one of these kinds.** -/
theorem seen_of_step (hLife : Lifecycle c) (hPosted : ∀ m, .sendInLoop m ∉ c.tasks)
    (hOwn : a.isOwn = true) (hStep : c.step a = some c') : Seen c a c' ∧ Logs c a c' := by
  cases step_outcome hStep with
  | established hStack hState =>
    have hFresh : Fresh c := hLife.fresh_of_state hState
    have hLog : c.connectEstablished.log = c.log ++ [.update, .connectionCallback true] := by
      simp [connectEstablished, call, updateChannel, connected]
    exact ⟨.up ⟨hFresh, rfl, rfl, hFresh.tasks, upcall_of_log _ hLog⟩,
      .neutral _ hLog (by simp [ConnEvent.isNeutral])⟩
  | reported | returned => exact unseen rfl rfl rfl rfl
  | dispatched m b rest r w hStack =>
    -- before it is up a connection has no events, and later they are not seen
    rcases hLife with hFresh | hUp | hDown
    · simp [hFresh.stack] at hStack
    · exact seen_dispatch hUp hStack r w
    · exact unseen_dispatch hDown hStack r w
  | afterWriteComplete rest =>
    simp only [afterWriteComplete, shutdownInLoop]
    split_ifs
    · exact ⟨.quiet (.of_log [.shutdownWrite c.outputBuffer.readableBytes] rfl rfl rfl rfl
        (by simp [ConnEvent.isUpcall])), .shut c.outputBuffer.readableBytes rfl⟩
    · exact unseen rfl rfl rfl rfl
    · exact unseen rfl rfl rfl rfl
  | afterDisconnected =>
    exact ⟨.quiet (.of_log [.closeCallback] rfl rfl rfl rfl (by simp [ConnEvent.isUpcall])),
      .neutral [.closeCallback] rfl (by simp [ConnEvent.isNeutral])⟩
  | afterDestroyed =>
    exact ⟨.quiet (.of_log [.remove] rfl rfl rfl rfl (by simp [ConnEvent.isUpcall])),
      .neutral [.remove] rfl (by simp [ConnEvent.isNeutral])⟩
  | user | posted => cases hOwn
  | ran w t rest hStack hTasks =>
    refine seen_runTask hLife hTasks (fun m ht => hPosted m ?_) w _
    rw [hTasks, ht]
    exact List.mem_cons_self ..
  | removed =>
    refine ⟨.quiet ⟨rfl, rfl, fun _ => ?_,
      upcall_eq_none [] (List.append_nil _).symm (by simp)⟩, .nothing rfl⟩
    simp [queueInLoop]

/-! ## What is sent and what is written -/

theorem Logs.sentMessages (h : Logs c a c') : sentMessages c'.log = sentMessages c.log := by
  cases h with
  | neutral es hLog hEs => rw [hLog, sentMessages_append, sentMessages_of_neutral hEs,
      List.append_nil]
  | shut q hLog => simp [hLog, ReactorNet.sentMessages]
  | wrote bytes es hLog hEs | finished q es hLog hEs =>
    rw [hLog, sentMessages_append]
    simpa [ReactorNet.sentMessages] using sentMessages_of_neutral hEs

theorem Logs.writtenBytes (h : Logs c a c') :
    writtenBytes c'.log = writtenBytes c.log ∨
      c'.state ≠ .kDisconnected ∧ a.accepts = true := by
  cases h with
  | neutral es hLog hEs =>
    exact .inl (by rw [hLog, writtenBytes_append, writtenBytes_of_neutral hEs,
      List.append_nil])
  | shut q hLog => exact .inl (by simp [hLog, ReactorNet.writtenBytes])
  | wrote bytes es hLog hEs hUp hTakes => exact .inr ⟨hUp, hTakes⟩
  | finished q es hLog hEs =>
    refine .inl ?_
    rw [hLog, writtenBytes_append]
    simpa [ReactorNet.writtenBytes] using writtenBytes_of_neutral hEs

theorem writtenBytes_of_log (es : List ConnEvent) (hLog : c'.log = c.log ++ es)
    (hEs : writtenBytes es = []) : writtenBytes c'.log = writtenBytes c.log := by
  rw [hLog, writtenBytes_append, hEs, List.append_nil]

theorem writtenBytes_bufferOutput (c : TcpConnection) (rest : Bytes) :
    writtenBytes (c.bufferOutput rest).log = writtenBytes c.log := by
  simp only [bufferOutput]
  split_ifs
  · exact writtenBytes_of_log [.update] rfl rfl
  · rfl
  · rfl

theorem writtenBytes_sendInLoop_failed (c : TcpConnection) (message : Bytes) (errno : Errno) :
    writtenBytes (c.sendInLoop message (.failed errno)).log = writtenBytes c.log := by
  have hRecord : writtenBytes (c.record (.sendInLoop message)).log = writtenBytes c.log :=
    writtenBytes_of_log [.sendInLoop message] rfl rfl
  simp only [sendInLoop, writeDirectly]
  split_ifs
  · exact hRecord
  · exact hRecord
  · rw [writtenBytes_bufferOutput, hRecord]
  · rw [writtenBytes_bufferOutput, hRecord]

/-! ## The end of the stream -/

/-- The connection was closed because the peer's stream was at its end. -/
def Finished (c : TcpConnection) : Prop := ∃ q, .eofClose q ∈ c.log

theorem Finished.of_log (es : List ConnEvent) (hLog : c'.log = c.log ++ es)
    (hEs : ∀ q, .eofClose q ∉ es) (h : Finished c') : Finished c := by
  obtain ⟨q, hMem⟩ := h
  rw [hLog, List.mem_append] at hMem
  exact ⟨q, hMem.resolve_right (hEs q)⟩

/-- A step closes the connection at the end of the stream only with nothing buffered. -/
theorem Logs.of_finished (hLogs : Logs c a c') (h : Finished c') :
    Finished c ∨ Up c ∧ c'.state = .kDisconnected ∧ c.outputBuffer.contents = [] := by
  cases hLogs with
  | neutral es hLog hEs =>
    exact .inl (h.of_log es hLog fun q hMem => by cases hEs _ hMem)
  | shut q hLog => exact .inl (h.of_log _ hLog (by simp))
  | wrote bytes es hLog hEs =>
    refine .inl (h.of_log _ hLog fun q hMem => ?_)
    rcases List.mem_cons.mp hMem with hEq | hMem
    · cases hEq
    · cases hEs _ hMem
  | finished q es hLog hEs hUp hDown hOutput => exact .inr ⟨hUp, hDown, hOutput⟩

theorem finished_user {op : UserOp} (h : Finished (c.user op)) : Finished c := by
  obtain ⟨state, tasks, -, hWorks⟩ := works_user c op
  obtain ⟨es, hLog, hEs⟩ := hWorks.log
  exact h.of_log es hLog fun q hMem => by cases hEs _ hMem

/-! ## Input, stack and queue -/

theorem inputBuffer_bufferOutput (c : TcpConnection) (rest : Bytes) :
    (c.bufferOutput rest).inputBuffer = c.inputBuffer := by
  simp only [bufferOutput]
  split_ifs <;> rfl

theorem inputBuffer_sendInLoop (c : TcpConnection) (message : Bytes) (w : WriteResult) :
    (c.sendInLoop message w).inputBuffer = c.inputBuffer := by
  simp only [sendInLoop]
  split_ifs
  · rfl
  · cases w with
    | accepted n =>
      simp only [writeDirectly, inputBuffer_bufferOutput]
      split_ifs <;> rfl
    | failed errno =>
      simp only [writeDirectly]
      split_ifs
      · rfl
      · exact inputBuffer_bufferOutput _ _
  · exact inputBuffer_bufferOutput _ _

/-- What a function leaves on the stack are callbacks and what is to follow them. -/
def Pushes (c c' : TcpConnection) : Prop :=
  ∃ fs, c'.stack = fs ++ c.stack ∧ ∀ f ∈ fs, f.isDispatch = false

theorem Pushes.of_eq (h : c'.stack = c.stack) : Pushes c c' := ⟨[], h, by simp⟩

theorem Pushes.dispatch_mem (h : Pushes c c') (hMem : .dispatch m b ∈ c'.stack) :
    .dispatch m b ∈ c.stack := by
  obtain ⟨fs, hStack, hFs⟩ := h
  rw [hStack, List.mem_append] at hMem
  refine hMem.resolve_left fun hIn => ?_
  cases hFs _ hIn

theorem pushes_handleClose (c : TcpConnection) : Pushes c c.handleClose :=
  ⟨[.callback, .afterDisconnected], rfl, by simp [Frame.isDispatch]⟩

theorem pushes_handleRead (c : TcpConnection) (r : ReadResult) : Pushes c (c.handleRead r) := by
  cases r with
  | failed errno => exact .of_eq rfl
  | bytes chunk =>
    simp only [handleRead]
    split_ifs
    · exact ⟨[.callback], rfl, by simp [Frame.isDispatch]⟩
    · exact .of_eq rfl
    · exact pushes_handleClose (c.record _)

theorem pushes_handleWrite (c : TcpConnection) (w : WriteResult) : Pushes c (c.handleWrite w) := by
  cases w with
  | failed errno =>
    simp only [handleWrite]
    split_ifs <;> exact .of_eq rfl
  | accepted n =>
    simp only [handleWrite]
    split_ifs
    · exact ⟨[.callback, .afterWriteComplete], rfl, by simp [Frame.isDispatch]⟩
    · exact .of_eq rfl
    · exact .of_eq rfl
    · exact .of_eq rfl

/-- A branch of a dispatch leaves the next one on the stack, under its callbacks. -/
theorem dispatch_mem_dispatch {m' : Revents} {r : ReadResult} {w : WriteResult} {b' : Branch}
    (hMem : .dispatch m' b' ∈ (c.dispatch m r w b).stack) :
    .dispatch m' b' ∈ c.stack ∨ m' = m ∧ b ≠ .write ∧ (b = .read → b' = .write) := by
  -- each branch leaves the next one on the stack, under what it calls
  have hNext : ∀ (next : Branch) (c' : TcpConnection), .dispatch m' b' ∈ c'.stack →
      Pushes { c with stack := .dispatch m next :: c.stack } c' →
      .dispatch m' b' ∈ c.stack ∨ m' = m ∧ b' = next := by
    intro next c' hMem hPushes
    rcases List.mem_cons.mp (hPushes.dispatch_mem hMem) with hEq | hIn
    · cases hEq
      exact .inr ⟨rfl, rfl⟩
    · exact .inl hIn
  cases b with
  | close =>
    refine (hNext .error _ hMem ?_).imp_right fun hIs => ⟨hIs.1, by simp, by simp⟩
    simp only [dispatch]
    split_ifs
    · exact pushes_handleClose _
    · exact .of_eq rfl
  | error =>
    exact (hNext .read _ hMem (.of_eq rfl)).imp_right fun hIs => ⟨hIs.1, by simp, by simp⟩
  | read =>
    refine (hNext .write _ hMem ?_).imp_right fun hIs => ⟨hIs.1, by simp, fun _ => hIs.2⟩
    simp only [dispatch]
    split_ifs
    · exact pushes_handleRead _ r
    · exact .of_eq rfl
  | write =>
    simp only [dispatch] at hMem
    split_ifs at hMem
    · exact .inl ((pushes_handleWrite c w).dispatch_mem hMem)
    · exact .inl hMem

/-- Functors are called by the loop, and leave no dispatch behind. -/
theorem pushes_runTask (c : TcpConnection) (w : WriteResult) (hPosted : ∀ m, t ≠ .sendInLoop m) :
    Pushes c (c.runTask w t) := by
  cases t with
  | sendInLoop message => exact absurd rfl (hPosted message)
  | writeComplete => exact ⟨[.callback], rfl, by simp [Frame.isDispatch]⟩
  | forceCloseInLoop =>
    simp only [runTask, forceCloseInLoop]
    split_ifs
    · exact pushes_handleClose c
    · exact .of_eq rfl
  | connectDestroyed =>
    simp only [runTask, connectDestroyed]
    split_ifs
    · exact ⟨[.callback, .afterDestroyed], rfl, by simp [Frame.isDispatch]⟩
    · exact ⟨[.afterDestroyed], rfl, by simp [Frame.isDispatch]⟩

theorem tasks_runTask (c : TcpConnection) (w : WriteResult) (hPosted : ∀ m, t ≠ .sendInLoop m) :
    (c.runTask w t).tasks = c.tasks := by
  cases t with
  | sendInLoop message => exact absurd rfl (hPosted message)
  | writeComplete => rfl
  | forceCloseInLoop =>
    simp only [runTask, forceCloseInLoop]
    split_ifs <;> rfl
  | connectDestroyed =>
    simp only [runTask, connectDestroyed]
    split_ifs <;> rfl

end TcpConnection

end ReactorNet
