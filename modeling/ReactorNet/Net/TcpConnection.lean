import ReactorNet.Lib.System
import ReactorNet.Net.Buffer
import ReactorNet.Net.Transport

/-!
# ReactorNet — a TCP connection on its loop

`TcpConnection` of `src/TcpConnection.cpp` with the `Channel` it owns, on the thread of
its loop. The functions of the class call user code in the middle of what they do, and
that code may send, shut down and force the connection closed. So the model is a
machine: `stack` is where the thread is, cut where it calls user code, with the function
that goes on first at the top. The functions of the source are definitions that go up to
the next callback, and `step` puts them together.

The environment decides the rest: which events epoll reports, what a read returns, how
much of a write the socket takes, and when the loop gets to the next functor of its
queue. `log` records what happened, in order. A callback that is not set is one that
does nothing.
-/

namespace ReactorNet

open Lib

/-- The `errno` values that the connection tells apart. -/
inductive Errno where
  | EAGAIN
  | EWOULDBLOCK
  | EINTR
  | EPIPE
  | ECONNRESET
  | other (code : Nat)
  deriving DecidableEq, Repr

/-- The mask of an epoll event. -/
structure Revents where
  epollin : Bool := false
  epollpri : Bool := false
  epollrdhup : Bool := false
  epollhup : Bool := false
  epollerr : Bool := false
  epollout : Bool := false
  deriving DecidableEq, Repr

namespace Revents

/-- The mask makes `handleEventWithGuard` call the close callback. -/
def closes (m : Revents) : Bool := m.epollhup && !m.epollin

/-- The mask makes it call the read callback. -/
def reads (m : Revents) : Bool := m.epollin || m.epollpri || m.epollrdhup

end Revents

/-! ## The channel -/

/-- The interest of a `Channel`, and whether its descriptor is in the epoll set. -/
structure Channel where
  reading : Bool := false
  writing : Bool := false
  inEpoll : Bool := false
  deriving DecidableEq, Repr

namespace Channel

/-- `EPollPoller::updateChannel`: a descriptor that is not in the set is added, whatever
the interest; one that is in the set leaves it when there is no interest left. -/
def update (ch : Channel) : Channel :=
  if ch.inEpoll then { ch with inEpoll := ch.reading || ch.writing }
  else { ch with inEpoll := true }

def enableReading (ch : Channel) : Channel := { ch with reading := true }.update

def enableWriting (ch : Channel) : Channel := { ch with writing := true }.update

def disableWriting (ch : Channel) : Channel := { ch with writing := false }.update

def disableAll (ch : Channel) : Channel := { ch with reading := false, writing := false }.update

/-- `EPollPoller::removeChannel`. -/
def remove (ch : Channel) : Channel := { ch with inEpoll := false }

end Channel

/-! ## The connection -/

/-- What `::write` returns: some of the bytes are taken, or none and an error. -/
inductive WriteResult where
  | accepted (n : Nat)
  | failed (errno : Errno)
  deriving DecidableEq, Repr

/-- What `readFrom` returns; no bytes are the end of the peer's stream. -/
inductive ReadResult where
  | bytes (chunk : Bytes)
  | failed (errno : Errno)
  deriving DecidableEq, Repr

/-- A functor in the queue of the loop. -/
inductive LoopTask where
  | sendInLoop (message : Bytes)
  | writeComplete
  | forceCloseInLoop
  | connectDestroyed
  deriving DecidableEq, Repr

/-- The parts of `Channel::handleEventWithGuard`, in their order. -/
inductive Branch where
  | close
  | error
  | read
  | write
  deriving DecidableEq, Repr

/-- A function that the loop thread is in. -/
inductive Frame where
  /-- User code. -/
  | callback
  /-- `handleEventWithGuard`, before this branch. -/
  | dispatch (revents : Revents) (next : Branch)
  /-- `handleWrite`, after the write-complete callback. -/
  | afterWriteComplete
  /-- `handleClose`, after the connection callback. -/
  | afterDisconnected
  /-- `connectDestroyed`, after the connection callback. -/
  | afterDestroyed
  deriving DecidableEq, Repr

/-- What happened on the connection. -/
inductive ConnEvent where
  | sendInLoop (message : Bytes)
  /-- The socket took these bytes. -/
  | written (bytes : Bytes)
  /-- `SHUT_WR`, with so many bytes in the output buffer. -/
  | shutdownWrite (queued : Nat)
  /-- The end of the peer's stream closes the connection, with so many bytes in the
  output buffer. -/
  | eofClose (queued : Nat)
  /-- `Channel::update`. -/
  | update
  /-- `Channel::remove`. -/
  | remove
  | connectionCallback (connected : Bool)
  | messageCallback
  | writeCompleteCallback
  | closeCallback
  deriving DecidableEq, Repr

/-- Events of which the function that logs them does not matter. -/
def ConnEvent.isPlain : ConnEvent → Bool
  | .sendInLoop _ | .shutdownWrite _ | .remove | .closeCallback => false
  | _ => true

structure TcpConnection where
  state : StateE := .kConnecting
  channel : Channel := {}
  inputBuffer : Buffer := Buffer.new kInitialSize
  outputBuffer : Buffer := Buffer.new kInitialSize
  tasks : List LoopTask := []
  stack : List Frame := []
  /-- The owner is removing the connection and has not queued `connectDestroyed` yet. -/
  removing : Bool := false
  log : List ConnEvent := []

namespace TcpConnection

def connected (c : TcpConnection) : Bool := c.state == .kConnected

def record (c : TcpConnection) (e : ConnEvent) : TcpConnection := { c with log := c.log ++ [e] }

/-- Call user code; this function goes on when it returns. -/
def call (c : TcpConnection) (e : ConnEvent) (next : List Frame) : TcpConnection :=
  { c with log := c.log ++ [e], stack := .callback :: (next ++ c.stack) }

def updateChannel (c : TcpConnection) (channel : Channel) : TcpConnection :=
  { c with channel := channel, log := c.log ++ [.update] }

def queueInLoop (c : TcpConnection) (t : LoopTask) : TcpConnection :=
  { c with tasks := c.tasks ++ [t] }

/-! ## Sending -/

/-- What is left of a message waits in the output buffer for the socket. -/
def bufferOutput (c : TcpConnection) (rest : Bytes) : TcpConnection :=
  if 0 < rest.length then
    let c := { c with outputBuffer := c.outputBuffer.append rest }
    if c.channel.writing = false then c.updateChannel c.channel.enableWriting else c
  else c

/-- The write of the fast path. -/
def writeDirectly (c : TcpConnection) (message : Bytes) : WriteResult → TcpConnection
  | .accepted n =>
    let c := c.record (.written (message.take n))
    -- the callback is queued: the caller may be in a callback itself
    let c := if (message.drop n).length = 0 then c.queueInLoop .writeComplete else c
    c.bufferOutput (message.drop n)
  | .failed errno =>
    -- the peer is gone: what is left is dropped
    if errno = .EPIPE ∨ errno = .ECONNRESET then c else c.bufferOutput message

def sendInLoop (c : TcpConnection) (message : Bytes) (w : WriteResult) : TcpConnection :=
  let c := c.record (.sendInLoop message)
  if c.state = .kDisconnected then c
  -- with older bytes in the buffer a direct write would overtake them
  else if c.channel.writing = false ∧ c.outputBuffer.readableBytes = 0 then
    c.writeDirectly message w
  else c.bufferOutput message

/-- `send`, on the loop thread. -/
def send (c : TcpConnection) (message : Bytes) (w : WriteResult) : TcpConnection :=
  if c.state = .kConnected then c.sendInLoop message w else c

/-! ## Closing -/

def shutdownInLoop (c : TcpConnection) : TcpConnection :=
  -- with output waiting, `handleWrite` comes back to this when it is written
  if c.channel.writing = false then c.record (.shutdownWrite c.outputBuffer.readableBytes) else c

/-- `shutdown`, on the loop thread. -/
def shutdown (c : TcpConnection) : TcpConnection :=
  if c.state = .kConnected then { c with state := .kDisconnecting }.shutdownInLoop else c

def forceClose (c : TcpConnection) : TcpConnection :=
  if c.state = .kConnected ∨ c.state = .kDisconnecting then
    -- queued, since the caller may be in a dispatch of this very channel
    { c with state := .kDisconnecting }.queueInLoop .forceCloseInLoop
  else c

def handleClose (c : TcpConnection) : TcpConnection :=
  let c := { c with state := .kDisconnected }
  let c := c.updateChannel c.channel.disableAll
  c.call (.connectionCallback c.connected) [.afterDisconnected]

/-- The rest of `handleClose`: the close callback is the owner's `removeConnection`. -/
def afterDisconnected (c : TcpConnection) : TcpConnection :=
  { c.record .closeCallback with removing := true }

def forceCloseInLoop (c : TcpConnection) : TcpConnection :=
  if c.state = .kConnected ∨ c.state = .kDisconnecting then c.handleClose else c

def connectEstablished (c : TcpConnection) : TcpConnection :=
  let c := { c with state := .kConnected }
  let c := c.updateChannel c.channel.enableReading
  c.call (.connectionCallback c.connected) []

def connectDestroyed (c : TcpConnection) : TcpConnection :=
  -- an owner that goes away takes an open connection down with it
  if c.state = .kConnected then
    let c := { c with state := .kDisconnected }
    let c := c.updateChannel c.channel.disableAll
    c.call (.connectionCallback c.connected) [.afterDestroyed]
  else { c with stack := .afterDestroyed :: c.stack }

/-- The rest of `connectDestroyed`. -/
def afterDestroyed (c : TcpConnection) : TcpConnection :=
  { c with channel := c.channel.remove }.record .remove

/-! ## Events -/

def handleRead (c : TcpConnection) : ReadResult → TcpConnection
  | .bytes chunk =>
    if 0 < chunk.length then
      { c with inputBuffer := c.inputBuffer.append chunk }.call .messageCallback []
    -- what is buffered is written before the connection is closed
    else if 0 < c.outputBuffer.readableBytes then { c with state := .kDisconnecting }
    else (c.record (.eofClose c.outputBuffer.readableBytes)).handleClose
  | .failed _ => c

def handleWrite (c : TcpConnection) (w : WriteResult) : TcpConnection :=
  if c.channel.writing then
    match w with
    | .accepted n =>
      let taken := c.outputBuffer.contents.take n
      let c := { c with outputBuffer := c.outputBuffer.retrieve taken.length }
      if 0 < taken.length then
        let c := c.record (.written taken)
        if c.outputBuffer.readableBytes = 0 then
          (c.updateChannel c.channel.disableWriting).call .writeCompleteCallback
            [.afterWriteComplete]
        else c
      else c
    | .failed _ => c
  else c

/-- The rest of `handleWrite`. -/
def afterWriteComplete (c : TcpConnection) : TcpConnection :=
  if c.state = .kDisconnecting then c.shutdownInLoop else c

/-- One branch of `handleEventWithGuard`; `handleError` only logs. -/
def dispatch (c : TcpConnection) (m : Revents) (r : ReadResult) (w : WriteResult) :
    Branch → TcpConnection
  | .close =>
    let c := { c with stack := .dispatch m .error :: c.stack }
    if m.closes then c.handleClose else c
  | .error => { c with stack := .dispatch m .read :: c.stack }
  | .read =>
    let c := { c with stack := .dispatch m .write :: c.stack }
    if m.reads then c.handleRead r else c
  | .write => if m.epollout then c.handleWrite w else c

/-! ## The machine -/

/-- What user code can do on the loop thread. -/
inductive UserOp where
  | send (message : Bytes) (w : WriteResult)
  | shutdown
  | forceClose
  deriving DecidableEq, Repr

def user (c : TcpConnection) : UserOp → TcpConnection
  | .send message w => c.send message w
  | .shutdown => c.shutdown
  | .forceClose => c.forceClose

/-- What can happen next. -/
inductive Action where
  | connectEstablished
  /-- epoll reports an event, and the loop dispatches it. -/
  | event (revents : Revents)
  /-- The function at the top goes on; the results are those of its system calls. -/
  | resume (r : ReadResult) (w : WriteResult)
  /-- User code, in a callback of this connection or elsewhere on the loop. -/
  | user (op : UserOp)
  /-- The callback returns. -/
  | ret
  /-- The loop runs the next functor of its queue. -/
  | task (w : WriteResult)
  /-- The owner queues `connectDestroyed`. -/
  | removeConnection
  /-- `send`, on another thread. -/
  | postSend (message : Bytes)
  deriving DecidableEq, Repr

def runTask (c : TcpConnection) (w : WriteResult) : LoopTask → TcpConnection
  | .sendInLoop message => c.sendInLoop message w
  | .writeComplete => c.call .writeCompleteCallback []
  | .forceCloseInLoop => c.forceCloseInLoop
  | .connectDestroyed => c.connectDestroyed

/-- The function at the top of the stack goes on. -/
def resume (c : TcpConnection) (r : ReadResult) (w : WriteResult) : Option TcpConnection :=
  match c.stack with
  | [] => none
  | .callback :: _ => none
  | .dispatch m b :: rest => some ({ c with stack := rest }.dispatch m r w b)
  | .afterWriteComplete :: rest => some { c with stack := rest }.afterWriteComplete
  | .afterDisconnected :: rest => some { c with stack := rest }.afterDisconnected
  | .afterDestroyed :: rest => some { c with stack := rest }.afterDestroyed

def step (c : TcpConnection) : Action → Option TcpConnection
  | .connectEstablished =>
    -- the assertion of the source
    if c.stack = [] ∧ c.state = .kConnecting then some c.connectEstablished else none
  | .event m =>
    -- epoll reports nothing of a descriptor that is not in its set
    if c.stack = [] ∧ c.channel.inEpoll = true then
      some { c with stack := [.dispatch m .close] }
    else none
  | .resume r w => c.resume r w
  | .user op =>
    if c.stack = [] ∨ c.stack.head? = some .callback then some (c.user op) else none
  | .ret =>
    match c.stack with
    | .callback :: rest => some { c with stack := rest }
    | _ => none
  | .task w =>
    match c.stack, c.tasks with
    | [], t :: rest => some ({ c with tasks := rest }.runTask w t)
    | _, _ => none
  | .removeConnection =>
    if c.removing then some ({ c with removing := false }.queueInLoop .connectDestroyed) else none
  | .postSend message =>
    -- the other thread has seen `kConnected`, and the connection may have moved on since
    if c.state ≠ .kConnecting then some (c.queueInLoop (.sendInLoop message)) else none

/-- What a step does, with what had to hold for it. -/
inductive Outcome (c : TcpConnection) : Action → TcpConnection → Prop
  | established (hStack : c.stack = []) (hState : c.state = .kConnecting) :
      Outcome c .connectEstablished c.connectEstablished
  | reported (m : Revents) (hStack : c.stack = []) (hEpoll : c.channel.inEpoll = true) :
      Outcome c (.event m) { c with stack := [.dispatch m .close] }
  | dispatched (m : Revents) (b : Branch) (rest : List Frame) (r : ReadResult) (w : WriteResult)
      (hStack : c.stack = .dispatch m b :: rest) :
      Outcome c (.resume r w) ({ c with stack := rest }.dispatch m r w b)
  | afterWriteComplete (rest : List Frame) (r : ReadResult) (w : WriteResult)
      (hStack : c.stack = .afterWriteComplete :: rest) :
      Outcome c (.resume r w) { c with stack := rest }.afterWriteComplete
  | afterDisconnected (rest : List Frame) (r : ReadResult) (w : WriteResult)
      (hStack : c.stack = .afterDisconnected :: rest) :
      Outcome c (.resume r w) { c with stack := rest }.afterDisconnected
  | afterDestroyed (rest : List Frame) (r : ReadResult) (w : WriteResult)
      (hStack : c.stack = .afterDestroyed :: rest) :
      Outcome c (.resume r w) { c with stack := rest }.afterDestroyed
  | user (op : UserOp) : Outcome c (.user op) (c.user op)
  | returned (rest : List Frame) (hStack : c.stack = .callback :: rest) :
      Outcome c .ret { c with stack := rest }
  | ran (w : WriteResult) (t : LoopTask) (rest : List LoopTask) (hStack : c.stack = [])
      (hTasks : c.tasks = t :: rest) : Outcome c (.task w) ({ c with tasks := rest }.runTask w t)
  | removed (hRemoving : c.removing = true) :
      Outcome c .removeConnection ({ c with removing := false }.queueInLoop .connectDestroyed)
  | posted (message : Bytes) (hState : c.state ≠ .kConnecting) :
      Outcome c (.postSend message) (c.queueInLoop (.sendInLoop message))

variable {c c' : TcpConnection}

/-- **Inversion of a step.** -/
theorem step_outcome {a : Action} (h : c.step a = some c') : c.Outcome a c' := by
  cases a with
  | connectEstablished =>
    simp only [step] at h
    split_ifs at h with hStart
    exact Option.some.inj h ▸ .established hStart.1 hStart.2
  | event m =>
    simp only [step] at h
    split_ifs at h with hIdle
    exact Option.some.inj h ▸ .reported m hIdle.1 hIdle.2
  | resume r w =>
    simp only [step, resume] at h
    split at h
    · cases h
    · cases h
    · exact Option.some.inj h ▸ .dispatched _ _ _ r w ‹_›
    · exact Option.some.inj h ▸ .afterWriteComplete _ r w ‹_›
    · exact Option.some.inj h ▸ .afterDisconnected _ r w ‹_›
    · exact Option.some.inj h ▸ .afterDestroyed _ r w ‹_›
  | user op =>
    simp only [step] at h
    split_ifs at h
    exact Option.some.inj h ▸ .user op
  | ret =>
    simp only [step] at h
    split at h
    · exact Option.some.inj h ▸ .returned _ ‹_›
    · cases h
  | task w =>
    simp only [step] at h
    split at h
    · exact Option.some.inj h ▸ .ran w _ _ ‹_› ‹_›
    · cases h
  | removeConnection =>
    simp only [step] at h
    split_ifs at h with hRemoving
    exact Option.some.inj h ▸ .removed hRemoving
  | postSend message =>
    simp only [step] at h
    split_ifs at h with hState
    exact Option.some.inj h ▸ .posted message hState

/-! ## What is logged

The events that are not plain are each logged by one function. All else that the connection
does up to the next callback adds only plain ones. -/

/-- `c'` is `c` with plain events added to its log. -/
def Adds (c c' : TcpConnection) : Prop :=
  ∃ es, c'.log = c.log ++ es ∧ ∀ e ∈ es, e.isPlain = true

theorem Adds.of_eq (h : c'.log = c.log) : Adds c c' :=
  ⟨[], by rw [h, List.append_nil], by simp⟩

theorem Adds.trans {c'' : TcpConnection} (h : Adds c c') (h' : Adds c' c'') : Adds c c'' := by
  obtain ⟨es, hLog, hEs⟩ := h
  obtain ⟨es', hLog', hEs'⟩ := h'
  refine ⟨es ++ es', by rw [hLog', hLog, List.append_assoc], fun e he => ?_⟩
  exact (List.mem_append.mp he).elim (hEs e) (hEs' e)

theorem Adds.mem (h : Adds c c') {e : ConnEvent} (he : e.isPlain = false) :
    e ∈ c'.log ↔ e ∈ c.log := by
  obtain ⟨es, hLog, hEs⟩ := h
  have hNot : e ∉ es := fun hMem => by simp [hEs e hMem] at he
  rw [hLog, List.mem_append, or_iff_left hNot]

theorem adds_record (c : TcpConnection) {e : ConnEvent} (he : e.isPlain = true) :
    Adds c (c.record e) :=
  ⟨[e], rfl, by simpa using he⟩

theorem adds_bufferOutput (c : TcpConnection) (rest : Bytes) : Adds c (c.bufferOutput rest) := by
  simp only [bufferOutput]
  split_ifs
  · exact ⟨[.update], rfl, by simp [ConnEvent.isPlain]⟩
  · exact .of_eq rfl
  · exact .of_eq rfl

theorem adds_writeDirectly (c : TcpConnection) (message : Bytes) (w : WriteResult) :
    Adds c (c.writeDirectly message w) := by
  cases w with
  | accepted n =>
    have hWritten : Adds c (c.record (.written (message.take n))) := adds_record c rfl
    simp only [writeDirectly]
    split_ifs
    · -- queueing the callback is not logged
      have hQueued : Adds (c.record (.written (message.take n)))
          ((c.record (.written (message.take n))).queueInLoop .writeComplete) := .of_eq rfl
      exact (hWritten.trans hQueued).trans (adds_bufferOutput _ _)
    · exact hWritten.trans (adds_bufferOutput _ _)
  | failed errno =>
    simp only [writeDirectly]
    split_ifs
    · exact .of_eq rfl
    · exact adds_bufferOutput c message

theorem adds_sendInLoop (c : TcpConnection) (message : Bytes) (w : WriteResult) :
    Adds (c.record (.sendInLoop message)) (c.sendInLoop message w) := by
  simp only [sendInLoop]
  split_ifs
  · exact .of_eq rfl
  · exact adds_writeDirectly _ message w
  · exact adds_bufferOutput _ message

theorem handleClose_log (c : TcpConnection) :
    c.handleClose.log = c.log ++ [.update, .connectionCallback false] := by
  simp [handleClose, call, updateChannel, connected]

theorem adds_handleClose (c : TcpConnection) : Adds c c.handleClose :=
  ⟨_, handleClose_log c, by simp [ConnEvent.isPlain]⟩

theorem adds_handleRead (c : TcpConnection) (r : ReadResult) : Adds c (c.handleRead r) := by
  cases r with
  | failed errno => exact .of_eq rfl
  | bytes chunk =>
    simp only [handleRead]
    split_ifs
    · exact ⟨[.messageCallback], rfl, by simp [ConnEvent.isPlain]⟩
    · exact .of_eq rfl
    · exact (adds_record c (e := .eofClose c.outputBuffer.readableBytes) rfl).trans
        (adds_handleClose _)

theorem adds_handleWrite (c : TcpConnection) (w : WriteResult) : Adds c (c.handleWrite w) := by
  cases w with
  | failed errno =>
    simp only [handleWrite]
    split_ifs <;> exact .of_eq rfl
  | accepted n =>
    simp only [handleWrite]
    split_ifs
    · exact ⟨[.written (c.outputBuffer.contents.take n), .update, .writeCompleteCallback],
        by simp [call, updateChannel, record], by simp [ConnEvent.isPlain]⟩
    · exact ⟨[.written (c.outputBuffer.contents.take n)], rfl, by simp [ConnEvent.isPlain]⟩
    · exact .of_eq rfl
    · exact .of_eq rfl

theorem adds_dispatch (c : TcpConnection) (m : Revents) (r : ReadResult) (w : WriteResult)
    (b : Branch) : Adds c (c.dispatch m r w b) := by
  cases b with
  | close =>
    simp only [dispatch]
    split_ifs
    · exact adds_handleClose { c with stack := .dispatch m .error :: c.stack }
    · exact .of_eq rfl
  | error => exact .of_eq rfl
  | read =>
    simp only [dispatch]
    split_ifs
    · exact adds_handleRead { c with stack := .dispatch m .write :: c.stack } r
    · exact .of_eq rfl
  | write =>
    simp only [dispatch]
    split_ifs
    · exact adds_handleWrite c w
    · exact .of_eq rfl

/-! A dispatch queues nothing, and it is not the end of a close. -/

theorem handleRead_frame (c : TcpConnection) (r : ReadResult) :
    (c.handleRead r).tasks = c.tasks ∧ (c.handleRead r).removing = c.removing := by
  cases r with
  | failed errno => exact ⟨rfl, rfl⟩
  | bytes chunk =>
    simp only [handleRead]
    split_ifs <;> exact ⟨rfl, rfl⟩

theorem handleWrite_frame (c : TcpConnection) (w : WriteResult) :
    (c.handleWrite w).tasks = c.tasks ∧ (c.handleWrite w).removing = c.removing := by
  cases w <;> simp only [handleWrite] <;> split_ifs <;> exact ⟨rfl, rfl⟩

theorem dispatch_frame (c : TcpConnection) (m : Revents) (r : ReadResult) (w : WriteResult)
    (b : Branch) :
    (c.dispatch m r w b).tasks = c.tasks ∧ (c.dispatch m r w b).removing = c.removing := by
  cases b with
  | close =>
    simp only [dispatch]
    split_ifs <;> exact ⟨rfl, rfl⟩
  | error => exact ⟨rfl, rfl⟩
  | read =>
    simp only [dispatch]
    split_ifs
    · exact handleRead_frame { c with stack := .dispatch m .write :: c.stack } r
    · exact ⟨rfl, rfl⟩
  | write =>
    simp only [dispatch]
    split_ifs
    · exact handleWrite_frame c w
    · exact ⟨rfl, rfl⟩

end TcpConnection

end ReactorNet
