import ReactorNet.Net.TcpConnection

/-!
# ReactorNet — the life of a connection

A connection is fresh, then up, then down. `Fresh`, `Up` and `Down` say for each of
these times what the state, the channel, the queue, the stack and the log are, and every
step leads from one of them to the same or to the next (`lifecycle_step`).

The close can be reached from the end of the peer's stream, from a hang-up and from a
forced close, while other functions of the connection are still on the stack or in the
queue. What they may still do is written into `Frame.whileDown`: a dispatch that goes on
after the close has no read branch ahead of it. That is where the one assumption on
epoll is needed, `Revents.Reported`.

Main result: `connection_lifecycle`.
-/

namespace ReactorNet

open Lib

/-- What is assumed of epoll: with a hang-up and nothing to read, no other event that
`handleEventWithGuard` takes for readable is reported. -/
def Revents.Reported (m : Revents) : Prop :=
  m.epollhup = true → m.epollin = false → m.epollpri = false ∧ m.epollrdhup = false

instance (m : Revents) : Decidable m.Reported := inferInstanceAs (Decidable (_ → _ → _))

theorem Revents.Reported.reads {m : Revents} (h : m.Reported) (hCloses : m.closes = true) :
    m.reads = false := by
  unfold Revents.closes at hCloses
  rw [Bool.and_eq_true, Bool.not_eq_true'] at hCloses
  obtain ⟨hPri, hRdhup⟩ := h hCloses.1 hCloses.2
  simp [Revents.reads, hCloses.2, hPri, hRdhup]

/-- The order of the states. -/
def StateE.rank : StateE → Nat
  | .kConnecting => 0
  | .kConnected => 1
  | .kDisconnecting => 2
  | .kDisconnected => 3

theorem StateE.eq_kConnecting {s : StateE} (h : s.rank ≤ 0) : s = .kConnecting := by
  cases s <;> simp_all [rank]

/-- Events of the output path, which say nothing about the life of the connection. -/
def ConnEvent.isOutput : ConnEvent → Bool
  | .sendInLoop _ | .written _ | .shutdownWrite _ | .update => true
  | _ => false

/-- The notifications, which say that the connection is up, down or closed. -/
def ConnEvent.isNotification : ConnEvent → Bool
  | .connectionCallback _ | .closeCallback => true
  | _ => false

theorem ConnEvent.not_isNotification {e : ConnEvent} (h : e.isOutput = true) :
    e.isNotification = false := by
  cases e <;> simp_all [isOutput, isNotification]

def Frame.isDispatch : Frame → Bool
  | .dispatch _ _ => true
  | _ => false

/-- What may be on the stack of a connection that is up. -/
def Frame.whileUp : Frame → Prop
  | .afterDisconnected | .afterDestroyed => False
  | .dispatch m _ => m.Reported
  | _ => True

/-- What may be on the stack of a connection that is down: no `handleWrite` goes on, and a
dispatch is past the close branch and has nothing to read. -/
def Frame.whileDown : Frame → Prop
  | .dispatch _ .write => True
  | .dispatch _ .close => False
  | .dispatch m _ => m.reads = false
  | .afterWriteComplete => False
  | _ => True

namespace TcpConnection

variable {c c' c'' : TcpConnection}

/-! ## The output path -/

/-- `c'` is `c` after work on the output path. -/
structure Works (c c' : TcpConnection) : Prop where
  state : c'.state = c.state
  stack : c'.stack = c.stack
  removing : c'.removing = c.removing
  reading : c'.channel.reading = c.channel.reading
  inEpoll : c.channel.reading = true → c.channel.inEpoll = true → c'.channel.inEpoll = true
  log : ∃ es, c'.log = c.log ++ es ∧ ∀ e ∈ es, e.isOutput = true
  tasks : ∃ ts, c'.tasks = c.tasks ++ ts ∧ ∀ t ∈ ts, t = .writeComplete

theorem Works.refl (c : TcpConnection) : Works c c where
  state := rfl
  stack := rfl
  removing := rfl
  reading := rfl
  inEpoll _ h := h
  log := ⟨[], by simp⟩
  tasks := ⟨[], by simp⟩

theorem Works.trans (h : Works c c') (h' : Works c' c'') : Works c c'' := by
  obtain ⟨es, hLog, hEs⟩ := h.log
  obtain ⟨es', hLog', hEs'⟩ := h'.log
  obtain ⟨ts, hTasks, hTs⟩ := h.tasks
  obtain ⟨ts', hTasks', hTs'⟩ := h'.tasks
  exact
    { state := h'.state.trans h.state
      stack := h'.stack.trans h.stack
      removing := h'.removing.trans h.removing
      reading := h'.reading.trans h.reading
      inEpoll := fun hr hi => h'.inEpoll (h.reading.trans hr) (h.inEpoll hr hi)
      log := ⟨es ++ es', by rw [hLog', hLog, List.append_assoc], fun e he =>
        (List.mem_append.mp he).elim (hEs e) (hEs' e)⟩
      tasks := ⟨ts ++ ts', by rw [hTasks', hTasks, List.append_assoc], fun t ht =>
        (List.mem_append.mp ht).elim (hTs t) (hTs' t)⟩ }

theorem works_record (c : TcpConnection) {e : ConnEvent} (h : e.isOutput = true) :
    Works c (c.record e) where
  state := rfl
  stack := rfl
  removing := rfl
  reading := rfl
  inEpoll _ h := h
  log := ⟨[e], rfl, fun e' he => (List.mem_singleton.mp he) ▸ h⟩
  tasks := ⟨[], by simp [record]⟩

theorem works_bufferOutput (c : TcpConnection) (rest : Bytes) : Works c (c.bufferOutput rest) := by
  have hAppend : Works c { c with outputBuffer := c.outputBuffer.append rest } :=
    { Works.refl c with }
  unfold bufferOutput
  simp only
  split_ifs
  · -- the interest in writing is added to that in reading
    refine hAppend.trans
      { state := rfl, stack := rfl, removing := rfl, tasks := ⟨[], by simp [updateChannel]⟩
        reading := ?_
        inEpoll := ?_
        log := ⟨[.update], rfl, by simp [ConnEvent.isOutput]⟩ }
    · simp only [updateChannel, Channel.enableWriting, Channel.update]
      split <;> rfl
    · intro _ _
      simp only [updateChannel, Channel.enableWriting, Channel.update]
      split <;> simp
  · exact hAppend
  · exact Works.refl c

theorem works_writeDirectly (c : TcpConnection) (message : Bytes) (w : WriteResult) :
    Works c (c.writeDirectly message w) := by
  cases w with
  | accepted n =>
    have hRecord := works_record c (e := .written (message.take n)) rfl
    have hQueue : Works (c.record (.written (message.take n)))
        ((c.record (.written (message.take n))).queueInLoop .writeComplete) :=
      { Works.refl _ with tasks := ⟨[.writeComplete], rfl, by simp⟩ }
    unfold writeDirectly
    simp only
    split_ifs
    · exact (hRecord.trans hQueue).trans (works_bufferOutput _ _)
    · exact hRecord.trans (works_bufferOutput _ _)
  | failed errno =>
    unfold writeDirectly
    simp only
    split_ifs
    · exact Works.refl c
    · exact works_bufferOutput c message

theorem works_sendInLoop (c : TcpConnection) (message : Bytes) (w : WriteResult) :
    Works c (c.sendInLoop message w) := by
  have hRecord := works_record c (e := .sendInLoop message) rfl
  unfold sendInLoop
  simp only
  split_ifs
  · exact hRecord
  · exact hRecord.trans (works_writeDirectly _ _ _)
  · exact hRecord.trans (works_bufferOutput _ _)

theorem works_shutdownInLoop (c : TcpConnection) : Works c c.shutdownInLoop := by
  unfold shutdownInLoop
  split_ifs
  · exact works_record c rfl
  · exact Works.refl c

theorem works_afterWriteComplete (c : TcpConnection) : Works c c.afterWriteComplete := by
  unfold TcpConnection.afterWriteComplete
  split_ifs
  · exact works_shutdownInLoop c
  · exact Works.refl c

/-- What user code does to a connection is output work, once the state and the queued functors
are set. -/
theorem works_user (c : TcpConnection) (op : UserOp) :
    ∃ state tasks, (state = c.state ∨ state = .kDisconnecting) ∧
      Works { c with state := state, tasks := tasks } (c.user op) := by
  cases op with
  | send message w =>
    refine ⟨c.state, c.tasks, .inl rfl, ?_⟩
    simp only [TcpConnection.user, send]
    split_ifs
    · exact works_sendInLoop c message w
    · exact Works.refl c
  | shutdown =>
    simp only [TcpConnection.user, shutdown]
    split_ifs
    · exact ⟨.kDisconnecting, c.tasks, .inr rfl, works_shutdownInLoop _⟩
    · exact ⟨c.state, c.tasks, .inl rfl, Works.refl c⟩
  | forceClose =>
    simp only [TcpConnection.user, forceClose]
    split_ifs
    · exact ⟨.kDisconnecting, c.tasks ++ [.forceCloseInLoop], .inr rfl, Works.refl _⟩
    · exact ⟨c.state, c.tasks, .inl rfl, Works.refl c⟩

/-! ## Fresh, up and down -/

/-- Before `connectEstablished`. -/
structure Fresh (c : TcpConnection) : Prop where
  state : c.state = .kConnecting
  channel : c.channel = {}
  log : c.log = []
  tasks : c.tasks = []
  stack : c.stack = []
  removing : c.removing = false

/-- Between `connectEstablished` and the close. -/
structure Up (c : TcpConnection) : Prop where
  state : c.state = .kConnected ∨ c.state = .kDisconnecting
  reading : c.channel.reading = true
  inEpoll : c.channel.inEpoll = true
  notified : c.log.count (.connectionCallback true) = 1
  notDown : .connectionCallback false ∉ c.log
  notClosed : .closeCallback ∉ c.log
  tasks : .connectDestroyed ∉ c.tasks
  frames : ∀ f ∈ c.stack, f.whileUp
  /-- A dispatch is called by the loop, and by nothing else. -/
  bottom : c.stack.Pairwise fun f _ => f.isDispatch = false
  removing : c.removing = false

/-- After the close. -/
structure Down (c : TcpConnection) : Prop where
  state : c.state = .kDisconnected
  inEpoll : c.channel.inEpoll = false
  writing : c.channel.writing = false
  notified : c.log.count (.connectionCallback true) = 1
  notifiedDown : c.log.count (.connectionCallback false) = 1
  /-- The close callback ran, or is the next thing that `handleClose` does. -/
  closed : c.log.count .closeCallback + c.stack.count .afterDisconnected = 1
  quiet : c.log.Pairwise fun a b =>
    a = .connectionCallback false → b ≠ .messageCallback ∧ b ≠ .update
  order : c.log.Pairwise fun a b => a = .closeCallback → b ≠ .connectionCallback false
  frames : ∀ f ∈ c.stack, f.whileDown

/-- **The invariant of a connection.** -/
def Lifecycle (c : TcpConnection) : Prop := Fresh c ∨ Up c ∨ Down c

theorem Up.ne_disconnected (h : Up c) : c.state ≠ .kDisconnected := by
  rcases h.state with h | h <;> simp [h]

theorem Up.ne_connecting (h : Up c) : c.state ≠ .kConnecting := by
  rcases h.state with h | h <;> simp [h]

theorem Down.ne_connected (h : Down c) : c.state ≠ .kConnected := by
  simp [h.state]

/-- A connection that is up stays up as long as nothing is notified. -/
theorem Up.extend (h : Up c) (es : List ConnEvent)
    (hState : c'.state = .kConnected ∨ c'.state = .kDisconnecting)
    (hReading : c'.channel.reading = true) (hEpoll : c'.channel.inEpoll = true)
    (hLog : c'.log = c.log ++ es) (hEs : ∀ e ∈ es, e.isNotification = false)
    (hTasks : .connectDestroyed ∉ c'.tasks) (hFrames : ∀ f ∈ c'.stack, f.whileUp)
    (hBottom : c'.stack.Pairwise fun f _ => f.isDispatch = false)
    (hRemoving : c'.removing = c.removing) : Up c' := by
  have hNot : ∀ e, e.isNotification = true → e ∉ es := fun e he hMem => by
    simp [hEs e hMem] at he
  exact
    { state := hState
      reading := hReading
      inEpoll := hEpoll
      notified := by
        rw [hLog, List.count_append, h.notified, List.count_eq_zero_of_not_mem (hNot _ rfl)]
      notDown := by
        rw [hLog, List.mem_append, not_or]
        exact ⟨h.notDown, hNot _ rfl⟩
      notClosed := by
        rw [hLog, List.mem_append, not_or]
        exact ⟨h.notClosed, hNot _ rfl⟩
      tasks := hTasks
      frames := hFrames
      bottom := hBottom
      removing := hRemoving.trans h.removing }

theorem Up.works (h : Up c) (hWorks : Works c c') : Up c' := by
  obtain ⟨es, hLog, hEs⟩ := hWorks.log
  obtain ⟨ts, hTasks, hTs⟩ := hWorks.tasks
  refine h.extend _ ?_ (hWorks.reading.trans h.reading) (hWorks.inEpoll h.reading h.inEpoll) hLog
    (fun e he => ConnEvent.not_isNotification (hEs e he)) ?_ ?_ ?_ hWorks.removing
  · rw [hWorks.state]
    exact h.state
  · rw [hTasks, List.mem_append, not_or]
    exact ⟨h.tasks, fun ht => by simpa using hTs _ ht⟩
  · rw [hWorks.stack]
    exact h.frames
  · rw [hWorks.stack]
    exact h.bottom

/-- A connection that is down stays down, and there is little it can still log. -/
theorem Down.extend (h : Down c) (es : List ConnEvent) (hState : c'.state = .kDisconnected)
    (hEpoll : c'.channel.inEpoll = false) (hWriting : c'.channel.writing = false)
    (hLog : c'.log = c.log ++ es)
    (hEs : ∀ e ∈ es, e.isNotification = false ∧ e ≠ .messageCallback ∧ e ≠ .update)
    (hClosed : c'.stack.count .afterDisconnected = c.stack.count .afterDisconnected)
    (hFrames : ∀ f ∈ c'.stack, f.whileDown) : Down c' := by
  have hNot : ∀ e, e.isNotification = true → e ∉ es := fun e he hMem => by
    simp [(hEs e hMem).1] at he
  have hSame : ∀ e, e.isNotification = true → c'.log.count e = c.log.count e := fun e he => by
    rw [hLog, List.count_append, List.count_eq_zero_of_not_mem (hNot e he), Nat.add_zero]
  exact
    { state := hState
      inEpoll := hEpoll
      writing := hWriting
      notified := (hSame _ rfl).trans h.notified
      notifiedDown := (hSame _ rfl).trans h.notifiedDown
      closed := by rw [hSame _ rfl, hClosed, h.closed]
      quiet := by
        rw [hLog, List.pairwise_append]
        exact ⟨h.quiet, List.pairwise_of_forall_mem_list fun a ha b hb _ => (hEs b hb).2,
          fun a _ b hb _ => (hEs b hb).2⟩
      order := by
        rw [hLog, List.pairwise_append]
        exact ⟨h.order, List.pairwise_of_forall_mem_list fun a _ b hb _ hEq =>
          hNot _ rfl (hEq ▸ hb), fun a _ b hb _ hEq => hNot _ rfl (hEq ▸ hb)⟩
      frames := hFrames }

/-! ## The transitions -/

theorem Fresh.connectEstablished (h : Fresh c) : Up c.connectEstablished where
  state := .inl rfl
  reading := by simp [TcpConnection.connectEstablished, call, updateChannel, h.channel,
    Channel.enableReading, Channel.update]
  inEpoll := by simp [TcpConnection.connectEstablished, call, updateChannel, h.channel,
    Channel.enableReading, Channel.update]
  notified := by simp [TcpConnection.connectEstablished, call, updateChannel, h.log, connected]
  notDown := by simp [TcpConnection.connectEstablished, call, updateChannel, h.log, connected]
  notClosed := by simp [TcpConnection.connectEstablished, call, updateChannel, h.log]
  tasks := by simp [TcpConnection.connectEstablished, call, updateChannel, h.tasks]
  frames := by simp [TcpConnection.connectEstablished, call, updateChannel, h.stack, Frame.whileUp]
  bottom := by simp [TcpConnection.connectEstablished, call, updateChannel, h.stack]
  removing := h.removing

/-- **The close.** It is reached once, from a connection that is up, and the functions on
the stack have to be those that may go on after it. -/
theorem Up.handleClose (h : Up c) (hFrames : ∀ f ∈ c.stack, f.whileDown) :
    Down c.handleClose := by
  have hLog := handleClose_log c
  have hStack : c.handleClose.stack = .callback :: .afterDisconnected :: c.stack := rfl
  -- no function on the stack is a close that goes on
  have hCount : c.stack.count .afterDisconnected = 0 :=
    List.count_eq_zero_of_not_mem fun hMem => h.frames _ hMem
  have hChannel : c.handleClose.channel = c.channel.disableAll := rfl
  exact
    { state := rfl
      inEpoll := by simp [hChannel, Channel.disableAll, Channel.update, h.inEpoll]
      writing := by simp [hChannel, Channel.disableAll, Channel.update, h.inEpoll]
      notified := by rw [hLog, List.count_append, h.notified]; rfl
      notifiedDown := by
        rw [hLog, List.count_append, List.count_eq_zero_of_not_mem h.notDown]
        rfl
      closed := by
        have hClose : c.handleClose.log.count .closeCallback = 0 :=
          List.count_eq_zero_of_not_mem (by simpa [hLog] using h.notClosed)
        rw [hClose, hStack, List.count_cons_of_ne (by simp), List.count_cons_self, hCount]
      quiet := by
        rw [hLog, List.pairwise_append]
        refine ⟨List.pairwise_of_forall_mem_list fun a ha b _ hEq => ?_, by simp, ?_⟩
        · exact absurd (hEq ▸ ha) h.notDown
        · exact fun a ha b _ hEq => absurd (hEq ▸ ha) h.notDown
      order := by
        rw [hLog, List.pairwise_append]
        refine ⟨List.pairwise_of_forall_mem_list fun a ha b _ hEq => ?_, by simp, ?_⟩
        · exact absurd (hEq ▸ ha) h.notClosed
        · exact fun a ha b _ hEq => absurd (hEq ▸ ha) h.notClosed
      frames := by
        rw [hStack]
        simpa [Frame.whileDown] using hFrames }

variable {rest : List Frame} {a : Action}

/-- The close callback runs, and takes `handleClose` off the stack. -/
theorem Down.afterDisconnected (h : Down c) (hStack : c.stack = .afterDisconnected :: rest) :
    Down { c with stack := rest }.afterDisconnected := by
  have hLog : { c with stack := rest }.afterDisconnected.log = c.log ++ [.closeCallback] := rfl
  have hRest : { c with stack := rest }.afterDisconnected.stack = rest := rfl
  have hClosed := h.closed
  rw [hStack, List.count_cons_self] at hClosed
  exact
    { state := h.state
      inEpoll := h.inEpoll
      writing := h.writing
      notified := by rw [hLog, List.count_append, h.notified]; rfl
      notifiedDown := by rw [hLog, List.count_append, h.notifiedDown]; rfl
      closed := by
        rw [hLog, hRest, List.count_append, List.count_singleton_self]
        omega
      quiet := by
        rw [hLog, List.pairwise_append]
        exact ⟨h.quiet, by simp, by simp⟩
      order := by
        rw [hLog, List.pairwise_append]
        exact ⟨h.order, by simp, by simp⟩
      frames := fun f hf => h.frames f (hStack ▸ List.mem_cons_of_mem _ hf) }

/-! ## Every step

A connection that is up or down does its next step; which of the two it is afterwards
depends on whether `handleClose` was reached. -/

/-- The step is one that closes the connection: a hang-up, the end of the peer's stream with
nothing left to write, or the functor of a forced close. -/
def Closes (c : TcpConnection) : Action → Prop
  | .resume r _ =>
    match c.stack with
    | .dispatch m .close :: _ => m.closes = true
    | .dispatch m .read :: _ =>
      m.reads = true ∧ r = .bytes [] ∧ c.outputBuffer.readableBytes = 0
    | _ => False
  | .task _ => c.stack = [] ∧ c.tasks.head? = some .forceCloseInLoop
  | _ => False

instance (c : TcpConnection) (a : Action) : Decidable (c.Closes a) := by
  unfold Closes
  split <;> [split; skip; skip] <;> infer_instance

theorem Up.setStack (h : Up c) {stack : List Frame} (hFrames : ∀ f ∈ stack, f.whileUp)
    (hBottom : stack.Pairwise fun f _ => f.isDispatch = false) : Up { c with stack := stack } :=
  { h with frames := hFrames, bottom := hBottom }

theorem Down.setStack (h : Down c) {stack : List Frame}
    (hClosed : stack.count .afterDisconnected = c.stack.count .afterDisconnected)
    (hFrames : ∀ f ∈ stack, f.whileDown) : Down { c with stack := stack } :=
  { h with closed := by rw [← h.closed, ← hClosed], frames := hFrames }

theorem Up.setDisconnecting (h : Up c) : Up { c with state := .kDisconnecting } :=
  { h with state := .inr rfl }

/-- User code of a callback is on top of what was on the stack. -/
theorem Up.call (h : Up c) {e : ConnEvent} (hE : e.isNotification = false) {next : List Frame}
    (hNext : ∀ f ∈ next, f.whileUp) (hBottom : ∀ f ∈ next, f.isDispatch = false) :
    Up (c.call e next) := by
  refine h.extend [e] h.state h.reading h.inEpoll rfl (by simpa using hE) h.tasks ?_ ?_ rfl
  · intro f hf
    rcases List.mem_cons.mp hf with rfl | hf
    · trivial
    · exact (List.mem_append.mp hf).elim (hNext f) (h.frames f)
  · refine List.pairwise_cons.mpr ⟨fun _ _ => rfl, List.pairwise_append.mpr ⟨?_, h.bottom, ?_⟩⟩
    · exact List.pairwise_of_forall_mem_list fun f hf _ _ => hBottom f hf
    · exact fun f hf _ _ => hBottom f hf

theorem Up.handleRead (h : Up c) (hFrames : ∀ f ∈ c.stack, f.whileDown) (r : ReadResult) :
    Up (c.handleRead r) ∨
      (r = .bytes [] ∧ c.outputBuffer.readableBytes = 0) ∧ Down (c.handleRead r) := by
  cases r with
  | failed errno => exact .inl h
  | bytes chunk =>
    unfold TcpConnection.handleRead
    simp only
    split_ifs with hChunk hOutput
    · have hInput : Up { c with inputBuffer := c.inputBuffer.append chunk } := { h with }
      exact .inl (hInput.call rfl (by simp) (by simp))
    · exact .inl h.setDisconnecting
    · -- the end of the stream, with nothing left to write
      have hRecord : Up (c.record (.eofClose c.outputBuffer.readableBytes)) :=
        h.extend [.eofClose c.outputBuffer.readableBytes] h.state h.reading h.inEpoll
          rfl (by simp [ConnEvent.isNotification]) h.tasks h.frames h.bottom rfl
      obtain rfl : chunk = [] := List.length_eq_zero_iff.mp (Nat.eq_zero_of_not_pos hChunk)
      exact .inr ⟨⟨rfl, Nat.eq_zero_of_not_pos hOutput⟩, hRecord.handleClose hFrames⟩

theorem Up.handleWrite (h : Up c) (w : WriteResult) : Up (c.handleWrite w) := by
  unfold TcpConnection.handleWrite
  split_ifs
  · cases w with
    | failed errno => exact h
    | accepted n =>
      simp only
      have hRetrieve : Up { c with
          outputBuffer := c.outputBuffer.retrieve (c.outputBuffer.contents.take n).length } :=
        { h with }
      split_ifs
      · -- the buffer is empty: the interest in reading keeps the channel in the set
        have hWritten := hRetrieve.works
          (works_record _ (e := .written (c.outputBuffer.contents.take n)) rfl)
        refine Up.call ?_ rfl (by simp [Frame.whileUp]) (by simp [Frame.isDispatch])
        refine hWritten.extend [.update] hWritten.state ?_ ?_ rfl
          (by simp [ConnEvent.isNotification]) hWritten.tasks hWritten.frames hWritten.bottom rfl
        · have hReading := hWritten.reading
          simp only [updateChannel, Channel.disableWriting, Channel.update]
          split <;> exact hReading
        · have hReading := hWritten.reading
          simp only [updateChannel, Channel.disableWriting, Channel.update]
          split
          · simp only [hReading, Bool.true_or]
          · rfl
      · exact hRetrieve.works (works_record _ rfl)
      · exact hRetrieve
  · exact h

theorem Down.handleWrite (h : Down c) (w : WriteResult) : c.handleWrite w = c := by
  simp [TcpConnection.handleWrite, h.writing]

/-- A dispatch is called by the loop, so there is nothing below it. -/
theorem Up.alone (h : Up c) {m : Revents} {b : Branch} (hStack : c.stack = .dispatch m b :: rest) :
    rest = [] := by
  have hBottom := h.bottom
  rw [hStack, List.pairwise_cons] at hBottom
  refine List.eq_nil_iff_forall_not_mem.mpr fun f hf => ?_
  have := hBottom.1 f hf
  simp [Frame.isDispatch] at this

/-- A dispatch goes on, on a connection that is up. -/
theorem Up.dispatch (h : Up c) {m : Revents} {b : Branch}
    (hStack : c.stack = .dispatch m b :: rest) (r : ReadResult) (w : WriteResult) :
    Up ({ c with stack := rest }.dispatch m r w b) ∨
      c.Closes (.resume r w) ∧ Down ({ c with stack := rest }.dispatch m r w b) := by
  have hm : (Frame.dispatch m b).whileUp := h.frames _ (hStack ▸ List.mem_cons_self ..)
  obtain rfl := h.alone hStack
  have hNext : ∀ next, Up { c with stack := [.dispatch m next] } := fun next =>
    h.setStack (List.forall_mem_singleton.mpr hm) (by simp)
  cases b with
  | close =>
    simp only [TcpConnection.dispatch]
    split_ifs with hCloses
    · -- the branches ahead of a hang-up have nothing to read
      refine .inr ⟨by simpa [Closes, hStack] using hCloses, (hNext .error).handleClose ?_⟩
      simp [Frame.whileDown, Revents.Reported.reads hm hCloses]
    · exact .inl (hNext .error)
  | error => exact .inl (hNext .read)
  | read =>
    simp only [TcpConnection.dispatch]
    split_ifs with hReads
    · refine ((hNext .write).handleRead (by simp [Frame.whileDown]) r).imp_right fun hDown => ?_
      exact ⟨by simpa [Closes, hStack] using ⟨hReads, hDown.1⟩, hDown.2⟩
    · exact .inl (hNext .write)
  | write =>
    have hEmpty : Up { c with stack := [] } := h.setStack (by simp) (by simp)
    simp only [TcpConnection.dispatch]
    split_ifs
    · exact .inl (hEmpty.handleWrite w)
    · exact .inl hEmpty

/-- A dispatch goes on, on a connection that is down: it has nothing left to do. -/
theorem Down.dispatch (h : Down c) {m : Revents} {b : Branch}
    (hStack : c.stack = .dispatch m b :: rest) (r : ReadResult) (w : WriteResult) :
    Down ({ c with stack := rest }.dispatch m r w b) := by
  have hFrame := h.frames _ (hStack ▸ List.mem_cons_self ..)
  have hRest : ∀ f ∈ rest, f.whileDown := fun f hf =>
    h.frames f (hStack ▸ List.mem_cons_of_mem _ hf)
  have hCount : rest.count .afterDisconnected = c.stack.count .afterDisconnected := by
    rw [hStack, List.count_cons_of_ne (by simp)]
  have hNext : ∀ next, (Frame.dispatch m next).whileDown →
      Down { c with stack := .dispatch m next :: rest } := fun next hWhile =>
    h.setStack (by rw [List.count_cons_of_ne (by simp), hCount])
      (List.forall_mem_cons.mpr ⟨hWhile, hRest⟩)
  cases b with
  | close => exact absurd hFrame (by simp [Frame.whileDown])
  | error => exact hNext .read hFrame
  | read =>
    simp only [TcpConnection.dispatch]
    rw [if_neg (by simpa [Frame.whileDown] using hFrame)]
    exact hNext .write trivial
  | write =>
    have hEmpty : Down { c with stack := rest } := h.setStack hCount hRest
    simp only [TcpConnection.dispatch, hEmpty.handleWrite]
    split_ifs <;> exact hEmpty

theorem Up.user (h : Up c) (op : UserOp) : Up (c.user op) := by
  cases op with
  | send message w =>
    simp only [TcpConnection.user, send]
    split_ifs
    · exact h.works (works_sendInLoop c message w)
    · exact h
  | shutdown =>
    simp only [TcpConnection.user, shutdown]
    split_ifs
    · exact h.setDisconnecting.works (works_shutdownInLoop _)
    · exact h
  | forceClose =>
    simp only [TcpConnection.user, forceClose, if_pos h.state]
    exact { h.setDisconnecting with tasks := by simpa [queueInLoop] using h.tasks }

/-- User code can do nothing with a connection that is fresh or down. -/
theorem user_of_ne (h : c.state ≠ .kConnected) (h' : c.state ≠ .kDisconnecting) (op : UserOp) :
    c.user op = c := by
  cases op <;> simp [TcpConnection.user, send, shutdown, forceClose, h, h']

theorem Up.runTask (h : Up c) {t : LoopTask} {rest : List LoopTask} (hTasks : c.tasks = t :: rest)
    (hStack : c.stack = []) (w : WriteResult) :
    Up ({ c with tasks := rest }.runTask w t) ∨
      c.Closes (.task w) ∧ Down ({ c with tasks := rest }.runTask w t) := by
  have hNot := h.tasks
  rw [hTasks, List.mem_cons, not_or] at hNot
  have hPopped : Up { c with tasks := rest } := { h with tasks := hNot.2 }
  cases t with
  | sendInLoop message => exact .inl (hPopped.works (works_sendInLoop _ message w))
  | writeComplete => exact .inl (hPopped.call rfl (by simp) (by simp))
  | forceCloseInLoop =>
    simp only [TcpConnection.runTask, forceCloseInLoop, if_pos h.state]
    exact .inr ⟨by simp [Closes, hStack, hTasks], hPopped.handleClose (by simp [hStack])⟩
  | connectDestroyed => exact absurd rfl hNot.1

/-- What the functors find of a connection that is down. -/
theorem sendInLoop_of_disconnected (h : c.state = .kDisconnected) (message : Bytes)
    (w : WriteResult) : c.sendInLoop message w = c.record (.sendInLoop message) := by
  have hState : (c.record (.sendInLoop message)).state = .kDisconnected := h
  simp only [sendInLoop, hState, if_true]

theorem forceCloseInLoop_of_disconnected (h : c.state = .kDisconnected) :
    c.forceCloseInLoop = c := by
  simp [forceCloseInLoop, h]

theorem connectDestroyed_of_disconnected (h : c.state = .kDisconnected) :
    c.connectDestroyed = { c with stack := .afterDestroyed :: c.stack } := by
  rw [connectDestroyed, if_neg (by simp [h])]

theorem Down.runTask (h : Down c) {t : LoopTask} {rest : List LoopTask} (hStack : c.stack = [])
    (w : WriteResult) : Down ({ c with tasks := rest }.runTask w t) := by
  have hPopped : Down { c with tasks := rest } := { h with }
  cases t with
  | sendInLoop message =>
    simp only [TcpConnection.runTask, sendInLoop_of_disconnected hPopped.state]
    exact h.extend [.sendInLoop message] h.state h.inEpoll h.writing rfl
      (by simp [ConnEvent.isNotification]) rfl h.frames
  | writeComplete =>
    refine h.extend [.writeCompleteCallback] h.state h.inEpoll h.writing rfl
      (by simp [ConnEvent.isNotification]) ?_ ?_
    · simp [TcpConnection.runTask, TcpConnection.call]
    · simpa [TcpConnection.runTask, TcpConnection.call, Frame.whileDown] using h.frames
  | forceCloseInLoop =>
    simp only [TcpConnection.runTask, forceCloseInLoop_of_disconnected hPopped.state]
    exact hPopped
  | connectDestroyed =>
    simp only [TcpConnection.runTask, connectDestroyed_of_disconnected hPopped.state]
    exact hPopped.setStack (by simp) (by simp [hStack, Frame.whileDown])

/-- The mask that a step reports, if it reports one, is one that epoll can report. -/
def Action.Reported : Action → Prop
  | .event m => m.Reported
  | _ => True

instance : ∀ a : Action, Decidable a.Reported
  | .event m => inferInstanceAs (Decidable m.Reported)
  | .connectEstablished | .resume .. | .user _ | .ret | .task _ | .removeConnection
  | .postSend _ => .isTrue trivial

/-- The function at the top of the stack is left. -/
theorem Up.pop (h : Up c) {f : Frame} (hStack : c.stack = f :: rest) :
    Up { c with stack := rest } := by
  have hBottom := h.bottom
  rw [hStack, List.pairwise_cons] at hBottom
  exact h.setStack (fun f hf => h.frames f (hStack ▸ List.mem_cons_of_mem _ hf)) hBottom.2

theorem Down.pop (h : Down c) {f : Frame} (hStack : c.stack = f :: rest)
    (hf : f ≠ .afterDisconnected) : Down { c with stack := rest } :=
  h.setStack (by rw [hStack, List.count_cons_of_ne hf]) fun f hf =>
    h.frames f (hStack ▸ List.mem_cons_of_mem _ hf)

/-- A connection that is up goes down only in a step that closes it. -/
theorem Up.step (h : Up c) (ha : a.Reported) (hStep : c.step a = some c') :
    Up c' ∨ c.Closes a ∧ Down c' := by
  cases step_outcome hStep with
  | established _ hState => exact absurd hState h.ne_connecting
  | reported m => exact .inl (h.setStack (List.forall_mem_singleton.mpr ha) (by simp))
  | dispatched m b rest r w hStack => exact h.dispatch hStack r w
  | afterWriteComplete rest r w hStack =>
    -- the rest of `handleWrite` is output work
    exact .inl ((h.pop hStack).works (works_afterWriteComplete _))
  | afterDisconnected rest r w hStack | afterDestroyed rest r w hStack =>
    exact absurd (h.frames _ (hStack ▸ List.mem_cons_self ..)) (by simp [Frame.whileUp])
  | user op => exact .inl (h.user op)
  | returned rest hStack => exact .inl (h.pop hStack)
  | ran w t rest hStack hTasks => exact h.runTask hTasks hStack w
  | removed hRemoving => simp [h.removing] at hRemoving
  | posted message => exact .inl { h with tasks := by simpa [queueInLoop] using h.tasks }

theorem Down.step (h : Down c) (hStep : c.step a = some c') : Down c' := by
  cases step_outcome hStep with
  | established _ hState => simp [h.state] at hState
  | reported m _ hEpoll => simp [h.inEpoll] at hEpoll
  | dispatched m b rest r w hStack => exact h.dispatch hStack r w
  | afterWriteComplete rest r w hStack =>
    exact absurd (h.frames _ (hStack ▸ List.mem_cons_self ..)) (by simp [Frame.whileDown])
  | afterDisconnected rest r w hStack => exact h.afterDisconnected hStack
  | afterDestroyed rest r w hStack =>
    have hPopped := h.pop hStack (by simp)
    exact hPopped.extend [.remove] hPopped.state rfl hPopped.writing rfl
      (by simp [ConnEvent.isNotification]) rfl hPopped.frames
  | user op =>
    rw [user_of_ne h.ne_connected (by simp [h.state])]
    exact h
  | returned rest hStack => exact h.pop hStack (by simp)
  | ran w t rest hStack => exact h.runTask hStack w
  | removed | posted => exact { h with }

/-- Nothing happens to a connection before it is established. -/
theorem Fresh.step_eq (h : Fresh c) (hStep : c.step a = some c') :
    c' = c ∨ c' = c.connectEstablished := by
  cases step_outcome hStep with
  | established => exact .inr rfl
  | reported m _ hEpoll => simp [h.channel] at hEpoll
  | dispatched _ _ _ _ _ hStack | afterWriteComplete _ _ _ hStack | afterDisconnected _ _ _ hStack
  | afterDestroyed _ _ _ hStack | returned _ hStack => simp [h.stack] at hStack
  | user op => exact .inl (user_of_ne (by simp [h.state]) (by simp [h.state]) op)
  | ran w t rest _ hTasks => simp [h.tasks] at hTasks
  | removed hRemoving => simp [h.removing] at hRemoving
  | posted message hState => exact absurd h.state hState

theorem Fresh.step (h : Fresh c) (hStep : c.step a = some c') : Fresh c' ∨ Up c' := by
  rcases h.step_eq hStep with rfl | rfl
  · exact .inl h
  · exact .inr h.connectEstablished

theorem Lifecycle.fresh_of_state (h : Lifecycle c) (hState : c.state = .kConnecting) : Fresh c := by
  rcases h with hFresh | hUp | hDown
  · exact hFresh
  · exact absurd hState hUp.ne_connecting
  · simp [hDown.state] at hState

theorem Lifecycle.up_of_state (h : Lifecycle c)
    (hState : c.state = .kConnected ∨ c.state = .kDisconnecting) : Up c := by
  rcases h with hFresh | hUp | hDown
  · simp [hFresh.state] at hState
  · exact hUp
  · simp [hDown.state] at hState

theorem Lifecycle.down_of_state (h : Lifecycle c) (hState : c.state = .kDisconnected) : Down c := by
  rcases h with hFresh | hUp | hDown
  · simp [hFresh.state] at hState
  · exact absurd hState hUp.ne_disconnected
  · exact hDown

/-- **The step lemma.** From fresh to up to down: a step leaves the connection where it is or moves
it one on. -/
theorem lifecycle_step (ha : a.Reported) (hStep : c.step a = some c') (h : Lifecycle c) :
    Lifecycle c' := by
  rcases h with h | h | h
  · exact (h.step hStep).elim .inl fun h => .inr (.inl h)
  · exact .inr ((h.step ha hStep).imp_right fun hDown => hDown.2)
  · exact .inr (.inr (h.step hStep))

/-! ## The state moves forward

Only `connectEstablished` makes a connection connected. Every other function leaves the
state as it is, or sets one of the last two. -/

/-- `c'` is `c` with its state left alone or moved to one of the last two. -/
def Leaves (c c' : TcpConnection) : Prop :=
  c'.state = c.state ∨ c'.state = .kDisconnecting ∨ c'.state = .kDisconnected

theorem leaves_handleRead (c : TcpConnection) (r : ReadResult) : Leaves c (c.handleRead r) := by
  cases r with
  | failed errno => exact .inl rfl
  | bytes chunk =>
    simp only [TcpConnection.handleRead]
    split_ifs
    · exact .inl rfl
    · exact .inr (.inl rfl)
    · exact .inr (.inr rfl)

theorem handleWrite_state (c : TcpConnection) (w : WriteResult) :
    (c.handleWrite w).state = c.state := by
  cases w <;> simp only [TcpConnection.handleWrite] <;> split_ifs <;> rfl

theorem leaves_dispatch (c : TcpConnection) (m : Revents) (r : ReadResult) (w : WriteResult)
    (b : Branch) : Leaves c (c.dispatch m r w b) := by
  cases b with
  | close =>
    simp only [TcpConnection.dispatch]
    split_ifs
    · exact .inr (.inr rfl)
    · exact .inl rfl
  | error => exact .inl rfl
  | read =>
    simp only [TcpConnection.dispatch]
    split_ifs
    · exact leaves_handleRead { c with stack := .dispatch m .write :: c.stack } r
    · exact .inl rfl
  | write =>
    simp only [TcpConnection.dispatch]
    split_ifs
    · exact .inl (handleWrite_state c w)
    · exact .inl rfl

theorem leaves_user (c : TcpConnection) (op : UserOp) : Leaves c (c.user op) := by
  obtain ⟨state, tasks, hState, hWorks⟩ := works_user c op
  rcases hState with rfl | rfl
  · exact .inl hWorks.state
  · exact .inr (.inl hWorks.state)

theorem leaves_runTask (c : TcpConnection) (w : WriteResult) (t : LoopTask) :
    Leaves c (c.runTask w t) := by
  cases t with
  | sendInLoop message => exact .inl (works_sendInLoop c message w).state
  | writeComplete => exact .inl rfl
  | forceCloseInLoop =>
    simp only [TcpConnection.runTask, forceCloseInLoop]
    split_ifs
    · exact .inr (.inr rfl)
    · exact .inl rfl
  | connectDestroyed =>
    simp only [TcpConnection.runTask, TcpConnection.connectDestroyed]
    split_ifs
    · exact .inr (.inr rfl)
    · exact .inl rfl

theorem leaves_step (ha : a ≠ .connectEstablished) (hStep : c.step a = some c') : Leaves c c' := by
  cases step_outcome hStep with
  | established => exact absurd rfl ha
  | dispatched m b rest r w => exact leaves_dispatch { c with stack := rest } m r w b
  | afterWriteComplete => exact .inl (works_afterWriteComplete _).state
  | user op => exact leaves_user c op
  | ran w t rest => exact leaves_runTask { c with tasks := rest } w t
  | reported | afterDisconnected | afterDestroyed | returned | removed | posted => exact .inl rfl

theorem rank_le_step (ha : a.Reported) (hStep : c.step a = some c') (h : Lifecycle c) :
    c.state.rank ≤ c'.state.rank := by
  rcases h with h | h | h
  · simp [h.state, StateE.rank]
  · -- up: at most `kDisconnecting`, and what changes the state sets that or more
    have hne : a ≠ .connectEstablished := by
      rintro rfl
      rcases h.state with hState | hState <;> simp [TcpConnection.step, hState] at hStep
    have hRank : c.state.rank ≤ 2 := by
      rcases h.state with hState | hState <;> simp [hState, StateE.rank]
    rcases leaves_step hne hStep with hState | hState | hState
    · rw [hState]
    · simpa [hState, StateE.rank] using hRank
    · exact hRank.trans (by simp [hState, StateE.rank])
  · rw [h.state, (h.step hStep).state]

/-- A step that closes leaves the connection in `kDisconnected`. -/
theorem Closes.state (h : c.Closes a) (hState : c.state ≠ .kConnecting)
    (hStep : c.step a = some c') : c'.state = .kDisconnected := by
  cases step_outcome hStep with
  | dispatched m b rest r w hStack =>
    cases b with
    | close =>
      have hCloses : m.closes = true := by simpa [Closes, hStack] using h
      simp only [TcpConnection.dispatch, hCloses, if_true]
      rfl
    | read =>
      obtain ⟨hReads, rfl, hEmpty⟩ : m.reads = true ∧ r = .bytes [] ∧
          c.outputBuffer.readableBytes = 0 := by simpa [Closes, hStack] using h
      simp [TcpConnection.dispatch, hReads, TcpConnection.handleRead, hEmpty, TcpConnection.handleClose,
        TcpConnection.call, updateChannel]
    | error => simp [Closes, hStack] at h
    | write => simp [Closes, hStack] at h
  | ran w t rest hStack hTasks =>
    -- a forced close finds the connection up, or down already
    obtain rfl : t = .forceCloseInLoop := by simpa [Closes, hStack, hTasks] using h
    simp only [TcpConnection.runTask, forceCloseInLoop]
    split_ifs with hUp
    · rfl
    · rcases hOld : c.state <;> simp [hOld] at hUp hState ⊢
  | afterWriteComplete _ _ _ hStack | afterDisconnected _ _ _ hStack
  | afterDestroyed _ _ _ hStack => simp [Closes, hStack] at h
  | established | reported | user | returned | removed | posted => exact absurd h (by simp [Closes])

/-! ## The runs -/

/-- A run in which epoll reports what is assumed of it. -/
def Runs (c c' : TcpConnection) : Prop := ReachesBy TcpConnection.step (fun _ a => a.Reported) c c'

theorem fresh_new : Fresh {} := ⟨rfl, rfl, rfl, rfl, rfl, rfl⟩

theorem lifecycle_of_runs (h : Runs {} c) : Lifecycle c :=
  ReachesBy.invariant h (.inl fresh_new) fun _ _ _ hStep ha => lifecycle_step ha hStep

theorem rank_le_of_runs (h : Lifecycle c) (hRuns : Runs c c') : c.state.rank ≤ c'.state.rank := by
  have hInv : Lifecycle c' ∧ c.state.rank ≤ c'.state.rank :=
    ReachesBy.invariant (P := fun d => Lifecycle d ∧ c.state.rank ≤ d.state.rank) hRuns
      ⟨h, le_rfl⟩ fun _ _ _ hStep ha ⟨hd, hLe⟩ =>
        ⟨lifecycle_step ha hStep hd, hLe.trans (rank_le_step ha hStep hd)⟩
  exact hInv.2

/-- Nothing that was to be ruled out stands behind the disconnected notification. -/
theorem Lifecycle.quiet (h : Lifecycle c) {before after : List ConnEvent}
    (hLog : c.log = before ++ .connectionCallback false :: after) :
    .messageCallback ∉ after ∧ .update ∉ after := by
  rcases h with h | h | h
  · simp [h.log] at hLog
  · exact absurd (hLog ▸ by simp) h.notDown
  · have hQuiet := h.quiet
    rw [hLog, List.pairwise_append, List.pairwise_cons] at hQuiet
    exact ⟨fun hMem => (hQuiet.2.1.1 _ hMem rfl).1 rfl, fun hMem => (hQuiet.2.1.1 _ hMem rfl).2 rfl⟩

theorem Lifecycle.order (h : Lifecycle c) {before after : List ConnEvent}
    (hLog : c.log = before ++ .closeCallback :: after) : .connectionCallback false ∈ before := by
  rcases h with h | h | h
  · simp [h.log] at hLog
  · exact absurd (hLog ▸ by simp) h.notClosed
  · have hOrder := h.order
    have hMem : .connectionCallback false ∈ c.log :=
      List.count_pos_iff.mp (by rw [h.notifiedDown]; exact Nat.one_pos)
    rw [hLog, List.pairwise_append, List.pairwise_cons] at hOrder
    rw [hLog] at hMem
    rcases List.mem_append.mp hMem with hMem | hMem
    · exact hMem
    · rcases List.mem_cons.mp hMem with hMem | hMem
      · cases hMem
      · exact absurd rfl (hOrder.2.1.1 _ hMem rfl)

theorem Lifecycle.counts (h : Lifecycle c) :
    c.log.count (.connectionCallback true) = (if c.state = .kConnecting then 0 else 1) ∧
      c.log.count (.connectionCallback false) ≤ 1 ∧ c.log.count .closeCallback ≤ 1 := by
  rcases h with h | h | h
  · simp [h.log, h.state]
  · have hState : c.state ≠ .kConnecting := by
      rcases h.state with hState | hState <;> simp [hState]
    rw [h.notified, if_neg hState, List.count_eq_zero_of_not_mem h.notDown,
      List.count_eq_zero_of_not_mem h.notClosed]
    exact ⟨rfl, Nat.zero_le 1, Nat.zero_le 1⟩
  · rw [h.notified, h.notifiedDown, if_neg (by simp [h.state])]
    exact ⟨rfl, le_rfl, h.closed ▸ Nat.le_add_right ..⟩

/-- **The life of a connection.** In every run of a new connection, from any state `c` it
reaches to any later state `c'`: the state has moved forward; the connection was notified
once as connected if it was established, at most once as disconnected, and closed at most
once; the close callback came after the disconnected notification, and no message callback
and no update of the channel did. -/
theorem connection_lifecycle (h : Runs {} c) (h' : Runs c c') :
    c.state.rank ≤ c'.state.rank ∧
      c.log.count (.connectionCallback true) = (if c.state = .kConnecting then 0 else 1) ∧
      c.log.count (.connectionCallback false) ≤ 1 ∧
      c.log.count .closeCallback ≤ 1 ∧
      (∀ before after, c.log = before ++ .closeCallback :: after →
        .connectionCallback false ∈ before) ∧
      (∀ before after, c.log = before ++ .connectionCallback false :: after →
        .messageCallback ∉ after ∧ .update ∉ after) := by
  have hLife := lifecycle_of_runs h
  obtain ⟨hUp, hDown, hClosed⟩ := hLife.counts
  exact ⟨rank_le_of_runs hLife h', hUp, hDown, hClosed, fun _ _ hLog => hLife.order hLog,
    fun _ _ hLog => hLife.quiet hLog⟩

/-- A connection of which the peer ends the stream before anything is sent: established,
notified, closed by the end of the stream and destroyed. -/
def closedByPeer : List Action :=
  [.connectEstablished, .ret, .event { epollin := true },
    .resume (.bytes []) (.accepted 0), .resume (.bytes []) (.accepted 0),
    .resume (.bytes []) (.accepted 0), .ret, .resume (.bytes []) (.accepted 0),
    .removeConnection, .resume (.bytes []) (.accepted 0), .task (.accepted 0),
    .resume (.bytes []) (.accepted 0)]

theorem connection_lifecycle_closedByPeer :
    ∃ c, runAllBy TcpConnection.step (fun _ a => a.Reported) {} closedByPeer = some c ∧
      c.state = .kDisconnected ∧ c.log.count (.connectionCallback false) ≤ 1 := by
  have hRun : (runAllBy TcpConnection.step (fun _ a => a.Reported) {} closedByPeer).map
      (fun c => c.state) = some .kDisconnected := by decide
  obtain ⟨c, hc, hState⟩ := Option.map_eq_some_iff.mp hRun
  obtain ⟨-, -, hDown, -⟩ := connection_lifecycle (reachesBy_of_runAllBy hc) .refl
  exact ⟨c, hc, hState, hDown⟩

end TcpConnection

end ReactorNet
