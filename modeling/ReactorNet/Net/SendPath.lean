import ReactorNet.Net.Lifecycle

/-!
# ReactorNet — the send path is a byte stream

A message goes to the socket directly, or through the output buffer, or in part each
way. `Owes rest` says what has gone where: written, buffered, and `rest`, which the
function that is running has still to put somewhere. With nothing owed this is the
invariant of the send path; a call of `sendInLoop` owes its message, and every way
through it pays.

Main result: `send_path_faithful`. At the end, the connection is compared with
`Transport`, which is what the RPC layer sees of it.
-/

namespace ReactorNet

open Lib

/-- The bytes that the socket took. -/
def writtenBytes (log : List ConnEvent) : Bytes :=
  log.flatMap fun
    | .written bytes => bytes
    | _ => []

/-- The messages that were passed to `sendInLoop`, oldest first. -/
def sentMessages (log : List ConnEvent) : List Bytes :=
  log.filterMap fun
    | .sendInLoop message => some message
    | _ => none

/-- Events that are not part of the stream. -/
def ConnEvent.isNeutral : ConnEvent → Bool
  | .sendInLoop _ | .written _ | .shutdownWrite _ | .eofClose _ => false
  | _ => true

theorem writtenBytes_append (l l' : List ConnEvent) :
    writtenBytes (l ++ l') = writtenBytes l ++ writtenBytes l' := List.flatMap_append ..

theorem sentMessages_append (l l' : List ConnEvent) :
    sentMessages (l ++ l') = sentMessages l ++ sentMessages l' := List.filterMap_append ..

@[simp] theorem writtenBytes_concat_written (l : List ConnEvent) (bytes : Bytes) :
    writtenBytes (l ++ [.written bytes]) = writtenBytes l ++ bytes := by
  simp [writtenBytes]

@[simp] theorem sentMessages_concat_sendInLoop (l : List ConnEvent) (message : Bytes) :
    sentMessages (l ++ [.sendInLoop message]) = sentMessages l ++ [message] := by
  simp [sentMessages]

theorem writtenBytes_of_neutral {es : List ConnEvent} (h : ∀ e ∈ es, e.isNeutral = true) :
    writtenBytes es = [] := by
  refine List.flatMap_eq_nil_iff.mpr fun e he => ?_
  have := h e he
  cases e <;> simp_all [ConnEvent.isNeutral]

theorem sentMessages_of_neutral {es : List ConnEvent} (h : ∀ e ∈ es, e.isNeutral = true) :
    sentMessages es = [] := by
  refine List.filterMap_eq_nil_iff.mpr fun e he => ?_
  have := h e he
  cases e <;> simp_all [ConnEvent.isNeutral]

/-- The write fails for good: what is left of the message is dropped. -/
def WriteResult.fatal : WriteResult → Bool
  | .failed .EPIPE | .failed .ECONNRESET => true
  | _ => false

namespace TcpConnection

variable {c c' : TcpConnection} {rest message : Bytes}

/-- Of the messages passed to `sendInLoop`, all is written or buffered but for `rest`; the
socket is watched for writing exactly when something is buffered; and no end of the
stream was sent or acted on with something buffered. -/
structure Owes (rest : Bytes) (c : TcpConnection) : Prop where
  stream : c.state ≠ .kDisconnected →
    writtenBytes c.log ++ c.outputBuffer.contents ++ rest = (sentMessages c.log).flatten
  interest : c.state ≠ .kDisconnected →
    (c.channel.writing = true ↔ c.outputBuffer.contents ≠ [])
  flushed : ∀ q, .shutdownWrite q ∈ c.log ∨ .eofClose q ∈ c.log → q = 0

/-- What is not about the stream does not touch it. -/
theorem Owes.extend (h : Owes rest c) (es : List ConnEvent)
    (hState : c'.state ≠ .kDisconnected →
      c.state ≠ .kDisconnected ∧ c'.channel.writing = c.channel.writing)
    (hBuffer : c'.outputBuffer = c.outputBuffer) (hLog : c'.log = c.log ++ es)
    (hEs : ∀ e ∈ es, e.isNeutral = true) : Owes rest c' where
  stream hUp := by
    rw [hLog, hBuffer, writtenBytes_append, sentMessages_append, writtenBytes_of_neutral hEs,
      sentMessages_of_neutral hEs, List.append_nil, List.append_nil]
    exact h.stream (hState hUp).1
  interest hUp := by
    rw [hBuffer, (hState hUp).2]
    exact h.interest (hState hUp).1
  flushed q hq := by
    have hNot : ∀ {e : ConnEvent}, e.isNeutral = false → e ∈ c'.log → e ∈ c.log := fun he hMem => by
      rcases List.mem_append.mp (hLog ▸ hMem) with hMem | hMem
      · exact hMem
      · simp [hEs _ hMem] at he
    exact h.flushed q (hq.imp (hNot rfl) (hNot rfl))

/-- Nothing of the stream changes when only the rest of the connection does. -/
theorem Owes.same (h : Owes rest c) (hState : c'.state ≠ .kDisconnected → c.state ≠ .kDisconnected)
    (hChannel : c'.channel = c.channel) (hBuffer : c'.outputBuffer = c.outputBuffer)
    (hLog : c'.log = c.log) : Owes rest c' :=
  h.extend [] (fun hUp => ⟨hState hUp, by rw [hChannel]⟩) hBuffer (by simp [hLog]) (by simp)

/-- The end of the stream is sent, or acted on, with nothing buffered. -/
theorem Owes.flush (h : Owes rest c) {e : ConnEvent}
    (hE : e = .shutdownWrite 0 ∨ e = .eofClose 0) : Owes rest (c.record e) where
  stream hUp := by
    have hStream := h.stream hUp
    rcases hE with rfl | rfl <;> simpa [record, writtenBytes, sentMessages] using hStream
  interest := h.interest
  flushed q hq := by
    simp only [record, List.mem_append, List.mem_singleton] at hq
    rcases hq with (hq | rfl) | (hq | rfl)
    · exact h.flushed q (.inl hq)
    · simpa using hE
    · exact h.flushed q (.inr hq)
    · simpa using hE

/-! ## Sending -/

theorem enableWriting_writing (ch : Channel) : ch.enableWriting.writing = true := by
  unfold Channel.enableWriting Channel.update
  split <;> rfl

theorem disableWriting_writing (ch : Channel) : ch.disableWriting.writing = false := by
  unfold Channel.disableWriting Channel.update
  split <;> rfl

theorem Owes.bufferOutput (h : Owes rest c) : Owes [] (c.bufferOutput rest) := by
  unfold TcpConnection.bufferOutput
  simp only
  split_ifs with hRest hWriting
  · -- the buffer was empty, so the socket is to be watched from now on
    have hNe : rest ≠ [] := List.length_pos_iff.mp hRest
    refine
      { stream := fun hUp => ?_
        interest := fun _ => ?_
        flushed := fun q hq => h.flushed q (by simpa [updateChannel] using hq) }
    · simpa [updateChannel, writtenBytes, sentMessages] using h.stream hUp
    · simp [updateChannel, enableWriting_writing, hNe]
  · -- it is watched already
    have hNe : rest ≠ [] := List.length_pos_iff.mp hRest
    have hWatched : c.channel.writing = true := by simpa using hWriting
    refine { stream := fun hUp => ?_, interest := fun hUp => ?_, flushed := h.flushed }
    · simpa using h.stream hUp
    · simp [hWatched, hNe]
  · obtain rfl : rest = [] := List.length_eq_zero_iff.mp (Nat.eq_zero_of_not_pos hRest)
    exact h

variable {w : WriteResult}

/-- The direct write: with nothing buffered, what the socket takes is next in the stream. -/
theorem Owes.writeDirectly (h : Owes message c) (hEmpty : c.outputBuffer.contents = [])
    (hw : w.fatal = false) : Owes [] (c.writeDirectly message w) := by
  cases w with
  | accepted n =>
    have hRecord : Owes (message.drop n) (c.record (.written (message.take n))) :=
      { stream := fun hUp => by
          simpa [record, hEmpty, sentMessages] using h.stream hUp
        interest := h.interest
        flushed := fun q hq => h.flushed q (by simpa [record] using hq) }
    have hQueue : Owes (message.drop n)
        ((c.record (.written (message.take n))).queueInLoop .writeComplete) :=
      hRecord.same (fun hUp => hUp) rfl rfl rfl
    simp only [TcpConnection.writeDirectly]
    split_ifs
    · exact hQueue.bufferOutput
    · exact hRecord.bufferOutput
  | failed errno =>
    have hNot : ¬ (errno = .EPIPE ∨ errno = .ECONNRESET) := by
      rintro (rfl | rfl) <;> simp [WriteResult.fatal] at hw
    simp only [TcpConnection.writeDirectly, if_neg hNot]
    exact h.bufferOutput

theorem Owes.sendInLoop (h : Owes [] c) (message : Bytes) (hw : w.fatal = false) :
    Owes [] (c.sendInLoop message w) := by
  have hRecord : Owes message (c.record (.sendInLoop message)) :=
    { stream := fun hUp => by
        rw [record, sentMessages_concat_sendInLoop, List.flatten_append, ← h.stream hUp]
        simp [writtenBytes]
      interest := h.interest
      flushed := fun q hq => h.flushed q (by simpa [record] using hq) }
  simp only [TcpConnection.sendInLoop]
  split_ifs with hDown hDirect
  · -- dropped, on a connection that is down
    exact
      { stream := fun hUp => absurd hDown hUp
        interest := hRecord.interest
        flushed := hRecord.flushed }
  · refine hRecord.writeDirectly ?_ hw
    exact List.length_eq_zero_iff.mp ((Buffer.length_contents _).trans hDirect.2)
  · exact hRecord.bufferOutput

/-! ## The end of the stream -/

/-- With no interest in writing there is nothing buffered. -/
theorem Owes.shutdownInLoop (h : Owes [] c) (hUp : c.state ≠ .kDisconnected) :
    Owes [] c.shutdownInLoop := by
  unfold TcpConnection.shutdownInLoop
  split_ifs with hWriting
  · have hEmpty : c.outputBuffer.contents = [] := by
      simpa [hWriting] using (h.interest hUp).not
    have hZero : c.outputBuffer.readableBytes = 0 := by
      rw [← Buffer.length_contents, hEmpty, List.length_nil]
    rw [hZero]
    exact h.flush (.inl rfl)
  · exact h

theorem Owes.handleClose (h : Owes [] c) : Owes [] c.handleClose :=
  h.extend [.update, .connectionCallback false] (fun hUp => absurd rfl hUp) rfl
    (by simp [TcpConnection.handleClose, TcpConnection.call, updateChannel, connected])
    (by simp [ConnEvent.isNeutral])

theorem Owes.handleRead (h : Owes [] c) (hUp : c.state ≠ .kDisconnected) (r : ReadResult) :
    Owes [] (c.handleRead r) := by
  cases r with
  | failed errno => exact h
  | bytes chunk =>
    simp only [TcpConnection.handleRead]
    split_ifs with hChunk hOutput
    · exact h.extend [.messageCallback] (fun h => ⟨h, rfl⟩) rfl rfl
        (by simp [ConnEvent.isNeutral])
    · exact h.same (fun _ => hUp) rfl rfl rfl
    · rw [Nat.eq_zero_of_not_pos hOutput]
      exact (h.flush (.inr rfl)).handleClose

/-! ## Draining -/

theorem contents_retrieve_take (b : Buffer) (n : Nat) :
    (b.retrieve (b.contents.take n).length).contents = b.contents.drop n := by
  rw [Buffer.contents_retrieve, List.length_take]
  rcases Nat.le_total n b.contents.length with hLe | hLe
  · rw [Nat.min_eq_left hLe]
  · rw [Nat.min_eq_right hLe, List.drop_length, List.drop_of_length_le hLe]

/-- The front of the buffer moves to the socket; whether it is still to be watched is a
question of its own. -/
theorem Owes.drain (h : Owes [] c) (n : Nat) (es : List ConnEvent)
    (hLog : c'.log = c.log ++ .written (c.outputBuffer.contents.take n) :: es)
    (hEs : ∀ e ∈ es, e.isNeutral = true)
    (hBuffer : c'.outputBuffer = c.outputBuffer.retrieve (c.outputBuffer.contents.take n).length)
    (hState : c'.state = c.state)
    (hInterest : c'.channel.writing = true ↔ c.outputBuffer.contents.drop n ≠ []) :
    Owes [] c' := by
  rw [List.append_cons] at hLog
  have hDrained : Owes [] { c' with
      log := c.log ++ [.written (c.outputBuffer.contents.take n)] } := by
    refine { stream := fun hUp => ?_, interest := fun _ => ?_, flushed := fun q hq => ?_ }
    · simp only [hBuffer, contents_retrieve_take, writtenBytes_concat_written]
      rw [List.append_nil, List.append_assoc, List.take_append_drop]
      simpa [sentMessages] using h.stream (hState ▸ hUp)
    · simp only [hBuffer, contents_retrieve_take]
      exact hInterest
    · exact h.flushed q (by simpa using hq)
  exact hDrained.extend es (fun hUp => ⟨hUp, rfl⟩) rfl hLog hEs

theorem Owes.handleWrite (h : Owes [] c) (w : WriteResult) : Owes [] (c.handleWrite w) := by
  unfold TcpConnection.handleWrite
  split_ifs with hWriting
  · cases w with
    | failed errno => exact h
    | accepted n =>
      -- the buffer is drained if nothing is left of its contents
      have hLeft : (c.outputBuffer.retrieve (c.outputBuffer.contents.take n).length).readableBytes
          = (c.outputBuffer.contents.drop n).length := by
        rw [← Buffer.length_contents, contents_retrieve_take]
      simp only
      split_ifs with hTaken hDrained
      · -- the last of it: the socket is not watched any more
        refine h.drain n [.update, .writeCompleteCallback]
          (by simp [TcpConnection.call, updateChannel, record]) (by simp [ConnEvent.isNeutral])
          rfl rfl ?_
        have hNil : c.outputBuffer.contents.drop n = [] :=
          List.length_eq_zero_iff.mp (hLeft.symm.trans hDrained)
        simp [TcpConnection.call, updateChannel, disableWriting_writing, hNil]
      · refine h.drain n [] rfl (by simp) rfl rfl
          (iff_of_true hWriting fun hNil => hDrained ?_)
        exact hLeft.trans (by rw [hNil, List.length_nil])
      · have hNil : c.outputBuffer.contents.take n = [] :=
          List.length_eq_zero_iff.mp (Nat.eq_zero_of_not_pos hTaken)
        have hSame : (c.outputBuffer.retrieve (c.outputBuffer.contents.take n).length).contents =
            c.outputBuffer.contents := by
          rw [hNil, Buffer.contents_retrieve, List.length_nil, List.drop_zero]
        refine { stream := fun hUp => ?_, interest := fun hUp => ?_, flushed := h.flushed }
        · simp only [hSame]
          exact h.stream hUp
        · simp only [hSame]
          exact h.interest hUp
  · exact h

/-! ## Every step -/

/-- No write of `sendInLoop` finds that the peer is gone. -/
def Action.Healthy : Action → Prop
  | .user (.send _ w) | .task w => w.fatal = false
  | _ => True

instance : ∀ a : Action, Decidable a.Healthy
  | .user (.send _ w) | .task w => inferInstanceAs (Decidable (w.fatal = false))
  | .user .shutdown | .user .forceClose | .connectEstablished | .event _ | .resume .. | .ret
  | .removeConnection | .postSend _ => .isTrue trivial

theorem Owes.connectEstablished (h : Owes [] c) (hState : c.state = .kConnecting) :
    Owes [] c.connectEstablished := by
  refine h.extend [.update, .connectionCallback true] (fun _ => ⟨by simp [hState], ?_⟩) rfl
    (by simp [TcpConnection.connectEstablished, TcpConnection.call, updateChannel, connected])
    (by simp [ConnEvent.isNeutral])
  show c.channel.enableReading.writing = _
  unfold Channel.enableReading Channel.update
  split <;> rfl

/-- A dispatch goes on; the read branch is reached on a connection that is up. -/
theorem Owes.dispatch (h : Owes [] c) {m : Revents} {b : Branch}
    (hUp : b = .read → m.reads = true → c.state ≠ .kDisconnected) (r : ReadResult)
    (w : WriteResult) : Owes [] (c.dispatch m r w b) := by
  have hNext : ∀ next, Owes [] { c with stack := .dispatch m next :: c.stack } := fun next =>
    h.same (fun h => h) rfl rfl rfl
  cases b with
  | close =>
    simp only [TcpConnection.dispatch]
    split_ifs
    · exact (hNext .error).handleClose
    · exact hNext .error
  | error => exact hNext .read
  | read =>
    simp only [TcpConnection.dispatch]
    split_ifs with hReads
    · exact (hNext .write).handleRead (hUp rfl hReads) r
    · exact hNext .write
  | write =>
    simp only [TcpConnection.dispatch]
    split_ifs
    · exact h.handleWrite w
    · exact h

theorem Owes.user (h : Owes [] c) {op : UserOp} (hOp : (Action.user op).Healthy) :
    Owes [] (c.user op) := by
  cases op with
  | send message w =>
    simp only [TcpConnection.user, send]
    split_ifs
    · exact h.sendInLoop message hOp
    · exact h
  | shutdown =>
    simp only [TcpConnection.user, shutdown]
    split_ifs with hState
    · have hLeft : Owes [] { c with state := .kDisconnecting } :=
        h.same (fun _ => by simp [hState]) rfl rfl rfl
      exact hLeft.shutdownInLoop (by simp)
    · exact h
  | forceClose =>
    simp only [TcpConnection.user, forceClose]
    split_ifs with hState
    · exact h.same (fun _ => by rcases hState with hState | hState <;> simp [hState]) rfl rfl rfl
    · exact h

theorem Owes.runTask (h : Owes [] c) (hw : w.fatal = false) (t : LoopTask) :
    Owes [] (c.runTask w t) := by
  cases t with
  | sendInLoop message => exact h.sendInLoop message hw
  | writeComplete =>
    exact h.extend [.writeCompleteCallback] (fun hUp => ⟨hUp, rfl⟩) rfl rfl
      (by simp [ConnEvent.isNeutral])
  | forceCloseInLoop =>
    simp only [TcpConnection.runTask, forceCloseInLoop]
    split_ifs
    · exact h.handleClose
    · exact h
  | connectDestroyed =>
    simp only [TcpConnection.runTask, connectDestroyed]
    split_ifs
    · exact h.extend [.update, .connectionCallback false] (fun hUp => absurd rfl hUp) rfl
        (by simp [TcpConnection.call, updateChannel, connected]) (by simp [ConnEvent.isNeutral])
    · exact h.same (fun hUp => hUp) rfl rfl rfl

/-- A dispatch that still has to read is one of a connection that is up. -/
theorem Lifecycle.reads (h : Lifecycle c) {m : Revents} {rest : List Frame}
    (hStack : c.stack = .dispatch m .read :: rest) (hReads : m.reads = true) :
    c.state ≠ .kDisconnected := by
  rcases h with h | h | h
  · simp [h.state]
  · exact h.ne_disconnected
  · have hFrame : (Frame.dispatch m .read).whileDown :=
      h.frames _ (hStack ▸ List.mem_cons_self ..)
    simp [Frame.whileDown, hReads] at hFrame

/-- **The step lemma.** What was sent is what was written and what the output buffer still has. -/
theorem owes_step {a : Action} (hLife : Lifecycle c) (ha : a.Healthy) (hStep : c.step a = some c')
    (h : Owes [] c) : Owes [] c' := by
  cases step_outcome hStep with
  | established _ hState => exact h.connectEstablished hState
  | dispatched m b rest r w hStack =>
    -- popping the frame owes nothing; the branch is then judged by itself
    have hPopped : Owes [] { c with stack := rest } := h.same (fun hUp => hUp) rfl rfl rfl
    refine hPopped.dispatch (fun hb hReads => ?_) r w
    subst hb
    exact hLife.reads hStack hReads
  | afterWriteComplete rest =>
    have hPopped : Owes [] { c with stack := rest } := h.same (fun hUp => hUp) rfl rfl rfl
    simp only [afterWriteComplete]
    split_ifs with hState
    · exact hPopped.shutdownInLoop (by simp [hState])
    · exact hPopped
  | afterDisconnected =>
    exact h.extend [.closeCallback] (fun hUp => ⟨hUp, rfl⟩) rfl rfl
      (by simp [ConnEvent.isNeutral])
  | afterDestroyed =>
    exact h.extend [.remove] (fun hUp => ⟨hUp, rfl⟩) rfl rfl (by simp [ConnEvent.isNeutral])
  | user op => exact h.user ha
  | ran w t rest =>
    have hPopped : Owes [] { c with tasks := rest } := h.same (fun hUp => hUp) rfl rfl rfl
    exact hPopped.runTask ha t
  | reported | returned | removed | posted => exact h.same (fun hUp => hUp) rfl rfl rfl

theorem owes_new : Owes [] {} where
  stream _ := by
    show [] ++ (Buffer.new kInitialSize).contents ++ [] = []
    rw [Buffer.contents_new]
    rfl
  interest _ := by
    show false = true ↔ (Buffer.new kInitialSize).contents ≠ []
    simp
  flushed q hq := by simp at hq

/-- **The send path is a faithful byte stream.** In every run of a connection in which no
write of `sendInLoop` finds that the peer is gone: as long as the connection is up, what
was written, followed by what is buffered, is what was passed to `sendInLoop`, in order;
and there is interest in writing exactly if something is buffered. The write side is shut
down, and the end of the peer's stream closes the connection, only with nothing
buffered. -/
theorem send_path_faithful
    (h : ReachesBy TcpConnection.step (fun _ a => a.Reported ∧ a.Healthy) {} c) :
    (c.state = .kConnected ∨ c.state = .kDisconnecting →
      writtenBytes c.log ++ c.outputBuffer.contents = (sentMessages c.log).flatten ∧
      (c.channel.writing = true ↔ c.outputBuffer.contents ≠ [])) ∧
    (∀ queued, .shutdownWrite queued ∈ c.log → queued = 0) ∧
    (∀ queued, .eofClose queued ∈ c.log → queued = 0) := by
  have hOwes : Lifecycle c ∧ Owes [] c :=
    h.invariant (P := fun c => Lifecycle c ∧ Owes [] c) ⟨.inl fresh_new, owes_new⟩
      fun _ _ _ hStep ha ⟨hLife, hOwes⟩ =>
        ⟨lifecycle_step ha.1 hStep hLife, owes_step hLife ha.2 hStep hOwes⟩
  refine ⟨fun hState => ?_, fun q hq => hOwes.2.flushed q (.inl hq),
    fun q hq => hOwes.2.flushed q (.inr hq)⟩
  have hUp : c.state ≠ .kDisconnected := by rcases hState with hState | hState <;> simp [hState]
  exact ⟨by simpa using hOwes.2.stream hUp, hOwes.2.interest hUp⟩

/-- Three bytes are sent of which the socket takes the first. -/
theorem send_path_faithful_short_write :
    ∃ c, runAllBy TcpConnection.step (fun _ a => a.Reported ∧ a.Healthy) {}
        [.connectEstablished, .user (.send [1, 2, 3] (.accepted 1)), .ret] = some c ∧
      c.state = .kConnected ∧ writtenBytes c.log = [1] ∧
      writtenBytes c.log ++ c.outputBuffer.contents = (sentMessages c.log).flatten := by
  have hRun : (runAllBy TcpConnection.step (fun _ a => a.Reported ∧ a.Healthy) {}
      [.connectEstablished, .user (.send [1, 2, 3] (.accepted 1)), .ret]).map
        (fun c => (c.state, writtenBytes c.log)) = some (.kConnected, [1]) := by decide
  obtain ⟨c, hc, hFields⟩ := Option.map_eq_some_iff.mp hRun
  obtain ⟨hState, hWritten⟩ := Prod.mk.inj hFields
  obtain ⟨hStream, -⟩ := send_path_faithful (reachesBy_of_runAllBy hc)
  exact ⟨c, hc, hState, hWritten, (hStream (.inl hState)).1⟩

/-! ## The connection that the RPC layer sees

`Transport` has the state, the messages that were accepted and whether a forced close is
queued. The operations that the RPC layer uses do the same to it as to the connection. -/

def transport (c : TcpConnection) : Transport :=
  ⟨c.state, sentMessages c.log, decide (.forceCloseInLoop ∈ c.tasks)⟩

theorem sentMessages_bufferOutput (c : TcpConnection) (rest : Bytes) :
    sentMessages (c.bufferOutput rest).log = sentMessages c.log := by
  simp only [bufferOutput]
  split_ifs <;> simp [updateChannel, sentMessages]

theorem sentMessages_writeDirectly (c : TcpConnection) (message : Bytes) (w : WriteResult) :
    sentMessages (c.writeDirectly message w).log = sentMessages c.log := by
  cases w with
  | accepted n =>
    simp only [writeDirectly, sentMessages_bufferOutput]
    split_ifs <;> simp [queueInLoop, record, sentMessages]
  | failed errno =>
    simp only [writeDirectly]
    split_ifs
    · rfl
    · exact sentMessages_bufferOutput c message

theorem sentMessages_sendInLoop (c : TcpConnection) (message : Bytes) (w : WriteResult) :
    sentMessages (c.sendInLoop message w).log = sentMessages c.log ++ [message] := by
  have hRecord : sentMessages (c.record (.sendInLoop message)).log =
      sentMessages c.log ++ [message] := sentMessages_concat_sendInLoop c.log message
  simp only [sendInLoop]
  split_ifs
  · exact hRecord
  · rw [sentMessages_writeDirectly, hRecord]
  · rw [sentMessages_bufferOutput, hRecord]

theorem Works.forceCloseInLoop_mem (h : Works c c') :
    .forceCloseInLoop ∈ c'.tasks ↔ .forceCloseInLoop ∈ c.tasks := by
  obtain ⟨ts, hTasks, hTs⟩ := h.tasks
  rw [hTasks, List.mem_append, or_iff_left]
  exact fun hMem => by simpa using hTs _ hMem

theorem transport_send (c : TcpConnection) (message : Bytes) (w : WriteResult) :
    (c.send message w).transport = c.transport.send message := by
  have hWorks := works_sendInLoop c message w
  by_cases hState : c.state = .kConnected
  · have hOpen : c.transport.state = .kConnected := hState
    simp only [TcpConnection.send, Transport.send, if_pos hState, if_pos hOpen]
    simp only [transport, hWorks.state, sentMessages_sendInLoop, hWorks.forceCloseInLoop_mem]
  · rw [TcpConnection.send, if_neg hState, Transport.send_of_not_connected hState]

theorem transport_shutdown (c : TcpConnection) :
    c.shutdown.transport = c.transport.shutdown := by
  by_cases hState : c.state = .kConnected
  · have hOpen : c.transport.state = .kConnected := hState
    have hSent : sentMessages (c.log ++ [.shutdownWrite c.outputBuffer.readableBytes]) =
        sentMessages c.log := by simp [sentMessages]
    simp only [TcpConnection.shutdown, Transport.shutdown, if_pos hState, if_pos hOpen,
      shutdownInLoop]
    split_ifs
    · exact congrArg (fun sent => Transport.mk .kDisconnecting sent
        (decide (.forceCloseInLoop ∈ c.tasks))) hSent
    · rfl
  · have hClosed : c.transport.state ≠ .kConnected := hState
    rw [TcpConnection.shutdown, Transport.shutdown, if_neg hState, if_neg hClosed]

theorem transport_forceClose (c : TcpConnection) :
    c.forceClose.transport = c.transport.forceClose := by
  by_cases hState : c.state = .kConnected ∨ c.state = .kDisconnecting
  · have hOpen : c.transport.Reading := hState
    rw [TcpConnection.forceClose, if_pos hState, hOpen.forceClose_eq]
    simp [transport, queueInLoop]
  · have hClosed : ¬ (c.transport.state = .kConnected ∨ c.transport.state = .kDisconnecting) :=
      hState
    rw [TcpConnection.forceClose, Transport.forceClose, if_neg hState, if_neg hClosed]

end TcpConnection

end ReactorNet
