import ReactorNet.Net.SendPath
import ReactorNet.Net.Teardown

/-!
# ReactorNet — orderly shutdown

`shutdown` is to finish writing before it closes the write side. It looks at the interest in
writing, that is, at the output buffer. A message that another thread has sent is not there
yet: its `sendInLoop` is in the queue of the loop, and a `shutdown` on the loop thread does
not wait for the queue.

Main result: `orderly_shutdown`. Absent write errors, a peer that closes and forced closes,
every accepted message is written before `SHUT_WR`, if `shutdown` is called with no send in
the queue; with one, and nothing in the buffer, the message is left behind at once.
-/

namespace ReactorNet

open Lib TcpConnection

/-- The messages whose `sendInLoop` is in the queue. -/
def queuedMessages (tasks : List LoopTask) : List Bytes :=
  tasks.filterMap fun
    | .sendInLoop message => some message
    | _ => none

@[simp] theorem queuedMessages_append (ts ts' : List LoopTask) :
    queuedMessages (ts ++ ts') = queuedMessages ts ++ queuedMessages ts' := List.filterMap_append ..

@[simp] theorem queuedMessages_sendInLoop (message : Bytes) (ts : List LoopTask) :
    queuedMessages (.sendInLoop message :: ts) = message :: queuedMessages ts := rfl

/-- A connection, and the messages that were accepted: their `send` found the connection
connected and returned before `shutdown` was called. -/
structure SendingConnection where
  conn : TcpConnection := {}
  accepted : List Bytes := []

namespace SendingConnection

/-- The message that a step accepts. A `send` on another thread that has its message in the
queue only after the call of `shutdown` has not returned before it. -/
def accepts (c : TcpConnection) : Action → List Bytes
  | .user (.send message _) | .postSend message => if c.state = .kConnected then [message] else []
  | _ => []

def step (s : SendingConnection) (a : Action) : Option SendingConnection :=
  (s.conn.step a).map fun c => ⟨c, s.accepted ++ accepts s.conn a⟩

/-- The end of the peer's stream. -/
def readsEof : Action → Bool
  | .resume (.bytes []) _ => true
  | _ => false

/-- No write fails for good, the peer does not close, and nobody forces a close. -/
def Undisturbed (s : SendingConnection) (a : Action) : Prop :=
  a.Reported ∧ a.Healthy ∧ ¬ s.conn.Closes a ∧ readsEof a = false ∧ a ≠ .user .forceClose

instance (s : SendingConnection) (a : Action) : Decidable (s.Undisturbed a) :=
  inferInstanceAs (Decidable (_ ∧ _ ∧ _ ∧ _ ∧ _))

/-- `shutdown` is called with no send in the queue. -/
def ClearsQueue (s : SendingConnection) (a : Action) : Prop :=
  a = .user .shutdown → s.conn.state = .kConnected → queuedMessages s.conn.tasks = []

instance (s : SendingConnection) (a : Action) : Decidable (s.ClearsQueue a) :=
  inferInstanceAs (Decidable (_ → _ → _))

/-- Before each `SHUT_WR` all accepted messages had been passed to `sendInLoop`, and all
that had been passed to it was written. -/
def WrittenFirst (s : SendingConnection) : Prop :=
  ∀ before q after, s.conn.log = before ++ .shutdownWrite q :: after →
    writtenBytes before = (sentMessages before).flatten ∧
      ∀ m, s.accepted.count m ≤ (sentMessages before).count m

variable {s s' : SendingConnection} {a : Action} {c : TcpConnection}

/-! ## The invariant -/

structure Orderly (s : SendingConnection) : Prop where
  life : Lifecycle s.conn
  owes : Owes [] s.conn
  up : s.conn.state ≠ .kDisconnected
  /-- An accepted message was passed to `sendInLoop`, or will be. -/
  kept : ∀ m, s.accepted.count m ≤
    (sentMessages s.conn.log).count m + (queuedMessages s.conn.tasks).count m
  /-- After `shutdown`, all of them were. -/
  passed : s.conn.state = .kDisconnecting →
    ∀ m, s.accepted.count m ≤ (sentMessages s.conn.log).count m
  /-- The write side is open until then. -/
  writable : s.conn.state ≠ .kDisconnecting → ∀ q, .shutdownWrite q ∉ s.conn.log
  first : WrittenFirst s

variable {es : List ConnEvent} {rest : List Frame} {w : WriteResult}

theorem WrittenFirst.extend (h : WrittenFirst s) (hLog : c.log = s.conn.log ++ es)
    (hEs : ∀ q, .shutdownWrite q ∉ es) : WrittenFirst ⟨c, s.accepted⟩ := by
  intro before q after hSplit
  rw [hLog] at hSplit
  -- the event stands in the part of the log that was there before
  rcases List.append_eq_append_iff.mp hSplit with ⟨mid, -, hNew⟩ | ⟨mid, hOld, hNew⟩
  · exact absurd (hNew ▸ by simp) (hEs q)
  · cases mid with
    | nil =>
      rw [List.nil_append] at hNew
      exact absurd (hNew ▸ List.mem_cons_self ..) (hEs q)
    | cons e mid =>
      obtain ⟨rfl, -⟩ := List.cons.inj hNew
      exact h before _ mid hOld

/-- Nothing has to be shown while the write side is open. -/
theorem WrittenFirst.of_open (h : ∀ q, .shutdownWrite q ∉ s.conn.log) : WrittenFirst s := by
  intro before q after hSplit
  exact absurd (hSplit ▸ by simp) (h q)

/-- `SHUT_WR` with all written that was accepted. -/
theorem WrittenFirst.concat (h : WrittenFirst s) (q : Nat)
    (hWritten : writtenBytes s.conn.log = (sentMessages s.conn.log).flatten)
    (hPassed : ∀ m, s.accepted.count m ≤ (sentMessages s.conn.log).count m) :
    WrittenFirst { s with conn := s.conn.record (.shutdownWrite q) } := by
  intro before q' after hSplit
  have hSplit' : s.conn.log ++ [.shutdownWrite q] = before ++ .shutdownWrite q' :: after := hSplit
  rcases List.eq_nil_or_concat after with rfl | ⟨after, e, rfl⟩
  · -- it is the event that was just added
    obtain ⟨hBefore, -⟩ := List.append_inj' hSplit' rfl
    rw [← hBefore]
    exact ⟨hWritten, hPassed⟩
  · rw [List.concat_eq_append, ← List.cons_append, ← List.append_assoc] at hSplit'
    obtain ⟨hOld, -⟩ := List.append_inj' hSplit' rfl
    exact h before q' after hOld

theorem sentMessages_of_plain (h : ∀ e ∈ es, e.isPlain = true) : sentMessages es = [] := by
  refine List.filterMap_eq_nil_iff.mpr fun e he => ?_
  have hPlain := h e he
  cases e with
  | sendInLoop message => cases hPlain
  | written | shutdownWrite | eofClose | update | remove | connectionCallback | messageCallback
  | writeCompleteCallback | closeCallback => rfl

/-- A step that is no `shutdown` and closes nothing. What it accepts, it passes on or
queues. -/
theorem Orderly.extend (h : Orderly s) (hLife : Lifecycle c) (hOwes : Owes [] c)
    (hUp : c.state ≠ .kDisconnected)
    (hState : c.state = .kDisconnecting ↔ s.conn.state = .kDisconnecting)
    (hLog : c.log = s.conn.log ++ es) (hEs : ∀ q, .shutdownWrite q ∉ es) {more : List Bytes}
    (hMore : more ≠ [] → s.conn.state = .kConnected)
    (hKept : ∀ m, more.count m + (queuedMessages s.conn.tasks).count m ≤ (sentMessages es).count m
      + (queuedMessages c.tasks).count m) :
    Orderly ⟨c, s.accepted ++ more⟩ where
  life := hLife
  owes := hOwes
  up := hUp
  kept := by
    intro m
    have hOld := h.kept m
    have hNew := hKept m
    show (s.accepted ++ more).count m ≤
      (sentMessages c.log).count m + (queuedMessages c.tasks).count m
    rw [hLog, sentMessages_append, List.count_append, List.count_append]
    omega
  passed := by
    intro hDisconnecting m
    have hOld := h.passed (hState.mp hDisconnecting) m
    -- a connection that is disconnecting accepts no more
    have hNone : more = [] := by
      by_contra hSome
      have hConnected := hMore hSome
      rw [hState.mp hDisconnecting] at hConnected
      cases hConnected
    show (s.accepted ++ more).count m ≤ (sentMessages c.log).count m
    rw [hNone, List.append_nil, hLog, sentMessages_append, List.count_append]
    omega
  writable := by
    intro hOpen q
    show _ ∉ c.log
    rw [hLog, List.mem_append, not_or]
    exact ⟨h.writable (fun hOld => hOpen (hState.mpr hOld)) q, hEs q⟩
  first := by
    by_cases hSome : more = []
    · rw [hSome, List.append_nil]
      exact h.first.extend hLog hEs
    · have hOpen := h.writable (by rw [hMore hSome]; simp)
      refine .of_open fun q hMem => ?_
      have hMem' : .shutdownWrite q ∈ c.log := hMem
      rw [hLog, List.mem_append] at hMem'
      exact hMem'.elim (hOpen q) (hEs q)

/-- The same, for a step that leaves the queue alone and accepts nothing. -/
theorem Orderly.plain (h : Orderly s) (hLife : Lifecycle c) (hOwes : Owes [] c)
    (hUp : c.state ≠ .kDisconnected)
    (hState : c.state = .kDisconnecting ↔ s.conn.state = .kDisconnecting) (hAdds : Adds s.conn c)
    (hTasks : queuedMessages c.tasks = queuedMessages s.conn.tasks) :
    Orderly ⟨c, s.accepted ++ []⟩ := by
  obtain ⟨es, hLog, hEs⟩ := hAdds
  refine h.extend hLife hOwes hUp hState hLog (fun q hMem => ?_) (fun h => absurd rfl h)
    fun m => ?_
  · simpa [ConnEvent.isPlain] using hEs _ hMem
  · rw [sentMessages_of_plain hEs, hTasks]

/-- The end of `shutdown`, and of `handleWrite` after it: the write side is closed only if
nothing is buffered. -/
theorem Orderly.shutdownInLoop (h : Orderly s) (hState : s.conn.state = .kDisconnecting)
    (hLife : Lifecycle s.conn.shutdownInLoop) :
    Orderly { s with conn := s.conn.shutdownInLoop } := by
  have hWorks := works_shutdownInLoop s.conn
  have hUp : s.conn.shutdownInLoop.state ≠ .kDisconnected := by
    rw [hWorks.state]
    exact h.up
  have hOwes := h.owes.shutdownInLoop h.up
  by_cases hWriting : s.conn.channel.writing = false
  · -- no interest in writing: the buffer is empty, and everything is out
    have hEmpty : s.conn.outputBuffer.contents = [] := by
      by_contra hSome
      have := (h.owes.interest h.up).mpr hSome
      rw [hWriting] at this
      cases this
    have hWritten : writtenBytes s.conn.log = (sentMessages s.conn.log).flatten := by
      have hStream := h.owes.stream h.up
      rwa [hEmpty, List.append_nil, List.append_nil] at hStream
    have hEq : s.conn.shutdownInLoop =
        s.conn.record (.shutdownWrite s.conn.outputBuffer.readableBytes) := if_pos hWriting
    rw [hEq] at hLife hOwes hUp ⊢
    have hSent : sentMessages (s.conn.log ++ [.shutdownWrite s.conn.outputBuffer.readableBytes]) =
        sentMessages s.conn.log := by
      rw [sentMessages_append]
      exact List.append_nil _
    exact {
      life := hLife
      owes := hOwes
      up := hUp
      kept := by
        intro m
        show s.accepted.count m ≤ (sentMessages (s.conn.log ++ [_])).count m + _
        rw [hSent]
        exact h.kept m
      passed := by
        intro _ m
        show s.accepted.count m ≤ (sentMessages (s.conn.log ++ [_])).count m
        rw [hSent]
        exact h.passed hState m
      writable := fun hOpen => absurd hState hOpen
      first := h.first.concat _ hWritten (h.passed hState) }
  · -- `handleWrite` will come back to it
    have hEq : s.conn.shutdownInLoop = s.conn := if_neg hWriting
    rw [hEq]
    exact h

/-- The output has drained, and a `shutdown` that was waiting for that is finished. -/
theorem Orderly.afterWriteComplete (h : Orderly s)
    (hLife : Lifecycle s.conn.afterWriteComplete) :
    Orderly { s with conn := s.conn.afterWriteComplete } := by
  by_cases hState : s.conn.state = .kDisconnecting
  · have hEq : s.conn.afterWriteComplete = s.conn.shutdownInLoop := if_pos hState
    rw [hEq] at hLife ⊢
    exact h.shutdownInLoop hState hLife
  · have hEq : s.conn.afterWriteComplete = s.conn := if_neg hState
    rw [hEq]
    exact h

/-! ## Every step -/

theorem Orderly.up_or_fresh (h : Orderly s) : Fresh s.conn ∨ Up s.conn := by
  rcases h.life with hFresh | hUp | hDown
  · exact .inl hFresh
  · exact .inr hUp
  · exact absurd hDown.state h.up

theorem Orderly.pop (h : Orderly s) {f : Frame} (hStack : s.conn.stack = f :: rest) :
    Orderly { s with conn := { s.conn with stack := rest } } := by
  have hLife : Lifecycle { s.conn with stack := rest } := by
    rcases h.up_or_fresh with hFresh | hUp
    · simp [hFresh.stack] at hStack
    · exact .inr (.inl (hUp.pop hStack))
  have hOwes : Owes [] { s.conn with stack := rest } :=
    h.owes.same (fun hUp => hUp) rfl rfl rfl
  have hPopped := h.plain hLife hOwes h.up Iff.rfl (.of_eq rfl) rfl
  rwa [List.append_nil] at hPopped

theorem Orderly.not_closing (h : Orderly s) {f : Frame} (hStack : s.conn.stack = f :: rest) :
    f.whileUp := by
  rcases h.up_or_fresh with hFresh | hUp
  · simp [hFresh.stack] at hStack
  · exact hUp.frames f (hStack ▸ List.mem_cons_self ..)

theorem handleRead_state {r : ReadResult} (h : r ≠ .bytes []) (c : TcpConnection) :
    (c.handleRead r).state = c.state := by
  cases r with
  | failed errno => rfl
  | bytes chunk =>
    have hChunk : 0 < chunk.length := by
      rw [List.length_pos_iff]
      rintro rfl
      exact h rfl
    simp only [handleRead, if_pos hChunk]
    rfl

/-- A dispatch of an undisturbed connection leaves the state alone. -/
theorem dispatch_state {m : Revents} {b : Branch} {r : ReadResult}
    (hStack : c.stack = .dispatch m b :: rest) (hCloses : ¬ c.Closes (.resume r w))
    (hEof : r ≠ .bytes []) : ({ c with stack := rest }.dispatch m r w b).state = c.state := by
  cases b with
  | close =>
    have hm : ¬ m.closes = true := by simpa [Closes, hStack] using hCloses
    simp only [dispatch, if_neg hm]
  | error => rfl
  | read =>
    simp only [dispatch]
    split_ifs
    · exact handleRead_state hEof { c with stack := .dispatch m .write :: rest }
    · rfl
  | write =>
    simp only [dispatch]
    split_ifs
    · exact handleWrite_state { c with stack := rest } w
    · rfl

theorem Orderly.sendInLoop (h : Orderly s) {c₀ : TcpConnection} {message : Bytes}
    (hState : c₀.state = s.conn.state) (hLog : c₀.log = s.conn.log)
    (hLife : Lifecycle (c₀.sendInLoop message w)) (hOwes : Owes [] (c₀.sendInLoop message w))
    {more : List Bytes} (hMore : more ≠ [] → s.conn.state = .kConnected)
    (hKept : ∀ m, more.count m + (queuedMessages s.conn.tasks).count m ≤ [message].count m +
      (queuedMessages c₀.tasks).count m) :
    Orderly ⟨c₀.sendInLoop message w, s.accepted ++ more⟩ := by
  have hWorks := works_sendInLoop c₀ message w
  obtain ⟨es, hAdds, hEs⟩ := adds_sendInLoop c₀ message w
  obtain ⟨ts, hTasks, -⟩ := hWorks.tasks
  have hLog' : (c₀.sendInLoop message w).log = s.conn.log ++ (.sendInLoop message :: es) := by
    rw [hAdds, record, hLog, List.append_assoc, List.singleton_append]
  have hSent : sentMessages (.sendInLoop message :: es) = [message] := by
    show message :: sentMessages es = _
    rw [sentMessages_of_plain hEs]
  refine h.extend hLife hOwes ?_ ?_ hLog' (fun q hMem => ?_) hMore fun m => ?_
  · rw [hWorks.state, hState]
    exact h.up
  · rw [hWorks.state, hState]
  · rcases List.mem_cons.mp hMem with hMem | hMem
    · cases hMem
    · simpa [ConnEvent.isPlain] using hEs _ hMem
  · have hOld := hKept m
    rw [hSent, hTasks, queuedMessages_append, List.count_append]
    omega

theorem Orderly.user (h : Orderly s) {op : UserOp} (hForce : op ≠ .forceClose)
    (hClear : s.ClearsQueue (.user op)) (hLife : Lifecycle (s.conn.user op))
    (hOwes : Owes [] (s.conn.user op)) :
    Orderly ⟨s.conn.user op, s.accepted ++ accepts s.conn (.user op)⟩ := by
  cases op with
  | send message w =>
    by_cases hState : s.conn.state = .kConnected
    · have hEq : s.conn.user (.send message w) = s.conn.sendInLoop message w := if_pos hState
      have hMore : accepts s.conn (.user (.send message w)) = [message] := if_pos hState
      rw [hEq] at hLife hOwes ⊢
      rw [hMore]
      exact h.sendInLoop rfl rfl hLife hOwes (fun _ => hState) fun m => le_rfl
    · have hEq : s.conn.user (.send message w) = s.conn := if_neg hState
      have hMore : accepts s.conn (.user (.send message w)) = [] := if_neg hState
      rw [hEq, hMore]
      exact h.plain h.life h.owes h.up Iff.rfl (.of_eq rfl) rfl
  | shutdown =>
    show Orderly ⟨s.conn.shutdown, s.accepted ++ []⟩
    rw [List.append_nil]
    by_cases hState : s.conn.state = .kConnected
    · have hEq : s.conn.shutdown =
          ({ s.conn with state := .kDisconnecting } : TcpConnection).shutdownInLoop :=
        if_pos hState
      -- the queue is clear, so every accepted message was passed on
      have hPassed : ∀ m, s.accepted.count m ≤ (sentMessages s.conn.log).count m := by
        intro m
        have hKept := h.kept m
        rwa [hClear rfl hState, List.count_nil, Nat.add_zero] at hKept
      have hUp : Up s.conn := h.life.up_of_state (.inl hState)
      have hLeft : Orderly { s with conn := { s.conn with state := .kDisconnecting } } :=
        { life := .inr (.inl hUp.setDisconnecting)
          owes := h.owes.same (fun _ => h.up) rfl rfl rfl
          up := by simp
          kept := h.kept
          passed := fun _ => hPassed
          writable := fun hOpen => absurd rfl hOpen
          first := h.first }
      have hLife' : Lifecycle s.conn.shutdown := hLife
      rw [hEq] at hLife' ⊢
      exact hLeft.shutdownInLoop rfl hLife'
    · have hEq : s.conn.shutdown = s.conn := if_neg hState
      rw [hEq]
      exact h
  | forceClose => exact absurd rfl hForce

theorem Orderly.runTask (h : Orderly s) {t : LoopTask} {rest : List LoopTask}
    (hStack : s.conn.stack = []) (hTasks : s.conn.tasks = t :: rest)
    (hCloses : ¬ s.conn.Closes (.task w))
    (hLife : Lifecycle ({ s.conn with tasks := rest }.runTask w t))
    (hOwes : Owes [] ({ s.conn with tasks := rest }.runTask w t)) :
    Orderly ⟨{ s.conn with tasks := rest }.runTask w t, s.accepted ++ []⟩ := by
  cases t with
  | sendInLoop message =>
    have hState : { s.conn with tasks := rest }.state = s.conn.state := rfl
    refine h.sendInLoop hState rfl hLife hOwes
      (fun hSome => absurd rfl hSome) fun m => ?_
    rw [hTasks, queuedMessages_sendInLoop, List.count_nil, Nat.zero_add, ← List.singleton_append,
      List.count_append]
  | writeComplete =>
    have hAdds : Adds s.conn ({ s.conn with tasks := rest }.runTask w .writeComplete) :=
      ⟨[.writeCompleteCallback], rfl, by simp [ConnEvent.isPlain]⟩
    refine h.plain hLife hOwes h.up Iff.rfl hAdds ?_
    rw [hTasks]
    rfl
  | forceCloseInLoop => exact absurd (by simp [Closes, hStack, hTasks]) hCloses
  | connectDestroyed =>
    rcases h.up_or_fresh with hFresh | hUp
    · simp [hFresh.tasks] at hTasks
    · exact absurd (hTasks ▸ List.mem_cons_self ..) hUp.tasks

/-- **The step lemma.** What was accepted is written, in the output buffer or in a queued functor.
-/
theorem Orderly.step (h : Orderly s) (hOk : s.Undisturbed a) (hClear : s.ClearsQueue a)
    (hStep : s.step a = some s') : Orderly s' := by
  obtain ⟨c, hConn, rfl⟩ := Option.map_eq_some_iff.mp hStep
  obtain ⟨hReported, hHealthy, hCloses, hEof, hForce⟩ := hOk
  have hLife := lifecycle_step hReported hConn h.life
  have hOwes := owes_step h.life hHealthy hConn h.owes
  cases TcpConnection.step_outcome hConn with
  | established _ hState =>
    refine h.plain hLife hOwes (by simp [connectEstablished, TcpConnection.call, updateChannel])
      (by simp [connectEstablished, TcpConnection.call, updateChannel, hState]) ?_ rfl
    exact ⟨[.update, .connectionCallback true],
      by simp [connectEstablished, TcpConnection.call, updateChannel, connected],
      by simp [ConnEvent.isPlain]⟩
  | reported m => exact h.plain hLife hOwes h.up Iff.rfl (.of_eq rfl) rfl
  | dispatched m b rest r w hStack =>
    -- no hang-up and no end of stream: the dispatch keeps the state
    have hState := dispatch_state hStack hCloses (by rintro rfl; simp [readsEof] at hEof)
    refine h.plain hLife hOwes ?_ ?_ (adds_dispatch { s.conn with stack := rest } m r w b) ?_
    · rw [hState]
      exact h.up
    · rw [hState]
    · rw [(dispatch_frame { s.conn with stack := rest } m r w b).1]
  | afterWriteComplete rest r w hStack =>
    show Orderly ⟨_, s.accepted ++ []⟩
    rw [List.append_nil]
    exact (h.pop hStack).afterWriteComplete hLife
  | afterDisconnected rest r w hStack | afterDestroyed rest r w hStack =>
    exact (h.not_closing hStack).elim
  | user op => exact h.user (fun hOp => hForce (by rw [hOp])) hClear hLife hOwes
  | returned rest => exact h.plain hLife hOwes h.up Iff.rfl (.of_eq rfl) rfl
  | ran w t rest hStack hTasks => exact h.runTask hStack hTasks hCloses hLife hOwes
  | removed hRemoving =>
    rcases h.up_or_fresh with hFresh | hUp
    · simp [hFresh.removing] at hRemoving
    · simp [hUp.removing] at hRemoving
  | posted message hState =>
    -- what is accepted now waits in the functor just queued
    have hLog : s.conn.log = s.conn.log ++ [] := (List.append_nil _).symm
    refine h.extend hLife hOwes h.up Iff.rfl hLog (by simp) ?_ ?_
    · intro hMore
      by_contra hNot
      exact hMore (if_neg hNot)
    · intro m
      have hAccepts : (accepts s.conn (.postSend message)).count m ≤ [message].count m := by
        simp only [accepts]
        split_ifs
        · exact le_rfl
        · exact Nat.zero_le _
      show _ ≤ _ + (queuedMessages (s.conn.tasks ++ [.sendInLoop message])).count m
      rw [queuedMessages_append, List.count_append, queuedMessages_sendInLoop]
      have hNil : queuedMessages [] = [] := rfl
      rw [hNil]
      omega

theorem orderly_new : Orderly {} where
  life := .inl fresh_new
  owes := owes_new
  up := by simp
  kept := fun m => Nat.zero_le _
  passed := fun hState => by simp at hState
  writable := fun _ q => by simp
  first := .of_open fun q => by simp

/-- `shutdown` with nothing buffered closes the write side there and then. -/
theorem not_writtenFirst_shutdown (hState : s.conn.state = .kConnected)
    (hWriting : s.conn.channel.writing = false) {m : Bytes}
    (hLeft : (sentMessages s.conn.log).count m < s.accepted.count m)
    (hStep : s.step (.user .shutdown) = some s') : ¬ WrittenFirst s' := by
  obtain ⟨c, hConn, rfl⟩ := Option.map_eq_some_iff.mp hStep
  cases TcpConnection.step_outcome hConn with
  | user =>
    have hLog : s.conn.shutdown.log =
        s.conn.log ++ .shutdownWrite s.conn.outputBuffer.readableBytes :: [] := by
      rw [shutdown, if_pos hState, TcpConnection.shutdownInLoop, if_pos hWriting]
      rfl
    intro hFirst
    have hPassed := (hFirst s.conn.log _ [] hLog).2 m
    have hSame : (s.accepted ++ []).count m ≤ (sentMessages s.conn.log).count m := hPassed
    rw [List.append_nil] at hSame
    omega

/-- **Orderly shutdown.** Take the runs in which no write fails for good, the peer does not
close and nobody forces a close. If `shutdown` is only called with no send in the queue of
the loop, then in every state all accepted messages were written before `SHUT_WR`. If it is
called on a connected connection with nothing buffered while an accepted message has not
been passed to `sendInLoop`, then `SHUT_WR` comes before that message. -/
theorem orderly_shutdown (s : SendingConnection) :
    (ReachesBy step (fun s a => s.Undisturbed a ∧ s.ClearsQueue a) {} s → WrittenFirst s) ∧
    (ReachesBy step Undisturbed {} s → s.conn.state = .kConnected →
      s.conn.channel.writing = false →
      ∀ m s', (sentMessages s.conn.log).count m < s.accepted.count m →
        s.step (.user .shutdown) = some s' → ¬ WrittenFirst s') := by
  constructor
  · intro h
    have hOrderly : Orderly s :=
      h.invariant orderly_new fun _ _ _ hStep hOk h => h.step hOk.1 hOk.2 hStep
    exact hOrderly.first
  · intro _ hState hWriting m s' hLeft hStep
    exact not_writtenFirst_shutdown hState hWriting hLeft hStep

/-- Another thread sends, the loop runs its send, and then shuts down. -/
def sentThenShutdown : List Action :=
  [.connectEstablished, .ret, .postSend [1], .task (.accepted 1), .user .shutdown]

theorem orderly_shutdown_sent :
    ∃ s, runAllBy step (fun s a => s.Undisturbed a ∧ s.ClearsQueue a) {} sentThenShutdown =
        some s ∧
      s.accepted = [[1]] ∧ .shutdownWrite 0 ∈ s.conn.log ∧ WrittenFirst s := by
  obtain ⟨s, hRun, hAccepted, hShut⟩ : ∃ s,
      runAllBy step (fun s a => s.Undisturbed a ∧ s.ClearsQueue a) {} sentThenShutdown = some s ∧
        s.accepted = [[1]] ∧ .shutdownWrite 0 ∈ s.conn.log :=
    ⟨_, rfl, rfl, by decide⟩
  exact ⟨s, hRun, hAccepted, hShut, (orderly_shutdown s).1 (reachesBy_of_runAllBy hRun)⟩

/-- Another thread sends and its `send` returns; the loop is in a callback, and shuts
down. -/
def sentWhileBusy : List Action :=
  [.connectEstablished, .postSend [1], .user .shutdown]

/-- **The message is left behind.** `SHUT_WR` was issued, and of the message that was accepted
before `shutdown` nothing was written. -/
theorem queued_send_left_behind :
    ∃ s, runAllBy step Undisturbed {} sentWhileBusy = some s ∧ s.accepted = [[1]] ∧
      .shutdownWrite 0 ∈ s.conn.log ∧ writtenBytes s.conn.log = [] ∧
      s.conn.tasks = [.sendInLoop [1]] :=
  ⟨_, rfl, rfl, by decide, rfl, rfl⟩

end SendingConnection

end ReactorNet
