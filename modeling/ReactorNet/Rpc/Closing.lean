import ReactorNet.Rpc.Responses

/-!
# ReactorNet — handlers and the decision to close

The server closes a connection in several places. Some of them leave the message
loop and some do not, and a connection that was only shut down keeps reading. So
whether a handler can run after a close is a question about the frames that
follow the offending one: `RpcServer.Quiet` says that none of them would run a
handler before the stream really ends.

Main results:

* `safe_onMessage`, `idle_run` — what a turn and a whole connection preserve.
* `no_handler_after_close_iff` — no handler runs after a close, however the
  stream is cut, exactly when the stream is quiet.
-/

namespace ReactorNet.Rpc

open Lib

universe u

variable {σ : Type u}

/-! ## The order of events -/

/-- A handler ran. -/
def Event.isInvoke : Event → Bool
  | .invoke _ _ => true
  | _ => false

/-- No handler runs after the connection was closed. -/
def NoHandlerAfterClose (trace : List Event) : Prop :=
  trace.Pairwise fun e e' => e.isClose = true → e'.isInvoke = false

instance (trace : List Event) : Decidable (NoHandlerAfterClose trace) :=
  inferInstanceAs (Decidable (List.Pairwise _ trace))

/-- The connection was closed at some point of the trace. -/
def HasClose (trace : List Event) : Prop := ∃ e ∈ trace, e.isClose = true

/-- A handler ran at some point of the trace. -/
def HasInvoke (trace : List Event) : Prop := ∃ e ∈ trace, e.isInvoke = true

variable {es t : List Event}

theorem HasClose.mono {t' : List Event} (h : HasClose t) (hp : t <+: t') : HasClose t' := by
  obtain ⟨e, he, hc⟩ := h
  exact ⟨e, hp.subset he, hc⟩

theorem NoHandlerAfterClose.append (h : NoHandlerAfterClose t) (hes : ¬ HasInvoke es) :
    NoHandlerAfterClose (t ++ es) := by
  have hq : ∀ e ∈ es, e.isInvoke = false := by
    intro e he
    by_contra hne
    exact hes ⟨e, he, by simpa using hne⟩
  refine List.pairwise_append.mpr ⟨h, ?_, ?_⟩
  · exact List.pairwise_of_forall_mem_list fun _ _ e he _ => hq e he
  · exact fun _ _ e' he' _ => hq e' he'

/-- Until the first close, anything goes. -/
theorem NoHandlerAfterClose.of_not_hasClose (h : ¬ HasClose t) : NoHandlerAfterClose t := by
  refine List.pairwise_of_forall_mem_list fun e he _ _ hc => ?_
  exact absurd ⟨e, he, hc⟩ h

theorem not_noHandlerAfterClose_append (ht : HasClose t) (hes : HasInvoke es) :
    ¬ NoHandlerAfterClose (t ++ es) := by
  intro h
  obtain ⟨e, he, hc⟩ := ht
  obtain ⟨e', he', hi⟩ := hes
  have hpair := (List.pairwise_append.mp h).2.2 e he e' he' hc
  rw [hi] at hpair
  cases hpair

theorem NoHandlerAfterClose.of_prefix {t' : List Event} (h : NoHandlerAfterClose t')
    (hp : t <+: t') : NoHandlerAfterClose t := by
  obtain ⟨es, rfl⟩ := hp
  exact (List.pairwise_append.mp h).1

theorem not_hasClose_append : ¬ HasClose (t ++ es) ↔ ¬ HasClose t ∧ ¬ HasClose es := by
  simp only [HasClose, List.mem_append]
  grind

theorem not_hasInvoke_append : ¬ HasInvoke (t ++ es) ↔ ¬ HasInvoke t ∧ ¬ HasInvoke es := by
  simp only [HasInvoke, List.mem_append]
  grind

/-- What the server adds to a trace when it drops a connection runs no handler. -/
theorem not_hasInvoke_drop (reason : String) : ¬ HasInvoke [.log reason, .forceClose] := by
  simp [HasInvoke, Event.isInvoke]

/-- And neither does what it adds when it rejects a frame. -/
theorem not_hasInvoke_reject (reason : String) (m : Bytes) :
    ¬ HasInvoke [.log reason, .send m, .shutdown] := by
  simp [HasInvoke, Event.isInvoke]

namespace RpcServer

/-! ## Quiet streams -/

/-- The frame runs a handler, if the loop comes to it. -/
def Invokes (server : RpcServer σ) (f : Frame) : Prop :=
  Admitted f.1 ∧ f.1.serializerId = server.serializerId ∧
    ∃ request, RawCodec.decodeRequest f.2 = some request ∧
      (server.registry.find
        (ServiceRegistry.makeKey request.service request.method)).isSome = true

/-- No handler can run after a close. A refused or malformed frame only shuts the
connection down, so none of the frames after it may run a handler; a response
that cannot be encoded closes at the end of the turn, so the frames up to the
next refused one may not. -/
def Quiet (server : RpcServer σ) : σ → List Frame → Prop
  | _, [] => True
  | world, f :: fs =>
    -- refused or malformed: half-closed, and read on in this turn and the next
    if ¬ server.Answerable f then ∀ g ∈ fs, ¬ server.Invokes g
    -- not encodable: closed after this turn, which a refused frame ends
    else if kMaxBodyLen < (server.answer world f).1.payload.length then
      ∀ g ∈ fs.takeWhile (fun g => decide (Admitted g.1)), ¬ server.Invokes g
    else server.Quiet (server.answer world f).2 fs

variable {server : RpcServer σ} {f : Frame} {b t : Bytes} {n : Nat} {conn conn' : Conn σ}

/-- The registry's work on an admitted frame runs a handler if the frame does. -/
theorem hasInvoke_work (h : Admitted f.1) : HasInvoke (server.work f) ↔ server.Invokes f := by
  unfold work Invokes HasInvoke
  by_cases hs : f.1.serializerId = server.serializerId
  · cases hd : RawCodec.decodeRequest f.2 with
    | none => simp [hs]
    | some request =>
      cases hf : server.registry.find
          (ServiceRegistry.makeKey request.service request.method) <;>
        simp [h, hs, hf, Event.isInvoke]
  · simp [hs]

theorem not_hasClose_work (server : RpcServer σ) (f : Frame) : ¬ HasClose (server.work f) := by
  rintro ⟨e, he, hc⟩
  exact absurd hc (List.filter_eq_nil_iff.mp (server.work_not_close f) e he)

/-- Only a handler's output can be large. -/
theorem answer_payload_of_not_invokes (hAns : server.Answerable f) (h : ¬ server.Invokes f)
    (world : σ) : (server.answer world f).1.payload = [] := by
  unfold answer
  by_cases hs : f.1.serializerId = server.serializerId
  · cases hd : RawCodec.decodeRequest f.2 with
    | none => simp [hs]
    | some request =>
      -- without a handler, `execute` has an empty payload
      have hf : server.registry.find
          (ServiceRegistry.makeKey request.service request.method) = none := by
        by_contra hf
        exact h ⟨hAns.1, hs, request, hd, Option.isSome_iff_ne_none.mpr hf⟩
      simp only [execute, hf]
      by_cases hsvc : request.service ∈ server.registry.services <;> simp [hs, hsvc]
  · simp [hs]

/-! ## What a turn preserves -/

/-- The frames of a stream, cut as far as it goes. -/
def framesOf (server : RpcServer σ) (s : Bytes) : List Frame :=
  (server.frameReader.cutter.split s).frames

theorem framesOf_frame (h : server.frameReader.cutter.cut b = .frame f n) (t : Bytes) :
    server.framesOf (b ++ t) = f :: server.framesOf (b.drop n ++ t) := by
  rw [framesOf, Cutter.split_frame (server.frameReader.cutter.frame_append t h),
    List.drop_append_of_le_length (server.frameReader.cutter.bound h).2]
  rfl

theorem framesOf_cons (h : server.frameReader.cutter.cut b = .frame f n) :
    server.framesOf b = f :: server.framesOf (b.drop n) := by
  have hFrames := framesOf_frame h []
  rwa [List.append_nil, List.append_nil] at hFrames

/-- Nothing was closed yet, and the stream is quiet. -/
def StillOpen (server : RpcServer σ) (conn : Conn σ) (s : Bytes) : Prop :=
  ¬ HasClose conn.trace ∧ server.Quiet conn.world (server.framesOf s)

/-- No frame to come runs a handler. -/
def Drained (server : RpcServer σ) (s : Bytes) : Prop :=
  ∀ g ∈ server.framesOf s, ¬ server.Invokes g

/-- The close at the end of this turn is queued, and no frame that the turn can
still come to runs a handler. -/
def Doomed (server : RpcServer σ) (conn : Conn σ) (s : Bytes) : Prop :=
  conn.transport.closeQueued = true ∧
    ∀ g ∈ (server.framesOf s).takeWhile (fun g => decide (Admitted g.1)), ¬ server.Invokes g

/-- The invariant of a turn; `s` is the stream from the first unread byte on. -/
structure Safe (server : RpcServer σ) (conn : Conn σ) (s : Bytes) : Prop where
  reading : conn.transport.Reading
  ordered : NoHandlerAfterClose conn.trace
  later : server.StillOpen conn s ∨ server.Drained s ∨ server.Doomed conn s

/-- The same between turns, when a queued close is about to run. -/
structure Settled (server : RpcServer σ) (conn : Conn σ) (s : Bytes) : Prop where
  reading : conn.transport.Reading
  ordered : NoHandlerAfterClose conn.trace
  later : server.StillOpen conn s ∨ server.Drained s ∨ conn.transport.closeQueued = true

theorem Safe.settled {s : Bytes} (h : Safe server conn s) : Settled server conn s :=
  ⟨h.reading, h.ordered, h.later.imp_right (Or.imp_right And.left)⟩

/-- Once nothing may run any more, the next frame does not either, and the same
holds of what follows it; a queued close says so only as far as the turn goes. -/
theorem later_tail (hCut : server.frameReader.cutter.cut b = .frame f n)
    (h : server.Drained (b ++ t) ∨ server.Doomed conn (b ++ t)) :
    ¬ server.Invokes f ∧
      (server.Drained (b.drop n ++ t) ∨ conn.transport.closeQueued = true ∧
        (Admitted f.1 → server.Doomed conn (b.drop n ++ t))) := by
  unfold Drained Doomed at *
  rw [framesOf_frame hCut t] at h
  rcases h with hDrained | ⟨hDoom, hLater⟩
  · -- no frame of the stream runs a handler
    exact ⟨hDrained f (List.mem_cons_self ..),
      .inl fun g hg => hDrained g (List.mem_cons_of_mem f hg)⟩
  · -- no frame up to the next refused one: is `f` that one?
    by_cases hAdm : Admitted f.1
    · rw [List.takeWhile_cons_of_pos (by simpa using hAdm)] at hLater
      exact ⟨hLater f (List.mem_cons_self ..),
        .inr ⟨hDoom, fun _ => ⟨hDoom, fun g hg => hLater g (List.mem_cons_of_mem f hg)⟩⟩⟩
    · exact ⟨fun hInv => hAdm hInv.1, .inr ⟨hDoom, fun hf => absurd hf hAdm⟩⟩

/-- A broken stream has no frames to come. -/
theorem drained_of_broken (h : server.frameReader.cutter.cut b = .broken) (t : Bytes) :
    server.Drained (b ++ t) := by
  intro g hg
  rw [framesOf, Cutter.split_broken (server.frameReader.cutter.broken_append t h)] at hg
  cases hg

/-- A rejection adds a log line, a message and a shutdown. -/
theorem rejectAndClose_trace (conn : Conn σ) (requestId : UInt32) (status : StatusCode) :
    ∃ m, (rejectAndClose conn requestId status).trace = conn.trace ++ [.send m, .shutdown] := by
  rw [rejectAndClose_eq]
  exact ⟨_, List.append_assoc ..⟩

/-- After a rejection the connection still reads, and a queued close stays. -/
theorem rejectAndClose_transport (conn : Conn σ) (h : conn.transport.Reading)
    (requestId : UInt32) (status : StatusCode) :
    (rejectAndClose conn requestId status).transport.Reading ∧
      (rejectAndClose conn requestId status).transport.closeQueued =
        conn.transport.closeQueued := by
  rw [rejectAndClose_eq]
  exact ⟨(h.send _).shutdown, by simp⟩

theorem rejectAndClose_consumed (h : conn.transport.Reading) (n : Nat) (reason : String)
    (requestId : UInt32) (status : StatusCode) :
    let conn' := rejectAndClose
      (Conn.logProtocolError { conn with input := conn.input.retrieve n } reason) requestId status
    conn'.transport.Reading ∧ conn'.transport.closeQueued = conn.transport.closeQueued ∧
      conn'.input.contents = conn.input.contents.drop n ∧
      ∃ m, conn'.trace = conn.trace ++ [.log reason, .send m, .shutdown] := by
  intro conn'
  obtain ⟨hReading, hQueued⟩ := rejectAndClose_transport
    (Conn.logProtocolError { conn with input := conn.input.retrieve n } reason) h requestId status
  obtain ⟨m, hTrace⟩ := rejectAndClose_trace
    (Conn.logProtocolError { conn with input := conn.input.retrieve n } reason) requestId status
  refine ⟨hReading, hQueued, ?_, m, hTrace.trans (List.append_assoc ..)⟩
  rw [rejectAndClose_input, Conn.logProtocolError_input, Buffer.contents_retrieve]

/-- **A pass that leaves the loop** leaves a settled connection. -/
theorem settled_of_done (hp : PassOutcome server conn (.done conn'))
    (h : Safe server conn (conn.input.contents ++ t)) :
    Settled server conn' (conn'.input.contents ++ t) := by
  cases hp with
  | idle => exact h.settled
  | flooded reason | badMagic reason =>
    -- dropped: the close is queued, whatever is still to come
    refine ⟨h.reading.forceClose, ?_, .inr (.inr ?_)⟩
    · simpa using h.ordered.append (not_hasInvoke_drop reason)
    · simp [h.reading.forceClose_eq]
  | tooLarge reason header hCut =>
    obtain ⟨m, hTrace⟩ := rejectAndClose_trace (conn.logProtocolError reason) header.requestId
      .kBodyTooLarge
    refine ⟨(rejectAndClose_transport _ h.reading _ _).1, ?_, .inr (.inl ?_)⟩
    · rw [hTrace]
      simpa using h.ordered.append (not_hasInvoke_reject reason m)
    · rw [rejectAndClose_input]
      exact drained_of_broken hCut t
  | refused reason f n hCut hFrame =>
    obtain ⟨hReading, hQueued, hInput, m, hTrace⟩ :=
      rejectAndClose_consumed h.reading n reason f.1.requestId (refusal f.1)
    refine ⟨hReading, ?_, .inr ?_⟩
    · rw [hTrace]
      exact h.ordered.append (not_hasInvoke_reject reason m)
    · rw [hInput, hQueued]
      rcases h.later with ⟨-, hQuiet⟩ | hLater
      · -- the refused frame is the offending one: what follows it runs nothing
        rw [framesOf_frame hCut t, Quiet, if_pos fun hAns => hFrame hAns.1] at hQuiet
        exact .inl hQuiet
      · obtain ⟨-, hTail⟩ := later_tail hCut hLater
        exact hTail.imp_right And.left

/-- **A pass that goes round again** keeps the invariant. -/
theorem safe_of_again (hp : PassOutcome server conn (.again conn'))
    (h : Safe server conn (conn.input.contents ++ t)) :
    Safe server conn' (conn'.input.contents ++ t) := by
  cases hp with
  | malformed reason f n hCut hAdmitted hFrame =>
    obtain ⟨hReading, hQueued, hInput, m, hTrace⟩ :=
      rejectAndClose_consumed h.reading n reason f.1.requestId .kMalformedBody
    refine ⟨hReading, ?_, .inr ?_⟩
    · rw [hTrace]
      exact h.ordered.append (not_hasInvoke_reject reason m)
    · rw [Doomed, hInput, hQueued]
      rcases h.later with ⟨-, hQuiet⟩ | hLater
      · -- the loop goes on, but over frames that run nothing
        rw [framesOf_frame hCut t, Quiet, if_pos hFrame] at hQuiet
        exact .inl hQuiet
      · obtain ⟨-, hTail⟩ := later_tail hCut hLater
        exact hTail.imp_right fun hDoom => hDoom.2 hAdmitted
  | overflow reason f n hCut hFrame hOver =>
    have hReading : conn.transport.forceClose.Reading := h.reading.forceClose
    have hQueued : conn.transport.forceClose.closeQueued = true := by
      rw [h.reading.forceClose_eq]
    rcases h.later with ⟨hOpen, hQuiet⟩ | hLater
    · -- the first close: the handler ran before it
      refine ⟨hReading, ?_, .inr (.inr ⟨hQueued, ?_⟩)⟩
      · have hBefore : ¬ HasClose (conn.trace ++ server.work f) :=
          not_hasClose_append.mpr ⟨hOpen, server.not_hasClose_work f⟩
        simpa using (NoHandlerAfterClose.of_not_hasClose hBefore).append
          (not_hasInvoke_drop reason)
      · rw [framesOf_frame hCut t, Quiet, if_neg (not_not.mpr hFrame), if_pos hOver] at hQuiet
        simpa using hQuiet
    · -- a further close: the frame itself runs nothing
      obtain ⟨hInv, hTail⟩ := later_tail hCut hLater
      have hWork : ¬ HasInvoke (server.work f ++ [Event.log reason, .forceClose]) :=
        not_hasInvoke_append.mpr ⟨(hasInvoke_work hFrame.1).not.mpr hInv,
          not_hasInvoke_drop reason⟩
      refine ⟨hReading, ?_, .inr ?_⟩
      · simpa using h.ordered.append hWork
      · refine hTail.imp (fun hd => ?_) (fun hd => ⟨hQueued, ?_⟩)
        · simpa using hd
        · simpa using (hd.2 hFrame.1).2
  | answered f n hCut hFrame hFits =>
    have hEnd : ∀ m, ¬ HasInvoke [Event.send m] ∧ ¬ HasClose [Event.send m] := by
      simp [HasInvoke, HasClose, Event.isInvoke, Event.isClose]
    rcases h.later with ⟨hOpen, hQuiet⟩ | hLater
    · -- still open: the frame is answered and the rest stays quiet
      have hAfter : ¬ HasClose (conn.trace ++
          (server.work f ++ [.send (responseMessage f (server.answer conn.world f).1)])) :=
        not_hasClose_append.mpr ⟨hOpen,
          not_hasClose_append.mpr ⟨server.not_hasClose_work f, (hEnd _).2⟩⟩
      refine ⟨h.reading.send _, ?_, .inl ⟨?_, ?_⟩⟩
      · simpa using NoHandlerAfterClose.of_not_hasClose hAfter
      · simpa using hAfter
      · rw [framesOf_frame hCut t, Quiet, if_neg (not_not.mpr hFrame),
          if_neg (not_lt.mpr hFits)] at hQuiet
        simpa using hQuiet
    · -- closed before: this frame is one of those that run nothing
      obtain ⟨hInv, hTail⟩ := later_tail hCut hLater
      have hWork : ¬ HasInvoke (server.work f ++
          [.send (responseMessage f (server.answer conn.world f).1)]) :=
        not_hasInvoke_append.mpr ⟨(hasInvoke_work hFrame.1).not.mpr hInv, (hEnd _).1⟩
      refine ⟨h.reading.send _, ?_, .inr ?_⟩
      · simpa using h.ordered.append hWork
      · refine hTail.imp (fun hd => ?_) (fun hd => ⟨?_, ?_⟩)
        · simpa using hd
        · simpa using hd.1
        · simpa using (hd.2 hFrame.1).2

/-- **A turn keeps the order**: the passes keep the invariant, the last one
settles. -/
theorem safe_onMessage (server : RpcServer σ) (t : Bytes) (conn : Conn σ) :
    Safe server conn (conn.input.contents ++ t) →
      Settled server (server.onMessage conn)
        ((server.onMessage conn).input.contents ++ t) := by
  refine onMessage_induct (P := fun conn conn' => Safe server conn (conn.input.contents ++ t) →
    Settled server conn' (conn'.input.contents ++ t)) ?_ ?_ conn
  · exact fun _ _ hp h => settled_of_done hp h
  · exact fun _ _ _ hp ih h => ih (safe_of_again hp h)

/-! ## What a connection preserves -/

/-- Between two turns: closed for good, still open, or with nothing to run. -/
structure Idle (server : RpcServer σ) (conn : Conn σ) (s : Bytes) : Prop where
  ordered : NoHandlerAfterClose conn.trace
  later : conn.transport.state = .kDisconnected ∨
    conn.transport.Reading ∧ (server.StillOpen conn s ∨ server.Drained s)

theorem idle_handleRead {chunk : Bytes}
    (h : Idle server conn (conn.input.contents ++ (chunk ++ t))) :
    Idle server (server.handleRead conn chunk)
      ((server.handleRead conn chunk).input.contents ++ t) := by
  unfold handleRead
  split_ifs with hDisc
  · -- a closed connection reads nothing
    exact ⟨h.ordered, .inl hDisc⟩
  · obtain hDisc' | ⟨hReading, hLater⟩ := h.later
    · exact absurd hDisc' hDisc
    · have hSafe : Safe server (conn.received chunk)
          ((conn.received chunk).input.contents ++ t) := by
        rw [Conn.received_contents, List.append_assoc]
        exact ⟨hReading, h.ordered, hLater.imp_right .inl⟩
      have hSettled := server.safe_onMessage t _ hSafe
      refine ⟨hSettled.ordered, ?_⟩
      -- a queued close takes effect now, before the next read
      by_cases hq : (server.onMessage (conn.received chunk)).transport.closeQueued = true
      · exact .inl (Transport.runQueued_state_of_queued hq)
      · rw [Conn.runQueued_transport, Transport.runQueued_of_not_queued (by simpa using hq)]
        refine .inr ⟨hSettled.reading, ?_⟩
        rcases hSettled.later with hOpen | hDrained | hq'
        · exact .inl hOpen
        · exact .inr hDrained
        · exact absurd hq' hq

theorem idle_run (chunks : List Bytes)
    (h : Idle server conn (conn.input.contents ++ chunks.flatten)) :
    Idle server (server.run conn chunks) (server.run conn chunks).input.contents := by
  induction chunks generalizing conn with
  | nil => simpa [run] using h
  | cons chunk chunks ih =>
    rw [List.flatten_cons] at h
    exact ih (idle_handleRead h)

/-! ## A stream that is not quiet

The other direction: the chunks that make the server run a handler too late. A
frame that shuts the connection down is read alone, so that the frames after it
come in later turns; a response that cannot be encoded must be followed by the
late handler in the same turn. -/

theorem trace_prefix_of_pass {p : Pass (Conn σ)} (h : PassOutcome server conn p) :
    conn.trace <+: p.state.trace := by
  cases h <;> simp [Pass.state, rejectAndClose_eq, List.append_assoc]

theorem trace_prefix_onMessage (server : RpcServer σ) (conn : Conn σ) :
    conn.trace <+: (server.onMessage conn).trace := by
  refine onMessage_induct (P := fun conn conn' => conn.trace <+: conn'.trace) ?_ ?_ conn
  · exact fun _ _ hp => trace_prefix_of_pass hp
  · exact fun _ _ _ hp ih => (trace_prefix_of_pass hp).trans ih

theorem trace_prefix_handleRead (server : RpcServer σ) (conn : Conn σ) (chunk : Bytes) :
    conn.trace <+: (server.handleRead conn chunk).trace := by
  unfold handleRead
  split_ifs
  · exact List.prefix_rfl
  · exact server.trace_prefix_onMessage (conn.received chunk)

/-- A pass that goes round again took an admitted frame, and ran its handler. -/
theorem frame_of_again (h : PassOutcome server conn (.again conn')) :
    ∃ f n es, server.frameReader.cutter.cut conn.input.contents = .frame f n ∧ Admitted f.1 ∧
      conn'.input.contents = conn.input.contents.drop n ∧ conn'.trace = conn.trace ++ es ∧
      (server.Invokes f → HasInvoke es) := by
  -- the registry's work is at the front of what the pass added
  have hWork : ∀ {f : Frame} {es : List Event}, Admitted f.1 → server.Invokes f →
      HasInvoke (server.work f ++ es) := by
    intro f es hAdm hInv
    obtain ⟨e, he, hi⟩ := (hasInvoke_work hAdm).mpr hInv
    exact ⟨e, List.mem_append_left es he, hi⟩
  cases h with
  | malformed reason f n hCut hAdmitted hFrame =>
    obtain ⟨m, hTrace⟩ := rejectAndClose_trace
      (Conn.logProtocolError { conn with input := conn.input.retrieve n } reason)
      f.1.requestId .kMalformedBody
    refine ⟨f, n, _, hCut, hAdmitted, by simp, hTrace.trans (List.append_assoc ..), ?_⟩
    -- a malformed envelope has no handler
    rintro ⟨-, hs, request, hd, -⟩
    exact absurd ⟨hAdmitted, fun _ => by rw [hd]; rfl⟩ hFrame
  | overflow reason f n hCut hFrame hOver =>
    exact ⟨f, n, server.work f ++ [.log reason, .forceClose], hCut, hFrame.1,
      by simp, by simp, hWork hFrame.1⟩
  | answered f n hCut hFrame hFits =>
    exact ⟨f, n, server.work f ++ [.send (responseMessage f (server.answer conn.world f).1)],
      hCut, hFrame.1, by simp, by simp, hWork hFrame.1⟩

/-- **Too late, in one turn**: the connection was closed, and the loop comes to a
frame that runs a handler. -/
theorem late_in_turn (server : RpcServer σ) (conn : Conn σ) (hClose : HasClose conn.trace)
    (hLate : ∃ g ∈ (server.framesOf conn.input.contents).takeWhile
      (fun g => decide (Admitted g.1)), server.Invokes g) :
    ¬ NoHandlerAfterClose (server.onMessage conn).trace := by
  -- the trace at the end extends the one in which the handler has run
  suffices h : conn.trace <+: (server.onMessage conn).trace ∧
      (HasClose conn.trace → (∃ g ∈ (server.framesOf conn.input.contents).takeWhile
        (fun g => decide (Admitted g.1)), server.Invokes g) →
        ¬ NoHandlerAfterClose (server.onMessage conn).trace) from h.2 hClose hLate
  refine onMessage_induct (P := fun conn conn' => conn.trace <+: conn'.trace ∧
      (HasClose conn.trace → (∃ g ∈ (server.framesOf conn.input.contents).takeWhile
        (fun g => decide (Admitted g.1)), server.Invokes g) →
        ¬ NoHandlerAfterClose conn'.trace)) ?_ ?_ conn
  · -- a pass that leaves the loop has no admitted frame in front of it
    intro conn conn' hp
    refine ⟨trace_prefix_of_pass hp, fun _ hg => ?_⟩
    exfalso
    obtain ⟨g, hg, -⟩ := hg
    cases hp with
    | idle hCut | flooded _ hCut => simp [framesOf, Cutter.split_more hCut] at hg
    | tooLarge _ _ hCut | badMagic _ hCut => simp [framesOf, Cutter.split_broken hCut] at hg
    | refused _ f n hCut hFrame => simp [framesOf, Cutter.split_frame hCut, hFrame] at hg
  · intro conn conn' r hp ⟨ihTrace, ih⟩
    have hPrefix : conn.trace <+: conn'.trace := trace_prefix_of_pass hp
    refine ⟨hPrefix.trans ihTrace, fun hClose hg => ?_⟩
    obtain ⟨g, hg, hInv⟩ := hg
    obtain ⟨f, n, es, hCut, hAdm, hInput, hTrace, hRun⟩ := frame_of_again hp
    rw [framesOf_cons hCut, List.takeWhile_cons_of_pos (by simpa using hAdm)] at hg
    rcases List.mem_cons.mp hg with rfl | hg
    · -- the handler runs in this pass, after the close
      intro hOrdered
      have hOrdered' := hOrdered.of_prefix ihTrace
      rw [hTrace] at hOrdered'
      exact not_noHandlerAfterClose_append hClose (hRun hInv) hOrdered'
    · exact ih (hClose.mono hPrefix) ⟨g, by rw [hInput]; exact hg, hInv⟩

theorem onMessage_of_empty (h : conn.input.contents = []) : server.onMessage conn = conn := by
  have hCut : server.frameReader.cutter.cut conn.input.contents = .more := by rw [h]; rfl
  have hLimit : ¬ server.inputLimit < conn.input.readableBytes := by
    rw [← Buffer.length_contents, h]
    exact Nat.not_lt_zero _
  refine onMessage_done ?_
  rw [onMessagePass_of_more hCut, if_neg hLimit]

/-- A connection that reads, with nothing unread. -/
structure Ready (conn : Conn σ) : Prop where
  reading : conn.transport.Reading
  queued : conn.transport.closeQueued = false
  empty : conn.input.contents = []

theorem Ready.runQueued (h : Ready conn) : Ready conn.runQueued := by
  have hq := Transport.runQueued_of_not_queued h.queued
  refine ⟨?_, ?_, h.empty⟩
  · rw [Conn.runQueued_transport, hq]
    exact h.reading
  · rw [Conn.runQueued_transport, hq]
    exact h.queued

theorem Ready.rejectAndClose (h : Ready conn) (requestId : UInt32) (status : StatusCode) :
    Ready (RpcServer.rejectAndClose conn requestId status) ∧
      HasClose (RpcServer.rejectAndClose conn requestId status).trace := by
  obtain ⟨hReading, hQueued⟩ := rejectAndClose_transport conn h.reading requestId status
  obtain ⟨m, hTrace⟩ := rejectAndClose_trace conn requestId status
  refine ⟨⟨hReading, hQueued.trans h.queued, ?_⟩, .shutdown, ?_, rfl⟩
  · rw [rejectAndClose_input]
    exact h.empty
  · rw [hTrace]
    simp

/-- **A turn for one frame** leaves the connection ready for the next one, unless
the answer cannot be encoded; a frame that has no answer closes it. -/
theorem ready_handleRead (h : Ready conn) {s : Bytes}
    (hCut : server.frameReader.cutter.cut s = .frame f n)
    (hFits : server.Answerable f → (server.answer conn.world f).1.payload.length ≤ kMaxBodyLen) :
    Ready (server.handleRead conn (s.take n)) ∧
      (¬ server.Answerable f → HasClose (server.handleRead conn (s.take n)).trace) ∧
      (server.Answerable f →
        (server.handleRead conn (s.take n)).world = (server.answer conn.world f).2) := by
  -- the buffer holds exactly this frame, and nothing once it is consumed
  have hContents : (conn.received (s.take n)).input.contents = s.take n := by
    rw [Conn.received_contents, h.empty, List.nil_append]
  have hTake : server.frameReader.cutter.cut (conn.received (s.take n)).input.contents =
      .frame f n := by
    rw [hContents]
    exact FrameReader.cut_take_of_frame hCut
  have hRest : ((conn.received (s.take n)).input.retrieve n).contents = [] := by
    rw [Buffer.contents_retrieve, hContents, List.drop_eq_nil_iff, List.length_take]
    omega
  have hReady : ∀ reason, Ready (Conn.logProtocolError { conn.received (s.take n) with
      input := (conn.received (s.take n)).input.retrieve n } reason) :=
    fun _ => ⟨h.reading, h.queued, hRest⟩
  rw [handleRead, if_neg h.reading.ne_disconnected]
  by_cases hAdm : Admitted f.1
  · by_cases hAns : server.Answerable f
    · have hPass := onMessagePass_answered hTake hAns (hFits hAns)
      rw [onMessage_again hPass, onMessage_of_empty hRest]
      refine ⟨Ready.runQueued ⟨h.reading.send _, ?_, hRest⟩, fun hf => absurd hAns hf,
        fun _ => rfl⟩
      simpa using h.queued
    · have hPass := (onMessagePass_of_frame hTake).trans (onFrame_malformed hAdm hAns)
      obtain ⟨hDone, hClose⟩ := (hReady "malformed request envelope").rejectAndClose
        f.1.requestId .kMalformedBody
      rw [onMessage_again hPass, onMessage_of_empty hDone.empty]
      exact ⟨hDone.runQueued, fun _ => hClose, fun hf => absurd hf hAns⟩
  · obtain ⟨reason, hRefused⟩ := onFrame_refused hAdm
    have hPass := (onMessagePass_of_frame hTake).trans hRefused
    obtain ⟨hDone, hClose⟩ := (hReady reason).rejectAndClose f.1.requestId (refusal f.1)
    rw [onMessage_done hPass]
    exact ⟨hDone.runQueued, fun _ => hClose, fun hf => absurd hf.1 hAdm⟩

/-- **Too late, in a later turn**: the frames are read one by one up to the one
that runs a handler. -/
theorem late_in_later_turn (server : RpcServer σ) (s : Bytes) :
    ∀ conn : Conn σ, Ready conn → HasClose conn.trace → ¬ server.Drained s →
      ∃ chunks, chunks.flatten = s ∧
        ¬ NoHandlerAfterClose (server.run conn chunks).trace := by
  induction s using server.frameReader.cutter.split_induct with
  | hMore s h =>
    intro conn _ _ hDrained
    exact absurd (by simp [Drained, framesOf, Cutter.split_more h]) hDrained
  | hBroken s h =>
    intro conn _ _ hDrained
    exact absurd (by simp [Drained, framesOf, Cutter.split_broken h]) hDrained
  | hFrame s f n h ih =>
    intro conn hReady hClose hDrained
    have hFrames := framesOf_cons h
    by_cases hInv : server.Invokes f
    · -- the rest of the stream in one turn
      refine ⟨[s], by simp, ?_⟩
      have hLate := server.late_in_turn (conn.received s) hClose
        ⟨f, by simp [hReady.empty, hFrames, hInv.1], hInv⟩
      simpa [run, handleRead, hReady.reading.ne_disconnected] using hLate
    · -- this frame in a turn of its own
      obtain ⟨hReady', -, -⟩ := ready_handleRead hReady h fun hAns => by
        simp [answer_payload_of_not_invokes hAns hInv]
      have hClose' := hClose.mono (server.trace_prefix_handleRead conn (s.take n))
      have hDrained' : ¬ server.Drained (s.drop n) := by
        intro hd
        refine hDrained fun g hg => ?_
        rw [hFrames] at hg
        rcases List.mem_cons.mp hg with rfl | hg
        · exact hInv
        · exact hd g hg
      obtain ⟨chunks, hChunks, hLate⟩ := ih _ hReady' hClose' hDrained'
      exact ⟨s.take n :: chunks, by simp [hChunks], hLate⟩

/-- **A stream that is not quiet can be cut so that a handler runs too late.** -/
theorem late_of_not_quiet (server : RpcServer σ) (s : Bytes) :
    ∀ conn : Conn σ, Ready conn → ¬ server.Quiet conn.world (server.framesOf s) →
      ∃ chunks, chunks.flatten = s ∧
        ¬ NoHandlerAfterClose (server.run conn chunks).trace := by
  induction s using server.frameReader.cutter.split_induct with
  | hMore s h =>
    intro conn _ hQuiet
    exact absurd (by simp [Quiet, framesOf, Cutter.split_more h]) hQuiet
  | hBroken s h =>
    intro conn _ hQuiet
    exact absurd (by simp [Quiet, framesOf, Cutter.split_broken h]) hQuiet
  | hFrame s f n h ih =>
    intro conn hReady hQuiet
    rw [framesOf_cons h, Quiet] at hQuiet
    by_cases hAns : server.Answerable f
    · rw [if_neg (not_not.mpr hAns)] at hQuiet
      by_cases hOver : kMaxBodyLen < (server.answer conn.world f).1.payload.length
      · -- the late handler has to run in the turn of the failed response
        rw [if_pos hOver] at hQuiet
        refine ⟨[s], by simp, ?_⟩
        have hContents : (conn.received s).input.contents = s := by simp [hReady.empty]
        have hPass : server.onMessagePass (conn.received s) = _ :=
          onMessagePass_overflow (by rw [hContents]; exact h) hAns hOver
        have hLate := server.late_in_turn
          ((server.afterWork (conn.received s) f n).logProtocolError
            "response body exceeds the codec limit").forceClose
          ⟨.forceClose, by simp, rfl⟩ (by simpa [hReady.empty] using hQuiet)
        rw [← onMessage_again hPass] at hLate
        simpa [run, handleRead, hReady.reading.ne_disconnected] using hLate
      · -- answered in a turn of its own; the offending frame is further on
        rw [if_neg hOver] at hQuiet
        obtain ⟨hReady', -, hWorld⟩ := ready_handleRead hReady h fun _ => not_lt.mp hOver
        obtain ⟨chunks, hChunks, hLate⟩ := ih _ hReady' (by rw [hWorld hAns]; exact hQuiet)
        exact ⟨s.take n :: chunks, by simp [hChunks], hLate⟩
    · -- the offending frame, read alone: the late one comes in a later turn
      rw [if_pos hAns] at hQuiet
      obtain ⟨hReady', hClose, -⟩ := ready_handleRead hReady h fun hf => absurd hf hAns
      obtain ⟨chunks, hChunks, hLate⟩ :=
        server.late_in_later_turn (s.drop n) _ hReady' (hClose hAns) hQuiet
      exact ⟨s.take n :: chunks, by simp [hChunks], hLate⟩

/-- **When a handler can run after a close.** On a connection that receives the
stream `s`, no handler runs after the server has closed the connection, whatever
the chunks, if and only if the frames of `s` are quiet. -/
theorem no_handler_after_close_iff (server : RpcServer σ) (initialSize : Nat) (world : σ)
    (s : Bytes) :
    (∀ chunks : List Bytes, chunks.flatten = s →
      NoHandlerAfterClose (server.run (Conn.established initialSize world) chunks).trace) ↔
    server.Quiet world (server.frameReader.cutter.split s).frames := by
  constructor
  · intro hAll
    by_contra hQuiet
    have hReady : Ready (Conn.established initialSize world) :=
      ⟨.inl rfl, rfl, Buffer.contents_new initialSize⟩
    obtain ⟨chunks, hChunks, hLate⟩ := server.late_of_not_quiet s _ hReady hQuiet
    exact hLate (hAll chunks hChunks)
  · intro hQuiet chunks hChunks
    have hIdle : Idle server (Conn.established initialSize world)
        ((Conn.established initialSize world).input.contents ++ chunks.flatten) := by
      refine ⟨List.Pairwise.nil, .inr ⟨.inl rfl, .inl ⟨?_, ?_⟩⟩⟩
      · simp [HasClose, Conn.established]
      · simpa [Conn.established, framesOf, hChunks] using hQuiet
    exact (idle_run chunks hIdle).ordered

/-- A request frame without a body, which is no envelope. -/
def emptyRequest (requestId : UInt32) : Frame :=
  ({ magic := kMagic, version := kVersion, type := .kRequest, flags := 0, status := .kOk,
     serializerId := kSerializerRaw, requestId := requestId, bodyLen := 0 }, [])

/-- A malformed envelope and a call of `a.b`: the connection is shut down for the
first frame, and the handler runs for the second, in the same turn or in the next. -/
theorem handler_after_malformed_envelope :
    ¬ NoHandlerAfterClose (echoServer.run (Conn.established 64 ())
        [encodeFrame (emptyRequest 7) ++ encodeFrame (echoRequest 8 [])]).trace ∧
      ¬ NoHandlerAfterClose (echoServer.run (Conn.established 64 ())
        [encodeFrame (emptyRequest 7), encodeFrame (echoRequest 8 [])]).trace := by
  decide

end RpcServer

end ReactorNet.Rpc
