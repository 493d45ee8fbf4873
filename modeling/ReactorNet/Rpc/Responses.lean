import ReactorNet.Rpc.Server

/-!
# ReactorNet — one response per request

What the server owes a well-behaved peer, stated without buffers and loops:
`RpcServer.answer` is the response a single request frame gets in a given world,
and `RpcServer.answers` threads the world through a list of frames.

`Served` relates a connection to the same connection after some frames were
answered. A pass of the message loop serves one frame (`served_frame`), a message
callback serves the complete frames of its buffer (`onMessage_served`), and a
whole connection serves the complete frames of the stream received so far
(`run_served`).

Main results:

* `caught_dispatch` — the registry's dispatch, exceptions included, is `execute`.
* `one_response_per_request` — whatever the chunks, the messages sent are the
  answers to the requests, in their order, and the connection stays open.
-/

namespace ReactorNet.Rpc

open Lib

universe u

variable {σ : Type u}

/-! ## The answers a server owes -/

namespace RpcServer

/-- A call, by the registry's tables: the handler's output, its failure, or the
reason why there is no handler. -/
def execute (server : RpcServer σ) (request : Request) (world : σ) : (StatusCode × Bytes) × σ :=
  match server.registry.find (ServiceRegistry.makeKey request.service request.method) with
  | none =>
    (if request.service ∈ server.registry.services then (.kUnknownMethod, [])
      else (.kUnknownService, []), world)
  | some fn =>
    match fn request.payload world with
    | (.ok output, world') => ((.kOk, output), world')
    | (.error _, world') => ((.kInternalError, []), world')

/-- The response to one frame, with the frame's own serializer id. -/
def answer (server : RpcServer σ) (world : σ) (f : Frame) : Response × σ :=
  if f.1.serializerId ≠ server.serializerId then
    ({ status := .kUnsupportedSerializer, serializerId := f.1.serializerId }, world)
  else
    match RawCodec.decodeRequest f.2 with
    | none => ({ status := .kMalformedBody, serializerId := f.1.serializerId }, world)
    | some request =>
      let r := server.execute request world
      ({ status := r.1.1, payload := r.1.2, serializerId := f.1.serializerId }, r.2)

/-- The responses to a list of frames. -/
def answers (server : RpcServer σ) : σ → List Frame → List Response
  | _, [] => []
  | world, f :: fs => (server.answer world f).1 :: server.answers (server.answer world f).2 fs

/-- The world after a list of frames. -/
def worldAfter (server : RpcServer σ) : σ → List Frame → σ
  | world, [] => world
  | world, f :: fs => server.worldAfter (server.answer world f).2 fs

/-- The message that carries a response back to the sender of a frame. -/
def responseMessage (f : Frame) (r : Response) : Bytes :=
  encodeFrame (responseHeader f.1.requestId r r.payload, r.payload)

theorem length_answers (server : RpcServer σ) (world : σ) (fs : List Frame) :
    (server.answers world fs).length = fs.length := by
  induction fs generalizing world with
  | nil => rfl
  | cons f fs ih => simp [answers, ih]

theorem answers_append (server : RpcServer σ) (world : σ) (fs gs : List Frame) :
    server.answers world (fs ++ gs) =
      server.answers world fs ++ server.answers (server.worldAfter world fs) gs := by
  induction fs generalizing world with
  | nil => rfl
  | cons f fs ih => simp [answers, worldAfter, ih]

theorem worldAfter_append (server : RpcServer σ) (world : σ) (fs gs : List Frame) :
    server.worldAfter world (fs ++ gs) =
      server.worldAfter (server.worldAfter world fs) gs := by
  induction fs generalizing world with
  | nil => rfl
  | cons f fs ih => simp [worldAfter, ih]

/-- Answers carry the serializer id of the frames they answer. -/
theorem answer_serializerId (server : RpcServer σ) (world : σ) (f : Frame) :
    (server.answer world f).1.serializerId = f.1.serializerId := by
  unfold answer
  split
  · rfl
  · split <;> rfl

/-- **The registry's dispatch, with its exceptions caught, executes the call.** -/
theorem caught_dispatch (server : RpcServer σ) (request : Request) (world : σ) :
    ((caught (server.registry.dispatch request {} world)).status,
        (caught (server.registry.dispatch request {} world)).payload) =
      (server.execute request world).1 ∧
    (server.registry.dispatch request {} world).world = (server.execute request world).2 := by
  simp only [ServiceRegistry.dispatch, execute]
  cases server.registry.find (ServiceRegistry.makeKey request.service request.method) with
  -- no handler: the status depends on whether the service is known
  | none => by_cases hs : request.service ∈ server.registry.services <;> simp [caught, hs]
  | some fn =>
    rcases hr : fn request.payload world with ⟨outcome, world'⟩
    cases outcome with
    | ok output => simp [caught, hr]
    -- both `catch` clauses put the same response in place of what was filled in
    | error thrown => cases thrown <;> simp [caught, hr]

/-- The handler that a dispatch runs is the one registered for the call. -/
theorem dispatch_handler (server : RpcServer σ) (request : Request) (world : σ) :
    (server.registry.dispatch request {} world).handler =
      (server.registry.find (ServiceRegistry.makeKey request.service request.method)).map
        fun _ => ServiceRegistry.makeKey request.service request.method := by
  simp only [ServiceRegistry.dispatch]
  cases server.registry.find (ServiceRegistry.makeKey request.service request.method) with
  | none => rfl
  | some fn => rcases hr : fn request.payload world with ⟨_ | _, world'⟩ <;> simp [hr]

/-! ## The checks of a pass, by cases

A frame whose header is not `Admitted` is refused and the loop left; an admitted
one with an envelope the server cannot read is refused in the loop; every other
one is `Answerable`, and gets its answer. -/

/-- The header checks that a request must pass. -/
def Admitted (header : MessageHeader) : Prop :=
  header.version = kVersion ∧ header.type = .kRequest ∧ header.flags = 0

instance (header : MessageHeader) : Decidable (Admitted header) :=
  inferInstanceAs (Decidable (_ ∧ _ ∧ _))

/-- An admitted request with a body that decodes, if the server has to look. -/
def Answerable (server : RpcServer σ) (f : Frame) : Prop :=
  Admitted f.1 ∧
    (f.1.serializerId = server.serializerId → (RawCodec.decodeRequest f.2).isSome = true)

instance (server : RpcServer σ) (f : Frame) : Decidable (server.Answerable f) :=
  inferInstanceAs (Decidable (_ ∧ (_ → _)))

/-- The status a refused header is answered with. -/
def refusal (header : MessageHeader) : StatusCode :=
  if header.version ≠ kVersion then .kUnsupportedVersion
  else if header.type ≠ .kRequest then .kUnsupportedMsgType
  else .kUnsupportedFlag

/-- What the registry does for a frame: the dispatch, and the handler's run. -/
def work (server : RpcServer σ) (f : Frame) : List Event :=
  if f.1.serializerId ≠ server.serializerId then []
  else
    match RawCodec.decodeRequest f.2 with
    | none => []
    | some request =>
      let key := ServiceRegistry.makeKey request.service request.method
      .dispatch request ::
        if (server.registry.find key).isSome then [.invoke key request.payload] else []

variable {conn : Conn σ} {server : RpcServer σ} {f : Frame}

theorem sendResponse_of_fits {requestId : UInt32} {r : Response}
    (h : r.payload.length ≤ kMaxBodyLen) :
    sendResponse conn requestId r =
      conn.send (encodeFrame (responseHeader requestId r r.payload, r.payload)) := by
  rw [sendResponse, RawCodec.encodeResponse_eq_some.mpr ⟨h, rfl⟩]
  rfl

theorem sendResponse_of_overflow {requestId : UInt32} {r : Response}
    (h : kMaxBodyLen < r.payload.length) :
    sendResponse conn requestId r =
      (conn.logProtocolError "response body exceeds the codec limit").forceClose := by
  rw [sendResponse, RawCodec.encodeResponse, if_pos h]

/-- A rejection always fits: it has no body. -/
theorem rejectAndClose_eq (conn : Conn σ) (requestId : UInt32) (status : StatusCode) :
    rejectAndClose conn requestId status =
      (conn.send
        (encodeFrame (responseHeader requestId { status := status } [], []))).shutdown := by
  rw [rejectAndClose, sendResponse_of_fits (Nat.zero_le _)]

theorem onFrame_refused (h : ¬ Admitted f.1) :
    ∃ reason, server.onFrame conn f.1 f.2 =
      .done (rejectAndClose (conn.logProtocolError reason) f.1.requestId (refusal f.1)) := by
  unfold onFrame refusal
  by_cases hv : f.1.version = kVersion
  · by_cases ht : f.1.type = .kRequest
    · -- past version and type only the flags are left to refuse it
      have hf : f.1.flags ≠ 0 := fun hf => h ⟨hv, ht, hf⟩
      exact ⟨_, by rw [if_neg (not_not.mpr hv), if_neg (not_not.mpr ht), if_pos hf,
        if_neg (not_not.mpr hv), if_neg (not_not.mpr ht)]⟩
    · exact ⟨_, by rw [if_neg (not_not.mpr hv), if_pos ht, if_neg (not_not.mpr hv), if_pos ht]⟩
  · exact ⟨_, by rw [if_pos hv, if_pos hv]⟩

theorem onFrame_admitted (h : Admitted f.1) :
    server.onFrame conn f.1 f.2 =
      if f.1.serializerId ≠ server.serializerId then
        .again (sendResponse conn f.1.requestId
          { status := .kUnsupportedSerializer, serializerId := f.1.serializerId })
      else .again (server.handleRequest conn f.1 f.2) := by
  rw [onFrame, if_neg (not_not.mpr h.1), if_neg (not_not.mpr h.2.1), if_neg (not_not.mpr h.2.2)]

theorem onFrame_malformed (h : Admitted f.1) (hAns : ¬ server.Answerable f) :
    server.onFrame conn f.1 f.2 =
      .again (rejectAndClose (conn.logProtocolError "malformed request envelope")
        f.1.requestId .kMalformedBody) := by
  obtain ⟨hs, hd⟩ : f.1.serializerId = server.serializerId ∧
      RawCodec.decodeRequest f.2 = none := by
    simpa [Answerable, h] using hAns
  rw [onFrame_admitted h, if_neg (not_not.mpr hs), handleRequest, hd]

/-- **The answer to a frame**: the registry works in the frame's turn, then the
answer is passed to `sendResponse`, and the loop goes on. -/
theorem onFrame_answerable (h : server.Answerable f) :
    server.onFrame conn f.1 f.2 =
      .again (sendResponse
        { conn with
          world := (server.answer conn.world f).2
          trace := conn.trace ++ server.work f }
        f.1.requestId (server.answer conn.world f).1) := by
  obtain ⟨hAdm, hDec⟩ := h
  rw [onFrame_admitted hAdm]
  by_cases hs : f.1.serializerId = server.serializerId
  · -- the server's format: the request is dispatched
    obtain ⟨request, hr⟩ := Option.isSome_iff_exists.mp (hDec hs)
    obtain ⟨hcaught, hworld⟩ := server.caught_dispatch request conn.world
    rw [if_neg (not_not.mpr hs), handleRequest]
    simp only [answer, work, if_neg (not_not.mpr hs), hr, dispatch_handler, ← hcaught, ← hworld]
    cases server.registry.find (ServiceRegistry.makeKey request.service request.method) <;> rfl
  · -- another format: the registry is not asked
    rw [if_pos hs]
    simp only [answer, work, if_pos hs, List.append_nil]

/-- The connection after the registry's work on a frame, before its answer. -/
def afterWork (server : RpcServer σ) (conn : Conn σ) (f : Frame) (n : Nat) : Conn σ :=
  { conn with
    input := conn.input.retrieve n
    world := (server.answer conn.world f).2
    trace := conn.trace ++ server.work f }

@[simp] theorem afterWork_transport (server : RpcServer σ) (conn : Conn σ) (f : Frame) (n : Nat) :
    (server.afterWork conn f n).transport = conn.transport := rfl

@[simp] theorem afterWork_contents (server : RpcServer σ) (conn : Conn σ) (f : Frame) (n : Nat) :
    (server.afterWork conn f n).input.contents = conn.input.contents.drop n :=
  Buffer.contents_retrieve ..

@[simp] theorem afterWork_world (server : RpcServer σ) (conn : Conn σ) (f : Frame) (n : Nat) :
    (server.afterWork conn f n).world = (server.answer conn.world f).2 := rfl

@[simp] theorem afterWork_trace (server : RpcServer σ) (conn : Conn σ) (f : Frame) (n : Nat) :
    (server.afterWork conn f n).trace = conn.trace ++ server.work f := rfl

theorem onMessagePass_answered {n : Nat}
    (hCut : server.frameReader.cutter.cut conn.input.contents = .frame f n)
    (hFrame : server.Answerable f)
    (hFits : (server.answer conn.world f).1.payload.length ≤ kMaxBodyLen) :
    server.onMessagePass conn =
      .again ((server.afterWork conn f n).send
        (responseMessage f (server.answer conn.world f).1)) := by
  rw [onMessagePass_of_frame hCut, onFrame_answerable hFrame, sendResponse_of_fits hFits]
  rfl

theorem onMessagePass_overflow {n : Nat}
    (hCut : server.frameReader.cutter.cut conn.input.contents = .frame f n)
    (hFrame : server.Answerable f)
    (hOver : kMaxBodyLen < (server.answer conn.world f).1.payload.length) :
    server.onMessagePass conn =
      .again ((server.afterWork conn f n).logProtocolError
        "response body exceeds the codec limit").forceClose := by
  rw [onMessagePass_of_frame hCut, onFrame_answerable hFrame, sendResponse_of_overflow hOver]
  rfl

/-- Everything a pass of the message loop can do. -/
inductive PassOutcome (server : RpcServer σ) (conn : Conn σ) : Pass (Conn σ) → Prop
  -- `idle`: an incomplete frame, within the limit
  | idle (hCut : server.frameReader.cutter.cut conn.input.contents = .more)
      (hLimit : conn.input.readableBytes ≤ server.inputLimit) :
      PassOutcome server conn (.done conn)
  -- `flooded`: the one place where the input limit closes the connection
  | flooded (reason : String)
      (hCut : server.frameReader.cutter.cut conn.input.contents = .more)
      (hLimit : server.inputLimit < conn.input.readableBytes) :
      PassOutcome server conn (.done (conn.logProtocolError reason).forceClose)
  -- `tooLarge`, `badMagic`: the two reasons for a protocol error, told apart by the header
  | tooLarge (reason : String) (header : MessageHeader)
      (hCut : server.frameReader.cutter.cut conn.input.contents = .broken)
      (hHeader : decodeHeader conn.input.contents = some header) :
      PassOutcome server conn
        (.done (rejectAndClose (conn.logProtocolError reason) header.requestId .kBodyTooLarge))
  | badMagic (reason : String)
      (hCut : server.frameReader.cutter.cut conn.input.contents = .broken)
      (hHeader : decodeHeader conn.input.contents = none) :
      PassOutcome server conn (.done (conn.logProtocolError reason).forceClose)
  -- `refused`: consumed, answered, half-closed, and the loop is left
  | refused (reason : String) (f : Frame) (n : Nat)
      (hCut : server.frameReader.cutter.cut conn.input.contents = .frame f n)
      (hFrame : ¬ Admitted f.1) :
      PassOutcome server conn
        (.done (rejectAndClose
          (Conn.logProtocolError { conn with input := conn.input.retrieve n } reason)
          f.1.requestId (refusal f.1)))
  -- `malformed`: the same, but the loop goes on
  | malformed (reason : String) (f : Frame) (n : Nat)
      (hCut : server.frameReader.cutter.cut conn.input.contents = .frame f n)
      (hAdmitted : Admitted f.1) (hFrame : ¬ server.Answerable f) :
      PassOutcome server conn
        (.again (rejectAndClose
          (Conn.logProtocolError { conn with input := conn.input.retrieve n } reason)
          f.1.requestId .kMalformedBody))
  -- `overflow`: the handler ran, and its output cannot be framed
  | overflow (reason : String) (f : Frame) (n : Nat)
      (hCut : server.frameReader.cutter.cut conn.input.contents = .frame f n)
      (hFrame : server.Answerable f)
      (hOver : kMaxBodyLen < (server.answer conn.world f).1.payload.length) :
      PassOutcome server conn
        (.again ((server.afterWork conn f n).logProtocolError reason).forceClose)
  | answered (f : Frame) (n : Nat)
      (hCut : server.frameReader.cutter.cut conn.input.contents = .frame f n)
      (hFrame : server.Answerable f)
      (hFits : (server.answer conn.world f).1.payload.length ≤ kMaxBodyLen) :
      PassOutcome server conn
        (.again ((server.afterWork conn f n).send
          (responseMessage f (server.answer conn.world f).1)))

theorem onMessagePass_outcome (server : RpcServer σ) (conn : Conn σ) :
    PassOutcome server conn (server.onMessagePass conn) := by
  cases hc : server.frameReader.cutter.cut conn.input.contents with
  | more =>
    rw [onMessagePass_of_more hc]
    split
    · exact .flooded _ hc (by assumption)
    · exact .idle hc (by omega)
  | broken =>
    rw [onMessagePass_of_broken hc]
    cases hh : decodeHeader conn.input.contents with
    | none => exact .badMagic _ hc hh
    | some header => exact .tooLarge _ header hc hh
  | frame f n =>
    -- from the outside in: header, envelope, size of the answer
    by_cases hAdm : Admitted f.1
    · by_cases hAns : server.Answerable f
      · by_cases hFits : (server.answer conn.world f).1.payload.length ≤ kMaxBodyLen
        · rw [onMessagePass_answered hc hAns hFits]
          exact .answered f n hc hAns hFits
        · rw [onMessagePass_overflow hc hAns (not_le.mp hFits)]
          exact .overflow _ f n hc hAns (not_le.mp hFits)
      · rw [onMessagePass_of_frame hc, onFrame_malformed hAdm hAns]
        exact .malformed _ f n hc hAdm hAns
    · obtain ⟨reason, hRefused⟩ := onFrame_refused hAdm
      rw [onMessagePass_of_frame hc, hRefused]
      exact .refused reason f n hc hAdm

/-- The loop rule for a message callback, over the outcomes of its passes. -/
theorem onMessage_induct {P : Conn σ → Conn σ → Prop}
    (hDone : ∀ conn conn', PassOutcome server conn (.done conn') → P conn conn')
    (hAgain : ∀ conn conn' r, PassOutcome server conn (.again conn') → P conn' r → P conn r) :
    ∀ conn, P conn (server.onMessage conn) := by
  refine loop_induct server.onMessagePass_dec ?_ ?_
  · intro conn conn' h
    exact hDone conn conn' (h ▸ server.onMessagePass_outcome conn)
  · intro conn conn' r h ih
    exact hAgain conn conn' r (h ▸ server.onMessagePass_outcome conn) ih

end RpcServer

/-! ## Serving frames -/

/-- The events that close a connection. -/
def Event.isClose : Event → Bool
  | .shutdown | .forceClose => true
  | _ => false

/-- `conn'` is `conn` after answering the frames `fs`, still open. -/
structure Served (server : RpcServer σ) (conn : Conn σ) (fs : List Frame) (conn' : Conn σ) :
    Prop where
  sent : conn'.transport.sent = conn.transport.sent ++
    List.zipWith RpcServer.responseMessage fs (server.answers conn.world fs)
  state : conn'.transport.state = conn.transport.state
  queued : conn'.transport.closeQueued = conn.transport.closeQueued
  world : conn'.world = server.worldAfter conn.world fs
  trace : conn'.trace.filter Event.isClose = conn.trace.filter Event.isClose

theorem Served.refl (server : RpcServer σ) (conn : Conn σ) (input : Buffer) :
    Served server conn [] { conn with input := input } :=
  ⟨by simp, rfl, rfl, rfl, rfl⟩

theorem Served.trans {server : RpcServer σ} {conn conn' conn'' : Conn σ} {fs gs : List Frame}
    (h : Served server conn fs conn') (h' : Served server conn' gs conn'') :
    Served server conn (fs ++ gs) conn'' where
  sent := by
    rw [h'.sent, h.sent, h.world, RpcServer.answers_append,
      -- the frames answered first and the frames answered next line up with their answers
      List.zipWith_append (server.length_answers conn.world fs).symm, List.append_assoc]
  state := h'.state.trans h.state
  queued := h'.queued.trans h.queued
  world := by rw [h'.world, h.world, RpcServer.worldAfter_append]
  trace := h'.trace.trans h.trace

/-- With nothing queued, the end of a turn changes nothing. -/
theorem Served.runQueued {server : RpcServer σ} {conn conn' : Conn σ} {fs : List Frame}
    (h : Served server conn fs conn') (hQueued : conn'.transport.closeQueued = false) :
    Served server conn fs conn'.runQueued := by
  refine ⟨?_, ?_, ?_, h.world, h.trace⟩
  · simpa using h.sent
  · rw [Conn.runQueued_transport, Transport.runQueued_of_not_queued hQueued, h.state]
  · rw [Conn.runQueued_transport, Transport.runQueued_of_not_queued hQueued, h.queued]

namespace RpcServer

/-- No answer needs more than a response body can hold. -/
def Fits (server : RpcServer σ) (world : σ) (fs : List Frame) : Prop :=
  ∀ r ∈ server.answers world fs, r.payload.length ≤ kMaxBodyLen

instance (server : RpcServer σ) (world : σ) (fs : List Frame) :
    Decidable (server.Fits world fs) :=
  inferInstanceAs (Decidable (∀ r ∈ _, _))

variable {server : RpcServer σ} {f : Frame}

theorem fits_append {world : σ} {fs gs : List Frame} :
    server.Fits world (fs ++ gs) ↔
      server.Fits world fs ∧ server.Fits (server.worldAfter world fs) gs := by
  simp only [Fits, answers_append, List.mem_append]
  constructor
  · exact fun h => ⟨fun r hr => h r (.inl hr), fun r hr => h r (.inr hr)⟩
  · exact fun h r hr => hr.elim (h.1 r) (h.2 r)

theorem work_not_close (server : RpcServer σ) (f : Frame) :
    (server.work f).filter Event.isClose = [] := by
  unfold work
  split_ifs
  · rfl
  · split
    · rfl
    · simp only
      split_ifs <;> rfl

/-- **A pass answers a frame**, and the loop goes on. -/
theorem served_frame (server : RpcServer σ) (conn : Conn σ)
    (hState : conn.transport.state = .kConnected) (hf : server.Answerable f)
    (hFits : server.Fits conn.world [f]) :
    ∃ conn', server.onFrame conn f.1 f.2 = .again conn' ∧ Served server conn [f] conn' := by
  refine ⟨_, onFrame_answerable hf, ?_⟩
  rw [sendResponse_of_fits (hFits _ (by simp [answers]))]
  refine ⟨?_, ?_, ?_, rfl, ?_⟩
  · simp only [Conn.send_transport, Transport.send_sent_of_connected hState]
    rfl
  · simp
  · simp
  · simp [List.filter_append, work_not_close, Event.isClose]

/-- **A message callback answers the complete frames of its buffer.** -/
theorem onMessage_served (hLimit : server.maxInputBufferSize = 0) (conn : Conn σ)
    (hState : conn.transport.state = .kConnected)
    (hBroken : (server.frameReader.cutter.split conn.input.contents).broken = false)
    (hAns : ∀ f ∈ (server.frameReader.cutter.split conn.input.contents).frames, server.Answerable
      f)
    (hFits : server.Fits conn.world (server.frameReader.cutter.split conn.input.contents).frames) :
    Served server conn (server.frameReader.cutter.split conn.input.contents).frames
        (server.onMessage conn) ∧
      (server.onMessage conn).input.contents =
        (server.frameReader.cutter.split conn.input.contents).rest := by
  -- the induction is along the frames of the buffer, with the connection moving
  generalize hs : conn.input.contents = s at *
  induction s using server.frameReader.cutter.split_induct generalizing conn with
  | hBroken s h =>
    rw [Cutter.split_broken h] at hBroken
    cases hBroken
  | hMore s h =>
    subst hs
    -- an incomplete frame is below the largest frame, so the default limit is never felt
    have hLe : conn.input.readableBytes ≤ server.inputLimit := by
      rw [inputLimit, if_neg (not_not.mpr hLimit), ← Buffer.length_contents]
      exact FrameReader.length_le_of_more h
    have hPass := onMessagePass_of_more h
    rw [if_neg (not_lt.mpr hLe)] at hPass
    rw [onMessage_done hPass, Cutter.split_more h]
    exact ⟨Served.refl server conn conn.input, rfl⟩
  | hFrame s f n h ih =>
    subst hs
    rw [Cutter.split_frame h] at hBroken hAns hFits ⊢
    have hf := hAns f (List.mem_cons_self ..)
    -- the answer to the first frame, and those to the rest in the world it leaves
    obtain ⟨hFits₁, hFits₂⟩ := fits_append.mp
      (show server.Fits conn.world ([f] ++ _) from hFits)
    obtain ⟨conn', hFrame, hServed⟩ :=
      served_frame server { conn with input := conn.input.retrieve n } hState hf hFits₁
    have hInput : conn'.input.contents = conn.input.contents.drop n := by
      rw [onFrame_again_input hFrame, Buffer.contents_retrieve]
    rw [onMessage_again ((onMessagePass_of_frame h).trans hFrame)]
    obtain ⟨hRest, hContents⟩ := ih conn' (hServed.state.trans hState) hInput hBroken
      (fun g hg => hAns g (List.mem_cons_of_mem _ hg)) (hServed.world ▸ hFits₂)
    exact ⟨((Served.refl server conn _).trans hServed).trans hRest, hContents⟩

/-- **A connection answers the complete frames received so far.** -/
theorem run_served (hLimit : server.maxInputBufferSize = 0) (initialSize : Nat) (world : σ)
    (chunks : List Bytes)
    (hBroken : (server.frameReader.cutter.split chunks.flatten).broken = false)
    (hAns : ∀ f ∈ (server.frameReader.cutter.split chunks.flatten).frames, server.Answerable f)
    (hFits : server.Fits world (server.frameReader.cutter.split chunks.flatten).frames) :
    Served server (Conn.established initialSize world)
        (server.frameReader.cutter.split chunks.flatten).frames
        (server.run (Conn.established initialSize world) chunks) ∧
      (server.run (Conn.established initialSize world) chunks).input.contents =
        (server.frameReader.cutter.split chunks.flatten).rest := by
  -- on the chunks, the last one first: the connection before it is served already
  induction chunks using List.reverseRecOn with
  | nil =>
    rw [List.flatten_nil, FrameReader.split_nil]
    exact ⟨Served.refl server _ _, Buffer.contents_new _⟩
  | append_singleton chunks chunk ih =>
    rw [List.flatten_append, List.flatten_singleton] at hBroken hAns hFits ⊢
    -- the frames of the chunks before are a prefix of the frames now
    have hWhole := Cutter.split_not_broken hBroken
    rw [Cutter.split_append hWhole] at hBroken hAns hFits ⊢
    obtain ⟨hFits₁, hFits₂⟩ := fits_append.mp hFits
    obtain ⟨hServed, hContents⟩ := ih hWhole
      (fun f hf => hAns f (List.mem_append_left _ hf)) hFits₁
    rw [run_append_singleton]
    generalize server.run (Conn.established initialSize world) chunks = conn at *
    have hState : conn.transport.state = .kConnected := hServed.state
    have hInput : (conn.received chunk).input.contents =
        (server.frameReader.cutter.split chunks.flatten).rest ++ chunk := by
      rw [Conn.received_contents, hContents]
    obtain ⟨hNow, hNowContents⟩ :=
      onMessage_served hLimit (conn.received chunk) hState
        (by rw [hInput]; exact hBroken)
        (by rw [hInput]; exact fun f hf => hAns f (List.mem_append_right _ hf))
        (by rw [hInput, Conn.received_world, hServed.world]; exact hFits₂)
    rw [hInput] at hNow hNowContents
    have hOpen : ¬ conn.transport.state = .kDisconnected := by simp [hState]
    rw [handleRead, if_neg hOpen]
    -- what was served before, and what this turn serves
    have hAll := (hServed.trans (Served.refl server conn _)).trans hNow
    rw [List.append_nil] at hAll
    exact ⟨hAll.runQueued (hNow.queued.trans hServed.queued), hNowContents⟩

/-- What the message for a response says on the wire. -/
theorem decodeHeader_responseMessage {r : Response} (hFits : r.payload.length ≤ kMaxBodyLen) :
    decodeHeader (responseMessage f r) = some (responseHeader f.1.requestId r r.payload) ∧
      (responseHeader f.1.requestId r r.payload).bodyLen.toNat = r.payload.length ∧
      (responseMessage f r).drop kHeaderSize = r.payload := by
  refine ⟨decodeHeader_encodeHeader rfl _, FrameReader.toNat_bodyLen hFits, ?_⟩
  rw [responseMessage, encodeFrame, ← length_encodeHeader, List.drop_left]

/-- Each answer is the answer to its frame, in some world. -/
theorem mem_zip_answers {world : σ} {fs : List Frame} {r : Response}
    (h : (f, r) ∈ fs.zip (server.answers world fs)) : ∃ world', r = (server.answer world' f).1 := by
  induction fs generalizing world with
  | nil => cases h
  | cons g gs ih =>
    rcases List.mem_cons.mp h with h | h
    · injection h with hf hr
      exact ⟨world, by rw [hr, hf]⟩
    · exact ih h

/-- **One response per request, in order.** However the stream of requests is cut
into chunks, the messages sent are the answers to the requests, one for each; a
response echoes the request's id and serializer id and has the body length it
declares. The connection stays open, and nothing is left unread. -/
theorem one_response_per_request (server : RpcServer σ) (hLimit : server.maxInputBufferSize = 0)
    (initialSize : Nat) (world : σ) (fs : List Frame)
    (hAccepts : ∀ f ∈ fs, server.frameReader.Accepts f)
    (hAns : ∀ f ∈ fs, server.Answerable f) (hFits : server.Fits world fs)
    (chunks : List Bytes) (hChunks : chunks.flatten = (fs.map encodeFrame).flatten) :
    let final := server.run (Conn.established initialSize world) chunks
    final.transport.sent = List.zipWith responseMessage fs (server.answers world fs) ∧
      (server.answers world fs).length = fs.length ∧
      (∀ f r, (f, r) ∈ fs.zip (server.answers world fs) →
        ∃ h, decodeHeader (responseMessage f r) = some h ∧ h.type = .kResponse ∧
          h.status = r.status ∧ h.requestId = f.1.requestId ∧
          h.serializerId = f.1.serializerId ∧ h.bodyLen.toNat = r.payload.length ∧
          (responseMessage f r).drop kHeaderSize = r.payload) ∧
      final.transport.state = .kConnected ∧
      (∀ e ∈ final.trace, e.isClose = false) ∧
      final.input.contents = [] := by
  have hSplit : server.frameReader.cutter.split chunks.flatten = ⟨fs, false, []⟩ := by
    rw [hChunks, FrameReader.split_encodeFrames hAccepts]
  obtain ⟨hServed, hContents⟩ := run_served hLimit initialSize world chunks
    (by rw [hSplit]) (by rw [hSplit]; exact hAns) (by rw [hSplit]; exact hFits)
  rw [hSplit] at hServed hContents
  refine ⟨hServed.sent, server.length_answers world fs, ?_, hServed.state, ?_, hContents⟩
  · intro f r hfr
    obtain ⟨hd, hlen, hbody⟩ :=
      decodeHeader_responseMessage (f := f) (hFits r (List.of_mem_zip hfr).2)
    obtain ⟨world', hr⟩ := mem_zip_answers hfr
    have hs : r.serializerId = f.1.serializerId := hr ▸ server.answer_serializerId world' f
    exact ⟨_, hd, rfl, rfl, rfl, hs, hlen, hbody⟩
  · exact fun e he => by simpa using List.filter_eq_nil_iff.mp hServed.trace e he

/-- A server with one method, `a.b`, that returns its payload. -/
def echoServer : RpcServer Unit where
  registry := { methods := [([0x61, 0x2E, 0x62], fun payload w => (.ok payload, w))]
                services := [[0x61]], frozen := true }

/-- A call of `a.b` with a payload. -/
def echoRequest (requestId : UInt32) (payload : Bytes) : Frame :=
  let body := [1, 0, 0x61, 1, 0, 0x62] ++ payload
  ({ magic := kMagic, version := kVersion, type := .kRequest, flags := 0, status := .kOk,
     serializerId := kSerializerRaw, requestId := requestId,
     bodyLen := UInt32.ofNat body.length }, body)

/-- Two calls, the first of them cut in its header. -/
theorem one_response_per_request_echo :
    (echoServer.run (Conn.established 64 ())
      [(encodeFrame (echoRequest 7 [1, 2])).take 5,
        (encodeFrame (echoRequest 7 [1, 2])).drop 5,
        encodeFrame (echoRequest 8 [])]).transport.sent.length = 2 := by
  have h := one_response_per_request echoServer rfl 64 () [echoRequest 7 [1, 2], echoRequest 8 []]
    (by decide) (by decide) (by decide)
    [(encodeFrame (echoRequest 7 [1, 2])).take 5, (encodeFrame (echoRequest 7 [1, 2])).drop 5,
      encodeFrame (echoRequest 8 [])] (by decide)
  rw [h.1]
  decide

end RpcServer

end ReactorNet.Rpc
