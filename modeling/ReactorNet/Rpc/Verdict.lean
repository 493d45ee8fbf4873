import ReactorNet.Rpc.Closing

/-!
# ReactorNet — the verdict on a frame

The server's decision on a complete frame, as a table: `RpcServer.verdict` says in
which order the checks are made and what each of them answers. `rfcVerdict` is the
table of sections 7 and 8 of `docs/rfc/0001-rpc-protocol.md`, which differs from it
in the checks on the flags, the request id and the request's status.

`Follows` says what it is for a pass of the message loop to carry out a verdict.

Main results:

* `pass_follows_verdict` — on an open connection every complete frame gets the
  verdict of the table.
* `rfc_verdict_not_followed` — and not that of the document.
-/

namespace ReactorNet.Rpc

open Lib

universe u

variable {σ : Type u}

/-- What becomes of a frame: its request is dispatched, or it is answered with a
status, and the connection closed or not. -/
inductive Verdict where
  | dispatch (request : Request)
  | reject (status : StatusCode) (close : Bool)
  deriving DecidableEq

def Verdict.isDispatch : Verdict → Bool
  | .dispatch _ => true
  | .reject _ _ => false

namespace RpcServer

/-- The checks of the server, in their order. -/
def verdict (server : RpcServer σ) (f : Frame) : Verdict :=
  if f.1.version ≠ kVersion then .reject .kUnsupportedVersion true
  else if f.1.type ≠ .kRequest then .reject .kUnsupportedMsgType true
  else if f.1.flags ≠ 0 then .reject .kUnsupportedFlag true
  else if f.1.serializerId ≠ server.serializerId then .reject .kUnsupportedSerializer false
  else
    match RawCodec.decodeRequest f.2 with
    | none => .reject .kMalformedBody true
    | some request => .dispatch request

/-- The checks of the protocol document: only the two defined flags are refused,
and a request must have an id and no status. -/
def rfcVerdict (server : RpcServer σ) (f : Frame) : Verdict :=
  if f.1.version ≠ kVersion then .reject .kUnsupportedVersion true
  else if f.1.type ≠ .kRequest then .reject .kUnsupportedMsgType true
  else if f.1.flags &&& 3 ≠ 0 then .reject .kUnsupportedFlag true
  else if f.1.requestId = 0 then .reject .kBadRequestId true
  else if f.1.status ≠ .kOk then .reject .kMalformedBody true
  else if f.1.serializerId ≠ server.serializerId then .reject .kUnsupportedSerializer false
  else
    match RawCodec.decodeRequest f.2 with
    | none => .reject .kMalformedBody true
    | some request => .dispatch request

/-! ## Carrying out a verdict -/

/-- The events between two states of a connection. -/
def newEvents (before after : Conn σ) : List Event := after.trace.drop before.trace.length

end RpcServer

/-- A log line, which the peer does not see. -/
def Event.isLog : Event → Bool
  | .log _ => true
  | _ => false

def Event.isDispatch : Event → Bool
  | .dispatch _ => true
  | _ => false

namespace RpcServer

/-- Exactly one response, with the request's id and the given status, is sent; the
connection is shut down after it, or nothing else happens. -/
def Rejected (before after : Conn σ) (header : MessageHeader) (status : StatusCode)
    (close : Bool) : Prop :=
  ∃ message response,
    (newEvents before after).filter (fun e => !e.isLog) =
      .send message :: (if close then [.shutdown] else []) ∧
    after.transport.sent = before.transport.sent ++ [message] ∧
    decodeHeader message = some response ∧ response.status = status ∧
    response.requestId = header.requestId ∧
    after.transport.state = (if close then .kDisconnecting else .kConnected)

/-- What happened to the frame is the verdict's doing. -/
def Follows (before after : Conn σ) (f : Frame) : Verdict → Prop
  | .dispatch request =>
    (newEvents before after).filter Event.isDispatch = [.dispatch request]
  | .reject status close => Rejected before after f.1 status close

theorem newEvents_eq {before after : Conn σ} {es : List Event}
    (h : after.trace = before.trace ++ es) : newEvents before after = es := by
  rw [newEvents, h, List.drop_left]

theorem rejected_of_rejectAndClose {conn : Conn σ} {input : Buffer} {reason : String}
    {header : MessageHeader} {status : StatusCode} (hOpen : conn.transport.state = .kConnected) :
    Rejected conn
      (rejectAndClose (Conn.logProtocolError { conn with input := input } reason)
        header.requestId status) header status true := by
  rw [rejectAndClose_eq]
  refine ⟨encodeFrame (responseHeader header.requestId { status := status } [], []),
    responseHeader header.requestId { status := status } [], ?_, ?_, ?_, rfl, rfl, ?_⟩
  · -- besides the log line there are the message and the shutdown
    have hTrace : (Conn.shutdown (Conn.send (Conn.logProtocolError { conn with input := input }
        reason) (encodeFrame (responseHeader header.requestId { status := status } [],
          [])))).trace = conn.trace ++ [.log reason, .send _, .shutdown] :=
      (List.append_assoc ..).trans (List.append_assoc ..)
    rw [newEvents_eq hTrace]
    rfl
  · simp [Transport.send_sent_of_connected hOpen]
  · exact decodeHeader_encodeHeader rfl []
  · simp [Transport.shutdown, hOpen]

variable {server : RpcServer σ} {f : Frame}

/-- The table's verdict on a frame whose header is refused. -/
theorem verdict_of_not_admitted (h : ¬ Admitted f.1) :
    server.verdict f = .reject (refusal f.1) true := by
  unfold verdict refusal
  by_cases hv : f.1.version = kVersion
  · by_cases ht : f.1.type = .kRequest
    · have hf : f.1.flags ≠ 0 := fun hf => h ⟨hv, ht, hf⟩
      simp [hv, ht, hf]
    · simp [hv, ht]
  · simp [hv]

/-- The table's verdict on a frame whose header is admitted. -/
theorem verdict_of_admitted (h : Admitted f.1) :
    server.verdict f =
      if f.1.serializerId ≠ server.serializerId then .reject .kUnsupportedSerializer false
      else
        match RawCodec.decodeRequest f.2 with
        | none => .reject .kMalformedBody true
        | some request => .dispatch request := by
  rw [verdict, if_neg (not_not.mpr h.1), if_neg (not_not.mpr h.2.1), if_neg (not_not.mpr h.2.2)]

/-- The registry's work has exactly one dispatch, that of the decoded request. -/
theorem dispatch_of_work {request : Request} (hs : f.1.serializerId = server.serializerId)
    (hd : RawCodec.decodeRequest f.2 = some request) :
    (server.work f).filter Event.isDispatch = [.dispatch request] := by
  unfold work
  simp only [hs, hd, ne_eq, not_true_eq_false, if_false]
  split_ifs <;> rfl

/-- **A pass carries out the verdict.** On an open connection, a complete frame is
dispatched if the table says so, and otherwise no handler runs, one response is
sent, and the connection is closed unless it was only the serializer. -/
theorem follows_of_frame {conn : Conn σ} {n : Nat} (hOpen : conn.transport.state = .kConnected)
    (hCut : server.frameReader.cutter.cut conn.input.contents = .frame f n) :
    Follows conn (server.onMessagePass conn).state f (server.verdict f) := by
  by_cases hAdm : Admitted f.1
  · rw [verdict_of_admitted hAdm]
    by_cases hs : f.1.serializerId = server.serializerId
    · rw [if_neg (not_not.mpr hs)]
      cases hd : RawCodec.decodeRequest f.2 with
      | none =>
        -- answered and shut down; that the loop goes on shows only in the next pass
        have hAns : ¬ server.Answerable f := fun hAns => by simpa [hd] using hAns.2 hs
        rw [onMessagePass_of_frame hCut, onFrame_malformed hAdm hAns]
        exact rejected_of_rejectAndClose hOpen
      | some request =>
        have hAns : server.Answerable f := ⟨hAdm, fun _ => by rw [hd]; rfl⟩
        have hWork := dispatch_of_work hs hd
        -- dispatched, whether or not the answer can be sent
        by_cases hFits : (server.answer conn.world f).1.payload.length ≤ kMaxBodyLen
        · rw [onMessagePass_answered hCut hAns hFits, Follows, Pass.state]
          rw [newEvents_eq (by rw [Conn.send_trace, afterWork_trace, List.append_assoc]),
            List.filter_append, hWork]
          rfl
        · rw [onMessagePass_overflow hCut hAns (not_le.mp hFits), Follows, Pass.state]
          rw [newEvents_eq (by rw [Conn.forceClose_trace, Conn.logProtocolError_trace,
            afterWork_trace, List.append_assoc, List.append_assoc]), List.filter_append, hWork]
          rfl
    · -- the one rejection that is an ordinary answer
      rw [if_pos hs]
      have hAns : server.Answerable f := ⟨hAdm, fun h => absurd h hs⟩
      have hAnswer : server.answer conn.world f =
          ({ status := .kUnsupportedSerializer, serializerId := f.1.serializerId },
            conn.world) := by
        rw [answer, if_pos hs]
      have hWork : server.work f = [] := by rw [work, if_pos hs]
      have hFits : (server.answer conn.world f).1.payload.length ≤ kMaxBodyLen := by
        rw [hAnswer]
        exact Nat.zero_le _
      rw [onMessagePass_answered hCut hAns hFits, Follows, Pass.state]
      refine ⟨_, _, ?_, ?_, (decodeHeader_responseMessage hFits).1, ?_, rfl, ?_⟩
      · rw [newEvents_eq (by rw [Conn.send_trace, afterWork_trace, List.append_assoc]), hWork]
        rfl
      · rw [Conn.send_transport, afterWork_transport, Transport.send_sent_of_connected hOpen]
      · rw [hAnswer]
        rfl
      · rw [Conn.send_transport, Transport.send_state]
        exact hOpen
  · obtain ⟨reason, hRefused⟩ := onFrame_refused hAdm
    rw [verdict_of_not_admitted hAdm, onMessagePass_of_frame hCut, hRefused]
    exact rejected_of_rejectAndClose hOpen

/-- A dispatch is seen exactly if it was the verdict. -/
theorem dispatched_iff_of_follows {before after : Conn σ} {v : Verdict}
    (h : Follows before after f v) :
    (newEvents before after).any Event.isDispatch = true ↔ v.isDispatch = true := by
  cases v with
  | dispatch request =>
    have hMem : Event.dispatch request ∈ (newEvents before after).filter Event.isDispatch := by
      rw [show _ = _ from h]
      exact List.mem_singleton_self _
    obtain ⟨hMem, hDispatch⟩ := List.mem_filter.mp hMem
    exact ⟨fun _ => rfl, fun _ => List.any_eq_true.mpr ⟨_, hMem, hDispatch⟩⟩
  | reject status close =>
    obtain ⟨message, response, hEvents, -⟩ := h
    constructor
    · intro hAny
      obtain ⟨e, hMem, hDispatch⟩ := List.any_eq_true.mp hAny
      -- a dispatch is not a log line, so it would be among the events that are left
      have hKept : e ∈ (newEvents before after).filter (fun e => !e.isLog) := by
        refine List.mem_filter.mpr ⟨hMem, ?_⟩
        cases e <;> first | rfl | cases hDispatch
      rw [hEvents] at hKept
      rcases List.mem_cons.mp hKept with rfl | hKept
      · cases hDispatch
      · cases close with
        | false => cases hKept
        | true =>
          rw [List.mem_singleton.mp hKept] at hDispatch
          cases hDispatch
    · intro hv
      cases hv

theorem isDispatch_verdict :
    (server.verdict f).isDispatch = true ↔
      Admitted f.1 ∧ f.1.serializerId = server.serializerId ∧
        (RawCodec.decodeRequest f.2).isSome = true := by
  by_cases hAdm : Admitted f.1
  · rw [verdict_of_admitted hAdm]
    by_cases hs : f.1.serializerId = server.serializerId
    · cases hd : RawCodec.decodeRequest f.2 <;> simp [hAdm, hs, Verdict.isDispatch]
    · simp [hs, Verdict.isDispatch]
  · simp [verdict_of_not_admitted hAdm, hAdm, Verdict.isDispatch]

/-- **The server's verdict on a complete frame.** On an open connection, a frame
that the reader yields is dispatched if and only if its version, type and flags
are the expected ones, the serializer is the server's and the envelope decodes;
in every other case the pass sends the one response of the table, and closes the
connection unless the serializer was the only fault. -/
theorem pass_follows_verdict (server : RpcServer σ) (conn : Conn σ)
    (hOpen : conn.transport.state = .kConnected)
    (hYields : (server.frameReader.parse conn.input MessageHeader.zero []).result = .kOk) :
    let p := server.frameReader.parse conn.input MessageHeader.zero []
    let after := (server.onMessagePass conn).state
    Follows conn after (p.header, p.body) (server.verdict (p.header, p.body)) ∧
      ((newEvents conn after).any Event.isDispatch = true ↔
        p.header.version = kVersion ∧ p.header.type = .kRequest ∧ p.header.flags = 0 ∧
          p.header.serializerId = server.serializerId ∧
          (RawCodec.decodeRequest p.body).isSome = true) := by
  cases hCut : server.frameReader.cutter.cut conn.input.contents with
  | more =>
    rw [FrameReader.parse_of_more hCut] at hYields
    cases hYields
  | broken =>
    rw [FrameReader.parse_of_broken hCut] at hYields
    cases hYields
  | frame f n =>
    rw [FrameReader.parse_of_frame hCut]
    have hFollows := follows_of_frame hOpen hCut
    refine ⟨hFollows, ?_⟩
    rw [dispatched_iff_of_follows hFollows]
    simp only [isDispatch_verdict, Admitted, and_assoc]

/-- A call of `a.b` that has arrived. -/
theorem pass_follows_verdict_echo :
    (newEvents ((Conn.established 64 ()).received (encodeFrame (echoRequest 7 [])))
      (echoServer.onMessagePass
        ((Conn.established 64 ()).received (encodeFrame (echoRequest 7 [])))).state).any
          Event.isDispatch = true := by
  have h := pass_follows_verdict echoServer
    ((Conn.established 64 ()).received (encodeFrame (echoRequest 7 []))) rfl (by decide)
  exact h.2.mpr (by decide)

/-- The pass for one frame on a new connection of the echo server. -/
def echoPass (f : Frame) : Conn Unit × Conn Unit :=
  let conn := (Conn.established 64 ()).received (encodeFrame f)
  (conn, (echoServer.onMessagePass conn).state)

/-- The document's verdict is not followed: an undefined flag is refused where it
should be ignored, and a request with id zero, or with a status, is dispatched
where it should be refused. -/
theorem rfc_verdict_not_followed :
    let flagged : Frame :=
      ({ (echoRequest 7 []).1 with flags := 4 }, (echoRequest 7 []).2)
    let anonymous : Frame := echoRequest 0 []
    let failed : Frame :=
      ({ (echoRequest 7 []).1 with status := .kUnsupportedVersion }, (echoRequest 7 []).2)
    ¬ Follows (echoPass flagged).1 (echoPass flagged).2 flagged
        (echoServer.rfcVerdict flagged) ∧
      ¬ Follows (echoPass anonymous).1 (echoPass anonymous).2 anonymous
        (echoServer.rfcVerdict anonymous) ∧
      ¬ Follows (echoPass failed).1 (echoPass failed).2 failed
        (echoServer.rfcVerdict failed) := by
  -- each pass dispatches where the document rejects, or the other way round
  refine ⟨?_, ?_, ?_⟩
  · intro h
    exact absurd (dispatched_iff_of_follows h) (by decide)
  · intro h
    exact absurd (dispatched_iff_of_follows h) (by decide)
  · intro h
    exact absurd (dispatched_iff_of_follows h) (by decide)

end RpcServer

end ReactorNet.Rpc
