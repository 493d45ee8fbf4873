import ReactorNet.Rpc.Closing
import ReactorNet.Rpc.Limits

/-!
# ReactorNet — whose response it is

A client matches a response with a pending call by its request id, and it takes a
response in another serializer, or one its reader refuses, for a broken stream. So
a response is of use to the client that asked only if it carries the request's id
and serializer, and is no larger than the client's reader allows. `Attributable`
says so of what one pass of the server sends.

The answers of the server have both ids. Its rejections are built from a status
alone, and say `kSerializerRaw` whatever the request said.

Main results:

* `completes_of_response` — a client that waits for a response completes the call
  with the status the response has.
* `attributable_iff` — when every response that a pass sends is of use.
-/

namespace ReactorNet.Rpc

open Lib

universe u

variable {σ : Type u}

/-! ## The client's side -/

namespace Client

/-- The client that asked, with the message as its only input: its message loop is
about to read it, and the request is pending. -/
structure Awaits (c : Client) (header : MessageHeader) (message : Bytes) : Prop where
  running : c.running = []
  control : c.control = .messageLoop
  reader : c.frameReader = FrameReader.default
  serializer : c.serializerId = header.serializerId
  input : c.input.contents = message
  pending : (Pendings.find c.pendings header.requestId).isSome = true

/-- The client goes on, and the pending call completes with this status. -/
def Completes (c : Client) (requestId : UInt32) (status : StatusCode) : Prop :=
  ∃ c' pending response, c.step (.resume 0) = some c' ∧
    Pendings.find c.pendings requestId = some pending ∧
    c'.completed = c.completed ++ [(pending.complete, response)] ∧ response.status = status

/-- **A response with the right ids completes its call**, if the reader accepts it. -/
theorem completes_of_response {c : Client} {header : MessageHeader} {r : Response}
    (hFits : kHeaderSize + r.payload.length ≤ FrameReader.kDefaultMaxFrameSize)
    (hSerializer : r.serializerId = header.serializerId)
    (h : c.Awaits header
      (encodeFrame (responseHeader header.requestId r r.payload, r.payload))) :
    c.Completes header.requestId r.status := by
  have hWaits : c.Waits r.serializerId header.requestId
      (encodeFrame (responseHeader header.requestId r r.payload, r.payload)) :=
    { running := h.running
      control := h.control
      reader := h.reader
      serializer := h.serializer.trans hSerializer.symm
      input := by rw [h.input]
      pending := h.pending }
  obtain ⟨c', pending, hStep, hFind, hCompleted, -, -⟩ := delivers_of_fits hFits hWaits
  exact ⟨c', pending, r, hStep, hFind, hCompleted, rfl⟩

theorem asking_awaits (header : MessageHeader) (message : Bytes) :
    (asking header message).Awaits header message where
  running := rfl
  control := rfl
  reader := rfl
  serializer := rfl
  input := asking_contents header message
  pending := (asking_waits header message).pending

end Client

/-! ## What a pass sends -/

/-- Every response sent between the two states carries the ids of the frame with
this header, and completes the call of the client that sent it. -/
def Attributable (header : MessageHeader) (before after : Conn σ) : Prop :=
  ∀ message, after.transport.sent = before.transport.sent ++ [message] →
    ∃ response, decodeHeader message = some response ∧
      response.requestId = header.requestId ∧ response.serializerId = header.serializerId ∧
      ∀ c : Client, c.Awaits header message → c.Completes header.requestId response.status

theorem attributable_of_unsent {header : MessageHeader} {before after : Conn σ}
    (h : after.transport.sent = before.transport.sent) : Attributable header before after := by
  intro message hSent
  have hLen := congrArg List.length (h.symm.trans hSent)
  simp at hLen

theorem attributable_of_sent {header : MessageHeader} {before after : Conn σ} {r : Response}
    (hMax : r.payload.length ≤ kMaxBodyLen)
    (h : after.transport.sent = before.transport.sent ++
      [encodeFrame (responseHeader header.requestId r r.payload, r.payload)]) :
    Attributable header before after ↔
      r.serializerId = header.serializerId ∧
        kHeaderSize + r.payload.length ≤ FrameReader.kDefaultMaxFrameSize := by
  have hDecode : decodeHeader
      (encodeFrame (responseHeader header.requestId r r.payload, r.payload)) =
      some (responseHeader header.requestId r r.payload) := decodeHeader_encodeHeader rfl _
  constructor
  · intro hAttr
    obtain ⟨response, hResponse, -, hSerializer, hClient⟩ := hAttr _ h
    rw [hDecode] at hResponse
    cases hResponse
    refine ⟨hSerializer, ?_⟩
    by_contra hLarge
    -- the client that asked refuses a response of this size
    have hWaits := Client.asking_waits header
      (encodeFrame (responseHeader header.requestId r r.payload, r.payload))
    rw [← show r.serializerId = header.serializerId from hSerializer] at hWaits
    obtain ⟨c', pending, response, hStep, -, hCompleted, -⟩ :=
      hClient _ (Client.asking_awaits header _)
    exact (Client.refuses_of_large hMax (not_le.mp hLarge) hWaits).completed_ne hStep _ hCompleted
  · rintro ⟨hSerializer, hFits⟩ message hSent
    obtain rfl :
        encodeFrame (responseHeader header.requestId r r.payload, r.payload) = message := by
      simpa using h.symm.trans hSent
    exact ⟨_, hDecode, rfl, hSerializer, fun c hc =>
      Client.completes_of_response hFits hSerializer hc⟩

namespace RpcServer

/-- A rejection is of use only to a client of the raw serializer. -/
theorem attributable_rejectAndClose {header : MessageHeader} {conn : Conn σ} {input : Buffer}
    {reason : String} {status : StatusCode} (hOpen : conn.transport.state = .kConnected) :
    Attributable header conn
        (rejectAndClose (Conn.logProtocolError { conn with input := input } reason)
          header.requestId status) ↔
      header.serializerId = kSerializerRaw := by
  have hSent : (rejectAndClose (Conn.logProtocolError { conn with input := input } reason)
      header.requestId status).transport.sent = conn.transport.sent ++
        [encodeFrame (responseHeader header.requestId { status := status } [], [])] := by
    rw [rejectAndClose_eq]
    simp [Transport.send_sent_of_connected hOpen]
  rw [attributable_of_sent (r := { status := status }) (Nat.zero_le _) hSent]
  constructor
  · exact fun h => h.1.symm
  · exact fun h => ⟨h.symm, show kHeaderSize + 0 ≤ _ by decide⟩

/-- **When a response is of use to the client that asked.** For a frame whose header
decodes, at the front of the input of an open connection: every response that the
pass sends carries the frame's request id and serializer, and completes the call of
the client that sent it, if and only if a frame that is rejected was in the raw
serializer, and an answer is no larger than the client's reader allows. -/
theorem attributable_iff (server : RpcServer σ) (conn : Conn σ) (header : MessageHeader)
    (hOpen : conn.transport.state = .kConnected)
    (hHeader : decodeHeader conn.input.contents = some header) :
    Attributable header conn (server.onMessagePass conn).state ↔
      match server.frameReader.cutter.cut conn.input.contents with
      | .more => True
      | .broken => header.serializerId = kSerializerRaw
      | .frame f _ =>
        (¬ server.Answerable f → header.serializerId = kSerializerRaw) ∧
        (server.Answerable f →
          (server.answer conn.world f).1.payload.length ≤ kMaxBodyLen →
          kHeaderSize + (server.answer conn.world f).1.payload.length ≤
            FrameReader.kDefaultMaxFrameSize) := by
  -- the frame that is cut off is the one with this header
  have hFrame : ∀ {f : Frame} {n : Nat},
      server.frameReader.cutter.cut conn.input.contents = .frame f n → f.1 = header := by
    intro f n hCut
    obtain ⟨hd, -⟩ := FrameReader.frameCut_eq_frame.mp hCut
    exact Option.some.inj (hd.symm.trans hHeader)
  have hp := server.onMessagePass_outcome conn
  generalize server.onMessagePass conn = p at hp
  cases hp with
  | idle hCut =>
    rw [hCut]
    exact iff_of_true (attributable_of_unsent rfl) trivial
  | flooded reason hCut =>
    rw [hCut]
    exact iff_of_true (attributable_of_unsent (by simp [Pass.state])) trivial
  | badMagic reason hCut hNone =>
    rw [hHeader] at hNone
    cases hNone
  | tooLarge reason header' hCut hHeader' =>
    obtain rfl : header' = header := Option.some.inj (hHeader'.symm.trans hHeader)
    rw [hCut]
    exact attributable_rejectAndClose hOpen
  | refused reason f n hCut hRefused =>
    obtain rfl := hFrame hCut
    have hAns : ¬ server.Answerable f := fun h => hRefused h.1
    rw [hCut]
    simp only [hAns, not_false_eq_true, true_imp_iff, false_imp_iff, and_true]
    exact attributable_rejectAndClose hOpen
  | malformed reason f n hCut hAdmitted hAns =>
    obtain rfl := hFrame hCut
    rw [hCut]
    simp only [hAns, not_false_eq_true, true_imp_iff, false_imp_iff, and_true]
    exact attributable_rejectAndClose hOpen
  | overflow reason f n hCut hAns hOver =>
    -- no response at all, so none that could mislead
    rw [hCut]
    simp only [hAns, not_true_eq_false, false_imp_iff, true_imp_iff, true_and,
      not_le.mpr hOver, iff_true]
    exact attributable_of_unsent (by simp [Pass.state])
  | answered f n hCut hAns hFits =>
    -- the serializer is echoed; only the size is left to ask for
    obtain rfl := hFrame hCut
    rw [hCut]
    simp only [hAns, not_true_eq_false, false_imp_iff, true_imp_iff, true_and, hFits]
    have hSent := Transport.send_sent_of_connected hOpen
      (responseMessage f (server.answer conn.world f).1)
    exact (attributable_of_sent hFits hSent).trans
      (and_iff_right (server.answer_serializerId conn.world f))

/-- What the echo server sends for a call of `a.b` is of use. -/
theorem attributable_iff_echo :
    Attributable (echoRequest 7 []).1
      ((Conn.established 64 ()).received (encodeFrame (echoRequest 7 [])))
      (echoServer.onMessagePass
        ((Conn.established 64 ()).received (encodeFrame (echoRequest 7 [])))).state := by
  refine (attributable_iff echoServer _ _ rfl (by decide)).mpr ?_
  have hCut : echoServer.frameReader.cutter.cut
      ((Conn.established 64 ()).received (encodeFrame (echoRequest 7 []))).input.contents =
      .frame (echoRequest 7 []) _ :=
    FrameReader.cut_encodeFrame (by decide) []
  rw [hCut]
  exact ⟨by decide, by decide⟩

/-- The echo server, with the JSON serializer. -/
def jsonServer : RpcServer Unit := { echoServer with serializerId := kSerializerJson }

/-- A call in the JSON serializer, with an undefined flag. -/
def flaggedJsonRequest : Frame :=
  ({ (echoRequest 7 []).1 with flags := 4, serializerId := kSerializerJson },
    (echoRequest 7 []).2)

/-- A server of the JSON serializer refuses the call above in the raw serializer. -/
theorem rejection_not_attributable :
    ¬ Attributable flaggedJsonRequest.1
      ((Conn.established 64 ()).received (encodeFrame flaggedJsonRequest))
      (jsonServer.onMessagePass
        ((Conn.established 64 ()).received (encodeFrame flaggedJsonRequest))).state := by
  intro h
  have hCut : jsonServer.frameReader.cutter.cut
      ((Conn.established 64 ()).received (encodeFrame flaggedJsonRequest)).input.contents =
      .frame flaggedJsonRequest _ :=
    FrameReader.cut_encodeFrame (by decide) []
  have hRefused : ¬ Admitted flaggedJsonRequest.1 := by decide
  obtain ⟨reason, hPass⟩ := onFrame_refused hRefused
  rw [onMessagePass_of_frame hCut, hPass] at h
  exact absurd ((attributable_rejectAndClose rfl).mp h) (by decide)

end RpcServer

end ReactorNet.Rpc
