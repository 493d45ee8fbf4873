import ReactorNet.Rpc.Completion
import ReactorNet.Rpc.Responses

/-!
# ReactorNet — what fits

The size of a response is looked at in three places. The server's codec refuses to
encode a payload above `kMaxBodyLen`, the client's codec refuses to decode one, and
in between the client's frame reader has a limit of its own, for the whole frame:
`kDefaultMaxFrameSize`, a quarter of the codec's ceiling. A client has no setter for
it, so this is the limit that counts.

Main results:

* `delivers_of_fits` — a response within the reader's limit completes its call,
  whatever follows it in the input, and touches no other call.
* `refuses_of_large` — a response above it makes the client give its connection up, and
  with it every call in flight.
* `response_delivered_iff` — of the responses that the server puts on the wire,
  the first are the ones that the client takes.
-/

namespace ReactorNet.Rpc

open Lib

universe u

variable {σ : Type u}

namespace Client

/-- A client with a call in flight, whose message loop is about to read the message. -/
structure Waits (c : Client) (serializerId : UInt8) (requestId : UInt32) (message : Bytes) :
    Prop where
  running : c.running = []
  control : c.control = .messageLoop
  reader : c.frameReader = FrameReader.default
  serializer : c.serializerId = serializerId
  input : message <+: c.input.contents
  pending : (Pendings.find c.pendings requestId).isSome = true

/-- The client goes on: the call completes with the response, the others stay in
flight, and the loop reads what follows. -/
def Delivers (c : Client) (requestId : UInt32) (response : Response) : Prop :=
  ∃ c' pending, c.step (.resume 0) = some c' ∧
    Pendings.find c.pendings requestId = some pending ∧
    c'.completed = c.completed ++ [(pending.complete, response)] ∧
    c'.pendings = Pendings.erase c.pendings requestId ∧ c'.control = .messageLoop

variable {c : Client}

theorem step_resume (hRunning : c.running = []) (hControl : c.control = .messageLoop)
    (entry : Nat) : c.step (.resume entry) = some c.onMessagePass := by
  simp [step, resume, hRunning, hControl]

/-- **A response within the reader's limit completes its call.** -/
theorem delivers_of_fits {requestId : UInt32} {r : Response}
    (hFits : kHeaderSize + r.payload.length ≤ FrameReader.kDefaultMaxFrameSize)
    (h : c.Waits r.serializerId requestId (encodeFrame (responseHeader requestId r r.payload,
      r.payload))) : c.Delivers requestId r := by
  have hMax : r.payload.length ≤ kMaxBodyLen := by
    unfold FrameReader.kDefaultMaxFrameSize kHeaderSize at hFits
    unfold kMaxBodyLen
    omega
  -- the client's reader cuts the response off as one frame
  have hAccepts : c.frameReader.Accepts (responseHeader requestId r r.payload, r.payload) := by
    rw [h.reader]
    exact FrameReader.accepts_of_fits rfl rfl (le_trans hFits (le_max_left _ _)) hMax
  obtain ⟨rest, hRest⟩ := h.input
  have hCut := FrameReader.cut_encodeFrame hAccepts rest
  rw [hRest] at hCut
  obtain ⟨pending, hFind⟩ := Option.isSome_iff_exists.mp h.pending
  -- none of the five reasons to distrust the stream applies
  have hNotAlien : ¬ c.Alien (responseHeader requestId r r.payload, r.payload) := by
    rintro (hv | ht | hs | hl | ⟨hn, -⟩)
    · exact hv rfl
    · exact ht rfl
    · exact hs h.serializer.symm
    · exact absurd hl (not_lt.mpr hMax)
    · rw [show Pendings.find c.pendings requestId = none from hn] at hFind
      cases hFind
  have hStep := step_resume h.running h.control 0
  refine ⟨_, pending, hStep, hFind, ?_⟩
  -- the pass can only be the one that matches the response
  generalize c.onMessagePass = c' at hStep
  cases step_outcome hStep with
  | answered _ f n pending' _ _ hCut' _ hFind' =>
    rw [hCut] at hCut'
    cases hCut'
    obtain rfl : pending = pending' := Option.some.inj (hFind.symm.trans hFind')
    exact ⟨rfl, rfl, h.control⟩
  | waiting _ _ _ hCut' | broken _ _ _ hCut' =>
    rw [hCut] at hCut'
    cases hCut'
  | alien _ f n _ _ hCut' hAlien =>
    rw [hCut] at hCut'
    cases hCut'
    exact absurd hAlien hNotAlien
  | late _ f n _ _ hCut' _ hFind' =>
    rw [hCut] at hCut'
    cases hCut'
    rw [show Pendings.find c.pendings requestId = none from hFind'] at hFind
    cases hFind
  | failed _ _ _ _ _ hControl | closed _ _ hControl | gone _ _ _ hControl
  | expiredAll _ _ hControl | stale _ _ _ _ hControl | timedOut _ _ _ _ _ hControl =>
    rw [h.control] at hControl
    cases hControl

/-! ## A response that does not fit -/

/-- A call that `failConnection` has moved out of the table: it is still to be failed, or it
has completed with `kConnectionClosed`. -/
def GivenUp (c : Client) (k : Nat) : Prop :=
  (∃ rest, c.control = .failing rest .forceClose ∧ k ∈ callsIn rest) ∨
    (k, connectionClosedResponse) ∈ c.completed

/-- **A call that is given up stays given up**, whatever completions do meanwhile. -/
theorem givenUp_step {c' : Client} {a : Action} {k : Nat} (hStep : c.step a = some c')
    (h : GivenUp c k) : GivenUp c' k := by
  rcases h with ⟨rest, hControl, hMem⟩ | hDone
  · -- the loop is in `failAllPending`: it fails an entry, or user code runs in a completion
    cases step_outcome hStep with
    | failed entry _ _ e _ hControl' hEntry =>
      obtain ⟨rfl, rfl⟩ := Control.failing.inj (hControl.symm.trans hControl')
      rcases mem_callsIn_eraseIdx hEntry hMem with hMem | rfl
      · exact .inl ⟨_, rfl, hMem⟩
      · exact .inr (List.mem_append_right _ (List.mem_singleton_self _))
    | closed _ _ hControl' =>
      obtain ⟨rfl, -⟩ := Control.failing.inj (hControl.symm.trans hControl')
      cases hMem
    | unconnected | unencodable | started | disconnected | returned =>
      exact .inl ⟨rest, hControl, hMem⟩
    | waiting _ _ hControl' | broken _ _ hControl' | alien _ _ _ _ hControl'
    | late _ _ _ _ hControl' | answered _ _ _ _ _ hControl' | gone _ _ _ hControl'
    | expiredAll _ _ hControl' | stale _ _ _ _ hControl' | timedOut _ _ _ _ _ hControl'
    | received _ _ hControl' | expired _ _ hControl' | up _ hControl' | down _ hControl' =>
      rw [hControl] at hControl'
      cases hControl'
  · exact .inr ((completed_of_step hStep).subset hDone)

/-- The loop can work through the table, one entry after the other, and then closes. -/
theorem fails_all {rest : List (UInt32 × PendingCall)} (hRunning : c.running = [])
    (hControl : c.control = .failing rest .forceClose) :
    ∃ c', Reaches Client.step c c' ∧ c'.control = .idle ∧
      (c.connection = true → c'.transport = c.transport.forceClose) ∧
      c'.completed = c.completed ++ rest.map fun e => (e.2.complete, connectionClosedResponse) := by
  induction rest generalizing c with
  | nil =>
    have hStep : c.step (.resume 0) = some { c with
        control := .idle
        transport := if c.connection then c.transport.forceClose else c.transport } := by
      simp [step, resume, hRunning, hControl]
    refine ⟨_, Reaches.refl.next _ hStep, rfl, fun hUp => by simp [hUp], ?_⟩
    exact (List.append_nil _).symm
  | cons e rest ih =>
    -- the completion of this entry runs and returns, and the others are left
    let next : Client := { (({ c with control := .failing rest .forceClose }.cancelTimer
      e.2.timer).complete e.2.complete connectionClosedResponse) with running := [] }
    have hFail : c.step (.resume 0) = some (({ c with
        control := .failing rest .forceClose }.cancelTimer e.2.timer).complete e.2.complete
          connectionClosedResponse) := by
      simp [step, resume, hRunning, hControl]
    have hRet : (({ c with control := .failing rest .forceClose }.cancelTimer e.2.timer).complete
        e.2.complete connectionClosedResponse).step .ret = some next := by
      simp [next, step, complete, cancelTimer, hRunning]
    obtain ⟨c', hReach, hIdle, hClosed, hCompleted⟩ := ih (c := next) rfl rfl
    refine ⟨c', ((Reaches.refl.next _ hFail).next _ hRet).trans hReach, hIdle, hClosed, ?_⟩
    rw [hCompleted]
    simp [next, complete, cancelTimer]

/-- The client gives its connection up: this pass of the message loop is `failConnection`. No
call that was in flight can end otherwise than with `kConnectionClosed`, and the loop can go on
until each of them has, and the connection is being closed. -/
structure Refuses (c : Client) : Prop where
  fails : c.step (.resume 0) = some c.failConnection
  given : ∀ c', Reaches Client.step c.failConnection c' → ∀ k ∈ c.pendingCalls, c'.GivenUp k
  closes : ∃ c', Reaches Client.step c.failConnection c' ∧ c'.control = .idle ∧
    (c.connection = true → c'.transport = c.transport.forceClose) ∧
    ∀ k ∈ c.pendingCalls, (k, connectionClosedResponse) ∈ c'.completed

theorem refuses_of_broken (hRunning : c.running = []) (hControl : c.control = .messageLoop)
    (hCut : c.frameReader.cutter.cut c.input.contents = .broken) : c.Refuses where
  fails := by
    rw [step_resume hRunning hControl, onMessagePass, FrameReader.parse_of_broken hCut]
  given c' hReach k hk := by
    refine hReach.invariant (P := fun c => c.GivenUp k) ?_ fun _ _ _ => givenUp_step
    exact .inl ⟨c.pendings, rfl, hk⟩
  closes := by
    obtain ⟨c', hReach, hIdle, hClosed, hCompleted⟩ :=
      fails_all (c := c.failConnection) hRunning rfl
    refine ⟨c', hReach, hIdle, hClosed, fun k hk => ?_⟩
    obtain ⟨e, he, rfl⟩ := List.mem_map.mp hk
    rw [hCompleted]
    exact List.mem_append_right _ (List.mem_map_of_mem he)

/-- The pass that gives up completes nothing yet. -/
theorem Refuses.completed_ne {c' : Client} (h : c.Refuses) (hStep : c.step (.resume 0) = some c')
    (e : Nat × Response) : c'.completed ≠ c.completed ++ [e] := by
  obtain rfl := Option.some.inj (h.fails.symm.trans hStep)
  simp [failConnection, failAllPending]

/-- **A response above the reader's limit** is taken for a broken stream, whatever follows it. -/
theorem refuses_of_large {requestId : UInt32} {r : Response}
    (hMax : r.payload.length ≤ kMaxBodyLen)
    (hLarge : FrameReader.kDefaultMaxFrameSize < kHeaderSize + r.payload.length)
    (h : c.Waits r.serializerId requestId (encodeFrame (responseHeader requestId r r.payload,
      r.payload))) : c.Refuses := by
  obtain ⟨rest, hRest⟩ := h.input
  refine refuses_of_broken h.running h.control ?_
  rw [← hRest, h.reader, FrameReader.cut_eq]
  refine FrameReader.frameCut_eq_broken.mpr ⟨?_, ?_⟩
  · rw [encodeFrame, List.length_append, List.length_append, length_encodeHeader]
    omega
  · intro header hHeader
    have hDecode : decodeHeader
        (encodeFrame (responseHeader requestId r r.payload, r.payload) ++ rest) =
        some (responseHeader requestId r r.payload) := by
      rw [encodeFrame, List.append_assoc]
      exact decodeHeader_encodeHeader rfl _
    obtain rfl : responseHeader requestId r r.payload = header :=
      Option.some.inj (hDecode.symm.trans hHeader)
    -- the declared length is the payload's, which leaves no room for the header
    have hLen : (responseHeader requestId r r.payload).bodyLen.toNat = r.payload.length :=
      FrameReader.toNat_bodyLen hMax
    have hReader : FrameReader.default.maxBody ≤
        FrameReader.kDefaultMaxFrameSize - kHeaderSize := min_le_left _ _
    have hDefault : kHeaderSize ≤ FrameReader.kDefaultMaxFrameSize := by decide
    omega

/-- A client with one call in flight, about to read this message. -/
def asking (header : MessageHeader) (message : Bytes) : Client where
  serializerId := header.serializerId
  control := .messageLoop
  input := (Buffer.new kInitialSize).append message
  pendings := [(header.requestId, ⟨header.requestId, 0, none⟩)]

@[simp] theorem asking_contents (header : MessageHeader) (message : Bytes) :
    (asking header message).input.contents = message := by
  simp [asking]

theorem asking_waits (header : MessageHeader) (message : Bytes) :
    (asking header message).Waits header.serializerId header.requestId message where
  running := rfl
  control := rfl
  reader := rfl
  serializer := rfl
  input := by rw [asking_contents]
  pending := by simp [asking, Pendings.find]

end Client

/-! ## The server's side -/

/-- The one response sent between the two states is taken by every client that waits
for it, and completes the call. -/
def ResponseDelivered (before after : Conn σ) (requestId : UInt32) (response : Response) : Prop :=
  ∀ message, after.transport.sent = before.transport.sent ++ [message] →
    ∀ c : Client, c.Waits response.serializerId requestId message →
      c.Delivers requestId response

namespace RpcServer

/-- The response to a request whose envelope the server can read. -/
def reply (server : RpcServer σ) (world : σ) (request : Request) (serializerId : UInt8) :
    Response :=
  { caught (server.registry.dispatch request {} world) with serializerId := serializerId }

variable {server : RpcServer σ} {conn : Conn σ} {request : Request} {header : MessageHeader}
  {body : Bytes}

theorem handleRequest_sent (hOpen : conn.transport.state = .kConnected)
    (hBody : RawCodec.decodeRequest body = some request)
    (hMax : (server.reply conn.world request header.serializerId).payload.length ≤ kMaxBodyLen) :
    (server.handleRequest conn header body).transport.sent = conn.transport.sent ++
      [encodeFrame (responseHeader header.requestId
          (server.reply conn.world request header.serializerId)
          (server.reply conn.world request header.serializerId).payload,
        (server.reply conn.world request header.serializerId).payload)] := by
  unfold reply at hMax ⊢
  rw [handleRequest, hBody]
  show (sendResponse _ _ _).transport.sent = _
  rw [sendResponse_of_fits hMax]
  exact Transport.send_sent_of_connected hOpen _

theorem handleRequest_unsent (hBody : RawCodec.decodeRequest body = some request)
    (hMax : kMaxBodyLen < (server.reply conn.world request header.serializerId).payload.length) :
    (server.handleRequest conn header body).transport.sent = conn.transport.sent := by
  unfold reply at hMax
  rw [handleRequest, hBody]
  show (sendResponse _ _ _).transport.sent = _
  rw [sendResponse_of_overflow hMax]
  simp

/-- A response that was put on the wire is within the codec's limit. -/
theorem payload_le_of_sent {message : Bytes} (hBody : RawCodec.decodeRequest body = some request)
    (hSent : (server.handleRequest conn header body).transport.sent = conn.transport.sent ++
      [message]) :
    (server.reply conn.world request header.serializerId).payload.length ≤ kMaxBodyLen := by
  by_contra hOver
  rw [handleRequest_unsent hBody (not_le.mp hOver)] at hSent
  simpa using congrArg List.length hSent

/-- What one waiting client does with the response to a request. -/
theorem delivers_or_refuses {message : Bytes} {c : Client}
    (hOpen : conn.transport.state = .kConnected)
    (hBody : RawCodec.decodeRequest body = some request)
    (hSent : (server.handleRequest conn header body).transport.sent = conn.transport.sent ++
      [message]) (hWaits : c.Waits header.serializerId header.requestId message) :
    let response := server.reply conn.world request header.serializerId
    (kHeaderSize + response.payload.length ≤ FrameReader.kDefaultMaxFrameSize →
      c.Delivers header.requestId response) ∧
    (FrameReader.kDefaultMaxFrameSize < kHeaderSize + response.payload.length → c.Refuses) := by
  intro response
  have hMax : response.payload.length ≤ kMaxBodyLen := payload_le_of_sent hBody hSent
  -- what was put on the wire is the response
  rw [handleRequest_sent hOpen hBody hMax] at hSent
  obtain rfl := List.singleton_inj.mp (List.append_cancel_left hSent)
  exact ⟨fun hFits => Client.delivers_of_fits hFits hWaits,
    fun hLarge => Client.refuses_of_large hMax hLarge hWaits⟩

theorem responseDelivered_handleRequest (header : MessageHeader)
    (hOpen : conn.transport.state = .kConnected)
    (hBody : RawCodec.decodeRequest body = some request) :
    ResponseDelivered conn (server.handleRequest conn header body) header.requestId
        (server.reply conn.world request header.serializerId) ↔
      ((server.reply conn.world request header.serializerId).payload.length ≤ kMaxBodyLen →
        kHeaderSize + (server.reply conn.world request header.serializerId).payload.length ≤
          FrameReader.kDefaultMaxFrameSize) := by
  have hEcho : (server.reply conn.world request header.serializerId).serializerId =
      header.serializerId := rfl
  constructor
  · -- the client that asked refuses a response above its limit
    intro hDelivered hMax
    by_contra hLarge
    have hWaits := Client.asking_waits header (encodeFrame (responseHeader header.requestId
      (server.reply conn.world request header.serializerId)
      (server.reply conn.world request header.serializerId).payload,
      (server.reply conn.world request header.serializerId).payload))
    obtain ⟨c', pending, hStep, -, hCompleted, -⟩ :=
      hDelivered _ (handleRequest_sent hOpen hBody hMax) _ hWaits
    exact (Client.refuses_of_large hMax (not_le.mp hLarge) hWaits).completed_ne hStep _ hCompleted
  · intro hFits message hSent c hWaits
    refine (delivers_or_refuses hOpen hBody hSent hWaits).1 (hFits ?_)
    exact payload_le_of_sent hBody hSent

/-- **What fits.** The response to a request of a client is taken by that client and
completes the call, if and only if its frame is within the client's limit or it is not
put on the wire at all. Of the responses on the wire every waiting client takes those within
its limit; on a larger one it gives the connection up, and every call that it has in flight
fails with `kConnectionClosed`. -/
theorem response_delivered_iff (server : RpcServer σ) (conn : Conn σ) (request : Request)
    (serializerId : UInt8) (requestId : UInt32) (body : Bytes)
    (hOpen : conn.transport.state = .kConnected)
    (hBody : RawCodec.encodeRequest request = some body) :
    let response := server.reply conn.world request serializerId
    let after := server.handleRequest conn (requestHeader serializerId requestId body) body
    (ResponseDelivered conn after requestId response ↔
      (response.payload.length ≤ kMaxBodyLen →
        kHeaderSize + response.payload.length ≤ FrameReader.kDefaultMaxFrameSize)) ∧
    ∀ message, after.transport.sent = conn.transport.sent ++ [message] →
      ∀ c : Client, c.Waits serializerId requestId message →
        (kHeaderSize + response.payload.length ≤ FrameReader.kDefaultMaxFrameSize →
          c.Delivers requestId response) ∧
        (FrameReader.kDefaultMaxFrameSize < kHeaderSize + response.payload.length →
          c.Refuses) := by
  have hDecode := RawCodec.decodeRequest_encodeRequest hBody
  refine ⟨?_, fun message hSent c hWaits => ?_⟩
  · exact responseDelivered_handleRequest (requestHeader serializerId requestId body) hOpen hDecode
  · exact delivers_or_refuses hOpen hDecode hSent hWaits

/-- The echo server's response to a call of `a.b` is delivered. -/
theorem response_delivered_iff_echo :
    ResponseDelivered (Conn.established 64 ())
      (echoServer.handleRequest (Conn.established 64 ())
        (requestHeader kSerializerRaw 7 [1, 0, 0x61, 1, 0, 0x62, 5])
        [1, 0, 0x61, 1, 0, 0x62, 5]) 7
      (echoServer.reply () ⟨[0x61], [0x62], [5]⟩ kSerializerRaw) :=
  (response_delivered_iff echoServer (Conn.established 64 ()) ⟨[0x61], [0x62], [5]⟩
    kSerializerRaw 7 [1, 0, 0x61, 1, 0, 0x62, 5] rfl (by decide)).1.mpr fun _ => by decide

/-- A server with one method, `a.b`, that returns this many bytes. -/
def zeroServer (n : Nat) : RpcServer Unit where
  registry := { methods := [([0x61, 0x2E, 0x62], fun _ w => (.ok (List.replicate n 0), w))]
                services := [[0x61]], frozen := true }

theorem zeroServer_payload (n : Nat) (payload : Bytes) :
    ((zeroServer n).reply () ⟨[0x61], [0x62], payload⟩ kSerializerRaw).payload =
      List.replicate n 0 := rfl

/-- One byte more than the client's limit leaves room for, and far below the codec's:
the response is put on the wire, and the client that asked does not take it. -/
theorem response_above_client_limit :
    ((zeroServer (4 * 1024 * 1024 - 15)).reply () ⟨[0x61], [0x62], []⟩
        kSerializerRaw).payload.length ≤ kMaxBodyLen ∧
    ¬ ResponseDelivered (Conn.established 64 ())
      ((zeroServer (4 * 1024 * 1024 - 15)).handleRequest (Conn.established 64 ())
        (requestHeader kSerializerRaw 7 [1, 0, 0x61, 1, 0, 0x62]) [1, 0, 0x61, 1, 0, 0x62]) 7
      ((zeroServer (4 * 1024 * 1024 - 15)).reply () ⟨[0x61], [0x62], []⟩ kSerializerRaw) := by
  have hMax : ((zeroServer (4 * 1024 * 1024 - 15)).reply () ⟨[0x61], [0x62], []⟩
      kSerializerRaw).payload.length ≤ kMaxBodyLen := by
    rw [zeroServer_payload, List.length_replicate, kMaxBodyLen]
    omega
  refine ⟨hMax, fun hDelivered => ?_⟩
  have hOpen : (Conn.established 64 ()).transport.state = .kConnected := rfl
  have hFits := (responseDelivered_handleRequest
    (requestHeader kSerializerRaw 7 [1, 0, 0x61, 1, 0, 0x62]) hOpen (by decide)).mp hDelivered hMax
  rw [show (requestHeader kSerializerRaw 7 [1, 0, 0x61, 1, 0, 0x62]).serializerId =
      kSerializerRaw from rfl, show (Conn.established 64 ()).world = () from rfl,
    zeroServer_payload, List.length_replicate, FrameReader.kDefaultMaxFrameSize,
    kHeaderSize] at hFits
  omega

end RpcServer

end ReactorNet.Rpc
