import ReactorNet.Rpc.Cluster

/-!
# ReactorNet — one connection of many

The invariant of a connection, while callbacks of other connections come between its own and
change the world that the handlers share. The k-th request of a client is the k-th that the
server's end takes from the stream, and the k-th answer is the k-th that the client takes
(`Linked`). What a handler did depends on the world it found, so the answers are a parameter here;
that they are those of one sequential run is shown for the system as a whole.

Main results:

* `Linked.client_step` — a step of the client, whatever it does.
* `Linked.pass_frame` — a pass answers the next request of its client, in the world it finds.
-/

namespace ReactorNet.Rpc

open Lib

universe u

variable {σ : Type u}

/-! ## Requests and answers -/

/-- What a caller sees of a response. -/
def Response.outcome (r : Response) : StatusCode × Bytes := (r.status, r.payload)

/-- The statuses that a client gives its calls itself. -/
def clientStatuses : List StatusCode := [.kTimeout, .kConnectionClosed, .kBadRequest]

theorem execute_notMem_clientStatuses (server : RpcServer σ) (request : Request) (world : σ) :
    (server.execute request world).1.1 ∉ clientStatuses := by
  unfold RpcServer.execute
  split
  · split_ifs
    · exact (by decide : StatusCode.kUnknownMethod ∉ clientStatuses)
    · exact (by decide : StatusCode.kUnknownService ∉ clientStatuses)
  · split
    · exact (by decide : StatusCode.kOk ∉ clientStatuses)
    · exact (by decide : StatusCode.kInternalError ∉ clientStatuses)

/-- The answers to the calls of a client fit a frame, in whatever world they are executed. -/
def AnswersFit (server : RpcServer σ) (c : Client) : Prop :=
  ∀ spec ∈ c.calls, ∀ world, (server.execute spec.request world).1.2.length ≤ kMaxSessionBody

/-- The handlers' results fit a frame, in whatever world they run. -/
def ResultsFit (registry : ServiceRegistry σ) : Prop :=
  ∀ key fn payload world output, registry.find key = some fn →
    (fn payload world).1 = .ok output → output.length ≤ kMaxSessionBody

theorem length_execute_le {server : RpcServer σ} (h : ResultsFit server.registry)
    (request : Request) (world : σ) :
    (server.execute request world).1.2.length ≤ kMaxSessionBody := by
  unfold RpcServer.execute
  split
  · split_ifs <;> exact Nat.zero_le _
  · rename_i fn hFind
    split
    · rename_i output _ hRun
      exact h _ fn request.payload world output hFind (by rw [hRun])
    · exact Nat.zero_le _

/-- The response to a call. -/
def responseTo (server : RpcServer σ) (request : Request) (world : σ) : Response where
  status := (server.execute request world).1.1
  payload := (server.execute request world).1.2
  serializerId := server.serializerId

section Requests

variable {request : Request} {body : Bytes} (hBody : RawCodec.encodeRequest request = some body)
include hBody

theorem answerable_requestFrame (server : RpcServer σ) (k call : Nat) :
    server.Answerable (requestFrame server.serializerId k (call, body)) := by
  refine ⟨⟨rfl, rfl, rfl⟩, fun _ => ?_⟩
  rw [requestFrame, RawCodec.decodeRequest_encodeRequest hBody]
  rfl

/-- The two checks that the server makes on a frame before it looks into the request. -/
theorem requestFrame_reads (server : RpcServer σ) (k call : Nat) :
    let f := requestFrame server.serializerId k (call, body)
    ¬ f.1.serializerId ≠ server.serializerId ∧ RawCodec.decodeRequest f.2 = some request :=
  ⟨not_not.mpr rfl, RawCodec.decodeRequest_encodeRequest hBody⟩

theorem answer_requestFrame (server : RpcServer σ) (k call : Nat) (world : σ) :
    server.answer world (requestFrame server.serializerId k (call, body)) =
      (responseTo server request world, (server.execute request world).2) := by
  obtain ⟨hId, hDecode⟩ := requestFrame_reads hBody server k call
  simp only [RpcServer.answer, if_neg hId, hDecode]
  rfl

theorem work_requestFrame (server : RpcServer σ) (k call : Nat) :
    ∃ ran, server.work (requestFrame server.serializerId k (call, body)) = .dispatch request :: ran ∧
      ∀ request', .dispatch request' ∉ ran := by
  obtain ⟨hId, hDecode⟩ := requestFrame_reads hBody server k call
  simp only [RpcServer.work, if_neg hId, hDecode]
  refine ⟨_, rfl, fun request' => ?_⟩
  split_ifs <;> simp

end Requests

/-- The frame that carries the k-th response of a connection. -/
def replyFrame (k : Nat) (r : Response) : Frame := (responseHeader (idOf k) r r.payload, r.payload)

/-- The responses of a connection, in order. -/
def replyFrames (served : List Response) : List Frame := served.mapIdx replyFrame

theorem replyFrames_append (served : List Response) (r : Response) :
    replyFrames (served ++ [r]) = replyFrames served ++ [replyFrame served.length r] :=
  List.mapIdx_concat

variable {served : List Response}

theorem getElem?_replyFrames {k : Nat} {f : Frame} (h : (replyFrames served)[k]? = some f) :
    ∃ r, served[k]? = some r ∧ f = replyFrame k r := by
  rw [replyFrames, List.getElem?_mapIdx] at h
  obtain ⟨r, hr, hf⟩ := Option.map_eq_some_iff.mp h
  exact ⟨r, hr, hf.symm⟩

/-- What an answer is like that the client can read. -/
def Readable (r : Response) : Prop :=
  r.payload.length ≤ kMaxSessionBody ∧ r.status ∉ clientStatuses

theorem reads_replyFrames (h : ∀ r ∈ served, Readable r) :
    ∀ f ∈ replyFrames served, FrameReader.default.cutter.Reads encodeFrame f := by
  intro f hf
  obtain ⟨k, hk⟩ := List.mem_iff_getElem?.mp hf
  obtain ⟨r, hr, rfl⟩ := getElem?_replyFrames hk
  exact FrameReader.cut_encodeFrame (accepts_of_le rfl rfl (h r (List.mem_of_getElem? hr)).1)

/-! ## The invariant of a connection -/

/-- The client gave the call its status, or the server has answered the call's request so. -/
def Answered (issued : Issued) (served : List Response) (e : Nat × Response) : Prop :=
  e.2.status ∈ clientStatuses ∨ ∃ (k : Nat) (body : Bytes) (r : Response),
    issued[k]? = some (e.1, body) ∧ served[k]? = some r ∧ r.outcome = e.2.outcome

theorem Answered.mono {issued issued' : Issued} {served' : List Response} {e : Nat × Response}
    (h : Answered issued served e) (hIssued : issued <+: issued') (hServed : served <+: served') :
    Answered issued' served' e := by
  refine h.imp id ?_
  rintro ⟨k, body, r, hk, hr, hEq⟩
  exact ⟨k, body, r, getElem?_mono hIssued hk, getElem?_mono hServed hr, hEq⟩

/-- The call was given a positive timeout, and a timer of it has fired. -/
def Expired (c : Client) (call : Nat) : Prop :=
  ∃ spec, c.calls[call]? = some spec ∧ 0 < spec.timeoutSeconds ∧ ∃ t ∈ c.fired, t.call = call

theorem Expired.mono {c c' : Client} {call : Nat} (h : Expired c call)
    (hCalls : c.calls <+: c'.calls) (hFired : c.fired <+: c'.fired) : Expired c' call := by
  obtain ⟨spec, hSpec, hPos, t, ht, hCall⟩ := h
  exact ⟨spec, getElem?_mono hCalls hSpec, hPos, t, hFired.subset ht, hCall⟩

/-- A client with the ledger `issued`, whose connection has taken the requests `fs`; the server
has answered the first of them by `served`, and the client has read `read` of the answers. -/
structure Linked (server : RpcServer σ) (l : Link) (issued : Issued) (fs : List Frame)
    (served : List Response) (read : Nat) : Prop where
  sender : Sender l.client issued fs
  receiver : Receiver l.client
  outstanding : Outstanding l.client issued read
  refusals : Refusals l.client issued
  accounted : l.client.Accounted
  serializer : l.client.serializerId = server.serializerId
  reader : l.client.frameReader = FrameReader.default
  inbound : Carries encodeFrame fs l.client.transport.sent l.toServer l.input.contents
    served.length
  outbound : Carries encodeFrame (replyFrames served) l.transport.sent l.toClient
    l.client.input.contents read
  readable : ∀ r ∈ served, Readable r
  /-- Before the connection is established, no call is given an id. -/
  fresh : l.everConnected = false → issued = [] ∧ l.client.connection = false
  /-- The server closes no connection of its own accord. -/
  settled : l.transport.state = .kConnected ∨ l.transport.state = .kDisconnected
  serving : l.serving = true → l.transport.state = .kConnected
  unqueued : l.transport.closeQueued = false
  /-- Outside its message callback the server's end waits for more of a frame. -/
  waiting : l.serving = false → l.transport.state = .kConnected →
    FrameReader.default.cutter.cut l.input.contents = .more
  /-- An answer of the server is the answer to the request of the call that got it. -/
  completed : ∀ e ∈ l.client.completed, Answered issued served e
  /-- A call that timed out was given an id, and its own deadline has passed. -/
  timedOut : ∀ e ∈ l.client.completed, e.2.status = .kTimeout →
    e.1 ∈ issued.map Prod.fst ∧ Expired l.client e.1

namespace Linked

variable {server : RpcServer σ} {l : Link} {issued : Issued} {fs : List Frame}
  {served : List Response} {read : Nat}

theorem new (server : RpcServer σ) :
    Linked server { client := Client.new server.serializerId FrameReader.default } [] [] [] 0 where
  sender := Sender.new ..
  receiver := Receiver.new ..
  outstanding := fun _ he => absurd he List.not_mem_nil
  refusals := fun _ he => absurd he List.not_mem_nil
  accounted := fun k => by simp [Client.new, Client.pendingCalls, Client.callsIn, Client.heldCalls,
    Client.completedCalls]
  serializer := rfl
  reader := rfl
  inbound := Carries.nil _
  outbound := Carries.nil _
  readable := fun _ hr => absurd hr List.not_mem_nil
  fresh := fun _ => ⟨rfl, rfl⟩
  settled := .inr rfl
  serving := fun h => by cases h
  unqueued := rfl
  waiting := fun _ h => by cases h
  completed := fun _ he => absurd he List.not_mem_nil
  timedOut := fun _ he => absurd he List.not_mem_nil

theorem length_served_le (h : Linked server l issued fs served read) :
    served.length ≤ issued.length := by
  have hFront := h.sender.front.length_le
  rw [length_requestFrames] at hFront
  exact h.inbound.taken_le.trans hFront

theorem read_le (h : Linked server l issued fs served read) : read ≤ served.length := by
  have hLe := h.outbound.taken_le
  rwa [replyFrames, List.length_mapIdx] at hLe

variable {f : Frame} {n : Nat} {a : Client.Action} {c : Client}

theorem request (h : Linked server l issued fs served read) {k : Nat} (hf : fs[k]? = some f) :
    ∃ call body spec, issued[k]? = some (call, body) ∧ l.client.calls[call]? = some spec ∧
      RawCodec.encodeRequest spec.request = some body ∧
      f = requestFrame server.serializerId k (call, body) := by
  obtain ⟨⟨call, body⟩, he, rfl⟩ := getElem?_requestFrames (getElem?_mono h.sender.front hf)
  obtain ⟨spec, hSpec, hBody⟩ := h.sender.ledger.call _ (List.mem_of_getElem? he)
  exact ⟨call, body, spec, he, hSpec, hBody, by rw [h.serializer]⟩

theorem reads (h : Linked server l issued fs served read) (hFit : RequestsFit l.client) :
    ∀ f ∈ fs, FrameReader.default.cutter.Reads encodeFrame f := by
  intro f hf
  obtain ⟨k, hk⟩ := List.mem_iff_getElem?.mp hf
  obtain ⟨call, body, spec, -, hSpec, hBody, rfl⟩ := h.request hk
  exact FrameReader.cut_encodeFrame
    (accepts_of_le rfl rfl (hFit spec (List.mem_of_getElem? hSpec) body hBody))

/-- The frame at the front of the client's input is the next answer. -/
theorem next_reply (h : Linked server l issued fs served read)
    (hCut : l.client.frameReader.cutter.cut l.client.input.contents = .frame f n) :
    ∃ r, served[read]? = some r ∧ f = replyFrame read r := by
  rw [h.reader] at hCut
  exact getElem?_replyFrames (h.outbound.take (reads_replyFrames h.readable) hCut).1

/-! ### Steps of the client -/

/-- The calls that a step of the client completes. -/
theorem completed_step (h : Linked server l issued fs served read) (hStep : l.client.Outcome a c)
    (hLength : l.client.calls.length < 2 ^ 32) : ∀ e ∈ c.completed, Answered issued served e := by
  intro e he
  cases h.sender.ledger.completed hStep hLength he with
  | before hBefore => exact h.completed e hBefore
  | refused _ hRefused =>
    left
    rcases hRefused with hEq | hEq <;> rw [hEq] <;> decide
  | deadline hResponse =>
    left
    rw [hResponse]
    decide
  | frame f n hCut hOwns hStatus hPayload =>
    -- the answer read next is the answer to the request with that number
    obtain ⟨r, hr, rfl⟩ := h.next_reply hCut
    have hLt := (List.getElem?_eq_some_iff.mp hr).1
    obtain ⟨⟨call, body⟩, hIssued⟩ : ∃ entry, issued[read]? = some entry :=
      ⟨_, List.getElem?_eq_getElem (Nat.lt_of_lt_of_le hLt h.length_served_le)⟩
    have hCall := hOwns.getElem? (Nat.lt_of_le_of_lt h.sender.ledger.length hLength) hIssued
    refine .inr ⟨read, body, r, by rw [hCall, hIssued], hr, ?_⟩
    rw [Response.outcome, Response.outcome, hStatus, hPayload]
    rfl

/-- The deadlines that a step of the client meets. -/
theorem timedOut_step (h : Linked server l issued fs served read) (hStep : l.client.Outcome a c)
    (hLength : l.client.calls.length < 2 ^ 32) :
    ∀ e ∈ c.completed, e.2.status = .kTimeout → e.1 ∈ issued.map Prod.fst ∧ Expired c e.1 := by
  intro e he hTimeout
  obtain ⟨-, -, hCalls, hFired⟩ := Ledger.stable_of_step hStep
  cases h.sender.ledger.completed hStep hLength he with
  | before hBefore =>
    obtain ⟨hMem, hExpired⟩ := h.timedOut e hBefore hTimeout
    exact ⟨hMem, hExpired.mono hCalls hFired⟩
  | refused _ hRefused =>
    rcases hRefused with hEq | hEq <;> rw [hEq] at hTimeout <;> cases hTimeout
  | deadline _ t hT hCall hArmed =>
    obtain ⟨⟨k, body, hk, -⟩, spec, hSpec, hPos⟩ := hArmed
    rw [← hCall]
    refine ⟨List.mem_map_of_mem (List.mem_of_getElem? hk), ?_⟩
    exact Expired.mono ⟨spec, hSpec, hPos, t, hT, rfl⟩ hCalls hFired
  | frame f n hCut _ hStatus =>
    -- no answer of the server has this status
    obtain ⟨r, hr, rfl⟩ := h.next_reply hCut
    have hNot := (h.readable r (List.mem_of_getElem? hr)).2
    rw [show r.status = .kTimeout from hStatus.symm.trans hTimeout] at hNot
    exact absurd (by decide) hNot

/-- **A step of the client**, given what it leaves of the server's stream. -/
theorem client_step (h : Linked server l issued fs served read) (hStep : l.client.step a = some c)
    (hUp : a ≠ .up) (hLength : c.calls.length < 2 ^ 32) {toClient read' : Nat}
    (hOut : Carries encodeFrame (replyFrames served) l.transport.sent toClient c.input.contents
      read') (hRead : read' = read ∨ read' = read + 1 ∧ idOf read ∉ c.pendings.map Prod.fst) :
    ∃ more new, Linked server { l with client := c, toClient := toClient } (issued ++ more)
      (fs ++ new) served read' := by
  have hOutcome := Client.step_outcome hStep
  obtain ⟨hSerializer, hReader, hCalls, -⟩ := Ledger.stable_of_step hOutcome
  obtain ⟨more, new, hSender, hSent, hMore, hPendings⟩ := h.sender.step hOutcome hUp hLength
  have hRead' : Outstanding c (issued ++ more) read :=
    h.outstanding.mono (h.read_le.trans h.length_served_le) hPendings
  refine ⟨more, new, {
    sender := hSender
    receiver := h.receiver.step hOutcome
    outstanding := ?_
    refusals := ?_
    accounted := Client.accounted_step hStep h.accounted
    serializer := hSerializer.trans h.serializer
    reader := hReader.trans h.reader
    inbound := ?_
    outbound := hOut
    readable := h.readable
    fresh := ?_
    settled := h.settled
    serving := h.serving
    unqueued := h.unqueued
    waiting := h.waiting
    completed := ?_
    timedOut := ?_ }⟩
  · rcases hRead with rfl | ⟨rfl, hGone⟩
    · exact hRead'
    · exact hRead'.took hGone
  · refine h.refusals.step h.sender hOutcome (fun e he => ⟨(hMore e he).1, (hMore e he).2.2⟩) ?_
    intro f n hCut hBad
    obtain ⟨r, hr, rfl⟩ := h.next_reply hCut
    have hNot := (h.readable r (List.mem_of_getElem? hr)).2
    rw [show r.status = .kBadRequest from hBad] at hNot
    exact hNot (by decide)
  · show Carries encodeFrame (fs ++ new) c.transport.sent l.toServer l.input.contents served.length
    rw [hSent]
    exact h.inbound.send new
  · intro hFresh
    obtain ⟨hNil, hConn⟩ := h.fresh hFresh
    -- without a connection nothing is added to the ledger, and only `up` makes one
    have hMoreNil : more = [] := by
      refine List.eq_nil_iff_forall_not_mem.mpr fun e he => ?_
      have hUp := (hMore e he).2.1
      rw [hConn] at hUp
      cases hUp
    rw [hNil, hMoreNil]
    exact ⟨rfl, hOutcome.connection_eq_false hUp hConn⟩
  · intro e he
    exact (h.completed_step hOutcome (Nat.lt_of_le_of_lt hCalls.length_le hLength) e he).mono
      (List.prefix_append ..) List.prefix_rfl
  · intro e he hTimeout
    obtain ⟨hMem, hExpired⟩ :=
      h.timedOut_step hOutcome (Nat.lt_of_le_of_lt hCalls.length_le hLength) e he hTimeout
    rw [List.map_append]
    exact ⟨List.mem_append_left _ hMem, hExpired⟩

/-- A step of the client on its own: it takes an answer off its input, or leaves it alone. -/
theorem client_local (h : Linked server l issued fs served read)
    (hStep : l.client.step a = some c) (hLocal : a.isLocal = true)
    (hLength : c.calls.length < 2 ^ 32) :
    ∃ more new read', Linked server { l with client := c } (issued ++ more) (fs ++ new) served
      read' := by
  have hUp : a ≠ .up := by
    rintro rfl
    cases hLocal
  rcases (Client.step_outcome hStep).input_cases h.receiver.tables hUp with
    ⟨hInput, -⟩ | ⟨chunk, rfl, -⟩ | ⟨f, n, hCut, hInput, hGone⟩
  · obtain ⟨more, new, h'⟩ := h.client_step hStep hUp hLength (hInput ▸ h.outbound) (.inl rfl)
    exact ⟨more, new, read, h'⟩
  · cases hLocal
  · -- the answer carries the id of the request that it answers
    obtain ⟨r, -, rfl⟩ := h.next_reply hCut
    rw [h.reader] at hCut
    have hOut := (h.outbound.take (reads_replyFrames h.readable) hCut).2
    obtain ⟨more, new, h'⟩ := h.client_step hStep hUp hLength (hInput ▸ hOut) (.inr ⟨rfl, hGone⟩)
    exact ⟨more, new, read + 1, h'⟩

theorem deliver (h : Linked server l issued fs served read)
    (hStep : l.client.step (.recv (slice l.transport.sent.flatten l.toClient n)) = some c)
    (hLength : c.calls.length < 2 ^ 32) :
    ∃ more new, Linked server
      { l with
        client := c
        toClient := l.toClient + (slice l.transport.sent.flatten l.toClient n).length }
      (issued ++ more) (fs ++ new) served read := by
  have hInput : c.input.contents =
      l.client.input.contents ++ slice l.transport.sent.flatten l.toClient n := by
    cases Client.step_outcome hStep with
    | received => exact Buffer.contents_append ..
  exact h.client_step hStep (by simp) hLength (hInput ▸ h.outbound.deliver n) (.inl rfl)

/-! ### Steps of the network -/

theorem connect (h : Linked server l issued fs served read) (hFresh : l.everConnected = false)
    (hStep : l.client.step .up = some c) :
    Linked server
      { l with
        client := c
        transport := Transport.established
        input := Buffer.new kInitialSize
        everConnected := true } [] [] [] 0 := by
  obtain ⟨rfl, -⟩ := h.fresh hFresh
  -- without an id there is no request, no answer and no byte on its way
  obtain rfl : fs = [] := List.prefix_nil.mp h.sender.front
  obtain ⟨-, hServer, -, hServed⟩ := h.inbound.eq_nil
  obtain rfl : served = [] := List.length_eq_zero_iff.mp hServed
  obtain ⟨-, hClient, -, rfl⟩ := h.outbound.eq_nil
  have hOutcome := Client.step_outcome hStep
  have hAccounted := Client.accounted_step hStep h.accounted
  have hReceiver := h.receiver.step hOutcome
  cases hOutcome with
  | up _ hControl =>
    have hLedger : Ledger l.client.onConnectionUp [] := h.sender.ledger.of_tables rfl
      (fun rest after hFailing => by cases hControl.symm.trans hFailing)
      (fun rest hExpiring => by cases hControl.symm.trans hExpiring)
    exact {
      sender := ⟨hLedger, List.Pairwise.nil, List.nil_prefix, fun _ => rfl⟩
      receiver := hReceiver
      outstanding := h.outstanding
      refusals := h.refusals
      accounted := hAccounted
      serializer := h.serializer
      reader := h.reader
      inbound := by
        rw [hServer, Buffer.contents_new]
        exact Carries.nil _
      outbound := by
        rw [hClient]
        exact Carries.nil _
      readable := h.readable
      fresh := fun hFresh => by cases hFresh
      settled := .inl rfl
      serving := fun _ => rfl
      unqueued := rfl
      waiting := fun _ _ => by
        rw [Buffer.contents_new]
        exact FrameReader.cut_nil _
      completed := h.completed
      timedOut := h.timedOut }

theorem arrive (h : Linked server l issued fs served read)
    (hState : l.transport.state = .kConnected) (n : Nat) :
    Linked server
      { l with
        input := l.input.append (slice l.client.transport.sent.flatten l.toServer n)
        toServer := l.toServer + (slice l.client.transport.sent.flatten l.toServer n).length
        serving := true } issued fs served read :=
  { h with
    inbound := by
      rw [Buffer.contents_append]
      exact h.inbound.deliver n
    serving := fun _ => hState
    waiting := fun hServing => by cases hServing }

theorem serverDown (h : Linked server l issued fs served read) (hServing : l.serving = false) :
    Linked server
      { l with transport := { l.transport with state := .kDisconnected, closeQueued := false } }
      issued fs served read :=
  { h with
    settled := .inr rfl
    serving := fun hServing' => by cases hServing.symm.trans hServing'
    unqueued := rfl
    waiting := fun _ hState => by cases hState }

/-! ### Passes of the server -/

/-- **A pass with nothing to take ends the callback**, and does nothing else. -/
theorem pass_idle (h : Linked server l issued fs served read)
    (hReader : server.frameReader = FrameReader.default) (hLimit : server.maxInputBufferSize = 0)
    (world : σ) (hCut : FrameReader.default.cutter.cut l.input.contents = .more) :
    server.onMessagePass (l.conn world) = .done (l.conn world) ∧
      Linked server (l.commit (l.conn world).runQueued false) issued fs served read := by
  have hCut' : server.frameReader.cutter.cut (l.conn world).input.contents = .more := by
    rw [hReader]
    exact hCut
  have hLe : ¬ server.inputLimit < (l.conn world).input.readableBytes := by
    rw [RpcServer.inputLimit, if_neg (not_not.mpr hLimit), ← Buffer.length_contents, not_lt]
    exact FrameReader.length_le_of_more hCut'
  have hQueue : (l.conn world).runQueued.transport = l.transport :=
    Transport.runQueued_of_not_queued h.unqueued
  refine ⟨by rw [RpcServer.onMessagePass_of_more hCut', if_neg hLe], ?_⟩
  rw [Link.commit, hQueue]
  exact { h with
    serving := fun hServing => by cases hServing
    waiting := fun _ _ => hCut }

/-- The link after the next request was answered by `r`. -/
theorem reply (h : Linked server l issued fs served read) (hServing : l.serving = true)
    {r : Response} (hr : Readable r) {conn : Conn σ}
    (hTransport : conn.transport =
      l.transport.send (encodeFrame (replyFrame served.length r)))
    (hInput : Carries encodeFrame fs l.client.transport.sent l.toServer conn.input.contents
      (served.length + 1)) :
    Linked server (l.commit conn true) issued fs (served ++ [r]) read := by
  have hState := h.serving hServing
  have hState' : conn.transport.state = .kConnected := by
    rw [hTransport, Transport.send_state]
    exact hState
  exact { h with
    inbound := by
      rw [List.length_append]
      exact hInput
    outbound := by
      -- the answer is the next in the stream to the client
      show Carries encodeFrame _ conn.transport.sent _ _ _
      rw [hTransport, Transport.send_sent_of_connected hState, replyFrames_append]
      exact h.outbound.send [_]
    readable := by
      intro r' hr'
      rcases List.mem_append.mp hr' with hr' | hr'
      · exact h.readable r' hr'
      · rw [List.mem_singleton.mp hr']
        exact hr
    settled := .inl hState'
    serving := fun _ => hState'
    unqueued := by
      show conn.transport.closeQueued = _
      rw [hTransport, Transport.send_closeQueued]
      exact h.unqueued
    waiting := fun hServing => by cases hServing
    completed := fun e he => (h.completed e he).mono List.prefix_rfl (List.prefix_append ..) }

/-- **A pass takes the next request of the client and answers it**, in the world it finds. -/
theorem pass_frame (h : Linked server l issued fs served read)
    (hReader : server.frameReader = FrameReader.default) (hAnswers : AnswersFit server l.client)
    (hFit : RequestsFit l.client) (hServing : l.serving = true) (world : σ)
    (hCut : FrameReader.default.cutter.cut l.input.contents = .frame f n) :
    ∃ call body spec conn', issued[served.length]? = some (call, body) ∧
      l.client.calls[call]? = some spec ∧
      server.onMessagePass (l.conn world) = .again conn' ∧
      conn'.world = (server.execute spec.request world).2 ∧
      (∃ ran message, conn'.trace = .dispatch spec.request :: (ran ++ [.send message]) ∧
        ∀ request, .dispatch request ∉ ran) ∧
      Linked server (l.commit conn' true) issued fs
        (served ++ [responseTo server spec.request world]) read := by
  obtain ⟨hf, hTaken⟩ := h.inbound.take (h.reads hFit) hCut
  obtain ⟨call, body, spec, hIssued, hSpec, hBody, rfl⟩ := h.request hf
  -- what is cut off is the next request, so its answer is known
  have hAnswer : server.answer (l.conn world).world
      (requestFrame server.serializerId served.length (call, body)) =
        (responseTo server spec.request world, (server.execute spec.request world).2) :=
    answer_requestFrame hBody server served.length call world
  have hLe : (responseTo server spec.request world).payload.length ≤ kMaxSessionBody :=
    hAnswers spec (List.mem_of_getElem? hSpec) world
  have hCut' : server.frameReader.cutter.cut (l.conn world).input.contents =
      .frame (requestFrame server.serializerId served.length (call, body)) n := by
    rw [hReader]
    exact hCut
  -- the answer fits, so the pass sends it and goes on
  have hPass := RpcServer.onMessagePass_answered hCut'
    (answerable_requestFrame hBody server served.length call)
    (by rw [hAnswer]; exact le_kMaxBodyLen hLe)
  rw [hAnswer] at hPass
  obtain ⟨ran, hWork, hRan⟩ := work_requestFrame hBody server served.length call
  refine ⟨call, body, spec, _, hIssued, hSpec, hPass, ?_,
    ⟨ran, encodeFrame (replyFrame served.length (responseTo server spec.request world)), ?_, hRan⟩,
    h.reply hServing ⟨hLe, execute_notMem_clientStatuses server spec.request world⟩ rfl ?_⟩
  · rw [Conn.send_world, RpcServer.afterWork_world, hAnswer]
  · rw [Conn.send_trace, RpcServer.afterWork_trace, hWork]
    rfl
  · rw [Conn.send_input, RpcServer.afterWork_contents]
    exact hTaken

end Linked

end ReactorNet.Rpc
