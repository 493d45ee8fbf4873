import ReactorNet.Lib.StdString
import ReactorNet.Net.Endpoint

/-!
# ReactorNet — a service on a connection

The message callbacks of the example servers take bytes from the input buffer and send, and do
nothing else to their connection. A `Service` is such a callback, and `Hosted` is a connection in
the turns of its loop with a service on it, against a peer that writes a given stream. An exception
that leaves the callback ends the process.

What a service makes of a stream is said without a connection, by a relation between the bytes
received, the input buffer, the messages sent and the exception (`Service.Follows`). `follows` is
the rule that carries it over to every run of the connection: whatever the reads return, however
little the socket takes at a time, and whenever the connection ends. `Hosts.delivered` says what it
comes to for the bytes on the socket.

Main result: `EchoServer.transparent`.
-/

namespace ReactorNet

open Lib TcpConnection

/-- What a message callback leaves in the input buffer, the messages it sends, in order, and the
exception that leaves it. -/
structure Service.Result where
  buf : Buffer
  messages : List Bytes
  thrown : Option StdException

structure Service where
  onMessage : Buffer → Service.Result

/-- What was made of a stream: the input buffer, the messages sent, and the exception. -/
abbrev Service.Relation := Bytes → Buffer → List Bytes → Option StdException → Prop

structure Service.Follows (service : Service) (P : Service.Relation) : Prop where
  start : P [] (Buffer.new kInitialSize) [] none
  next : ∀ {s buf sent}, P s buf sent none → ∀ chunk,
    P (s ++ chunk) (service.onMessage (buf.append chunk)).buf
      (sent ++ (service.onMessage (buf.append chunk)).messages)
      (service.onMessage (buf.append chunk)).thrown

structure Hosted where
  endpoint : Endpoint := {}
  /-- The message callback has been called and has not run yet. -/
  calling : Bool := false
  /-- The exception that ended the process. -/
  thrown : Option StdException := none

namespace Hosted

inductive Action where
  | connection (a : Endpoint.Action)
  /-- The message callback runs; each of its sends may write. -/
  | callback (results : List WriteResult)
  deriving DecidableEq, Repr

def step (service : Service) (stream : Bytes) (h : Hosted) : Action → Option Hosted
  | .connection a =>
    if h.calling ∨ h.thrown.isSome then none
    else
      (h.endpoint.step stream a).map fun e =>
        { h with
          endpoint := e
          calling := h.endpoint.tcp.upcall e.tcp == some .messageCallback }
  | .callback results =>
    if h.calling then
      let result := service.onMessage h.endpoint.tcp.inputBuffer
      if results.length = result.messages.length then
        (h.endpoint.users (List.zipWith UserOp.send result.messages results)).map fun e =>
          { endpoint := { e with tcp := { e.tcp with inputBuffer := result.buf } }
            calling := false
            thrown := result.thrown }
      else none
    else none

/-! ## What every run keeps -/

/-- The sends of a callback, on a connection that is open. -/
theorem foldl_send {messages : List Bytes} {results : List WriteResult}
    (hLength : results.length = messages.length) {t : Transport} (hState : t.state = .kConnected) :
    (List.zipWith UserOp.send messages results).foldl Transport.user t =
      { t with sent := t.sent ++ messages } := by
  induction messages generalizing results t with
  | nil => simp
  | cons message messages ih =>
    obtain ⟨w, results, rfl⟩ : ∃ w rest, results = w :: rest := by
      cases results with
      | nil => cases hLength
      | cons w rest => exact ⟨w, rest, rfl⟩
    have hSent : t.send message = { t with sent := t.sent ++ [message] } := if_pos hState
    rw [List.zipWith_cons_cons, List.foldl_cons, Transport.user, hSent]
    have hRest := ih (t := { t with sent := t.sent ++ [message] }) (Nat.succ.inj hLength) hState
    rw [hRest, List.append_assoc]
    rfl

/-- What the service has done with the part of the stream that was received. -/
structure Hosts (P : Service.Relation) (stream : Bytes) (h : Hosted) : Prop where
  sound : h.endpoint.Sound
  flushed : h.endpoint.Flushed
  received : h.endpoint.received ≤ stream.length
  /-- Nobody shuts the connection down. -/
  connected : Up h.endpoint.tcp → h.endpoint.ended = false → h.endpoint.tcp.state = .kConnected
  waiting : h.calling = false →
    P (stream.take h.endpoint.received) h.endpoint.tcp.inputBuffer
      (sentMessages h.endpoint.tcp.log) h.thrown
  /-- The callback that is due sees the bytes of one more read. -/
  called : h.calling = true →
    Up h.endpoint.tcp ∧ h.endpoint.ended = false ∧ h.endpoint.InCallback ∧
      ∃ s chunk buf, stream.take h.endpoint.received = s ++ chunk ∧
        h.endpoint.tcp.inputBuffer = buf.append chunk ∧
        P s buf (sentMessages h.endpoint.tcp.log) none

variable {service : Service} {stream : Bytes} {P : Service.Relation} {h h' : Hosted}

theorem hosts_new (hFollows : service.Follows P) : Hosts P stream {} where
  sound := Endpoint.sound_new
  flushed := Endpoint.flushed_new
  received := Nat.zero_le _
  connected hUp := by rcases hUp.state with hState | hState <;> cases hState
  waiting _ := by simpa [sentMessages] using hFollows.start
  called hCalling := by cases hCalling

/-- A step of the connection that is not the arrival of bytes. -/
theorem Hosts.setEndpoint (hHosts : Hosts P stream h) (hCalling : h.calling = false)
    {e : Endpoint} (hSound : e.Sound) (hFlushed : e.Flushed)
    (hSent : sentMessages e.tcp.log = sentMessages h.endpoint.tcp.log)
    (hInput : e.tcp.inputBuffer = h.endpoint.tcp.inputBuffer)
    (hReceived : e.received = h.endpoint.received)
    (hConnected : Up e.tcp → e.ended = false → e.tcp.state = .kConnected) :
    Hosts P stream { h with endpoint := e, calling := false } where
  sound := hSound
  flushed := hFlushed
  received := hReceived ▸ hHosts.received
  connected := hConnected
  waiting _ := by
    show P (stream.take e.received) e.tcp.inputBuffer (sentMessages e.tcp.log) h.thrown
    rw [hReceived, hInput, hSent]
    exact hHosts.waiting hCalling
  called hNow := by cases hNow

theorem Hosts.connection (hHosts : Hosts P stream h) {a : Endpoint.Action}
    (hStep : h.step service stream (.connection a) = some h') : Hosts P stream h' := by
  simp only [step] at hStep
  split_ifs at hStep with hBusy
  obtain ⟨hCalling, hThrown⟩ : h.calling = false ∧ h.thrown = none := by simpa using hBusy
  obtain ⟨e, hEnd, rfl⟩ := Option.map_eq_some_iff.mp hStep
  have hSound := Endpoint.sound_step hHosts.sound hEnd
  have hFlushed := Endpoint.flushed_step hHosts.flushed hHosts.sound hEnd
  have hSent := Endpoint.sentMessages_step hHosts.sound hEnd
  cases Endpoint.effect_of_step hHosts.sound hEnd with
  | quiet hQuiet hReceived =>
    rw [hQuiet.call]
    refine hHosts.setEndpoint hCalling hSound hFlushed hSent hQuiet.input hReceived ?_
    intro hUp hEnded
    rw [hQuiet.state]
    refine hHosts.connected (hHosts.sound.faithful.life.up_of_state ?_)
      (Endpoint.ended_step hEnd hEnded)
    rw [← hQuiet.state]
    exact hUp.state
  | up hOpens =>
    rw [hOpens.call]
    exact hHosts.setEndpoint hCalling hSound hFlushed hSent hOpens.input hOpens.received
      fun _ _ => hOpens.state
  | halfClosed hEnds =>
    rw [hEnds.call]
    exact hHosts.setEndpoint hCalling hSound hFlushed hSent hEnds.input hEnds.received
      fun _ hNot => by simp [hEnds.ended] at hNot
  | down hDown =>
    rw [hDown.call]
    exact hHosts.setEndpoint hCalling hSound hFlushed hSent hDown.input hDown.received
      fun hNot _ => absurd hDown.state hNot.ne_disconnected
  | message n hGot =>
    rw [hGot.call]
    have hUp' : Up e.tcp :=
      hSound.faithful.life.up_of_state (by rw [hGot.state]; exact hGot.up.state)
    have hBefore := hHosts.waiting hCalling
    rw [hThrown, ← hSent] at hBefore
    -- the chunk is the next part of the stream behind what was received before
    have hTake : stream.take e.received =
        stream.take h.endpoint.received ++ slice stream h.endpoint.received n := by
      rw [hGot.received, take_add_slice]
    exact
      { sound := hSound
        flushed := hFlushed
        received := hGot.received ▸ add_length_slice_le hHosts.received n
        connected := fun _ _ => hGot.state.trans (hHosts.connected hGot.up hGot.reading)
        waiting := fun hNot => by cases hNot
        called := fun _ =>
          ⟨hUp', hGot.ended, hGot.callback, _, _, _, hTake, hGot.input, hBefore⟩ }

theorem Hosts.callback (hHosts : Hosts P stream h) (hFollows : service.Follows P)
    {results : List WriteResult}
    (hStep : h.step service stream (.callback results) = some h') : Hosts P stream h' := by
  simp only [step] at hStep
  split_ifs at hStep with hCalling hLength
  obtain ⟨e, hUsers, rfl⟩ := Option.map_eq_some_iff.mp hStep
  obtain ⟨hUp, hOpen, hCallback, s, chunk, buf, hTake, hInput, hP⟩ := hHosts.called hCalling
  obtain ⟨hTransport, -, -, -, hReceived, hEnded⟩ := Endpoint.users_spec hUsers
  have hConnected := hHosts.connected hUp hOpen
  rw [foldl_send hLength hConnected] at hTransport
  have hSent := congrArg Transport.sent hTransport
  have hFlushed := Endpoint.flushed_users hHosts.flushed hUsers
  exact
    { sound := (Endpoint.sound_users hHosts.sound hUsers hCallback).setInput _
      flushed := ⟨hFlushed.down, hFlushed.written⟩
      received := hReceived ▸ hHosts.received
      connected := fun _ _ => (congrArg Transport.state hTransport).trans hConnected
      waiting := fun _ => by
        show P (stream.take e.received) _ (sentMessages e.tcp.log) _
        rw [hReceived, hTake, hInput, show sentMessages e.tcp.log = _ from hSent, hInput]
        exact hFollows.next hP chunk
      called := fun hNow => by cases hNow }

/-- **What a service makes of a stream, it makes of it on every connection.** -/
theorem follows (hFollows : service.Follows P) (hReach : Reaches (step service stream) {} h) :
    Hosts P stream h := by
  refine hReach.invariant (P := Hosts P stream) (hosts_new hFollows) ?_
  intro h h' a hStep hHosts
  cases a with
  | connection a => exact hHosts.connection hStep
  | callback results => exact hHosts.callback hFollows hStep

/-! ## The bytes on the socket -/

/-- The bytes that went to the socket, and what is buffered, when the answer to the stream `s` is
`answer s`. -/
structure Delivers (answer : Bytes → Bytes) (stream : Bytes) (h : Hosted) : Prop where
  /-- Nothing but the answer to what was received is ever written, in order and without gaps. -/
  written : writtenBytes h.endpoint.tcp.log <+: answer (stream.take h.endpoint.received)
  /-- Between two callbacks the answer to what was received is written or buffered. -/
  accounted : h.calling = false → h.endpoint.dead = false →
    h.endpoint.tcp.state ≠ .kDisconnected →
    writtenBytes h.endpoint.tcp.log ++ h.endpoint.tcp.outputBuffer.contents =
      answer (stream.take h.endpoint.received)
  /-- A peer that ends its stream and goes on reading gets the whole answer to it before the
  connection is closed. -/
  finished : Finished h.endpoint.tcp → h.endpoint.dead = false →
    writtenBytes h.endpoint.tcp.log = answer (stream.take h.endpoint.received)

theorem Hosts.delivers (hHosts : Hosts P stream h) {answer : Bytes → Bytes}
    (hAnswer : ∀ {s buf sent thrown}, P s buf sent thrown → sent.flatten = answer s)
    (hMono : ∀ s t, answer s <+: answer (s ++ t)) : Delivers answer stream h where
  written := by
    refine hHosts.sound.faithful.written.trans ?_
    cases hCalling : h.calling with
    | false => rw [hAnswer (hHosts.waiting hCalling)]
    | true =>
      -- the callback has the chunk that was read last, and nothing of its answer is sent yet
      obtain ⟨-, -, -, s, chunk, buf, hTake, -, hP⟩ := hHosts.called hCalling
      rw [hAnswer hP, hTake]
      exact hMono s chunk
  accounted hCalling hAlive hUp := by
    have hStream := (hHosts.sound.faithful.owes hAlive).stream hUp
    rwa [List.append_nil, hAnswer (hHosts.waiting hCalling)] at hStream
  finished hFinished hAlive := by
    have hCalling : h.calling = false := by
      by_contra hNow
      obtain ⟨hUp, -⟩ := hHosts.called (by simpa using hNow)
      exact hUp.ne_disconnected (hHosts.flushed.down hFinished)
    rw [hHosts.flushed.written hFinished hAlive, hAnswer (hHosts.waiting hCalling)]

end Hosted

/-! ## The echo server -/

namespace EchoServer

open Hosted

/-- The message callback of `example/echo_server.cpp`. -/
def service : Service where
  onMessage buf := ⟨buf.retrieve buf.readableBytes, [buf.contents], none⟩

/-- The buffer is empty, and what was received was sent. -/
def Echoed : Service.Relation := fun s buf sent _ => buf.contents = [] ∧ sent.flatten = s

theorem follows : service.Follows Echoed where
  start := ⟨Buffer.contents_new _, rfl⟩
  next {s buf sent} h chunk := by
    obtain ⟨hBuf, hSent⟩ := h
    refine ⟨?_, ?_⟩
    · rw [service, Buffer.contents_retrieve, ← Buffer.length_contents, List.drop_length]
    · simp [service, hBuf, hSent]

/-- **The echo server writes back what it reads**: only that, in order and without gaps; between
two callbacks all of it is written or buffered; and a client that ends its stream gets all of it
back before the connection is closed. -/
theorem transparent (stream : Bytes) (h : Hosted) (hReach : Reaches (step service stream) {} h) :
    Delivers id stream h :=
  (Hosted.follows follows hReach).delivers (fun hEchoed => hEchoed.2) fun _ t => ⟨t, rfl⟩

/-- Five bytes are read, of which the socket takes two. The peer ends its stream, and the rest is
written before the connection is closed. -/
def halfClosed : List Hosted.Action :=
  [[.connectEstablished, .ret].map .connection, (Endpoint.upToRead (.data 5)).map .connection,
    [.callback [.accepted 2]], Endpoint.afterRead.map .connection,
    (Endpoint.upToRead .eof).map .connection,
    [.resume .eof (.accepted 0), .doPendingFunctors].map .connection,
    Endpoint.writeTurn.map .connection, (Endpoint.upToRead .eof).map .connection].flatten

theorem transparent_halfClosed : ∃ h, Delivers id (ascii "hello") h ∧
    Finished h.endpoint.tcp ∧ writtenBytes h.endpoint.tcp.log = ascii "hello" := by
  have hRun : (runAll (step service (ascii "hello")) {} halfClosed).map
      (fun h => (h.endpoint.received, decide (.eofClose 0 ∈ h.endpoint.tcp.log),
        h.endpoint.dead)) = some (5, true, false) := by
    decide +kernel
  obtain ⟨h, hReach, hFields⟩ := Option.map_eq_some_iff.mp hRun
  simp only [Prod.mk.injEq, decide_eq_true_eq] at hFields
  obtain ⟨hReceived, hMem, hDead⟩ := hFields
  have hDelivers := transparent (ascii "hello") h (reaches_of_runAll hReach)
  refine ⟨h, hDelivers, ⟨0, hMem⟩, ?_⟩
  rw [hDelivers.finished ⟨0, hMem⟩ hDead, hReceived]
  rfl

end EchoServer

end ReactorNet
