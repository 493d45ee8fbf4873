import ReactorNet.Http.Server
import ReactorNet.Net.Service

/-!
# ReactorNet — the static file server on a connection

The keep-alive loop of `Http.Server` is the message callback of a `TcpConnection`. The answer to a
stream of bytes is the answers to the requests that it is cut into, one after the other, and that
is what the client gets, however its requests and the answers are cut on their way. The files
that the server reads do not change during the run (`HttpServer.readFile`), so the answer to a
request does not depend on when the loop comes to it.

Main result: `pipelined`.
-/

namespace ReactorNet.HttpServer

open Lib TcpConnection Hosted

/-- The message callback of `example/http_server.cpp`. -/
def service (server : HttpServer) : Service where
  onMessage buf :=
    let conn := server.onMessage ⟨buf, [], none⟩
    ⟨conn.buf, conn.sent, conn.thrown⟩

/-- The loop has gone over the stream as far as it goes. -/
def Answered (server : HttpServer) : Service.Relation := fun s buf sent thrown =>
  Served server ⟨buf, sent, thrown⟩ (requestCutter.split s)

/-- What the server answers to a stream. -/
def answers (server : HttpServer) (s : Bytes) : Bytes :=
  ((requestCutter.split s).frames.map server.answer).flatten

theorem answers_mono (server : HttpServer) (s t : Bytes) :
    server.answers s <+: server.answers (s ++ t) := by
  obtain ⟨rest, hRest⟩ := Cutter.frames_split_mono (c := requestCutter) s t
  refine ⟨(rest.map server.answer).flatten, ?_⟩
  rw [answers, answers, ← hRest, List.map_append, List.flatten_append]

/-- **The loop goes on where it stopped.** -/
theorem follows (server : HttpServer) : server.service.Follows server.Answered where
  start := by
    rw [Answered, Cutter.split_more rfl]
    exact ⟨rfl, rfl, fun _ => Buffer.contents_new _⟩
  next {s buf sent} h chunk := by
    have hOpen : (requestCutter.split s).broken = false := h.thrown.symm
    have hBuf : buf.contents = (requestCutter.split s).rest := h.rest hOpen
    have hSent : sent = (requestCutter.split s).frames.map server.answer := h.sent
    have hNow := @onMessage_split ⟨buf.append chunk, [], none⟩ server [] rfl rfl
    simp only [Buffer.contents_append, hBuf] at hNow
    rw [Answered, Cutter.split_append hOpen]
    refine ⟨?_, hNow.thrown, hNow.rest⟩
    show sent ++ _ = _
    rw [hSent, List.map_append]
    exact congrArg _ hNow.sent

/-- **The client reads the answers to its requests**, in their order and nothing else; between two
callbacks what is left in the input buffer is the beginning of a request, and the answers to all
others are written or buffered; and a request that the parser throws at ends the process, as
nothing else does. -/
theorem pipelined (server : HttpServer) (stream : Bytes) (h : Hosted)
    (hReach : Reaches (step server.service stream) {} h) :
    Delivers server.answers stream h ∧
    (h.calling = false →
      h.thrown.isSome = (requestCutter.split (stream.take h.endpoint.received)).broken ∧
      (h.thrown = none → h.endpoint.tcp.inputBuffer.contents =
        (requestCutter.split (stream.take h.endpoint.received)).rest)) := by
  have hHosts := Hosted.follows server.follows hReach
  refine ⟨hHosts.delivers (fun hServed => ?_) server.answers_mono, fun hCalling => ?_⟩
  · exact congrArg List.flatten hServed.sent
  · have hServed := hHosts.waiting hCalling
    refine ⟨hServed.thrown, fun hNone => hServed.rest ?_⟩
    rw [← hServed.thrown]
    simp [hNone]

/-- A server of one file. -/
def oneFile : HttpServer where
  docRoot := ascii "/w"
  readFile name := if name = ascii "/w/index.html" then some ⟨ascii "hi", by decide⟩ else none

def twoRequests : Bytes :=
  ascii "GET / HTTP/1.1\r\n\r\nGET /x HTTP/1.1\r\nA: b\r\n\r\nGE"

/-- Two requests and the beginning of a third one, read in two parts; the answers are written in
three. -/
def twoReads : List Hosted.Action :=
  [[.connectEstablished, .ret].map .connection, (Endpoint.upToRead (.data 10)).map .connection,
    [.callback []], Endpoint.afterRead.map .connection,
    (Endpoint.upToRead (.data 100)).map .connection,
    [.callback [.accepted 1000, .accepted 30]], Endpoint.afterRead.map .connection,
    [.task (.accepted 0), .ret].map .connection,
    [.event { epollout := true }, .resume .eof (.accepted 0), .resume .eof (.accepted 0),
      .resume .eof (.accepted 0), .resume .eof (.accepted 1000)].map .connection].flatten

theorem pipelined_twoReads : ∃ h : Hosted,
    writtenBytes h.endpoint.tcp.log = oneFile.answers twoRequests ∧
    h.endpoint.tcp.inputBuffer.contents = (requestCutter.split twoRequests).rest := by
  have hRun : (runAll (step oneFile.service twoRequests) {} twoReads).map
      (fun h => (h.calling || h.endpoint.dead, h.thrown.isNone, h.endpoint.tcp.state,
        h.endpoint.received, h.endpoint.tcp.outputBuffer.contents)) =
      some (false, true, .kConnected, twoRequests.length, []) := by
    decide +kernel
  obtain ⟨h, hReach, hFields⟩ := Option.map_eq_some_iff.mp hRun
  simp only [Prod.mk.injEq, Bool.or_eq_false_iff] at hFields
  obtain ⟨⟨hCalling, hAlive⟩, hThrown, hState, hReceived, hOutput⟩ := hFields
  obtain ⟨hDelivers, hRest⟩ := pipelined oneFile twoRequests h (reaches_of_runAll hReach)
  refine ⟨h, ?_, ?_⟩
  · have hAll := hDelivers.accounted hCalling hAlive (by simp [hState])
    rwa [hOutput, List.append_nil, hReceived, List.take_length] at hAll
  · have hInput := (hRest hCalling).2 (Option.isNone_iff_eq_none.mp hThrown)
    rwa [hReceived, List.take_length] at hInput

end ReactorNet.HttpServer
