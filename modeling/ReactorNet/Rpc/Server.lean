import ReactorNet.Net.Transport
import ReactorNet.Rpc.FrameReader
import ReactorNet.Rpc.Registry

/-!
# ReactorNet — the RPC server

`RpcServer` of `rpc/src/rpc_server.cpp`, one connection at a time. The state a
message callback works on is a `Conn`: the transport, its input buffer, the
world the handlers run in, and a trace of what the server did, in order. The
trace is what statements about order are read off: log lines, messages passed to
`send`, the two kinds of close, dispatches and the handlers they ran.

`onMessage` is a loop over `onMessagePass`; a pass that goes round again has
consumed a frame, so the readable bytes bound it (`onMessagePass_dec`). The
three ways a pass can go are the three verdicts of the frame reader
(`onMessagePass_of_more`, `onMessagePass_of_broken`, `onMessagePass_of_frame`).
-/

namespace ReactorNet.Rpc

open Lib

universe u

/-- One thing the server did on a connection. -/
inductive Event where
  | log (reason : String)
  | send (message : Bytes)
  | shutdown
  | forceClose
  | dispatch (request : Request)
  | invoke (key payload : Bytes)
  deriving DecidableEq

structure Conn (σ : Type u) where
  transport : Transport
  input : Buffer
  world : σ
  trace : List Event

structure RpcServer (σ : Type u) where
  registry : ServiceRegistry σ
  frameReader : FrameReader := FrameReader.default
  /-- `0` follows `frameReader.maxFrameSize`. -/
  maxInputBufferSize : Nat := 0
  serializerId : UInt8 := kSerializerRaw

namespace Conn

variable {σ : Type u}

/-- A connection right after it was established. -/
def established (initialSize : Nat) (world : σ) : Conn σ :=
  ⟨Transport.established, Buffer.new initialSize, world, []⟩

def logProtocolError (conn : Conn σ) (reason : String) : Conn σ :=
  { conn with trace := conn.trace ++ [.log reason] }

def send (conn : Conn σ) (message : Bytes) : Conn σ :=
  { conn with transport := conn.transport.send message, trace := conn.trace ++ [.send message] }

def shutdown (conn : Conn σ) : Conn σ :=
  { conn with transport := conn.transport.shutdown, trace := conn.trace ++ [.shutdown] }

def forceClose (conn : Conn σ) : Conn σ :=
  { conn with transport := conn.transport.forceClose, trace := conn.trace ++ [.forceClose] }

/-- What was read is in the input buffer. -/
def received (conn : Conn σ) (chunk : Bytes) : Conn σ :=
  { conn with input := conn.input.append chunk }

/-- The end of a loop turn. -/
def runQueued (conn : Conn σ) : Conn σ :=
  { conn with transport := conn.transport.runQueued }

@[simp] theorem logProtocolError_transport (conn : Conn σ) (reason : String) :
    (conn.logProtocolError reason).transport = conn.transport := rfl

@[simp] theorem logProtocolError_input (conn : Conn σ) (reason : String) :
    (conn.logProtocolError reason).input = conn.input := rfl

@[simp] theorem logProtocolError_world (conn : Conn σ) (reason : String) :
    (conn.logProtocolError reason).world = conn.world := rfl

@[simp] theorem logProtocolError_trace (conn : Conn σ) (reason : String) :
    (conn.logProtocolError reason).trace = conn.trace ++ [.log reason] := rfl

@[simp] theorem send_transport (conn : Conn σ) (message : Bytes) :
    (conn.send message).transport = conn.transport.send message := rfl

@[simp] theorem send_input (conn : Conn σ) (message : Bytes) :
    (conn.send message).input = conn.input := rfl

@[simp] theorem send_world (conn : Conn σ) (message : Bytes) :
    (conn.send message).world = conn.world := rfl

@[simp] theorem send_trace (conn : Conn σ) (message : Bytes) :
    (conn.send message).trace = conn.trace ++ [.send message] := rfl

@[simp] theorem shutdown_transport (conn : Conn σ) :
    conn.shutdown.transport = conn.transport.shutdown := rfl

@[simp] theorem shutdown_input (conn : Conn σ) : conn.shutdown.input = conn.input := rfl

@[simp] theorem shutdown_world (conn : Conn σ) : conn.shutdown.world = conn.world := rfl

@[simp] theorem shutdown_trace (conn : Conn σ) :
    conn.shutdown.trace = conn.trace ++ [.shutdown] := rfl

@[simp] theorem forceClose_transport (conn : Conn σ) :
    conn.forceClose.transport = conn.transport.forceClose := rfl

@[simp] theorem forceClose_input (conn : Conn σ) : conn.forceClose.input = conn.input := rfl

@[simp] theorem forceClose_world (conn : Conn σ) : conn.forceClose.world = conn.world := rfl

@[simp] theorem forceClose_trace (conn : Conn σ) :
    conn.forceClose.trace = conn.trace ++ [.forceClose] := rfl

@[simp] theorem received_transport (conn : Conn σ) (chunk : Bytes) :
    (conn.received chunk).transport = conn.transport := rfl

@[simp] theorem received_contents (conn : Conn σ) (chunk : Bytes) :
    (conn.received chunk).input.contents = conn.input.contents ++ chunk :=
  Buffer.contents_append ..

@[simp] theorem received_world (conn : Conn σ) (chunk : Bytes) :
    (conn.received chunk).world = conn.world := rfl

@[simp] theorem received_trace (conn : Conn σ) (chunk : Bytes) :
    (conn.received chunk).trace = conn.trace := rfl

@[simp] theorem runQueued_transport (conn : Conn σ) :
    conn.runQueued.transport = conn.transport.runQueued := rfl

@[simp] theorem runQueued_input (conn : Conn σ) : conn.runQueued.input = conn.input := rfl

@[simp] theorem runQueued_world (conn : Conn σ) : conn.runQueued.world = conn.world := rfl

@[simp] theorem runQueued_trace (conn : Conn σ) : conn.runQueued.trace = conn.trace := rfl

end Conn

/-- The header of a response frame. -/
def responseHeader (requestId : UInt32) (response : Response) (body : Bytes) : MessageHeader where
  magic := kMagic
  version := kVersion
  type := .kResponse
  flags := 0
  status := response.status
  serializerId := response.serializerId
  requestId := requestId
  bodyLen := UInt32.ofNat body.length

namespace RpcServer

variable {σ : Type u}

def setMaxInputBufferSize (server : RpcServer σ) (maxInputBufferSize : Nat) : RpcServer σ :=
  { server with
    maxInputBufferSize := if maxInputBufferSize = 0 then 0 else max maxInputBufferSize kHeaderSize }

/-- The bytes that may stay unparsed in the input buffer. -/
def inputLimit (server : RpcServer σ) : Nat :=
  if server.maxInputBufferSize ≠ 0 then server.maxInputBufferSize
  else server.frameReader.maxFrameSize

def sendResponse (conn : Conn σ) (requestId : UInt32) (response : Response) : Conn σ :=
  match RawCodec.encodeResponse response with
  -- a local failure: the peer gets no response
  | none => (conn.logProtocolError "response body exceeds the codec limit").forceClose
  | some body => conn.send (encodeHeader (responseHeader requestId response body) ++ body)

/-- The response leaves before the write side is shut down. -/
def rejectAndClose (conn : Conn σ) (requestId : UInt32) (status : StatusCode) : Conn σ :=
  (sendResponse conn requestId { status := status, payload := [] }).shutdown

/-- What `handleRequest` makes of a dispatch: a handler that threw leaves an
`INTERNAL_ERROR`, whatever was filled in before. -/
def caught (d : Dispatched σ) : Response :=
  match d.outcome with
  | .ok _ => d.response
  | .error .exception => { status := .kInternalError, payload := [] }
  | .error .other => { status := .kInternalError, payload := [] }

def handleRequest (server : RpcServer σ) (conn : Conn σ) (header : MessageHeader) (body : Bytes) :
    Conn σ :=
  match RawCodec.decodeRequest body with
  | none =>
    rejectAndClose (conn.logProtocolError "malformed request envelope") header.requestId
      .kMalformedBody
  | some request =>
    -- the response given to `dispatch` is `Response{}`
    let d := server.registry.dispatch request {} conn.world
    let ran := (d.handler.map fun key => Event.invoke key request.payload).toList
    let conn' :=
      { conn with world := d.world, trace := conn.trace ++ .dispatch request :: ran }
    -- the request's format is echoed, also on the exception path
    sendResponse conn' header.requestId { caught d with serializerId := header.serializerId }

/-- The checks on a complete frame, in their order. A rejection leaves the loop;
a request in another format, and a request that was handled, do not. -/
def onFrame (server : RpcServer σ) (conn : Conn σ) (header : MessageHeader) (body : Bytes) :
    Pass (Conn σ) :=
  -- a newer version: the rest of the stream is unknowable
  if header.version ≠ kVersion then
    .done (rejectAndClose (conn.logProtocolError "unsupported protocol version")
      header.requestId .kUnsupportedVersion)
  else if header.type ≠ .kRequest then
    .done (rejectAndClose (conn.logProtocolError "unexpected message type")
      header.requestId .kUnsupportedMsgType)
  -- any set bit is refused, the undefined ones included
  else if header.flags ≠ 0 then
    .done (rejectAndClose (conn.logProtocolError "unsupported frame flags")
      header.requestId .kUnsupportedFlag)
  else if header.serializerId ≠ server.serializerId then
    -- the frame was complete, so the stream is still in sync
    .again (sendResponse conn header.requestId
      { status := .kUnsupportedSerializer, serializerId := header.serializerId })
  else .again (server.handleRequest conn header body)

/-- One pass of the loop in `onMessage`. -/
def onMessagePass (server : RpcServer σ) (conn : Conn σ) : Pass (Conn σ) :=
  let p := server.frameReader.parse conn.input MessageHeader.zero []
  match p.result with
  | .kNeedMore =>
    -- the only place where the input limit is looked at
    if server.inputLimit < conn.input.readableBytes then
      .done (conn.logProtocolError
        "input buffer exceeded the configured limit; peer sent an incomplete or oversized frame"
        ).forceClose
    else .done conn
  | .kProtocolError =>
    -- too large a body and a bad magic share a verdict; the header tells them apart
    match decodeHeader conn.input.peek with
    | some decoded =>
      .done (rejectAndClose
        (conn.logProtocolError "declared body exceeds the frame-size limit")
        decoded.requestId .kBodyTooLarge)
    | none => .done (conn.logProtocolError "bad magic; closing without a response").forceClose
  | .kOk => server.onFrame { conn with input := p.buf } p.header p.body

def onMessage (server : RpcServer σ) (conn : Conn σ) : Conn σ :=
  loop (fun conn => conn.input.readableBytes) server.onMessagePass conn

/-- A loop turn in which the connection is readable: the chunk is read and the
message callback runs, unless the connection is closed; then the loop's queue
runs. -/
def handleRead (server : RpcServer σ) (conn : Conn σ) (chunk : Bytes) : Conn σ :=
  if conn.transport.state = .kDisconnected then conn
  else (server.onMessage (conn.received chunk)).runQueued

/-- The turns of a whole connection. -/
def run (server : RpcServer σ) (conn : Conn σ) (chunks : List Bytes) : Conn σ :=
  chunks.foldl server.handleRead conn

/-! ## What a pass does -/

variable {server : RpcServer σ} {conn conn' : Conn σ}

theorem onMessagePass_of_more (h : server.frameReader.cutter.cut conn.input.contents = .more) :
    server.onMessagePass conn =
      if server.inputLimit < conn.input.readableBytes then
        .done (conn.logProtocolError
          "input buffer exceeded the configured limit; peer sent an incomplete or oversized frame"
          ).forceClose
      else .done conn := by
  rw [onMessagePass, FrameReader.parse_of_more h]

theorem onMessagePass_of_broken (h : server.frameReader.cutter.cut conn.input.contents = .broken) :
    server.onMessagePass conn =
      match decodeHeader conn.input.contents with
      | some decoded =>
        .done (rejectAndClose
          (conn.logProtocolError "declared body exceeds the frame-size limit")
          decoded.requestId .kBodyTooLarge)
      | none =>
        .done (conn.logProtocolError "bad magic; closing without a response").forceClose := by
  rw [onMessagePass, FrameReader.parse_of_broken h]
  rfl

theorem onMessagePass_of_frame {f : Frame} {n : Nat}
    (h : server.frameReader.cutter.cut conn.input.contents = .frame f n) :
    server.onMessagePass conn =
      server.onFrame { conn with input := conn.input.retrieve n } f.1 f.2 := by
  rw [onMessagePass, FrameReader.parse_of_frame h]

@[simp] theorem sendResponse_input (conn : Conn σ) (requestId : UInt32) (response : Response) :
    (sendResponse conn requestId response).input = conn.input := by
  unfold sendResponse
  split <;> rfl

@[simp] theorem sendResponse_world (conn : Conn σ) (requestId : UInt32) (response : Response) :
    (sendResponse conn requestId response).world = conn.world := by
  unfold sendResponse
  split <;> rfl

@[simp] theorem rejectAndClose_input (conn : Conn σ) (requestId : UInt32) (status : StatusCode) :
    (rejectAndClose conn requestId status).input = conn.input :=
  sendResponse_input conn requestId _

@[simp] theorem rejectAndClose_world (conn : Conn σ) (requestId : UInt32) (status : StatusCode) :
    (rejectAndClose conn requestId status).world = conn.world :=
  sendResponse_world conn requestId _

@[simp] theorem handleRequest_input (server : RpcServer σ) (conn : Conn σ)
    (header : MessageHeader) (body : Bytes) :
    (server.handleRequest conn header body).input = conn.input := by
  unfold handleRequest
  split
  · exact rejectAndClose_input _ _ _
  · exact sendResponse_input _ _ _

/-- Handling a frame does not touch the input buffer. -/
theorem onFrame_again_input {header : MessageHeader} {body : Bytes}
    (h : server.onFrame conn header body = .again conn') : conn'.input = conn.input := by
  unfold onFrame at h
  split_ifs at h
  · -- only the last two branches go round again
    injection h with h
    rw [← h, sendResponse_input]
  · injection h with h
    rw [← h, handleRequest_input]

/-- A pass that goes round again has consumed a frame. -/
theorem onMessagePass_dec (server : RpcServer σ) (conn conn' : Conn σ)
    (h : server.onMessagePass conn = .again conn') :
    conn'.input.readableBytes < conn.input.readableBytes := by
  cases hc : server.frameReader.cutter.cut conn.input.contents with
  | more =>
    rw [onMessagePass_of_more hc] at h
    split at h <;> simp at h
  | broken =>
    rw [onMessagePass_of_broken hc] at h
    split at h <;> simp at h
  | frame f n =>
    rw [onMessagePass_of_frame hc] at h
    have hb := server.frameReader.cutter.bound hc
    rw [onFrame_again_input h, ← Buffer.length_contents, ← Buffer.length_contents,
      Buffer.contents_retrieve, List.length_drop]
    omega

theorem run_append_singleton (server : RpcServer σ) (conn : Conn σ) (chunks : List Bytes)
    (chunk : Bytes) :
    server.run conn (chunks ++ [chunk]) = server.handleRead (server.run conn chunks) chunk := by
  simp [run]

theorem onMessage_again (h : server.onMessagePass conn = .again conn') :
    server.onMessage conn = server.onMessage conn' :=
  loop_again server.onMessagePass_dec h

theorem onMessage_done (h : server.onMessagePass conn = .done conn') :
    server.onMessage conn = conn' :=
  loop_done h

end RpcServer

end ReactorNet.Rpc
