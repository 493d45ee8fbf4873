import ReactorNet.Net.Endpoint
import ReactorNet.Rpc.Cluster

/-!
# ReactorNet — clients and server on their connections

The system of `Cluster` one level below: every link is a pair of `TcpConnection`s, each in the
turns of its loop, with epoll events, partial writes, output buffers, queued functors and a
close that runs in its own time. What a client or the server does to its connection goes through
`send`, `shutdown` and `forceClose`; what a connection does to them goes through its callbacks.

`Client` has its connection as a `Transport` and a buffer. Here these two are the view of the
connection (`Client.on`), so the client's code is that of `Client.step`. The server's code never
looks at its connection: what it does there is read off the trace of a pass (`Event.operation`,
`Conn.Performed`).
-/

namespace ReactorNet.Rpc

open Lib TcpConnection

universe u

/-! ## What the RPC layer asks of a connection -/

/-- The function of the connection that an event of the server is a call of. -/
def Event.operation (w : WriteResult) : Event → Option UserOp
  | .send message => some (.send message w)
  | .shutdown => some .shutdown
  | .forceClose => some .forceClose
  | .log _ | .dispatch _ | .invoke _ _ => none

namespace Client

/-- Actions of the client's own code, and of the user code and the timers that run it. -/
def Action.isCode : Action → Bool
  | .recv _ | .up | .down => false
  | _ => true

/-- The function of the connection that the client's code calls. -/
def operation (c : Client) (w : WriteResult) : Action → Option UserOp
  | .call spec =>
    if c.connection = false ∨ c.connected = false then none
    else
      match RawCodec.encodeRequest spec.request, c.allocateRequestId with
      | some body, some (requestId, _) =>
        some (.send (encodeFrame (requestHeader c.serializerId requestId body, body)) w)
      | _, _ => none
  | .disconnect => some .shutdown
  | .resume _ =>
    match c.control with
    -- the last statement of `failConnection`
    | .failing [] .forceClose => if c.connection then some .forceClose else none
    | _ => none
  | _ => none

/-- The operations of the client are those of its code: nothing else changes its connection. -/
theorem transport_of_step {c c' : Client} {a : Action} (hStep : c.step a = some c')
    (hCode : a.isCode = true) (w : WriteResult) :
    c'.transport = (c.operation w a).elim c.transport c.transport.user := by
  cases step_outcome hStep with
  | unconnected spec h => simp [operation, h, complete]
  | unencodable spec hUp h => simp [operation, hUp, h, complete]
  | started spec body requestId next hUp hBody hId =>
    simp [operation, hUp, hBody, hId, started, Transport.user]
  | disconnected | returned => rfl
  | waiting _ _ hControl | broken _ _ hControl | alien _ _ _ _ hControl
  | late _ _ _ _ hControl =>
    simp [operation, hControl, failConnection, failAllPending]
  | answered _ f n pending _ hControl =>
    simp [operation, hControl, answered, cancelTimer, complete]
  | failed entry rest after e _ hControl hEntry =>
    cases rest with
    | nil => simp at hEntry
    | cons r rest => simp [operation, hControl, cancelTimer, complete]
  | closed entry _ hControl =>
    -- the end of `failConnection`, if there is a connection at all
    cases hConn : c.connection <;> simp [operation, hControl, hConn, Transport.user]
  | gone _ _ _ hControl | expiredAll _ _ hControl | stale _ _ _ _ hControl =>
    simp [operation, hControl]
  | timedOut _ t rest pending _ hControl =>
    simp [operation, hControl, rememberTimedOut, complete]
  | expired => rfl
  | received | up | down => cases hCode

end Client

namespace Conn

variable {σ : Type u}

/-- What was done to a connection since, and what that makes of its transport. -/
def Performed (conn conn' : Conn σ) : Prop :=
  ∃ es, conn'.trace = conn.trace ++ es ∧
    ∀ w, conn'.transport = (es.filterMap (Event.operation w)).foldl Transport.user conn.transport

theorem Performed.refl (conn : Conn σ) : Performed conn conn :=
  ⟨[], (List.append_nil _).symm, fun _ => rfl⟩

theorem Performed.trans {conn conn' conn'' : Conn σ} (h : Performed conn conn')
    (h' : Performed conn' conn'') : Performed conn conn'' := by
  obtain ⟨es, hTrace, hTransport⟩ := h
  obtain ⟨es', hTrace', hTransport'⟩ := h'
  refine ⟨es ++ es', by rw [hTrace', hTrace, List.append_assoc], fun w => ?_⟩
  rw [hTransport' w, hTransport w, List.filterMap_append, List.foldl_append]

theorem performed_logProtocolError (conn : Conn σ) (reason : String) :
    Performed conn (conn.logProtocolError reason) :=
  ⟨[.log reason], rfl, fun _ => rfl⟩

theorem performed_send (conn : Conn σ) (message : Bytes) : Performed conn (conn.send message) :=
  ⟨[.send message], rfl, fun _ => rfl⟩

theorem performed_shutdown (conn : Conn σ) : Performed conn conn.shutdown :=
  ⟨[.shutdown], rfl, fun _ => rfl⟩

theorem performed_forceClose (conn : Conn σ) : Performed conn conn.forceClose :=
  ⟨[.forceClose], rfl, fun _ => rfl⟩

theorem performed_sendResponse (conn : Conn σ) (requestId : UInt32) (response : Response) :
    Performed conn (RpcServer.sendResponse conn requestId response) := by
  unfold RpcServer.sendResponse
  split
  · exact (performed_logProtocolError conn _).trans (performed_forceClose _)
  · exact performed_send conn _

theorem performed_rejectAndClose (conn : Conn σ) (requestId : UInt32) (status : StatusCode) :
    Performed conn (RpcServer.rejectAndClose conn requestId status) :=
  (performed_sendResponse conn requestId _).trans (performed_shutdown _)

theorem performed_handleRequest (server : RpcServer σ) (conn : Conn σ) (header : MessageHeader)
    (body : Bytes) : Performed conn (server.handleRequest conn header body) := by
  unfold RpcServer.handleRequest
  split
  · exact (performed_logProtocolError conn _).trans (performed_rejectAndClose _ _ _)
  · rename_i request hDecode
    refine Performed.trans ?_ (performed_sendResponse _ _ _)
    -- running the handler leaves the connection alone
    refine ⟨_, rfl, fun w => ?_⟩
    cases (server.registry.dispatch request {} conn.world).handler <;> rfl

theorem performed_onFrame (server : RpcServer σ) (conn : Conn σ) (header : MessageHeader)
    (body : Bytes) : Performed conn (server.onFrame conn header body).state := by
  unfold RpcServer.onFrame
  split_ifs
  · exact (performed_logProtocolError conn _).trans (performed_rejectAndClose _ _ _)
  · exact (performed_logProtocolError conn _).trans (performed_rejectAndClose _ _ _)
  · exact (performed_logProtocolError conn _).trans (performed_rejectAndClose _ _ _)
  · rw [Pass.state]
    exact performed_sendResponse conn _ _
  · exact performed_handleRequest server conn header body

/-- **The server's code never looks at its connection**: what a pass makes of it follows from the
operations in its trace. -/
theorem performed_onMessagePass (server : RpcServer σ) (conn : Conn σ) :
    Performed conn (server.onMessagePass conn).state := by
  cases hCut : server.frameReader.cutter.cut conn.input.contents with
  | more =>
    rw [RpcServer.onMessagePass_of_more hCut]
    split_ifs
    · exact (performed_logProtocolError conn _).trans (performed_forceClose _)
    · exact .refl conn
  | broken =>
    rw [RpcServer.onMessagePass_of_broken hCut]
    split
    · exact (performed_logProtocolError conn _).trans (performed_rejectAndClose _ _ _)
    · exact (performed_logProtocolError conn _).trans (performed_forceClose _)
  | frame f n =>
    rw [RpcServer.onMessagePass_of_frame hCut]
    exact performed_onFrame server { conn with input := conn.input.retrieve n } f.1 f.2

end Conn

/-! ## The system -/

/-- The connection of a client, as its code sees it. Before it is established and after it is
down there is none. -/
def clientView (c : TcpConnection) : Transport :=
  match c.state with
  | .kConnecting => ⟨.kDisconnected, [], false⟩
  | .kDisconnected => ⟨.kDisconnected, sentMessages c.log, false⟩
  | .kConnected | .kDisconnecting => c.transport

namespace Client

/-- A client on this connection. -/
def on (c : Client) (e : Endpoint) : Client :=
  { c with transport := clientView e.tcp, input := e.tcp.inputBuffer }

/-- The callbacks that the client has set. -/
def onUpcall (c : Client) : Option ConnEvent → Client
  | some (.connectionCallback true) => c.onConnectionUp
  | some (.connectionCallback false) => c.onConnectionDown
  | some .messageCallback => { c with control := .messageLoop }
  | _ => c

end Client

/-- A client, the two ends of its connection, and whether the server's end is in its message
callback. -/
structure Wire where
  rpc : Client
  client : Endpoint := {}
  server : Endpoint := {}
  serving : Bool := false

namespace Wire

/-- A step of the client's end of the connection. What it reads is what the other end wrote. -/
def clientStep (l : Wire) (a : Endpoint.Action) : Option Wire :=
  -- the thread is not in the client's code
  if l.rpc.running = [] ∧ l.rpc.control = .idle then
    (l.client.step (writtenBytes l.server.tcp.log) a).map fun e =>
      { l with client := e, rpc := (l.rpc.onUpcall (l.client.tcp.upcall e.tcp)).on e }
  else none

/-- A step of the client's code. -/
def rpcStep (l : Wire) (a : Client.Action) (w : WriteResult) : Option Wire :=
  -- user code that is not a completion runs outside of the connection's functions
  if a.isCode = true ∧ (l.rpc.running = [] → l.rpc.control = .idle → l.client.tcp.stack = []) then
    match l.rpc.step a with
    | none => none
    | some c =>
      ((l.rpc.operation w a).elim (some l.client) l.client.user).map fun e =>
        { l with
          rpc := c.on { e with tcp := { e.tcp with inputBuffer := c.input } }
          client := { e with tcp := { e.tcp with inputBuffer := c.input } } }
  else none

/-- A step of the server's end of the connection. -/
def serverStep (l : Wire) (a : Endpoint.Action) : Option Wire :=
  if l.serving = false then
    (l.server.step (writtenBytes l.client.tcp.log) a).map fun e =>
      { l with server := e, serving := l.server.tcp.upcall e.tcp == some .messageCallback }
  else none

/-- What the message callback of the server works on. -/
def conn {σ : Type u} (l : Wire) (world : σ) : Conn σ :=
  ⟨l.server.tcp.transport, l.server.tcp.inputBuffer, world, []⟩

/-- What a pass of the message callback has done is done to the connection. -/
def commit {σ : Type u} (l : Wire) (conn : Conn σ) (w : WriteResult) (serving : Bool) :
    Option Wire :=
  (l.server.users (conn.trace.filterMap (Event.operation w))).map fun e =>
    { l with
      server := { e with tcp := { e.tcp with inputBuffer := conn.input } }
      serving := serving }

end Wire

structure Wired (ι : Type) (σ : Type u) where
  wires : ι → Wire
  /-- What the handlers work on. -/
  world : σ
  trace : List (ι × Event) := []

namespace Wired

inductive Action (ι : Type) where
  | client (i : ι) (a : Endpoint.Action)
  | rpc (i : ι) (a : Client.Action) (w : WriteResult)
  | server (i : ι) (a : Endpoint.Action)
  /-- The message callback of the server goes through its loop once. -/
  | pass (i : ι) (w : WriteResult)

variable {ι : Type} [DecidableEq ι] {σ : Type u}

def start (serializerId : UInt8) (world : σ) : Wired ι σ where
  wires := fun _ => { rpc := Client.new serializerId FrameReader.default }
  world := world

def set (s : Wired ι σ) (i : ι) (l : Wire) : Wired ι σ :=
  { s with wires := Function.update s.wires i l }

def commit (s : Wired ι σ) (i : ι) (conn : Conn σ) (w : WriteResult) (serving : Bool) :
    Option (Wired ι σ) :=
  ((s.wires i).commit conn w serving).map fun l =>
    { wires := Function.update s.wires i l
      world := conn.world
      trace := s.trace ++ conn.trace.map fun e => (i, e) }

def step (server : RpcServer σ) (s : Wired ι σ) : Action ι → Option (Wired ι σ)
  | .client i a => ((s.wires i).clientStep a).map (s.set i)
  | .rpc i a w => ((s.wires i).rpcStep a w).map (s.set i)
  | .server i a => ((s.wires i).serverStep a).map (s.set i)
  | .pass i w =>
    if (s.wires i).serving then
      match server.onMessagePass ((s.wires i).conn s.world) with
      | .again conn => s.commit i conn w true
      -- the callback returns; what it has queued runs later in the turn
      | .done conn => s.commit i conn w false
    else none

end Wired

end ReactorNet.Rpc
