import ReactorNet.Lib.Pipe
import ReactorNet.Rpc.RequestStream

/-!
# ReactorNet — many clients and one server

An `RpcServer` with any number of connections, each to a client of its own, and one registry
whose handlers share a world. Connections are spread over loops, so the message callbacks of
different connections interleave: a step of the server is one pass of the loop in `onMessage`,
which runs one handler at most. A handler is atomic on the world: RFC-0002 leaves it to the user
to make what handlers share thread-safe. Between the two ends of a connection there are two
reliable streams, which deliver what was sent in chunks of any size. Clients connect at any time;
calls, completions that call again, deadlines and losses of a connection come in any order.

What the server did is recorded in `trace`, over all connections and in order.

Main result: `Cluster.commitsTo_onMessage` — passes that nothing comes between are a message
callback of the server on its own.
-/

namespace ReactorNet.Rpc

open Lib

universe u

/-! ## The system -/

/-- A client, the server's end of its connection, and the streams between them. -/
structure Link where
  client : Client
  /-- The server's end. -/
  transport : Transport := ⟨.kDisconnected, [], false⟩
  /-- What the server's end has read and not parsed yet. -/
  input : Buffer := Buffer.new kInitialSize
  /-- The server's end is in its message callback. -/
  serving : Bool := false
  /-- How many of the bytes that the client sent have reached the server. -/
  toServer : Nat := 0
  /-- How many of the bytes that the server sent have reached the client. -/
  toClient : Nat := 0
  /-- `everConnected_`: a client has one session. -/
  everConnected : Bool := false

namespace Link

variable {σ : Type u}

/-- The connection that a message callback works on. Its trace is the callback's own. -/
def conn (l : Link) (world : σ) : Conn σ := ⟨l.transport, l.input, world, []⟩

/-- What a message callback has done to its connection is done to the link. -/
def commit (l : Link) (conn : Conn σ) (serving : Bool) : Link :=
  { l with transport := conn.transport, input := conn.input, serving := serving }

end Link

structure Cluster (ι : Type) (σ : Type u) where
  links : ι → Link
  /-- What the handlers work on. -/
  world : σ
  trace : List (ι × Event) := []

namespace Cluster

inductive Action (ι : Type) where
  /-- The connection is established at both ends. -/
  | connect (i : ι)
  | client (i : ι) (a : Client.Action)
  /-- The next bytes of the client's stream reach the server, and its message callback starts. -/
  | toServer (i : ι) (n : Nat)
  /-- The message callback goes through its loop once. -/
  | pass (i : ι)
  /-- The next bytes of the server's stream reach the client. -/
  | toClient (i : ι) (n : Nat)
  /-- The server's end loses the connection; the client's end does by `Client.Action.down`. -/
  | serverDown (i : ι)

variable {ι : Type} [DecidableEq ι] {σ : Type u}

def start (serializerId : UInt8) (world : σ) : Cluster ι σ where
  links := fun _ => { client := Client.new serializerId FrameReader.default }
  world := world

def set (s : Cluster ι σ) (i : ι) (l : Link) : Cluster ι σ :=
  { s with links := Function.update s.links i l }

def conn (s : Cluster ι σ) (i : ι) : Conn σ := (s.links i).conn s.world

/-- What a message callback has done is done to the system. -/
def commit (s : Cluster ι σ) (i : ι) (conn : Conn σ) (serving : Bool) : Cluster ι σ where
  links := Function.update s.links i ((s.links i).commit conn serving)
  world := conn.world
  trace := s.trace ++ conn.trace.map fun e => (i, e)

def step (server : RpcServer σ) (s : Cluster ι σ) : Action ι → Option (Cluster ι σ)
  | .connect i =>
    if (s.links i).everConnected then none
    else
      ((s.links i).client.step .up).map fun c =>
        s.set i { s.links i with
          client := c
          transport := Transport.established
          input := Buffer.new kInitialSize
          everConnected := true }
  | .client i a =>
    if a.isLocal then
      ((s.links i).client.step a).map fun c => s.set i { s.links i with client := c }
    else none
  | .toServer i n =>
    if (s.links i).serving = false ∧ (s.links i).transport.state ≠ .kDisconnected then
      let chunk := slice (s.links i).client.transport.sent.flatten (s.links i).toServer n
      some (s.set i { s.links i with
        input := (s.links i).input.append chunk
        toServer := (s.links i).toServer + chunk.length
        serving := true })
    else none
  | .pass i =>
    if (s.links i).serving then
      match server.onMessagePass (s.conn i) with
      | .again conn => some (s.commit i conn true)
      -- the callback returns, and the loop's queue runs
      | .done conn => some (s.commit i conn.runQueued false)
    else none
  | .toClient i n =>
    let chunk := slice (s.links i).transport.sent.flatten (s.links i).toClient n
    ((s.links i).client.step (.recv chunk)).map fun c =>
      s.set i { s.links i with client := c, toClient := (s.links i).toClient + chunk.length }
  | .serverDown i =>
    if (s.links i).serving then none
    else
      -- what the server has sent is still delivered
      some (s.set i { s.links i with
        transport := { (s.links i).transport with state := .kDisconnected, closeQueued := false } })

/-- The requests that the registry has dispatched, each with the connection it came on. -/
def history (s : Cluster ι σ) : List (ι × Request) :=
  s.trace.filterMap fun e =>
    match e.2 with
    | .dispatch request => some (e.1, request)
    | _ => none

@[simp] theorem set_links_self (s : Cluster ι σ) (i : ι) (l : Link) : (s.set i l).links i = l :=
  Function.update_self ..

theorem set_links_of_ne (s : Cluster ι σ) {i j : ι} (h : j ≠ i) (l : Link) :
    (s.set i l).links j = s.links j :=
  Function.update_of_ne h ..

@[simp] theorem commit_links_self (s : Cluster ι σ) (i : ι) (conn : Conn σ) (serving : Bool) :
    (s.commit i conn serving).links i = (s.links i).commit conn serving :=
  Function.update_self ..

theorem commit_links_of_ne (s : Cluster ι σ) {i j : ι} (h : j ≠ i) (conn : Conn σ)
    (serving : Bool) : (s.commit i conn serving).links j = s.links j :=
  Function.update_of_ne h ..

/-- A callback that ran no handler and left no trace concerns its link only. -/
theorem commit_eq_set (s : Cluster ι σ) (i : ι) {conn : Conn σ} (serving : Bool)
    (hWorld : conn.world = s.world) (hTrace : conn.trace = []) :
    s.commit i conn serving = s.set i ((s.links i).commit conn serving) := by
  rw [commit, set, hWorld, hTrace, List.map_nil, List.append_nil]

theorem history_commit (s : Cluster ι σ) (i : ι) {conn : Conn σ} (serving : Bool)
    {request : Request} {ran : List Event} {message : Bytes}
    (hTrace : conn.trace = .dispatch request :: (ran ++ [.send message]))
    (hRan : ∀ request', .dispatch request' ∉ ran) :
    (s.commit i conn serving).history = s.history ++ [(i, request)] := by
  have hOthers : (ran.map fun e => (i, e)).filterMap (fun e : ι × Event =>
      match e.2 with
      | .dispatch request => some (e.1, request)
      | _ => none) = [] := by
    rw [List.filterMap_eq_nil_iff]
    rintro ⟨j, e⟩ he
    obtain ⟨_, hMem, hEq⟩ := List.mem_map.mp he
    cases hEq
    cases e with
    | dispatch request' => exact absurd hMem (hRan request')
    | log | send | shutdown | forceClose | invoke => rfl
  simp only [history, commit, hTrace, List.map_cons, List.map_append, List.filterMap_append,
    List.filterMap_cons, hOthers]
  simp

theorem calls_grow {server : RpcServer σ} {s s' : Cluster ι σ} {a : Action ι}
    (hStep : s.step server a = some s') (j : ι) :
    (s.links j).client.calls <+: (s'.links j).client.calls := by
  -- only the client of the link that is concerned can have changed
  have hSet : ∀ (i : ι) (l : Link), (s.links i).client.calls <+: l.client.calls →
      (s.links j).client.calls <+: ((s.set i l).links j).client.calls := by
    intro i l hCalls
    by_cases hj : j = i
    · subst hj
      rw [set_links_self]
      exact hCalls
    · rw [set_links_of_ne s hj]
  have hCommit : ∀ (i : ι) (conn : Conn σ) (serving : Bool),
      (s.links j).client.calls <+: ((s.commit i conn serving).links j).client.calls := by
    intro i conn serving
    by_cases hj : j = i
    · subst hj
      rw [commit_links_self]
      exact List.prefix_rfl
    · rw [commit_links_of_ne s hj]
  cases a with
  | connect i =>
    simp only [step] at hStep
    split_ifs at hStep
    obtain ⟨c, hc, rfl⟩ := Option.map_eq_some_iff.mp hStep
    exact hSet i _ (Ledger.stable_of_step (Client.step_outcome hc)).2.2.1
  | client i a =>
    simp only [step] at hStep
    split_ifs at hStep
    obtain ⟨c, hc, rfl⟩ := Option.map_eq_some_iff.mp hStep
    exact hSet i _ (Ledger.stable_of_step (Client.step_outcome hc)).2.2.1
  | toServer i n =>
    simp only [step] at hStep
    split_ifs at hStep
    cases hStep
    exact hSet i _ List.prefix_rfl
  | pass i =>
    simp only [step] at hStep
    split_ifs at hStep
    split at hStep
    · cases hStep
      exact hCommit i _ _
    · cases hStep
      exact hCommit i _ _
  | toClient i n =>
    obtain ⟨c, hc, rfl⟩ := Option.map_eq_some_iff.mp hStep
    exact hSet i _ (Ledger.stable_of_step (Client.step_outcome hc)).2.2.1
  | serverDown i =>
    simp only [step] at hStep
    split_ifs at hStep
    cases hStep
    exact hSet i _ List.prefix_rfl

end Cluster

/-! ## A message callback in one piece -/

section Trace

variable {σ : Type u}

/-- The connection with an older trace before its own. -/
def Conn.after (conn : Conn σ) (older : List Event) : Conn σ :=
  { conn with trace := older ++ conn.trace }

/-- A pass with an older trace before its own. -/
def Pass.after (older : List Event) : Pass (Conn σ) → Pass (Conn σ)
  | .again conn => .again (conn.after older)
  | .done conn => .done (conn.after older)

variable (conn : Conn σ) (older : List Event)

@[simp] theorem Conn.logProtocolError_after (reason : String) :
    (conn.after older).logProtocolError reason = (conn.logProtocolError reason).after older := by
  simp [Conn.after, Conn.logProtocolError]

@[simp] theorem Conn.send_after (message : Bytes) :
    (conn.after older).send message = (conn.send message).after older := by
  simp [Conn.after, Conn.send]

@[simp] theorem Conn.shutdown_after : (conn.after older).shutdown = conn.shutdown.after older := by
  simp [Conn.after, Conn.shutdown]

@[simp] theorem Conn.forceClose_after :
    (conn.after older).forceClose = conn.forceClose.after older := by
  simp [Conn.after, Conn.forceClose]

@[simp] theorem sendResponse_after (requestId : UInt32) (response : Response) :
    RpcServer.sendResponse (conn.after older) requestId response =
      (RpcServer.sendResponse conn requestId response).after older := by
  unfold RpcServer.sendResponse
  split <;> simp

@[simp] theorem rejectAndClose_after (requestId : UInt32) (status : StatusCode) :
    RpcServer.rejectAndClose (conn.after older) requestId status =
      (RpcServer.rejectAndClose conn requestId status).after older := by
  simp [RpcServer.rejectAndClose]

theorem handleRequest_after (server : RpcServer σ) (header : MessageHeader) (body : Bytes) :
    server.handleRequest (conn.after older) header body =
      (server.handleRequest conn header body).after older := by
  unfold RpcServer.handleRequest
  split
  · simp
  · simp only [← sendResponse_after]
    simp [Conn.after]

theorem onFrame_after (server : RpcServer σ) (header : MessageHeader) (body : Bytes) :
    server.onFrame (conn.after older) header body =
      Pass.after older (server.onFrame conn header body) := by
  unfold RpcServer.onFrame
  split_ifs <;> simp [Pass.after, handleRequest_after]

/-- A pass only adds to the trace, and does not look at it. -/
theorem onMessagePass_after (server : RpcServer σ) :
    server.onMessagePass (conn.after older) = Pass.after older (server.onMessagePass conn) := by
  have hInput : (conn.after older).input = conn.input := rfl
  cases hCut : server.frameReader.cutter.cut conn.input.contents with
  | more =>
    have hCut' := hCut
    rw [← hInput] at hCut'
    rw [RpcServer.onMessagePass_of_more hCut, RpcServer.onMessagePass_of_more hCut', hInput]
    split_ifs <;> simp [Pass.after]
  | broken =>
    have hCut' := hCut
    rw [← hInput] at hCut'
    rw [RpcServer.onMessagePass_of_broken hCut, RpcServer.onMessagePass_of_broken hCut', hInput]
    split <;> simp [Pass.after]
  | frame f n =>
    have hCut' := hCut
    rw [← hInput] at hCut'
    rw [RpcServer.onMessagePass_of_frame hCut, RpcServer.onMessagePass_of_frame hCut']
    exact onFrame_after { conn with input := conn.input.retrieve n } older server f.1 f.2

theorem Conn.after_append (newer : List Event) :
    conn.after (older ++ newer) = (conn.after newer).after older := by
  simp [Conn.after]

end Trace

namespace Cluster

variable {ι : Type} [DecidableEq ι] {σ : Type u}

/-- The callback of a connection, committed in two parts. -/
theorem commit_commit (s : Cluster ι σ) (i : ι) (conn conn' : Conn σ) (serving serving' : Bool) :
    (s.commit i conn serving).commit i conn' serving' =
      s.commit i (conn'.after conn.trace) serving' := by
  simp [commit, Link.commit, Conn.after]

theorem conn_commit (s : Cluster ι σ) (i : ι) (conn : Conn σ) (serving : Bool) :
    ((s.commit i conn serving).conn i).after conn.trace = conn := by
  simp [Cluster.conn, Link.conn, Conn.after, commit, Link.commit]

/-- From any state in which the callback of `i` is at `conn`, passes lead to its end at `r`. What
was committed before is the older part of the callback's trace. -/
def CommitsTo (server : RpcServer σ) (i : ι) (conn r : Conn σ) : Prop :=
  ∀ (s : Cluster ι σ) (older : List Event), (s.links i).serving = true →
    (s.conn i).after older = conn →
    ∃ k conn', runAll (step server) s (List.replicate k (.pass i)) =
      some (s.commit i conn' false) ∧ conn'.after older = r.runQueued

theorem commitsTo_onMessage (server : RpcServer σ) (i : ι) :
    ∀ conn, CommitsTo server i conn (server.onMessage conn) := by
  -- along the passes of the loop, each one a step of the cluster
  refine loop_induct server.onMessagePass_dec ?_ ?_
  · intro conn r hPass s older hServing hConn
    rw [← hConn, onMessagePass_after] at hPass
    cases hOwn : server.onMessagePass (s.conn i) with
    | again conn' =>
      rw [hOwn] at hPass
      cases hPass
    | done conn' =>
      rw [hOwn] at hPass
      cases hPass
      refine ⟨1, conn'.runQueued, ?_, rfl⟩
      simp [runAll, step, hServing, hOwn]
  · intro conn conn₁ r hPass ih s older hServing hConn
    rw [← hConn, onMessagePass_after] at hPass
    cases hOwn : server.onMessagePass (s.conn i) with
    | done conn' =>
      rw [hOwn] at hPass
      cases hPass
    | again conn' =>
      rw [hOwn] at hPass
      cases hPass
      obtain ⟨k, conn'', hRun, hEnd⟩ := ih (s.commit i conn' true) (older ++ conn'.trace)
        (by rw [commit_links_self, Link.commit]) (by rw [Conn.after_append, conn_commit])
      refine ⟨k + 1, conn''.after conn'.trace, ?_, ?_⟩
      · rw [commit_commit] at hRun
        simpa [runAll, step, hServing, hOwn, List.replicate_succ] using hRun
      · rw [← Conn.after_append]
        exact hEnd

end Cluster

end ReactorNet.Rpc
