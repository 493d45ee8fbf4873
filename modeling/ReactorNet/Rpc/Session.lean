import ReactorNet.Rpc.Linearizable

/-!
# ReactorNet — a client and a server

An `RpcClient` connected to an `RpcServer`: the client of `Rpc.Client`, one connection
of the server of `Rpc.Server`, and two reliable streams between them, which deliver
what was sent in chunks of any size. Calls, completions that call again, expiring
timers and the loss of the connection come in any order. The handlers are functions of
the payload, so what a call should get does not depend on the calls before it.

A session is a system of many clients with only one of them, whose message callbacks run
in one piece (`Session.simulates`). What is known of every run of such a system is
known of a session: an answer is the result of executing the request of its own call.

Main results:

* `cluster_of_reaches` — every run of a session is a run of the larger system.
* `response_correlation` — a call that the server answered gets what the registry's
  dispatch gives for it; a call that timed out had a deadline, which fired.
-/

namespace ReactorNet.Rpc

open Lib

/-! ## The system -/

structure Session where
  client : Client
  conn : Conn Unit
  /-- The connection is up at the server's end. -/
  serverUp : Bool := true
  /-- How many of the bytes that the client sent have reached the server. -/
  toServer : Nat := 0
  /-- How many of the bytes that the server sent have reached the client. -/
  toClient : Nat := 0

namespace Session

inductive Action where
  | client (a : Client.Action)
  /-- The next bytes of the client's stream reach the server. -/
  | toServer (n : Nat)
  /-- The next bytes of the server's stream reach the client. -/
  | toClient (n : Nat)
  /-- The server's end loses the connection; the client's end does by `Client.Action.down`. -/
  | serverDown

/-- A server with default limits. Its handlers are functions of the payload. -/
def serverFor (registry : ServiceRegistry Unit) (serializerId : UInt8) : RpcServer Unit where
  registry := registry
  serializerId := serializerId

/-- A new client, connected to the server. -/
def start (serializerId : UInt8) : Session where
  client := (Client.new serializerId FrameReader.default).onConnectionUp
  conn := Conn.established kInitialSize ()

def step (server : RpcServer Unit) (s : Session) : Action → Option Session
  | .client a =>
    if a.isLocal then (s.client.step a).map fun c => { s with client := c } else none
  | .toServer n =>
    if s.serverUp then
      let chunk := slice s.client.transport.sent.flatten s.toServer n
      some { s with
        conn := server.handleRead s.conn chunk
        toServer := s.toServer + chunk.length }
    else none
  | .toClient n =>
    let chunk := slice s.conn.transport.sent.flatten s.toClient n
    (s.client.step (.recv chunk)).map fun c =>
      { s with client := c, toClient := s.toClient + chunk.length }
  -- what the server has sent is still delivered
  | .serverDown => some { s with serverUp := false }

end Session

/-- The handlers' results fit a frame. -/
def OutputsFit (registry : ServiceRegistry Unit) : Prop :=
  ∀ key fn payload output, registry.find key = some fn → (fn payload ()).1 = .ok output →
    output.length ≤ kMaxSessionBody

/-! ## A system with one client -/

namespace Session

variable {server : RpcServer Unit} {s s' : Session} {t : Cluster Unit Unit}

/-- A session and the state of the larger system that it stands for. As long as the server's end
delivers what it reads the two agree about it; afterwards only what it has sent still counts. -/
structure StandsFor (s : Session) (t : Cluster Unit Unit) : Prop where
  client : (t.links ()).client = s.client
  toClient : (t.links ()).toClient = s.toClient
  sent : (t.links ()).transport.sent = s.conn.transport.sent
  returned : (t.links ()).serving = false
  up : s.serverUp = true → s.conn.transport.state ≠ .kDisconnected →
    (t.links ()).transport = s.conn.transport ∧ (t.links ()).input = s.conn.input ∧
      (t.links ()).toServer = s.toServer

theorem standsFor_start (server : RpcServer Unit) :
    ∃ t, Reaches (Cluster.step server) (Cluster.start server.serializerId ()) t ∧
      StandsFor (start server.serializerId) t := by
  have hStep : (Cluster.start (ι := Unit) server.serializerId ()).step server (.connect ()) =
      some ((Cluster.start server.serializerId ()).set ()
        { client := (Client.new server.serializerId FrameReader.default).onConnectionUp
          transport := Transport.established
          input := Buffer.new kInitialSize
          everConnected := true }) := rfl
  refine ⟨_, Reaches.refl.next _ hStep, ?_⟩
  constructor <;> simp [start, Conn.established]

/-- The client makes a step, and nothing happens at the server's end. -/
theorem StandsFor.client_step (h : StandsFor s t) (c : Client) (toClient : Nat) :
    StandsFor { s with client := c, toClient := toClient }
      (t.set () { t.links () with client := c, toClient := toClient }) where
  client := by rw [Cluster.set_links_self]
  toClient := by rw [Cluster.set_links_self]
  sent := by rw [Cluster.set_links_self]; exact h.sent
  returned := by rw [Cluster.set_links_self]; exact h.returned
  up := by rw [Cluster.set_links_self]; exact h.up

/-- A chunk reaches the server, and its message callback runs in passes that nothing comes
between. -/
theorem StandsFor.server_step (h : StandsFor s t) (hUp : s.serverUp = true) (n : Nat) :
    let chunk := slice s.client.transport.sent.flatten s.toServer n
    ∃ t', Reaches (Cluster.step server) t t' ∧
      StandsFor { s with
        conn := server.handleRead s.conn chunk
        toServer := s.toServer + chunk.length } t' := by
  intro chunk
  by_cases hDown : s.conn.transport.state = .kDisconnected
  · -- a closed connection reads nothing
    have hRead : server.handleRead s.conn chunk = s.conn := if_pos hDown
    rw [hRead]
    exact ⟨t, .refl, { h with up := fun _ hNot => absurd hDown hNot }⟩
  · obtain ⟨hTransport, hInput, hServer⟩ := h.up hUp hDown
    -- the chunk is put into the buffer, and the callback starts
    let arrived := t.set () { t.links () with
      input := (t.links ()).input.append chunk
      toServer := (t.links ()).toServer + chunk.length
      serving := true }
    have hArrive : t.step server (.toServer () n) = some arrived := by
      have hGuard : (t.links ()).serving = false ∧ (t.links ()).transport.state ≠ .kDisconnected :=
        ⟨h.returned, by rw [hTransport]; exact hDown⟩
      simp only [Cluster.step, if_pos hGuard, h.client, hServer, arrived, chunk]
    -- its passes are the callback of the session, whose trace goes further back
    have hConn : (arrived.conn ()).after s.conn.trace = s.conn.received chunk := by
      simp [arrived, Cluster.conn, Link.conn, Conn.after, Conn.received, hTransport, hInput]
    obtain ⟨k, conn, hRun, hEnd⟩ := Cluster.commitsTo_onMessage server () _ arrived s.conn.trace
      (by simp [arrived]) hConn
    have hRead : server.handleRead s.conn chunk = conn.after s.conn.trace :=
      (if_neg hDown).trans hEnd.symm
    refine ⟨_, (Reaches.refl.next _ hArrive).trans (reaches_of_runAll hRun), ?_⟩
    rw [hRead]
    constructor <;>
      simp [arrived, Cluster.commit, Link.commit, Conn.after, h.client, h.toClient, hServer]

/-- **A session is simulated step by step.** -/
theorem simulates (server : RpcServer Unit) :
    Lib.Simulates (step server) (fun _ _ => True) (Cluster.step server) StandsFor := by
  intro s s' t a h _ hStep
  cases a with
  | client a =>
    simp only [step] at hStep
    split_ifs at hStep with hLocal
    obtain ⟨c, hc, rfl⟩ := Option.map_eq_some_iff.mp hStep
    have hMove : t.step server (.client () a) =
        some (t.set () { t.links () with client := c, toClient := s.toClient }) := by
      simp only [Cluster.step, if_pos hLocal, h.client, hc, Option.map_some, ← h.toClient]
    exact ⟨_, Reaches.refl.next _ hMove, h.client_step c s.toClient⟩
  | toServer n =>
    simp only [step] at hStep
    split_ifs at hStep with hUp
    cases hStep
    exact h.server_step hUp n
  | toClient n =>
    obtain ⟨c, hc, rfl⟩ := Option.map_eq_some_iff.mp hStep
    have hMove : t.step server (.toClient () n) = some (t.set () { t.links () with
        client := c
        toClient := s.toClient + (slice s.conn.transport.sent.flatten s.toClient n).length }) := by
      simp only [Cluster.step, h.client, h.sent, h.toClient, hc, Option.map_some]
    exact ⟨_, Reaches.refl.next _ hMove, h.client_step c _⟩
  | serverDown =>
    -- between two messages the server is in no callback
    cases hStep
    have hMove : t.step server (.serverDown ()) = some (t.set () { t.links () with
        transport := { (t.links ()).transport with
          state := .kDisconnected, closeQueued := false } }) := by
      simp [Cluster.step, h.returned]
    refine ⟨_, Reaches.refl.next _ hMove, ?_⟩
    constructor <;> simp [h.client, h.toClient, h.sent, h.returned]

/-- **Every run of a session is a run of the larger system.** -/
theorem cluster_of_reaches (server : RpcServer Unit)
    (h : Reaches (step server) (start server.serializerId) s) :
    ∃ t, Reaches (Cluster.step server) (Cluster.start server.serializerId ()) t ∧
      StandsFor s t := by
  obtain ⟨t, hStart, hStands⟩ := standsFor_start server
  obtain ⟨t', hRun, hStands'⟩ :=
    Lib.Simulates.reaches (simulates server) h.unconditional hStands
  exact ⟨t', hStart.trans hRun, hStands'⟩

end Session

/-! ## Response correlation -/

/-- **End-to-end response correlation.** A client and a server with the same serializer id and
default limits, handlers that are functions of the payload, bodies that fit a frame, and fewer
than `2 ^ 32` calls: in every state that calls, deliveries, deadlines and losses of the connection
lead to, a call that completed with another status than the client's own three has exactly the
status and the payload that the dispatch gives for its own request; and a call that completed
with `kTimeout` was given a positive timeout, and a timer of it has fired. -/
theorem response_correlation (registry : ServiceRegistry Unit) (serializerId : UInt8)
    (hOutputs : OutputsFit registry) (s : Session)
    (hReach : Reaches (Session.step (Session.serverFor registry serializerId))
      (Session.start serializerId) s)
    (hFit : RequestsFit s.client) (hLength : s.client.calls.length < 2 ^ 32)
    (call : Nat) (r : Response) (hCompleted : (call, r) ∈ s.client.completed) :
    ∃ spec, s.client.calls[call]? = some spec ∧
      (r.status ≠ .kTimeout → r.status ≠ .kConnectionClosed → r.status ≠ .kBadRequest →
        r.status = (RpcServer.caught (registry.dispatch spec.request {} ())).status ∧
        r.payload = (RpcServer.caught (registry.dispatch spec.request {} ())).payload) ∧
      (r.status = .kTimeout → 0 < spec.timeoutSeconds ∧ ∃ t ∈ s.client.fired, t.call = call) := by
  obtain ⟨t, hRun, hSim⟩ :=
    Session.cluster_of_reaches (Session.serverFor registry serializerId) hReach
  have hBounded : Bounded (Session.serverFor registry serializerId) t := fun _ => by
    rw [hSim.client]
    refine ⟨hFit, fun spec _ world => length_execute_le ?_ spec.request world, hLength⟩
    exact fun key fn payload _ output hFind hOk => hOutputs key fn payload output hFind hOk
  obtain ⟨log, hLog⟩ := logged_start.of_reaches rfl rfl hRun hBounded
  obtain ⟨issued, fs, read, hLinked, -⟩ := hLog.link ()
  have hDone : (call, r) ∈ (t.links ()).client.completed := hSim.client ▸ hCompleted
  rcases hLog.linearization.answered () _ hDone with hOwn | ⟨entry, hEntry, -, rfl, hOutcome⟩
  · -- the client gave the status itself
    obtain ⟨spec, hSpec⟩ : ∃ spec, s.client.calls[call]? = some spec := by
      have hCount := hLinked.accounted call
      have hPos : 0 < (t.links ()).client.completedCalls.count call :=
        List.count_pos_iff.mpr (List.mem_map_of_mem hDone)
      split_ifs at hCount with hLt
      · exact ⟨_, List.getElem?_eq_getElem (hSim.client ▸ hLt)⟩
      · omega
    refine ⟨spec, hSpec, fun hTimeout hClosed hBad => ?_, fun hTimeout => ?_⟩
    · simp [clientStatuses, hTimeout, hClosed, hBad] at hOwn
    · obtain ⟨-, spec', hSpec', hPos, hFired⟩ := hLinked.timedOut _ hDone hTimeout
      rw [hSim.client] at hSpec' hFired
      obtain rfl : spec = spec' := Option.some.inj (hSpec.symm.trans hSpec')
      exact ⟨hPos, hFired⟩
  · -- the server executed the call's own request, and it has no state
    obtain ⟨spec, hSpec, hRequest⟩ := hLog.called entry hEntry
    obtain ⟨_, hExecuted⟩ := hLog.linearization.executed hEntry
    have hDispatch := ((Session.serverFor registry serializerId).caught_dispatch spec.request ()).1
    rw [hOutcome, ← hRequest, ← hDispatch] at hExecuted
    obtain ⟨hStatus, hPayload⟩ := Prod.mk.inj hExecuted
    refine ⟨spec, hSim.client ▸ hSpec, fun _ _ _ => ⟨hStatus, hPayload⟩, fun hTimeout => ?_⟩
    have hNot := execute_notMem_clientStatuses (Session.serverFor registry serializerId)
      spec.request ()
    rw [← hDispatch] at hNot
    refine absurd ?_ hNot
    rw [← hStatus, hTimeout]
    exact (by decide : StatusCode.kTimeout ∈ clientStatuses)

/-- A method `a.b` that returns the first bytes of its payload. -/
def headRegistry : ServiceRegistry Unit where
  methods := [([0x61, 0x2E, 0x62], fun payload w => (.ok (payload.take 2), w))]
  services := [[0x61]]
  frozen := true

/-- Two calls, of which the second has a deadline that fires before its answer is read. The
answer to the first is cut in two. -/
def twoCalls : List Session.Action :=
  [.client (.call ⟨⟨[0x61], [0x62], [1, 2, 3]⟩, 0⟩), .client (.call ⟨⟨[0x61], [0x62], [4]⟩, 1⟩),
    .toServer 7, .toServer 100, .toClient 5, .client (.resume 0), .toClient 13,
    .client (.resume 0), .client .ret, .client (.resume 0), .client (.expire [⟨0, 2, 1⟩]),
    .client (.resume 0), .client .ret]

theorem outputsFit_head : OutputsFit headRegistry := by
  intro key fn payload output hFind hRun
  by_cases hKey : key = [0x61, 0x2E, 0x62]
  · subst hKey
    cases hFind
    cases hRun
    exact (List.length_take_le ..).trans (by decide)
  · have hNone : headRegistry.find key = none := by
      simp [ServiceRegistry.find, headRegistry, List.lookup_cons, beq_eq_false_iff_ne.mpr hKey]
    rw [hNone] at hFind
    cases hFind

theorem response_correlation_twoCalls :
    ∃ s, runAll (Session.step (Session.serverFor headRegistry kSerializerRaw))
        (Session.start kSerializerRaw) twoCalls = some s ∧
      (∃ spec, s.client.calls[0]? = some spec ∧
        [1, 2] = (RpcServer.caught (headRegistry.dispatch spec.request {} ())).payload) ∧
      ∃ t ∈ s.client.fired, t.call = 1 := by
  have hRun : (runAll (Session.step (Session.serverFor headRegistry kSerializerRaw))
      (Session.start kSerializerRaw) twoCalls).map
        (fun s => (s.client.calls, s.client.completed)) =
      some ([⟨⟨[0x61], [0x62], [1, 2, 3]⟩, 0⟩, ⟨⟨[0x61], [0x62], [4]⟩, 1⟩],
        [(0, { payload := [1, 2] }), (1, timeoutResponse)]) := by
    decide +kernel
  obtain ⟨s, hs, hFields⟩ := Option.map_eq_some_iff.mp hRun
  obtain ⟨hCalls, hCompleted⟩ := Prod.mk.inj hFields
  have hFit : RequestsFit s.client := by
    intro spec hSpec body hBody
    rw [hCalls] at hSpec
    rw [RawCodec.length_of_encodeRequest hBody]
    rcases List.mem_pair.mp hSpec with rfl | rfl <;> decide
  have hLength : s.client.calls.length < 2 ^ 32 := by
    rw [hCalls]
    decide
  have hCorrect := response_correlation headRegistry kSerializerRaw outputsFit_head s
    (reaches_of_runAll hs) hFit hLength
  refine ⟨s, hs, ?_, ?_⟩
  · obtain ⟨spec, hSpec, hAnswer, -⟩ := hCorrect 0 { payload := [1, 2] } (by simp [hCompleted])
    exact ⟨spec, hSpec, (hAnswer (by decide) (by decide) (by decide)).2⟩
  · obtain ⟨spec, -, -, hTimeout⟩ := hCorrect 1 timeoutResponse (by simp [hCompleted])
    exact (hTimeout rfl).2

end ReactorNet.Rpc
