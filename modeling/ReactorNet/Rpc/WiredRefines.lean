import ReactorNet.Rpc.Linearizable
import ReactorNet.Rpc.Wired

/-!
# ReactorNet — the connections below the calls

`Wired` is simulated by `Cluster`: for every run of clients and server on their `TcpConnection`s
there is a run of the links of `Cluster`, in which the clients, the world of the handlers and the
trace of the server are the same. `Matches` is what connects a wire with its link. At the client's
end the view is exact. At the server's end the link is ahead of the connection, since it has a
forced close behind it when the connection has it still in its queue; and once the client's stream
has ended there, nothing more can come of it, and the two are not compared any more.

Main results: `wired_simulated`, `wired_linearizable`, `wired_no_call_lost`.
-/

namespace ReactorNet.Rpc

open Lib TcpConnection
open Endpoint (InCallback upToRead afterRead writeTurn)

universe u

/-! ## Views -/

variable {c : TcpConnection}

theorem clientView_of_up (h : c.state = .kConnected ∨ c.state = .kDisconnecting) :
    clientView c = c.transport := by
  rcases h with h | h <;> simp [clientView, h]

theorem clientView_sent (h : c.state ≠ .kConnecting) :
    (clientView c).sent = sentMessages c.log := by
  cases hState : c.state <;> simp_all [clientView, transport]

/-- What nobody sees leaves the view as it is. -/
theorem clientView_of_quiet {c' : TcpConnection} (h : Quiet c c')
    (hSent : sentMessages c'.log = sentMessages c.log) : clientView c' = clientView c := by
  have hState := h.state
  have hQueued := h.queued
  cases hWas : c.state <;> rw [hWas] at hState hQueued <;>
    simp [clientView, hState, hWas, transport, hSent, hQueued]

theorem transport_of_quiet {c' : TcpConnection} (h : Quiet c c')
    (hSent : sentMessages c'.log = sentMessages c.log) (hUp : c.state ≠ .kDisconnected) :
    c'.transport = c.transport := by
  simp [transport, h.state, hSent, h.queued hUp]

/-- User code does to a connection what it does to the view. -/
theorem clientView_user (c : TcpConnection) (op : UserOp) :
    clientView (c.user op) = (clientView c).user op := by
  by_cases hUp : c.state = .kConnected ∨ c.state = .kDisconnecting
  · have hReading : (c.user op).transport.Reading := by
      rw [transport_user]
      exact Transport.Reading.user (show c.transport.Reading from hUp) op
    rw [clientView_of_up hUp, clientView_of_up hReading, transport_user]
  · rw [not_or] at hUp
    rw [user_of_ne hUp.1 hUp.2, Transport.user_of_disconnected]
    cases hState : c.state <;> simp_all [clientView]

/-! ## The client's code -/

namespace Client

variable {c c' : Client}

/-- The client is in its message callback. -/
def Looping (c : Client) : Prop :=
  c.control = .messageLoop ∨ ∃ rest, c.control = .failing rest .forceClose

/-- Only the message callback leads to a forced close, and only it takes from the input. -/
theorem looping_of_step {a : Action} (hStep : c.step a = some c') (hCode : a.isCode = true) :
    (c'.Looping → c.Looping) ∧ (c'.input = c.input ∨ c.Looping) := by
  cases step_outcome hStep with
  | unconnected | unencodable | started | disconnected | returned => exact ⟨id, .inl rfl⟩
  | waiting _ _ hControl | broken _ _ hControl | alien _ _ _ _ hControl
  | late _ _ _ _ hControl | answered _ _ _ _ _ hControl =>
    exact ⟨fun _ => .inl hControl, .inr (.inl hControl)⟩
  | failed entry rest after e _ hControl =>
    refine ⟨fun hLoop => ?_, .inl rfl⟩
    rcases hLoop with hLoop | ⟨rest', hLoop⟩
    · cases hLoop
    · cases hLoop
      exact .inr ⟨rest, hControl⟩
  | closed _ _ hControl => exact ⟨fun _ => .inr ⟨[], hControl⟩, .inl rfl⟩
  | gone | expiredAll | stale | expired =>
    refine ⟨fun hLoop => ?_, .inl rfl⟩
    rcases hLoop with hLoop | ⟨rest', hLoop⟩ <;> cases hLoop
  | timedOut =>
    refine ⟨fun hLoop => ?_, .inl rfl⟩
    rcases hLoop with hLoop | ⟨rest', hLoop⟩ <;> cases hLoop
  | received | up | down => cases hCode

theorem looping_of_operation {a : Action} {w : WriteResult}
    (h : c.operation w a = some .forceClose) : c.Looping := by
  cases a with
  | call spec =>
    simp only [operation] at h
    split_ifs at h
    split at h <;> cases h
  | resume entry =>
    simp only [operation] at h
    split at h
    · rename_i hControl
      exact .inr ⟨[], hControl⟩
    · cases h
  | disconnect | ret | recv | expire | up | down => cases h

end Client

/-! ## Wires and links -/

/-- Before the client is connected, nothing has come or gone at the server's end. -/
structure Untouched (w : Wire) : Prop where
  clientInput : w.client.tcp.inputBuffer = Buffer.new kInitialSize
  input : w.server.tcp.inputBuffer = Buffer.new kInitialSize
  sent : sentMessages w.server.tcp.log = []
  opened : Up w.server.tcp → w.server.ended = false →
    w.server.tcp.transport = Transport.established

/-- What connects a wire with its link. -/
structure Matches (w : Wire) (l : Link) : Prop where
  client : l.client = w.rpc
  view : w.rpc.on w.client = w.rpc
  soundClient : w.client.Sound
  soundServer : w.server.Sound
  looping : w.rpc.Looping → InCallback w.client
  ever : l.everConnected = true ↔ w.client.tcp.state ≠ .kConnecting
  toServer : l.toServer = w.server.received
  toClient : l.toClient = w.client.received
  serving : l.serving = w.serving
  sent : l.transport.sent = sentMessages w.server.tcp.log
  input : l.input = w.server.tcp.inputBuffer
  /-- As long as the server's end can read, the link has the connection as it will be at the end
  of the turn. -/
  opened : w.client.tcp.state ≠ .kConnecting → Up w.server.tcp → w.server.ended = false →
    l.transport =
      if w.serving then w.server.tcp.transport else w.server.tcp.transport.runQueued
  /-- The link is up before the server has accepted. -/
  accepted : w.client.tcp.state ≠ .kConnecting → w.server.tcp.state = .kConnecting →
    l.transport = Transport.established
  early : w.client.tcp.state = .kConnecting → Untouched w ∧ w.serving = false
  busy : w.serving = true →
    Up w.server.tcp ∧ w.server.ended = false ∧ InCallback w.server

/-- Steps of the cluster that lead from one state of a link to another. -/
def Moves {ι : Type} [DecidableEq ι] {σ : Type u} (server : RpcServer σ) (i : ι) (l l' : Link) :
    Prop :=
  ∀ t : Cluster ι σ, t.links i = l → Reaches (Cluster.step server) t (t.set i l')

section Moves

variable {ι : Type} [DecidableEq ι] {σ : Type u} {server : RpcServer σ} {i : ι} {l l' : Link}

theorem Moves.stay : Moves server i l l := by
  intro t hLink
  have hSame : t.set i l = t := by
    subst hLink
    simp [Cluster.set]
  rw [hSame]
  exact .refl

theorem Moves.single (a : Cluster.Action ι)
    (h : ∀ t : Cluster ι σ, t.links i = l → Cluster.step server t a = some (t.set i l')) :
    Moves server i l l' :=
  fun t hLink => Reaches.single a (h t hLink)

theorem Moves.client {a : Client.Action} (hLocal : a.isLocal = true) {c : Client}
    (hStep : l.client.step a = some c) : Moves server i l { l with client := c } := by
  refine .single (.client i a) fun t hLink => ?_
  subst hLink
  simp [Cluster.step, hLocal, hStep]

end Moves

namespace Matches

variable {ι : Type} [DecidableEq ι] {σ : Type u} {server : RpcServer σ} {i : ι} {w w' : Wire}
  {l : Link}

theorem transport_eq (h : Matches w l) : l.client.transport = clientView w.client.tcp := by
  rw [h.client, ← h.view]
  rfl

theorem input_eq (h : Matches w l) : l.client.input = w.client.tcp.inputBuffer := by
  rw [h.client, ← h.view]
  rfl

variable {e : Endpoint} {n : Nat}

/-- A step of the client's end changes nothing at the server's. -/
theorem setClient (h : Matches w l) {c : Client} (hSound : e.Sound) (hView : c.on e = c)
    (hLooping : c.Looping → InCallback e)
    (hState : e.tcp.state = .kConnecting ↔ w.client.tcp.state = .kConnecting)
    (hInput : e.tcp.state = .kConnecting → e.tcp.inputBuffer = Buffer.new kInitialSize)
    (hReceived : n = e.received) :
    Matches { w with client := e, rpc := c } { l with client := c, toClient := n } where
  client := rfl
  view := hView
  soundClient := hSound
  soundServer := h.soundServer
  looping := hLooping
  ever := h.ever.trans hState.symm.not
  toServer := h.toServer
  toClient := hReceived
  serving := h.serving
  sent := h.sent
  input := h.input
  opened hUp := h.opened (hState.not.mp hUp)
  accepted hUp := h.accepted (hState.not.mp hUp)
  early hFresh := by
    obtain ⟨hUntouched, hServing⟩ := h.early (hState.mp hFresh)
    exact ⟨{ hUntouched with clientInput := hInput hFresh }, hServing⟩
  busy := h.busy

theorem client_up (h : Matches w l) (hIdle : w.rpc.running = [] ∧ w.rpc.control = .idle)
    (hSound : e.Sound) (hSent : sentMessages e.tcp.log = sentMessages w.client.tcp.log)
    (hOpens : Endpoint.Opens w.client e) :
    ∃ l', Moves server i l l' ∧
      Matches { w with client := e, rpc := w.rpc.onConnectionUp.on e } l' := by
  obtain ⟨hUntouched, hServing⟩ := h.early hOpens.fresh.state
  -- the new connection has sent nothing, so both views of it agree
  have hOn : w.rpc.onConnectionUp.on e = w.rpc.onConnectionUp := by
    have hView : clientView e.tcp = Transport.established := by
      rw [clientView_of_up (.inl hOpens.state), transport, hOpens.state, hSent,
        hOpens.fresh.log, hOpens.tasks]
      rfl
    rw [Client.on, hView, hOpens.input, hUntouched.clientInput]
    rfl
  rw [hOn]
  refine ⟨{ l with
    client := w.rpc.onConnectionUp
    transport := Transport.established
    input := Buffer.new kInitialSize
    everConnected := true }, ?_, ?_⟩
  -- above, it is the one step `connect`
  · refine .single (.connect i) fun t hLink => ?_
    subst hLink
    have hNever : (t.links i).everConnected = false := by
      simpa [hOpens.fresh.state] using h.ever.not
    simp [Cluster.step, hNever, h.client, Client.step, hIdle]
  · exact
      { client := rfl
        view := hOn
        soundClient := hSound
        soundServer := h.soundServer
        looping := by
          rintro (hLoop | ⟨rest, hLoop⟩) <;> simp [Client.onConnectionUp, hIdle.2] at hLoop
        ever := by simp [hOpens.state]
        toServer := h.toServer
        toClient := h.toClient.trans hOpens.received.symm
        serving := h.serving
        sent := hUntouched.sent.symm
        input := hUntouched.input.symm
        opened := fun _ hUp hOpen => by
          rw [hServing, hUntouched.opened hUp hOpen]
          rfl
        accepted := fun _ _ => rfl
        early := fun hEarly => by simp [hOpens.state] at hEarly
        busy := h.busy }

theorem client_message (h : Matches w l) (hIdle : w.rpc.running = [] ∧ w.rpc.control = .idle)
    (hSound : e.Sound) (hSent : sentMessages e.tcp.log = sentMessages w.client.tcp.log)
    (hGot : Endpoint.Delivers (writtenBytes w.server.tcp.log) n w.client e) :
    ∃ l', Moves server i l l' ∧
      Matches { w with client := e, rpc := Client.on { w.rpc with control := .messageLoop } e }
        l' := by
  have hUp := hGot.up.state
  -- what was written is the front part of what was sent
  obtain ⟨chunk, hChunk⟩ : ∃ chunk,
      chunk = slice (writtenBytes w.server.tcp.log) w.client.received n := ⟨_, rfl⟩
  have hSlice : slice l.transport.sent.flatten l.toClient chunk.length = chunk := by
    obtain ⟨rest, hRest⟩ := h.soundServer.faithful.written
    rw [h.sent, h.toClient, ← hRest, hChunk, slice_append_left]
  have hInput := hGot.input
  have hReceived := hGot.received
  rw [← hChunk] at hInput hReceived
  -- the chunk is all that changes for the client
  have hView : clientView e.tcp = clientView w.client.tcp := by
    rw [clientView_of_up hUp, clientView_of_up (by rw [hGot.state]; exact hUp), transport,
      transport, hGot.state, hSent, hGot.tasks]
  have hOn : { l.client with input := l.client.input.append chunk, control := .messageLoop } =
      Client.on { w.rpc with control := .messageLoop } e := by
    rw [h.input_eq, ← hInput, h.client, ← h.view]
    simp [Client.on, hView]
  refine ⟨{ l with
    client := Client.on { w.rpc with control := .messageLoop } e
    toClient := l.toClient + chunk.length }, ?_, ?_⟩
  · -- the link delivers the same bytes
    refine .single (.toClient i chunk.length) fun t hLink => ?_
    subst hLink
    have hReading : (t.links i).client.transport.Reading := by
      rw [h.transport_eq, clientView_of_up hUp]
      exact hUp
    have hClose : (t.links i).client.transport.closeQueued = false := by
      rw [h.transport_eq, clientView_of_up hUp]
      simpa [transport] using hGot.queued
    have hRecv : (t.links i).client.step (.recv chunk) =
        some (Client.on { w.rpc with control := .messageLoop } e) := by
      rw [← hOn, Client.step, if_pos]
      rw [h.client] at hReading hClose ⊢
      exact ⟨hIdle.1, hIdle.2, hReading, hClose⟩
    simp only [Cluster.step, hSlice, hRecv, Option.map_some]
  · refine h.setClient hSound rfl (fun _ => hGot.callback) (by rw [hGot.state]) (fun hFresh => ?_) ?_
    · exact absurd (hGot.state.symm.trans hFresh) hGot.up.ne_connecting
    · rw [hReceived, h.toClient]

/-- The connection was up, and what its step is to the client is a step of the client alone. -/
theorem client_alone (h : Matches w l) {a : Client.Action} {c : Client} (hLocal : a.isLocal = true)
    (hStep : w.rpc.step a = some (c.on e)) (hLooping : ¬ c.Looping) (hSound : e.Sound)
    (hUp : Up w.client.tcp) (hState : e.tcp.state ≠ .kConnecting)
    (hReceived : e.received = w.client.received) :
    ∃ l', Moves server i l l' ∧ Matches { w with client := e, rpc := c.on e } l' := by
  rw [← h.client] at hStep
  exact ⟨{ l with client := c.on e, toClient := l.toClient }, .client hLocal hStep,
    h.setClient hSound rfl (fun hLoop => absurd hLoop hLooping) (iff_of_false hState hUp.ne_connecting)
      (fun hFresh => absurd hFresh hState) (h.toClient.trans hReceived.symm)⟩

/-- The end of the server's stream, with output pending: to the client it is as if it had
disconnected. -/
theorem client_halfClosed (h : Matches w l) (hIdle : w.rpc.running = [] ∧ w.rpc.control = .idle)
    (hSound : e.Sound) (hSent : sentMessages e.tcp.log = sentMessages w.client.tcp.log)
    (hEnds : Endpoint.HalfCloses w.client e) :
    ∃ l', Moves server i l l' ∧ Matches { w with client := e, rpc := w.rpc.on e } l' := by
  have hUp := hEnds.up.state
  have hView : clientView e.tcp = (clientView w.client.tcp).shutdown := by
    rw [clientView_of_up (.inr hEnds.state), clientView_of_up hUp, transport, hEnds.state, hSent,
      hEnds.tasks]
    rcases hUp with hWas | hWas <;> simp [Transport.shutdown, transport, hWas]
  have hOn : { w.rpc with transport := w.rpc.transport.shutdown } = w.rpc.on e := by
    rw [← h.client, h.transport_eq, ← hView, h.client, ← h.view]
    simp [Client.on, hEnds.input]
  have hStep : w.rpc.step .disconnect = some (w.rpc.on e) := by
    rw [← hOn, Client.step, if_pos (.inr hIdle.2)]
  refine h.client_alone rfl hStep ?_ hSound hEnds.up (by simp [hEnds.state]) hEnds.received
  rintro (hLoop | ⟨rest, hLoop⟩) <;> simp [hIdle.2] at hLoop

/-- The client's end goes down: the calls that are pending are about to fail. -/
theorem client_down (h : Matches w l) (hIdle : w.rpc.running = [] ∧ w.rpc.control = .idle)
    (hSound : e.Sound) (hSent : sentMessages e.tcp.log = sentMessages w.client.tcp.log)
    (hDown : Endpoint.GoesDown w.client e) :
    ∃ l', Moves server i l l' ∧
      Matches { w with client := e, rpc := w.rpc.onConnectionDown.on e } l' := by
  have hOn : w.rpc.onConnectionDown = w.rpc.onConnectionDown.on e := by
    have hView : clientView e.tcp = ⟨.kDisconnected, sentMessages w.client.tcp.log, false⟩ := by
      simp [clientView, hDown.state, hSent]
    rw [← h.view]
    simp [Client.on, Client.onConnectionDown, Client.failAllPending,
      clientView_of_up hDown.up.state, hView, transport, hDown.input]
  have hStep : w.rpc.step .down = some (w.rpc.onConnectionDown.on e) := by
    rw [← hOn, Client.step, if_pos hIdle]
  refine h.client_alone rfl hStep ?_ hSound hDown.up (by simp [hDown.state]) hDown.received
  rintro (hLoop | ⟨rest, hLoop⟩) <;>
    simp [Client.onConnectionDown, Client.failAllPending] at hLoop

/-- **A step of the client's end of the connection.** -/
theorem client_step (h : Matches w l) {a : Endpoint.Action} (hStep : w.clientStep a = some w') :
    ∃ l', Moves server i l l' ∧ Matches w' l' := by
  simp only [Wire.clientStep] at hStep
  split_ifs at hStep with hIdle
  obtain ⟨e, hEnd, rfl⟩ := Option.map_eq_some_iff.mp hStep
  have hSound := Endpoint.sound_step h.soundClient hEnd
  have hSent := Endpoint.sentMessages_step h.soundClient hEnd
  have hNotLooping : ¬ w.rpc.Looping := by
    rintro (hLoop | ⟨rest, hLoop⟩) <;> simp [hIdle.2] at hLoop
  cases Endpoint.effect_of_step h.soundClient hEnd with
  | quiet hQuiet hReceived =>
    -- nothing that the client could see
    have hOn : w.rpc.on e = w.rpc := by
      rw [← h.view]
      simp [Client.on, clientView_of_quiet hQuiet hSent, hQuiet.input]
    refine ⟨{ l with client := w.rpc, toClient := l.toClient }, ?_, ?_⟩
    · rw [← h.client]
      exact .stay
    · rw [hQuiet.call]
      show Matches { w with client := e, rpc := w.rpc.on e } _
      rw [hOn]
      exact h.setClient hSound hOn (fun hLoop => absurd hLoop hNotLooping) (by rw [hQuiet.state])
        (fun hFresh => by
          rw [hQuiet.input]
          exact (h.early (by rwa [hQuiet.state] at hFresh)).1.clientInput)
        (h.toClient.trans hReceived.symm)
  | up hOpens =>
    rw [hOpens.call]
    exact h.client_up hIdle hSound hSent hOpens
  | message n hGot =>
    rw [hGot.call]
    exact h.client_message hIdle hSound hSent hGot
  | halfClosed hEnds =>
    rw [hEnds.call]
    exact h.client_halfClosed hIdle hSound hSent hEnds
  | down hDown =>
    rw [hDown.call]
    exact h.client_down hIdle hSound hSent hDown

/-- What the client's code does to its connection, if anything. -/
theorem operation_spec {e' : Endpoint} (h : e.Sound) {op : Option UserOp}
    (hEnd : op.elim (some e) e.user = some e') (hForce : op = some .forceClose → InCallback e) :
    e'.Sound ∧ clientView e'.tcp = op.elim (clientView e.tcp) (clientView e.tcp).user ∧
      e'.tcp.stack = e.tcp.stack ∧ e'.polled = e.polled ∧ e'.received = e.received ∧
      (e'.tcp.state = .kConnecting ↔ e.tcp.state = .kConnecting) := by
  cases op with
  | none =>
    cases hEnd
    exact ⟨h, rfl, rfl, rfl, rfl, Iff.rfl⟩
  | some op =>
    have hUser : e.user op = some e' := hEnd
    obtain ⟨hTcp, hPolled, -, hReceived, -⟩ := Endpoint.user_spec hUser
    refine ⟨Endpoint.sound_user h hUser fun hOp => hForce (congrArg some hOp), ?_, ?_, hPolled,
      hReceived, ?_⟩
    · rw [hTcp]
      exact clientView_user e.tcp op
    · rw [hTcp, stack_user]
    · rw [hTcp]
      by_cases hUp : e.tcp.state = .kConnected ∨ e.tcp.state = .kDisconnecting
      · have hReading : (e.tcp.user op).transport.Reading := by
          rw [transport_user]
          exact Transport.Reading.user (show e.tcp.transport.Reading from hUp) op
        refine iff_of_false (fun hFresh => ?_) fun hFresh => ?_
        · rcases hReading with hNot | hNot <;> cases hNot.symm.trans hFresh
        · rcases hUp with hNot | hNot <;> cases hNot.symm.trans hFresh
      · rw [not_or] at hUp
        rw [user_of_ne hUp.1 hUp.2]

/-- **A step of the client's code.** -/
theorem rpc_step (h : Matches w l) {a : Client.Action} {r : WriteResult}
    (hStep : w.rpcStep a r = some w') : ∃ l', Moves server i l l' ∧ Matches w' l' := by
  simp only [Wire.rpcStep] at hStep
  split_ifs at hStep with hGuard
  split at hStep
  · cases hStep
  rename_i c hRpc
  obtain ⟨e, hEnd, rfl⟩ := Option.map_eq_some_iff.mp hStep
  have hTransport := Client.transport_of_step hRpc hGuard.1 r
  obtain ⟨hLooping, hInput⟩ := Client.looping_of_step hRpc hGuard.1
  obtain ⟨hSound, hView, hStack, hPolled, hReceived, hState⟩ :=
    operation_spec h.soundClient hEnd fun hForce => h.looping (Client.looping_of_operation hForce)
  have hView : clientView e.tcp = c.transport := by
    rw [hView, hTransport, ← h.transport_eq, h.client]
  have hOn : c.on { e with tcp := { e.tcp with inputBuffer := c.input } } = c := by
    have hSame : clientView { e.tcp with inputBuffer := c.input } = clientView e.tcp := rfl
    rw [Client.on, hSame, hView]
  rw [hOn]
  have hLocal : a.isLocal = true := by
    cases a with
    | recv | up => cases hGuard.1
    | call | disconnect | ret | resume | expire | down => rfl
  have hSame : l.client.step a = some c := by
    rw [h.client]
    exact hRpc
  refine ⟨{ l with client := c, toClient := l.toClient }, .client hLocal hSame,
    h.setClient (hSound.setInput c.input) hOn ?_ hState ?_ ?_⟩
  · intro hLoop
    obtain ⟨hTurn, hHead⟩ := h.looping (hLooping hLoop)
    exact ⟨hPolled.trans hTurn, by rw [← hHead, ← hStack]⟩
  · -- a client that is not connected is not in its message callback
    intro hFresh
    have hFresh := hState.mp hFresh
    rcases hInput with hSame | hLoop
    · show c.input = _
      rw [hSame, ← h.client, h.input_eq]
      exact (h.early hFresh).1.clientInput
    · have hHead := (h.looping hLoop).2
      simp [(h.soundClient.faithful.life.fresh_of_state hFresh).stack] at hHead
  · exact h.toClient.trans hReceived.symm

/-- A step of the server's end that the link does not see: what is still to be compared
afterwards was compared before. -/
theorem setServer (h : Matches w l) (hServing : w.serving = false) (hSound : e.Sound)
    (hSent : sentMessages e.tcp.log = sentMessages w.server.tcp.log)
    (hInput : e.tcp.inputBuffer = w.server.tcp.inputBuffer)
    (hReceived : e.received = w.server.received)
    (hOpened : Up e.tcp → e.ended = false → e.tcp.transport = Transport.established ∧
      w.server.tcp.state = .kConnecting ∨ e.tcp.transport = w.server.tcp.transport ∧ Up
      w.server.tcp ∧ w.server.ended = false)
    (hFresh : e.tcp.state = .kConnecting → w.server.tcp.state = .kConnecting) :
    Matches { w with server := e, serving := false } l where
  client := h.client
  view := h.view
  soundClient := h.soundClient
  soundServer := hSound
  looping := h.looping
  ever := h.ever
  toServer := h.toServer.trans hReceived.symm
  toClient := h.toClient
  serving := h.serving.trans hServing
  sent := h.sent.trans hSent.symm
  input := h.input.trans hInput.symm
  opened hUp hOpen hEnded := by
    rcases hOpened hOpen hEnded with ⟨hNew, hWas⟩ | ⟨hSame, hUp', hEnded'⟩
    · -- the link was up before the connection was
      rw [h.accepted hUp hWas]
      show Transport.established = e.tcp.transport.runQueued
      rw [hNew]
      rfl
    · have hLink := h.opened hUp hUp' hEnded'
      rw [hServing] at hLink
      show l.transport = e.tcp.transport.runQueued
      rw [hSame]
      exact hLink
  accepted hUp hState := h.accepted hUp (hFresh hState)
  early hState := by
    obtain ⟨hUntouched, -⟩ := h.early hState
    refine ⟨⟨hUntouched.clientInput, hInput.trans hUntouched.input, hSent.trans hUntouched.sent,
      fun hOpen hEnded => ?_⟩, rfl⟩
    rcases hOpened hOpen hEnded with ⟨hNew, -⟩ | ⟨hSame, hUp', hEnded'⟩
    · exact hNew
    · exact hSame.trans (hUntouched.opened hUp' hEnded')
  busy hBusy := by cases hBusy

/-- Bytes of the client's stream arrive, and the message callback of the server starts. -/
theorem server_message (h : Matches w l) (hServing : w.serving = false) (hSound : e.Sound)
    (hSent : sentMessages e.tcp.log = sentMessages w.server.tcp.log)
    (hGot : Endpoint.Delivers (writtenBytes w.client.tcp.log) n w.server e) :
    ∃ l', Moves server i l l' ∧ Matches { w with server := e, serving := true } l' := by
  -- the client has written something, so it is not a new one
  have hClient : w.client.tcp.state ≠ .kConnecting := by
    intro hFresh
    have hLog := (h.soundClient.faithful.life.fresh_of_state hFresh).log
    exact hGot.nonempty (by simp [hLog, writtenBytes, slice])
  have hSame : e.tcp.transport = w.server.tcp.transport := by
    rw [transport, transport, hGot.state, hSent, hGot.tasks]
  have hLink : l.transport = w.server.tcp.transport := by
    rw [h.opened hClient hGot.up hGot.reading, hServing]
    exact Transport.runQueued_of_not_queued (by simpa [transport] using hGot.queued)
  have hUp' : Up e.tcp :=
    hSound.faithful.life.up_of_state (by rw [hGot.state]; exact hGot.up.state)
  obtain ⟨chunk, hEq⟩ : ∃ chunk,
      chunk = slice (writtenBytes w.client.tcp.log) w.server.received n := ⟨_, rfl⟩
  have hInput := hGot.input
  have hReceived := hGot.received
  rw [← hEq] at hInput hReceived
  have hSlice : slice l.client.transport.sent.flatten l.toServer chunk.length = chunk := by
    obtain ⟨rest, hRest⟩ := h.soundClient.faithful.written
    rw [h.transport_eq, clientView_sent hClient, h.toServer, ← hRest, hEq, slice_append_left]
  refine ⟨{ l with
    input := l.input.append chunk
    toServer := l.toServer + chunk.length
    serving := true }, ?_, ?_⟩
  · refine .single (.toServer i chunk.length) fun t hLinks => ?_
    subst hLinks
    have hGuard : (t.links i).serving = false ∧ (t.links i).transport.state ≠ .kDisconnected := by
      rw [h.serving, hLink]
      exact ⟨hServing, hGot.up.ne_disconnected⟩
    simp only [Cluster.step, hGuard, hSlice, ne_eq, not_false_eq_true, and_self, if_true]
  · exact
      { client := h.client
        view := h.view
        soundClient := h.soundClient
        soundServer := hSound
        looping := h.looping
        ever := h.ever
        toServer := by rw [hReceived, h.toServer]
        toClient := h.toClient
        serving := rfl
        sent := h.sent.trans hSent.symm
        input := by rw [hInput, h.input]
        opened := fun _ _ _ => hLink.trans hSame.symm
        accepted := fun _ hFresh => absurd hFresh hUp'.ne_connecting
        early := fun hFresh => absurd hFresh hClient
        busy := fun _ => ⟨hUp', hGot.ended, hGot.callback⟩ }

/-- **A step of the server's end of the connection.** -/
theorem server_step (h : Matches w l) {a : Endpoint.Action} (hStep : w.serverStep a = some w') :
    ∃ l', Moves server i l l' ∧ Matches w' l' := by
  simp only [Wire.serverStep] at hStep
  split_ifs at hStep with hServing
  obtain ⟨e, hEnd, rfl⟩ := Option.map_eq_some_iff.mp hStep
  have hSound := Endpoint.sound_step h.soundServer hEnd
  have hSent := Endpoint.sentMessages_step h.soundServer hEnd
  cases Endpoint.effect_of_step h.soundServer hEnd with
  | quiet hQuiet hReceived =>
    rw [hQuiet.call]
    refine ⟨l, .stay, h.setServer hServing hSound hSent hQuiet.input hReceived
      (fun hUp hEnded => ?_) (by rw [hQuiet.state]; exact id)⟩
    have hUp' : Up w.server.tcp := by
      refine h.soundServer.faithful.life.up_of_state ?_
      rw [← hQuiet.state]
      exact hUp.state
    exact .inr ⟨transport_of_quiet hQuiet hSent hUp'.ne_disconnected, hUp',
      Endpoint.ended_step hEnd hEnded⟩
  | up hOpens =>
    -- the link has been up since the client's end was
    rw [hOpens.call]
    refine ⟨l, .stay, h.setServer hServing hSound hSent hOpens.input hOpens.received
      (fun _ _ => ?_) fun hNew => ?_⟩
    · refine .inl ⟨?_, hOpens.fresh.state⟩
      rw [transport, hOpens.state, hSent, hOpens.fresh.log, hOpens.tasks]
      rfl
    · simp [hOpens.state] at hNew
  | message n hGot =>
    rw [hGot.call]
    exact h.server_message hServing hSound hSent hGot
  | halfClosed hEnds =>
    rw [hEnds.call]
    exact ⟨l, .stay, h.setServer hServing hSound hSent hEnds.input hEnds.received
      (fun _ hNot => by simp [hEnds.ended] at hNot) fun hNew => by simp [hEnds.state] at hNew⟩
  | down hDown =>
    rw [hDown.call]
    exact ⟨l, .stay, h.setServer hServing hSound hSent hDown.input hDown.received
      (fun hNot _ => absurd hDown.state hNot.ne_disconnected)
      fun hNew => by simp [hDown.state] at hNew⟩

/-- While the message callback runs, the link and the connection are the same. -/
theorem conn_eq (h : Matches w l) (hServing : w.serving = true) (world : σ) :
    l.conn world = w.conn world := by
  have hClient : w.client.tcp.state ≠ .kConnecting := by
    intro hFresh
    simp [(h.early hFresh).2] at hServing
  obtain ⟨hUp, hOpen, -⟩ := h.busy hServing
  have hLink := h.opened hClient hUp hOpen
  rw [hServing] at hLink
  rw [Link.conn, Wire.conn, hLink, h.input]
  rfl

/-- What a pass has done, committed at both levels. -/
theorem commit (h : Matches w l) (hServing : w.serving = true) {world : σ} {conn : Conn σ}
    (hPerformed : Conn.Performed (w.conn world) conn) {r : WriteResult} {serving : Bool}
    (hCommit : w.commit conn r serving = some w') :
    Matches w' (l.commit (if serving then conn else conn.runQueued) serving) := by
  obtain ⟨e, hUsers, rfl⟩ := Option.map_eq_some_iff.mp hCommit
  obtain ⟨hUp, hOpen, hPolled, hHead⟩ := h.busy hServing
  obtain ⟨hTransport, -, hStack, hPolled', hReceived, hEnded⟩ := Endpoint.users_spec hUsers
  have hSound := (Endpoint.sound_users h.soundServer hUsers ⟨hPolled, hHead⟩).setInput conn.input
  -- the operations in the trace are what changed the connection
  have hSame : e.tcp.transport = conn.transport := by
    obtain ⟨es, hTrace, hEs⟩ := hPerformed
    have hTrace' : conn.trace = es := hTrace
    rw [hTransport, hTrace', hEs r]
    rfl
  have hClient : w.client.tcp.state ≠ .kConnecting := by
    intro hFresh
    simp [(h.early hFresh).2] at hServing
  have hReading : e.tcp.transport.Reading := by
    rw [hTransport]
    refine List.foldlRecOn (motive := Transport.Reading) _ _
      (show w.server.tcp.transport.Reading from hUp.state) fun t ht op _ => ht.user op
  have hUp' : Up { e.tcp with inputBuffer := conn.input } :=
    hSound.faithful.life.up_of_state hReading
  exact
    { client := h.client
      view := h.view
      soundClient := h.soundClient
      soundServer := hSound
      looping := h.looping
      ever := h.ever
      toServer := h.toServer.trans hReceived.symm
      toClient := h.toClient
      serving := rfl
      sent := by
        have hSent : e.tcp.transport.sent = conn.transport.sent := by rw [hSame]
        cases serving
        · exact (Transport.runQueued_sent _).trans hSent.symm
        · exact hSent.symm
      input := by cases serving <;> rfl
      opened := fun _ _ _ => by
        show (if serving then conn else conn.runQueued).transport =
          if serving then e.tcp.transport else e.tcp.transport.runQueued
        rw [hSame]
        cases serving <;> rfl
      accepted := fun _ hFresh => absurd hFresh hUp'.ne_connecting
      early := fun hFresh => absurd hFresh hClient
      busy := fun _ => ⟨hUp', hEnded.trans hOpen, hPolled'.trans hPolled, by
        rw [← hHead, ← hStack]⟩ }

end Matches

/-! ## The simulation -/

section System

variable {ι : Type} [DecidableEq ι] {σ : Type u}

/-- The two levels of a whole system. -/
structure Refines (s : Wired ι σ) (t : Cluster ι σ) : Prop where
  links : ∀ i, Matches (s.wires i) (t.links i)
  world : t.world = s.world
  trace : t.trace = s.trace

theorem matches_new (serializerId : UInt8) :
    Matches { rpc := Client.new serializerId FrameReader.default }
      { client := Client.new serializerId FrameReader.default } where
  client := rfl
  view := rfl
  soundClient := Endpoint.sound_new
  soundServer := Endpoint.sound_new
  looping := by rintro (hLoop | ⟨rest, hLoop⟩) <;> cases hLoop
  ever := by simp
  toServer := rfl
  toClient := rfl
  serving := rfl
  sent := rfl
  input := rfl
  opened hClient := absurd rfl hClient
  accepted hClient := absurd rfl hClient
  early _ := ⟨⟨rfl, rfl, rfl, fun hUp => absurd rfl hUp.ne_connecting⟩, rfl⟩
  busy hServing := by cases hServing

omit [DecidableEq ι] in
theorem refines_start (serializerId : UInt8) (world : σ) :
    Refines (Wired.start (ι := ι) serializerId world) (Cluster.start serializerId world) :=
  ⟨fun _ => matches_new serializerId, rfl, rfl⟩

variable {server : RpcServer σ} {s s' : Wired ι σ} {t : Cluster ι σ}

theorem Refines.move (h : Refines s t) {i : ι} {w : Wire}
    (hMoves : ∃ l, Moves server i (t.links i) l ∧ Matches w l) :
    ∃ t', Reaches (Cluster.step server) t t' ∧ Refines (s.set i w) t' := by
  obtain ⟨l, hMove, hMatches⟩ := hMoves
  refine ⟨t.set i l, hMove t rfl, fun j => ?_, h.world, h.trace⟩
  by_cases hj : j = i
  · subst hj
    rw [Cluster.set_links_self]
    show Matches (Function.update s.wires j w j) l
    rw [Function.update_self]
    exact hMatches
  · rw [Cluster.set_links_of_ne t hj]
    show Matches (Function.update s.wires i w j) _
    rw [Function.update_of_ne hj]
    exact h.links j

/-- A pass, with its effect on the world and the trace. -/
theorem Refines.commit (h : Refines s t) {i : ι} (hServing : (s.wires i).serving = true)
    {conn : Conn σ} (hPerformed : Conn.Performed ((s.wires i).conn s.world) conn)
    {r : WriteResult} {serving : Bool} (hCommit : s.commit i conn r serving = some s') :
    Refines s' (t.commit i (if serving then conn else conn.runQueued) serving) := by
  obtain ⟨w, hWire, rfl⟩ := Option.map_eq_some_iff.mp hCommit
  have hMatches := (h.links i).commit hServing hPerformed hWire
  have hWorld : (if serving then conn else conn.runQueued).world = conn.world := by
    cases serving <;> rfl
  have hTrace : (if serving then conn else conn.runQueued).trace = conn.trace := by
    cases serving <;> rfl
  refine ⟨fun j => ?_, hWorld, ?_⟩
  · by_cases hj : j = i
    · subst hj
      rw [Cluster.commit_links_self]
      show Matches (Function.update s.wires j w j) _
      rw [Function.update_self]
      exact hMatches
    · rw [Cluster.commit_links_of_ne t hj]
      show Matches (Function.update s.wires i w j) _
      rw [Function.update_of_ne hj]
      exact h.links j
  · show t.trace ++ _ = s.trace ++ _
    rw [h.trace, hTrace]

/-- **Every step is matched.** -/
theorem simulates (server : RpcServer σ) :
    Simulates (Wired.step (ι := ι) server) (fun _ _ => True) (Cluster.step server) Refines := by
  intro s s' t a h _ hStep
  cases a with
  | client i a =>
    obtain ⟨w, hWire, rfl⟩ := Option.map_eq_some_iff.mp hStep
    exact h.move ((h.links i).client_step hWire)
  | rpc i a r =>
    obtain ⟨w, hWire, rfl⟩ := Option.map_eq_some_iff.mp hStep
    exact h.move ((h.links i).rpc_step hWire)
  | server i a =>
    obtain ⟨w, hWire, rfl⟩ := Option.map_eq_some_iff.mp hStep
    exact h.move ((h.links i).server_step hWire)
  | pass i r =>
    simp only [Wired.step] at hStep
    split_ifs at hStep with hServing
    -- the pass of the one is the pass of the other
    have hConn : t.conn i = (s.wires i).conn s.world := by
      rw [Cluster.conn, h.world, (h.links i).conn_eq hServing]
    have hServing' : (t.links i).serving = true := (h.links i).serving.trans hServing
    have hPerformed := Conn.performed_onMessagePass server ((s.wires i).conn s.world)
    split at hStep
    · rename_i conn hPass
      rw [hPass] at hPerformed
      refine ⟨t.commit i conn true, Reaches.single (.pass i) ?_, h.commit hServing hPerformed hStep⟩
      simp only [Cluster.step, hServing', hConn, hPass, if_true]
    · rename_i conn hPass
      rw [hPass] at hPerformed
      refine ⟨t.commit i conn.runQueued false, Reaches.single (.pass i) ?_,
        h.commit hServing hPerformed hStep⟩
      simp only [Cluster.step, hServing', hConn, hPass, if_true]

theorem Refines.reaches (h : Refines s t) (hRun : Reaches (Wired.step server) s s') :
    ∃ t', Reaches (Cluster.step server) t t' ∧ Refines s' t' :=
  Simulates.reaches (simulates server) hRun.unconditional h

/-- The system as seen from above its connections. -/
def Wired.above (s : Wired ι σ) : Cluster ι σ where
  links := fun i => { client := (s.wires i).rpc }
  world := s.world
  trace := s.trace

/-- A linearization is about the clients, the world and the trace. -/
theorem Linearization.above {world : σ} {log : List (Entry ι)} (hRefines : Refines s t)
    (h : Linearization server world t log) : Linearization server world s.above log := by
  have hClient : ∀ i, (t.links i).client = (s.above.links i).client := fun i =>
    (hRefines.links i).client
  have hHistory : t.history = s.above.history := by
    rw [Cluster.history, hRefines.trace]
    rfl
  exact
    { sequential := h.sequential.trans (by rw [hRefines.world]; rfl)
      dispatched := hHistory.symm.trans h.dispatched
      called := fun e he => by
        rw [← hClient]
        exact h.called e he
      inOrder := h.inOrder
      answered := fun i e he => h.answered i e (by rwa [hClient])
      refused := fun i e he => h.refused i e (by rwa [hClient]) }

omit [DecidableEq ι] in
theorem Refines.bounded (h : Refines s t) (hBounded : Bounded server s.above) :
    Bounded server t := by
  intro i
  rw [(h.links i).client]
  exact hBounded i

/-- **Below the calls there are connections.** Every run of clients and server on their
`TcpConnection`s, whatever serializer the clients speak, whatever epoll reports, however the
sockets take and deliver bytes, and whenever the loops get to their functors, is a run of the
system of `Cluster`: with the same clients, world and trace. What an end has written is a front
part of what its link has sent, and what the other end has read is a front part of that. -/
theorem wired_simulated (server : RpcServer σ) (serializerId : UInt8) (world : σ) (s : Wired ι σ)
    (hReach : Reaches (Wired.step server) (Wired.start serializerId world) s) :
    ∃ t : Cluster ι σ, Reaches (Cluster.step server) (Cluster.start serializerId world) t ∧
      t.world = s.world ∧ t.trace = s.trace ∧
      ∀ i, (t.links i).client = (s.wires i).rpc ∧
        (t.links i).toServer = (s.wires i).server.received ∧
        (t.links i).toClient = (s.wires i).client.received ∧
        writtenBytes (s.wires i).server.tcp.log <+: (t.links i).transport.sent.flatten ∧
        ((s.wires i).client.tcp.state ≠ .kConnecting →
          writtenBytes (s.wires i).client.tcp.log <+: (t.links i).client.transport.sent.flatten) := by
  obtain ⟨t, hRun, h⟩ := (refines_start _ world).reaches hReach
  refine ⟨t, hRun, h.world, h.trace, fun i => ?_⟩
  have hMatch := h.links i
  refine ⟨hMatch.client, hMatch.toServer, hMatch.toClient, ?_, fun hUp => ?_⟩
  · rw [hMatch.sent]
    exact hMatch.soundServer.faithful.written
  · rw [hMatch.transport_eq, clientView_sent hUp]
    exact hMatch.soundClient.faithful.written

/-- The order of calls of a state, and of a later one. -/
theorem wired_logs {world : σ} (hReader : server.frameReader = FrameReader.default)
    (hLimit : server.maxInputBufferSize = 0)
    (hReach : Reaches (Wired.step server) (Wired.start server.serializerId world) s)
    (hLater : Reaches (Wired.step server) s s') (hBounded : Bounded server s'.above) :
    ∃ (log more : List (Entry ι)), Linearization server world s.above log ∧
      Linearization server world s'.above (log ++ more) := by
  obtain ⟨t, hRun, h⟩ := (refines_start _ world).reaches hReach
  obtain ⟨t', hRun', h'⟩ := h.reaches hLater
  have hBounded' := h'.bounded hBounded
  obtain ⟨log, hLog⟩ := logged_start.of_reaches hReader hLimit hRun
    (hBounded'.of_reaches hRun')
  rw [List.nil_append] at hLog
  obtain ⟨more, hMore⟩ := hLog.of_reaches hReader hLimit hRun' hBounded'
  exact ⟨log, more, hLog.linearization.above h, hMore.linearization.above h'⟩

/-- **Calls are linearizable on their connections.** A run on `TcpConnection`s is a run of
`Cluster` with the same clients and world, and there the server executes the calls in one order. -/
theorem wired_linearizable (server : RpcServer σ) (world : σ)
    (hReader : server.frameReader = FrameReader.default) (hLimit : server.maxInputBufferSize = 0)
    (s s' : Wired ι σ)
    (hReach : Reaches (Wired.step server) (Wired.start server.serializerId world) s)
    (hLater : Reaches (Wired.step server) s s') (hBounded : Bounded server s'.above) :
    ∃ (log more : List (Entry ι)), Linearization server world s.above log ∧
      Linearization server world s'.above (log ++ more) ∧
      ∀ i, ∀ e ∈ (s.wires i).rpc.completed, e.2.status ∉ clientStatuses →
        ∃ (p : Nat) (entry : Entry ι),
          (log ++ more)[p]? = some entry ∧ entry.link = i ∧ entry.call = e.1 ∧
          entry.response.outcome = e.2.outcome ∧
          ∀ (q : Nat) (later : Entry ι), (log ++ more)[q]? = some later →
            (s.wires later.link).rpc.calls.length ≤ later.call → p < q := by
  obtain ⟨log, more, hOrder, hMore⟩ := wired_logs hReader hLimit hReach hLater hBounded
  exact ⟨log, more, hOrder, hMore, fun i e he hStatus => hOrder.precedes more he hStatus⟩

/-- Both ends are up and between two turns, their output is written, and all of it was read. -/
structure Wire.Drained (w : Wire) : Prop where
  client : w.client.tcp.state = .kConnected
  idle : w.rpc.control = .idle
  server : w.server.tcp.state = .kConnected
  waiting : w.serving = false
  reading : w.server.ended = false
  queue : w.server.tcp.tasks = []
  alive : w.client.dead = false ∧ w.server.dead = false
  output : w.client.tcp.outputBuffer.contents = [] ∧ w.server.tcp.outputBuffer.contents = []
  toServer : w.server.received = (writtenBytes w.client.tcp.log).length
  toClient : w.client.received = (writtenBytes w.server.tcp.log).length

instance (w : Wire) : Decidable w.Drained :=
  decidable_of_iff (w.client.tcp.state = .kConnected ∧ w.rpc.control = .idle ∧
      w.server.tcp.state = .kConnected ∧ w.serving = false ∧ w.server.ended = false ∧
      w.server.tcp.tasks = [] ∧ (w.client.dead = false ∧ w.server.dead = false) ∧
      (w.client.tcp.outputBuffer.contents = [] ∧ w.server.tcp.outputBuffer.contents = []) ∧
      w.server.received = (writtenBytes w.client.tcp.log).length ∧
      w.client.received = (writtenBytes w.server.tcp.log).length)
    ⟨fun ⟨h₁, h₂, h₃, h₄, h₅, h₆, h₇, h₈, h₉, h₀⟩ => ⟨h₁, h₂, h₃, h₄, h₅, h₆, h₇, h₈, h₉, h₀⟩,
      fun h => ⟨h.client, h.idle, h.server, h.waiting, h.reading, h.queue, h.alive, h.output,
        h.toServer, h.toClient⟩⟩

/-- With nothing buffered, everything that was sent is written. -/
theorem written_all {e : Endpoint} (h : e.Sound) (hAlive : e.dead = false)
    (hState : e.tcp.state = .kConnected) (hOutput : e.tcp.outputBuffer.contents = []) :
    writtenBytes e.tcp.log = (sentMessages e.tcp.log).flatten := by
  have hStream := (h.faithful.owes hAlive).stream (by simp [hState])
  simpa [hOutput] using hStream

/-- A wire that is drained is a link that is drained. -/
theorem Matches.drained {w : Wire} {l : Link} (h : Matches w l) (hDrained : w.Drained) :
    l.Drained := by
  have hClient : w.client.tcp.state ≠ .kConnecting := by simp [hDrained.client]
  have hUp := h.soundServer.faithful.life.up_of_state (.inl hDrained.server)
  have hView : l.client.transport = w.client.tcp.transport := by
    rw [h.transport_eq, clientView_of_up (.inl hDrained.client)]
  have hLink : l.transport = w.server.tcp.transport := by
    rw [h.opened hClient hUp hDrained.reading, hDrained.waiting]
    exact Transport.runQueued_of_not_queued (by simp [transport, hDrained.queue])
  refine ⟨?_, ?_, ?_, h.serving.trans hDrained.waiting, ?_, ?_⟩
  · rw [hView]
    exact hDrained.client
  · rw [h.client]
    exact hDrained.idle
  · rw [hLink]
    exact hDrained.server
  · rw [h.toServer, hDrained.toServer, hView,
      written_all h.soundClient hDrained.alive.1 hDrained.client hDrained.output.1]
    rfl
  · rw [h.toClient, hDrained.toClient, h.sent,
      written_all h.soundServer hDrained.alive.2 hDrained.server hDrained.output.2]

/-- **No call is lost on its connection.** When the output buffers of both ends are empty and all
that was written has been read, no call is pending, every call has completed exactly once, and
every one that was not refused or given up with the connection was executed exactly once. -/
theorem wired_no_call_lost (server : RpcServer σ) (world : σ)
    (hReader : server.frameReader = FrameReader.default) (hLimit : server.maxInputBufferSize = 0)
    (s : Wired ι σ)
    (hReach : Reaches (Wired.step server) (Wired.start server.serializerId world) s)
    (hBounded : Bounded server s.above) (i : ι) (hDrained : (s.wires i).Drained) :
    ∃ log, Linearization server world s.above log ∧ (s.wires i).rpc.pendings = [] ∧
      (∀ call < (s.wires i).rpc.calls.length, (s.wires i).rpc.completedCalls.count call = 1) ∧
      ∀ e ∈ (s.wires i).rpc.completed, e.2.status ≠ .kConnectionClosed →
        e.2.status ≠ .kBadRequest → ((onLink i log).map (·.call)).count e.1 = 1 := by
  obtain ⟨t, hRun, h⟩ := (refines_start _ world).reaches hReach
  have hBounded' := h.bounded hBounded
  obtain ⟨log, hLog⟩ := logged_start.of_reaches hReader hLimit hRun hBounded'
  rw [List.nil_append] at hLog
  have hMatch := h.links i
  have hAll := hLog.drained hBounded' (hMatch.drained hDrained)
  rw [hMatch.client] at hAll
  exact ⟨log, hLog.linearization.above h, hAll⟩

end System

def atClient (actions : List Endpoint.Action) : List (Wired.Action Unit) :=
  actions.map (Wired.Action.client ())

def atServer (actions : List Endpoint.Action) : List (Wired.Action Unit) :=
  actions.map (Wired.Action.server ())

/-- A call whose request is written in two parts, and read in two parts; its answer is written
and read at once. -/
def oneCall : List (Wired.Action Unit) :=
  [atClient [.connectEstablished, .ret], atServer [.connectEstablished, .ret],
    [.rpc () (.call counterCall) (.accepted 10)],
    atServer (upToRead (.data 7)), [.pass () (.accepted 0)], atServer afterRead,
    atClient writeTurn,
    atServer (upToRead (.data 50)), [.pass () (.accepted 50), .pass () (.accepted 0)],
    atServer afterRead, atServer [.task (.accepted 0), .ret],
    atClient (upToRead (.data 50)),
    [.rpc () (.resume 0) (.accepted 0), .rpc () .ret (.accepted 0),
      .rpc () (.resume 0) (.accepted 0)],
    atClient afterRead].flatten

/-- What the run of this call leads to. -/
theorem oneCall_runs : ∃ s, Reaches (Wired.step counterServer) (Wired.start kSerializerRaw 5) s ∧
    (s.wires ()).rpc.calls = [counterCall] ∧ (s.wires ()).rpc.completed.map Prod.fst = [0] ∧
    (s.wires ()).Drained := by
  have hRun : (runAll (Wired.step counterServer) (Wired.start kSerializerRaw 5) oneCall).map
      (fun s => ((s.wires ()).rpc.calls, (s.wires ()).rpc.completed.map Prod.fst,
        decide (s.wires ()).Drained)) = some ([counterCall], [0], true) := by
    decide +kernel
  obtain ⟨s, hs, hFields⟩ := Option.map_eq_some_iff.mp hRun
  simp only [Prod.mk.injEq, decide_eq_true_eq] at hFields
  exact ⟨s, reaches_of_runAll hs, hFields⟩

theorem wired_simulated_oneCall :
    ∃ t : Cluster Unit Nat,
      Reaches (Cluster.step counterServer) (Cluster.start kSerializerRaw 5) t ∧
      (t.links ()).client.completed.map Prod.fst = [0] := by
  obtain ⟨s, hReach, -, hCompleted, -⟩ := oneCall_runs
  obtain ⟨t, hRun, -, -, hLinks⟩ := wired_simulated counterServer kSerializerRaw 5 s hReach
  exact ⟨t, hRun, by rw [(hLinks ()).1, hCompleted]⟩

theorem bounded_oneCall {s : Wired Unit Nat} (h : (s.wires ()).rpc.calls = [counterCall]) :
    Bounded counterServer s.above := by
  intro i
  have hCalls : (s.above.links i).client.calls = [counterCall] := h
  refine ⟨fun spec hSpec body hBody => ?_,
    fun spec _ world => length_execute_le resultsFit_counter spec.request world, ?_⟩
  · rw [hCalls, List.mem_singleton] at hSpec
    rw [RawCodec.length_of_encodeRequest hBody, hSpec]
    decide
  · rw [hCalls]
    decide

theorem wired_linearizable_oneCall :
    ∃ (s : Wired Unit Nat) (log : List (Entry Unit)), (s.wires ()).Drained ∧
      Linearization counterServer 5 s.above log := by
  obtain ⟨s, hReach, hCalls, -, hDrained⟩ := oneCall_runs
  obtain ⟨log, more, hLog, -⟩ := wired_linearizable counterServer 5 rfl rfl s s
    hReach .refl (bounded_oneCall hCalls)
  exact ⟨s, log, hDrained, hLog⟩

theorem wired_no_call_lost_oneCall :
    ∃ s : Wired Unit Nat, (s.wires ()).rpc.calls = [counterCall] ∧
      (s.wires ()).rpc.pendings = [] ∧ (s.wires ()).rpc.completedCalls.count 0 = 1 := by
  obtain ⟨s, hReach, hCalls, -, hDrained⟩ := oneCall_runs
  obtain ⟨log, -, hPendings, hCompleted, -⟩ := wired_no_call_lost counterServer 5 rfl rfl
    s hReach (bounded_oneCall hCalls) () hDrained
  exact ⟨s, hCalls, hPendings, hCompleted 0 (by rw [hCalls]; decide)⟩

end ReactorNet.Rpc
