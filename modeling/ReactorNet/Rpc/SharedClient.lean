import ReactorNet.Net.ConnectorAttempts
import ReactorNet.Net.ConnectorCallbacks
import ReactorNet.Rpc.Completion

/-!
# ReactorNet — a client that several threads use

`RpcClient` with the `TcpClient` and the `Connector` under it. On the loop thread run the
client (`Client`), the connector (`Connector`) and the functors that were queued; other
threads are in `RpcClient::connect`, which is cut where it reads or writes something that
is shared, or call `disconnect`, which only queues a functor there.

The connector's callbacks are `TcpClient::newConnection` and `RpcClient::onConnectError`.
They run no user code, so every attempt is started by a functor, when the loop has
dispatched all events: the connector of a client starts clean (`connector_reachesBy`).

The asserts of the source are left out, as in a release build: a thread that finds a connect
in progress, or a client that was connected before, returns.
-/

namespace ReactorNet

namespace Rpc

open Lib

/-- Where a thread is in `RpcClient::connect`. -/
inductive ConnectPc where
  | entered
  /-- `connected_` was false. -/
  | notConnected
  /-- `everConnected_` was false as well. -/
  | neverConnected
  /-- `pendingConnect_` is the thread's promise, and `TcpClient::connect` comes next. -/
  | installed
  /-- In `future.wait()`. -/
  | waiting
  | returned
  deriving DecidableEq, Repr

/-- The functors of `Connector::start` and of `TcpClient::disconnect`. -/
inductive ClientTask where
  | start
  | disconnect
  deriving DecidableEq, Repr

structure SharedClient where
  /-- `TcpClient::connection_` is set when `RpcClient::connection_` is. -/
  client : Client
  connector : Connector := {}
  everConnected : Bool := false
  /-- `pendingConnect_`, by the thread whose promise it is. -/
  pendingConnect : Option Nat := none
  /-- The promises that have got their value. -/
  fulfilled : List (Nat × Bool) := []
  threads : List ConnectPc := []
  tasks : List ClientTask := []

namespace SharedClient

/-! ## On the loop thread -/

/-- `pendingConnect_` is moved out and gets its value. -/
def fulfil (s : SharedClient) (value : Bool) : SharedClient :=
  match s.pendingConnect with
  | none => s
  | some p => { s with pendingConnect := none, fulfilled := s.fulfilled ++ [(p, value)] }

/-- `TcpClient::newConnection`, with the `onConnection` that it leads to. -/
def newConnection (s : SharedClient) : SharedClient :=
  { s with client := s.client.onConnectionUp, everConnected := true }.fulfil true

def onConnectError (s : SharedClient) : SharedClient := s.fulfil false

def onConnectorEvent (s : SharedClient) : ConnectorEvent → SharedClient
  | .newConnection .. => s.newConnection
  | .connectError .. => s.onConnectError
  | _ => s

/-- The connector goes on to a new state, and calls back. -/
def hear (s : SharedClient) (c : Connector) : SharedClient :=
  (c.log.drop s.connector.log.length).foldl onConnectorEvent { s with connector := c }

def connectorStep (s : SharedClient) (a : Connector.Action) : Option SharedClient :=
  (s.connector.step a).map s.hear

/-- The functor of `TcpClient::disconnect`. -/
def disconnectInLoop (s : SharedClient) : Option SharedClient :=
  if s.client.connection then
    some { s with client := { s.client with transport := s.client.transport.shutdown } }
  -- the handshake has not completed, or never will
  else s.connectorStep .stop

/-- The loop is in none of the client's functions. -/
def Idle (s : SharedClient) : Prop := s.client.running = [] ∧ s.client.control = .idle

instance (s : SharedClient) : Decidable s.Idle := inferInstanceAs (Decidable (_ ∧ _))

/-- The client goes on, or user code on the loop thread calls it. -/
def clientStep (s : SharedClient) : Client.Action → Option SharedClient
  -- only the connector brings a connection up
  | .up => none
  | .down =>
    if s.client.transport.Reading then
      (s.client.step .down).map fun c => { s with client := c }.fulfil false
    else none
  | .disconnect =>
    -- on the loop thread `runInLoop` does not queue
    if s.client.running ≠ [] ∨ s.client.control = .idle then s.disconnectInLoop else none
  | a => (s.client.step a).map fun c => { s with client := c }

/-- Every event of the round has been dispatched. -/
def Settled (s : SharedClient) : Prop :=
  s.connector.control = .loop ∧ s.connector.ready = none ∧ s.connector.due = none

instance (s : SharedClient) : Decidable s.Settled := inferInstanceAs (Decidable (_ ∧ _ ∧ _))

/-- The first functor of the queue runs; for an attempt, with what the system calls return. -/
def runTask (s : SharedClient) (socket : Except Nat Nat) (savedErrno : Nat) :
    Option SharedClient :=
  match s.tasks with
  | [] => none
  | .start :: rest => { s with tasks := rest }.connectorStep (.start socket savedErrno)
  | .disconnect :: rest => { s with tasks := rest }.disconnectInLoop

/-! ## On the other threads -/

def goTo (s : SharedClient) (i : Nat) (pc : ConnectPc) : SharedClient :=
  { s with threads := s.threads.set i pc }

/-- `RpcClient::connect`, by one access to what is shared. -/
def proceed (s : SharedClient) (i : Nat) : Option SharedClient :=
  match s.threads[i]? with
  | some .entered => some (s.goTo i (if s.client.connected then .returned else .notConnected))
  | some .notConnected => some (s.goTo i (if s.everConnected then .returned else .neverConnected))
  | some .neverConnected =>
    -- one attempt at a time
    if s.pendingConnect.isSome then some (s.goTo i .returned)
    else some { s.goTo i .installed with pendingConnect := some i }
  | some .installed => some { s.goTo i .waiting with tasks := s.tasks ++ [.start] }
  | some .waiting =>
    if i ∈ s.fulfilled.map Prod.fst then some (s.goTo i .returned) else none
  | some .returned | none => none

/-! ## The machine -/

inductive Action where
  /-- A thread calls `connect`. -/
  | connect
  | proceed (i : Nat)
  /-- `disconnect` on another thread. -/
  | disconnect
  | task (socket : Except Nat Nat) (savedErrno : Nat)
  | connector (a : Connector.Action)
  | client (a : Client.Action)

def step (s : SharedClient) : Action → Option SharedClient
  | .connect => some { s with threads := s.threads ++ [.entered] }
  | .proceed i => s.proceed i
  | .disconnect => some { s with tasks := s.tasks ++ [.disconnect] }
  | .task socket savedErrno =>
    if s.Idle ∧ s.Settled then s.runTask socket savedErrno else none
  -- a start comes from the queue, and a stop from a disconnect
  | .connector a => if s.Idle ∧ a.fromLoop = true then s.connectorStep a else none
  | .client a => if s.connector.control = .loop then s.clientStep a else none

/-- A client before its first attempt. -/
def new (serializerId : UInt8) (frameReader : FrameReader) : SharedClient where
  client := Client.new serializerId frameReader

/-- What a step does, with what had to hold for it. -/
inductive Outcome (s : SharedClient) : Action → SharedClient → Prop
  | entered : Outcome s .connect { s with threads := s.threads ++ [.entered] }
  /-- A thread goes on, and only the thread. -/
  | moved (i : Nat) (pc pc' : ConnectPc) (hPc : s.threads[i]? = some pc) (hFrom : pc ≠ .installed)
      (hTo : pc' ≠ .installed) : Outcome s (.proceed i) (s.goTo i pc')
  | installed (i : Nat) (hPc : s.threads[i]? = some .neverConnected)
      (hNone : s.pendingConnect = none) :
      Outcome s (.proceed i) { s.goTo i .installed with pendingConnect := some i }
  | queued (i : Nat) (hPc : s.threads[i]? = some .installed) :
      Outcome s (.proceed i) { s.goTo i .waiting with tasks := s.tasks ++ [.start] }
  | queuedDisconnect : Outcome s .disconnect { s with tasks := s.tasks ++ [.disconnect] }
  | started (socket : Except Nat Nat) (savedErrno : Nat) (rest : List ClientTask)
      (c : Connector) (hTasks : s.tasks = .start :: rest) (hSettled : s.Settled)
      (hStep : s.connector.step (.start socket savedErrno) = some c) :
      Outcome s (.task socket savedErrno) ({ s with tasks := rest }.hear c)
  /-- The functor shuts a connection down. -/
  | shutTask (socket : Except Nat Nat) (savedErrno : Nat) (rest : List ClientTask)
      (hTasks : s.tasks = .disconnect :: rest) (hUp : s.client.connection = true) :
      Outcome s (.task socket savedErrno)
        { s with
          tasks := rest
          client := { s.client with transport := s.client.transport.shutdown } }
  /-- The functor stops the connector. -/
  | stoppedTask (socket : Except Nat Nat) (savedErrno : Nat) (rest : List ClientTask)
      (c : Connector) (hTasks : s.tasks = .disconnect :: rest)
      (hStep : s.connector.step .stop = some c) :
      Outcome s (.task socket savedErrno) ({ s with tasks := rest }.hear c)
  | connector (a : Connector.Action) (c : Connector) (hIdle : s.Idle) (hLoop : a.fromLoop = true)
      (hStep : s.connector.step a = some c) : Outcome s (.connector a) (s.hear c)
  | shut (hControl : s.connector.control = .loop) (hUp : s.client.connection = true) :
      Outcome s (.client .disconnect)
        { s with client := { s.client with transport := s.client.transport.shutdown } }
  | stopped (c : Connector) (hControl : s.connector.control = .loop)
      (hStep : s.connector.step .stop = some c) : Outcome s (.client .disconnect) (s.hear c)
  | down (c : Client) (hControl : s.connector.control = .loop)
      (hReading : s.client.transport.Reading) (hStep : s.client.step .down = some c) :
      Outcome s (.client .down) ({ s with client := c }.fulfil false)
  | client (a : Client.Action) (c : Client) (hControl : s.connector.control = .loop)
      (hStep : s.client.step a = some c) (hUp : a ≠ .up) (hDown : a ≠ .down)
      (hDisconnect : a ≠ .disconnect) : Outcome s (.client a) { s with client := c }

variable {s s' : SharedClient}

theorem proceed_outcome {i : Nat} (h : s.proceed i = some s') : Outcome s (.proceed i) s' := by
  unfold proceed at h
  split at h
  · cases h
    refine .moved i _ _ ‹_› (by simp) ?_
    split <;> simp
  · cases h
    refine .moved i _ _ ‹_› (by simp) ?_
    split <;> simp
  · split_ifs at h with hSome
    · cases h
      exact .moved i _ _ ‹_› (by simp) (by simp)
    · cases h
      exact .installed i ‹_› (by simpa using hSome)
  · cases h
    exact .queued i ‹_›
  · split_ifs at h
    cases h
    exact .moved i _ _ ‹_› (by simp) (by simp)
  · cases h
  · cases h

theorem runTask_outcome {socket : Except Nat Nat} {savedErrno : Nat} (hSettled : s.Settled)
    (h : s.runTask socket savedErrno = some s') : Outcome s (.task socket savedErrno) s' := by
  unfold runTask at h
  split at h
  · cases h
  · obtain ⟨c, hc, rfl⟩ := Option.map_eq_some_iff.mp h
    exact .started socket savedErrno _ c ‹_› hSettled hc
  · unfold disconnectInLoop at h
    split_ifs at h with hUp
    · cases h
      exact .shutTask socket savedErrno _ ‹_› hUp
    · obtain ⟨c, hc, rfl⟩ := Option.map_eq_some_iff.mp h
      exact .stoppedTask socket savedErrno _ c ‹_› hc

theorem clientStep_outcome {a : Client.Action} (hControl : s.connector.control = .loop)
    (h : s.clientStep a = some s') : Outcome s (.client a) s' := by
  unfold clientStep at h
  split at h
  · cases h
  · split_ifs at h with hReading
    obtain ⟨c, hc, rfl⟩ := Option.map_eq_some_iff.mp h
    exact .down c hControl hReading hc
  · split_ifs at h
    unfold disconnectInLoop at h
    split_ifs at h with hUp
    · cases h
      exact .shut hControl hUp
    · obtain ⟨c, hc, rfl⟩ := Option.map_eq_some_iff.mp h
      exact .stopped c hControl hc
  · obtain ⟨c, hc, rfl⟩ := Option.map_eq_some_iff.mp h
    exact .client a c hControl hc ‹_› ‹_› ‹_›

/-- **Inversion of a step.** -/
theorem step_outcome {a : Action} (h : s.step a = some s') : Outcome s a s' := by
  cases a with
  | connect =>
    cases h
    exact .entered
  | proceed i => exact proceed_outcome h
  | disconnect =>
    cases h
    exact .queuedDisconnect
  | task socket savedErrno =>
    simp only [step] at h
    split_ifs at h with hReady
    exact runTask_outcome hReady.2 h
  | connector a =>
    simp only [step] at h
    split_ifs at h with hReady
    obtain ⟨c, hc, rfl⟩ := Option.map_eq_some_iff.mp h
    exact .connector a c hReady.1 hReady.2 hc
  | client a =>
    simp only [step] at h
    split_ifs at h with hControl
    exact clientStep_outcome hControl h

/-! ## What the client hears -/

variable {s s' : SharedClient}

@[simp] theorem fulfil_connector (s : SharedClient) (v : Bool) :
    (s.fulfil v).connector = s.connector := by
  unfold fulfil
  split <;> rfl

@[simp] theorem fulfil_client (s : SharedClient) (v : Bool) : (s.fulfil v).client = s.client := by
  unfold fulfil
  split <;> rfl

@[simp] theorem fulfil_threads (s : SharedClient) (v : Bool) :
    (s.fulfil v).threads = s.threads := by
  unfold fulfil
  split <;> rfl

@[simp] theorem fulfil_tasks (s : SharedClient) (v : Bool) : (s.fulfil v).tasks = s.tasks := by
  unfold fulfil
  split <;> rfl

@[simp] theorem fulfil_pendingConnect (s : SharedClient) (v : Bool) :
    (s.fulfil v).pendingConnect = none := by
  unfold fulfil
  split
  · assumption
  · rfl

theorem mem_fulfil {p : Nat} (h : s.pendingConnect = some p) (v : Bool) :
    (p, v) ∈ (s.fulfil v).fulfilled := by
  simp [fulfil, h]

theorem hear_append {c : Connector} {es : List ConnectorEvent}
    (hLog : c.log = s.connector.log ++ es) :
    s.hear c = es.foldl onConnectorEvent { s with connector := c } := by
  rw [hear, hLog, List.drop_left]

theorem foldl_quiet {es : List ConnectorEvent} (hQuiet : ∀ e ∈ es, e.isCallback = false)
    (s : SharedClient) : es.foldl onConnectorEvent s = s := by
  induction es with
  | nil => rfl
  | cons e es ih =>
    obtain ⟨hE, hEs⟩ := List.forall_mem_cons.mp hQuiet
    rw [List.foldl_cons]
    cases e with
    | newConnection | connectError => cases hE
    | socket | close | stopped | dangling => exact ih hEs

@[simp] theorem hear_connector (s : SharedClient) (c : Connector) :
    (s.hear c).connector = c := by
  unfold hear
  generalize c.log.drop s.connector.log.length = es
  -- no event changes the connector
  have hFold : ∀ (es : List ConnectorEvent) (s : SharedClient),
      (es.foldl onConnectorEvent s).connector = s.connector := by
    intro es
    induction es with
    | nil => exact fun _ => rfl
    | cons e es ih =>
      intro s
      rw [List.foldl_cons, ih]
      cases e with
      | newConnection | connectError => exact fulfil_connector ..
      | socket | close | stopped | dangling => rfl
  exact hFold es _

/-- **The connector of a client** only makes steps of its own machine, and it starts clean. -/
theorem connector_reachesBy {serializerId : UInt8} {frameReader : FrameReader}
    (h : Reaches step (new serializerId frameReader) s) :
    ReachesBy Connector.step Connector.StartsClean {} s.connector := by
  refine h.invariant (P := fun s => ReachesBy Connector.step Connector.StartsClean {} s.connector)
    .refl fun s s' a hStep hReach => ?_
  cases step_outcome hStep with
  | entered | moved | installed | queued | queuedDisconnect | shutTask | shut | client => exact hReach
  | down => simpa using hReach
  | started socket savedErrno rest c hTasks hSettled hStart =>
    -- functors run between the turns, when no event is left over
    rw [hear_connector]
    obtain ⟨hControl, hReady, hDue⟩ := hSettled
    have hClean : s.connector.leftover = false := by
      simp [Connector.leftover, hControl, hReady, hDue]
    exact hReach.next (.start socket savedErrno) (.inr (.inr hClean)) hStart
  | stoppedTask socket savedErrno rest c hTasks hStop =>
    rw [hear_connector]
    exact hReach.next .stop trivial hStop
  | connector a c hIdle hLoop hEvent =>
    rw [hear_connector]
    refine hReach.next a ?_ hEvent
    cases a with
    | start => cases hLoop
    | configure | stop | destroy | poll | handleEvent | writeBranch | expire | timeout => trivial
  | stopped c hControl hStop =>
    rw [hear_connector]
    exact hReach.next .stop trivial hStop

end SharedClient

end Rpc

end ReactorNet
