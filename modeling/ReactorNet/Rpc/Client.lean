import ReactorNet.Lib.System
import ReactorNet.Net.Transport
import ReactorNet.Rpc.FrameReader
import ReactorNet.Rpc.Codec

/-!
# ReactorNet — the RPC client

`RpcClient` of `rpc/src/rpc_client.cpp`, on the thread of its loop. Completions
are user code: they run in the middle of the client's own functions and may start
further calls there. So the model is a machine whose state says where the thread
is: `Control` is the function of the client that is running, cut where it calls a
completion, and `running` are the completions it is in, innermost first. Each
function of the source is a definition that goes up to the next completion;
`Client.step` puts them together.

Calls are numbered in the order in which `startCallInLoop` ran for them. The
number stands for the completion that the call was given, and `completed` records
the completions that were invoked, with the response each of them got.
-/

namespace ReactorNet.Rpc

open Lib

/-- The arguments of `AsyncCall`. Of the timeout only the sign is looked at. -/
structure CallSpec where
  request : Request
  timeoutSeconds : Rat
  deriving DecidableEq

/-- A timer of the loop: its id, the request id its callback was given, and the
call it was armed for. -/
structure Timer where
  id : Nat
  requestId : UInt32
  call : Nat
  deriving DecidableEq, Repr

/-- One in-flight request; `complete` is the call whose completion it holds, and
an empty timer is `none`. -/
structure PendingCall where
  id : UInt32
  complete : Nat
  timer : Option Nat
  deriving DecidableEq, Repr

/-- What follows when all entries of a moved-out table have been failed. -/
inductive AfterFail where
  /-- `failConnection` closes the connection. -/
  | forceClose
  /-- `onConnection` returns; these calls were pending when it was called. -/
  | down (calls : List Nat)
  deriving DecidableEq

/-- Where the loop thread is. -/
inductive Control where
  | idle
  /-- In the loop of `onMessage`. -/
  | messageLoop
  /-- In the loop of `failAllPending`, with the entries still to be failed. -/
  | failing (rest : List (UInt32 × PendingCall)) (after : AfterFail)
  /-- Running the callbacks of expired timers. -/
  | expiring (rest : List Timer)
  deriving DecidableEq

structure Client where
  serializerId : UInt8 := kSerializerRaw
  frameReader : FrameReader := FrameReader.default
  /-- `connection_ != nullptr`. -/
  connection : Bool := false
  connected : Bool := false
  transport : Transport := ⟨.kDisconnected, [], false⟩
  input : Buffer := Buffer.new kInitialSize
  /-- The `unordered_map` of calls in flight. -/
  pendings : List (UInt32 × PendingCall) := []
  timedOutIds : List UInt32 := []
  timedOutIdSet : List UInt32 := []
  nextRequestId : UInt32 := 1
  timers : List Timer := []
  nextTimer : Nat := 0
  control : Control := .idle
  running : List Nat := []
  calls : List CallSpec := []
  completed : List (Nat × Response) := []
  fired : List Timer := []

def kMaxRememberedTimeouts : Nat := 1024

def connectionClosedResponse : Response := { status := .kConnectionClosed, payload := [] }

def badRequestResponse : Response := { status := .kBadRequest, payload := [] }

def timeoutResponse : Response := { status := .kTimeout, payload := [] }

/-- The header of a request frame. -/
def requestHeader (serializerId : UInt8) (requestId : UInt32) (body : Bytes) :
    MessageHeader where
  magic := kMagic
  version := kVersion
  type := .kRequest
  flags := 0
  status := .kOk
  serializerId := serializerId
  requestId := requestId
  bodyLen := UInt32.ofNat body.length

/-! ## The table of calls in flight -/

namespace Pendings

def find (m : List (UInt32 × PendingCall)) (id : UInt32) : Option PendingCall :=
  m.lookup id

/-- `emplace` keeps an entry that is there. -/
def emplace (m : List (UInt32 × PendingCall)) (id : UInt32) (p : PendingCall) :
    List (UInt32 × PendingCall) :=
  if (find m id).isSome then m else m ++ [(id, p)]

def setTimer (m : List (UInt32 × PendingCall)) (id : UInt32) (timer : Nat) :
    List (UInt32 × PendingCall) :=
  m.map fun e => if e.1 = id then (e.1, { e.2 with timer := some timer }) else e

/-- Erase the entry that `find` finds. -/
def erase (m : List (UInt32 × PendingCall)) (id : UInt32) : List (UInt32 × PendingCall) :=
  m.eraseP fun e => e.1 == id

variable {m : List (UInt32 × PendingCall)} {id : UInt32}

theorem find_eq_none_iff : find m id = none ↔ id ∉ m.map Prod.fst := by
  rw [find, List.lookup_eq_none_iff]
  constructor
  · intro h hMem
    obtain ⟨e, he, rfl⟩ := List.mem_map.mp hMem
    simpa using h e he
  · intro h e he
    have hNe : id ≠ e.1 := fun hId => h (hId ▸ List.mem_map_of_mem he)
    simpa using hNe

theorem emplace_of_find_none (h : find m id = none) (p : PendingCall) :
    emplace m id p = m ++ [(id, p)] := by
  simp [emplace, h]

theorem setTimer_of_find_none (h : find m id = none) (timer : Nat) :
    setTimer m id timer = m := by
  unfold setTimer
  conv_rhs => rw [← List.map_id m]
  refine List.map_congr_left fun e he => ?_
  have hNe : e.1 ≠ id := fun hId => find_eq_none_iff.mp h (hId ▸ List.mem_map_of_mem he)
  simp [hNe]

theorem map_fst_erase (m : List (UInt32 × PendingCall)) (id : UInt32) :
    (erase m id).map Prod.fst = (m.map Prod.fst).erase id := by
  rw [erase, List.erase_eq_eraseP', List.eraseP_map]
  rfl

/-- A table with distinct ids holds the erased one no longer. -/
theorem notMem_erase (h : (m.map Prod.fst).Nodup) : id ∉ (erase m id).map Prod.fst := by
  rw [map_fst_erase]
  exact h.not_mem_erase

end Pendings

namespace Client

/-- The completion of a call is invoked. -/
def complete (c : Client) (call : Nat) (response : Response) : Client :=
  { c with running := call :: c.running, completed := c.completed ++ [(call, response)] }

/-- An empty timer cancels nothing. A timer that is due and has left the queue is
not there to be cancelled either. -/
def cancelTimer (c : Client) (timer : Option Nat) : Client :=
  { c with timers := c.timers.filter fun t => some t.id != timer }

def wasTimedOut (c : Client) (id : UInt32) : Bool := c.timedOutIdSet.contains id

/-- The oldest id is forgotten when the memory is full. -/
def rememberTimedOut (c : Client) (id : UInt32) : Client :=
  let full := kMaxRememberedTimeouts ≤ c.timedOutIdSet.length
  let ids := if full then c.timedOutIds.tail else c.timedOutIds
  let idSet := if full then c.timedOutIdSet.filter fun x => some x != c.timedOutIds.head?
    else c.timedOutIdSet
  { c with
    timedOutIds := ids ++ [id]
    timedOutIdSet := if idSet.contains id then idSet else idSet ++ [id] }

/-- The loop of `allocateRequestId` from the counter's value on: the id that is
taken, and the counter after it. There is none only if every id is in use; the
source's loop does not end then. -/
def allocateFrom (pendings : List (UInt32 × PendingCall)) (timedOutIdSet : List UInt32) :
    Nat → UInt32 → Option (UInt32 × UInt32)
  | 0, _ => none
  | fuel + 1, id =>
    -- zero is reserved, and a late response must not meet a new call
    if id ≠ 0 ∧ Pendings.find pendings id = none ∧ timedOutIdSet.contains id = false then
      some (id, id + 1)
    else allocateFrom pendings timedOutIdSet fuel (id + 1)

def allocateRequestId (c : Client) : Option (UInt32 × UInt32) :=
  allocateFrom c.pendings c.timedOutIdSet (2 ^ 32) c.nextRequestId

/-- The call's entry in the table, and its timer, if it has a deadline. -/
def record (c : Client) (requestId : UInt32) (call : Nat) (timeoutSeconds : Rat) : Client :=
  let c := { c with pendings := Pendings.emplace c.pendings requestId ⟨requestId, call, none⟩ }
  if 0 < timeoutSeconds then
    { c with
      pendings := Pendings.setTimer c.pendings requestId c.nextTimer
      timers := c.timers ++ [⟨c.nextTimer, requestId, call⟩]
      nextTimer := c.nextTimer + 1 }
  else c

def startCallInLoop (c : Client) (spec : CallSpec) : Option Client :=
  let call := c.calls.length
  let c := { c with calls := c.calls ++ [spec] }
  -- no peer: the request is not even encoded
  if c.connection = false ∨ c.connected = false then
    some (c.complete call connectionClosedResponse)
  else
    match RawCodec.encodeRequest spec.request with
    -- an invalid request leaves the connection alone
    | none => some (c.complete call badRequestResponse)
    | some body =>
      match c.allocateRequestId with
      | none => none
      | some (requestId, next) =>
        let c := { c with nextRequestId := next }
        -- recorded before it is sent
        let c := c.record requestId call spec.timeoutSeconds
        let message := encodeFrame (requestHeader c.serializerId requestId body, body)
        some { c with transport := c.transport.send message }

def onTimeout (c : Client) (id : UInt32) : Client :=
  match Pendings.find c.pendings id with
  -- answered, failed or timed out before
  | none => c
  | some pending =>
    let c := { c with pendings := Pendings.erase c.pendings id }
    -- the timer has fired, so there is nothing to cancel
    (c.rememberTimedOut id).complete pending.complete timeoutResponse

/-- The table is moved out before any completion runs. -/
def failAllPending (c : Client) (after : AfterFail) : Client :=
  { c with pendings := [], control := .failing c.pendings after }

def failConnection (c : Client) : Client := c.failAllPending .forceClose

/-- `onConnection` for a connection that is up. -/
def onConnectionUp (c : Client) : Client :=
  { c with
    connection := true
    connected := true
    transport := Transport.established
    input := Buffer.new kInitialSize }

/-- `onConnection` for a connection that is down. -/
def onConnectionDown (c : Client) : Client :=
  let c :=
    { c with
      transport := { c.transport with state := .kDisconnected, closeQueued := false }
      connection := false
      connected := false }
  c.failAllPending (.down (c.pendings.map fun e => e.2.complete))

/-- The checks on a complete response frame. -/
def onResponse (c : Client) (header : MessageHeader) (body : Bytes) : Client :=
  -- all of these mean that the two ends disagree about the stream
  if header.version ≠ kVersion ∨ header.type ≠ .kResponse then c.failConnection
  else if header.serializerId ≠ c.serializerId then c.failConnection
  else
    let response : Response := { status := header.status, serializerId := header.serializerId }
    match RawCodec.decodeResponse body response with
    | none => c.failConnection
    | some response =>
      match Pendings.find c.pendings header.requestId with
      -- late, or an id that was never sent
      | none => if c.wasTimedOut header.requestId then c else c.failConnection
      | some pending =>
        -- out of the table before its completion runs: that may start another call
        let c := { c with pendings := Pendings.erase c.pendings header.requestId }
        (c.cancelTimer pending.timer).complete pending.complete response

/-- One pass of the loop in `onMessage`. -/
def onMessagePass (c : Client) : Client :=
  let p := c.frameReader.parse c.input MessageHeader.zero []
  match p.result with
  | .kNeedMore => { c with control := .idle }
  | .kProtocolError => c.failConnection
  | .kOk => { c with input := p.buf }.onResponse p.header p.body

/-! ## The machine -/

/-- What can happen next. The first three are also what a completion can do. -/
inductive Action where
  /-- `AsyncCall`, on the loop thread. -/
  | call (spec : CallSpec)
  /-- `disconnect`, on the loop thread. -/
  | disconnect
  /-- The innermost completion returns. -/
  | ret
  /-- The thread goes on; of a moved-out table, with the entry at this place. -/
  | resume (entry : Nat)
  /-- The connection is readable. -/
  | recv (chunk : Bytes)
  /-- These timers are due, in this order. -/
  | expire (due : List Timer)
  | up
  | down

/-- The thread goes on where it is, when no completion is running. -/
def resume (c : Client) (entry : Nat) : Option Client :=
  match c.control with
  | .idle => none
  | .messageLoop => some c.onMessagePass
  | .failing [] .forceClose =>
    some { c with
      control := .idle
      transport := if c.connection then c.transport.forceClose else c.transport }
  | .failing [] (.down _) => some { c with control := .idle }
  | .failing rest after =>
    -- the table is an `unordered_map`, so any entry may be the next
    match rest[entry]? with
    | none => none
    | some e =>
      let c := { c with control := .failing (rest.eraseIdx entry) after }
      some ((c.cancelTimer e.2.timer).complete e.2.complete connectionClosedResponse)
  | .expiring [] => some { c with control := .idle }
  | .expiring (t :: rest) => some ({ c with control := .expiring rest }.onTimeout t.requestId)

def step (c : Client) : Action → Option Client
  | .call spec =>
    -- user code runs in a completion, or while the loop is idle
    if c.running ≠ [] ∨ c.control = .idle then c.startCallInLoop spec else none
  | .disconnect =>
    if c.running ≠ [] ∨ c.control = .idle then
      some { c with transport := c.transport.shutdown }
    else none
  | .ret =>
    match c.running with
    | [] => none
    | _ :: rest => some { c with running := rest }
  | .resume entry => if c.running = [] then c.resume entry else none
  | .recv chunk =>
    -- a forced close that is queued runs before the next read
    if c.running = [] ∧ c.control = .idle ∧ c.transport.Reading ∧
        c.transport.closeQueued = false then
      some { c with input := c.input.append chunk, control := .messageLoop }
    else none
  | .expire due =>
    if c.running = [] ∧ c.control = .idle ∧ ∀ t ∈ due, t ∈ c.timers then
      some { c with
        -- due timers leave the queue before their callbacks run
        timers := c.timers.filter fun t => !due.contains t
        fired := c.fired ++ due
        control := .expiring due }
    else none
  | .up => if c.running = [] ∧ c.control = .idle then some c.onConnectionUp else none
  | .down => if c.running = [] ∧ c.control = .idle then some c.onConnectionDown else none

/-! ## What a step does

`Outcome` lists the steps with the states they lead to; every fact about runs of
the client is proved from it and not from the definitions above. -/

/-- The entry of a started call. -/
def entryFor (c : Client) (requestId : UInt32) (spec : CallSpec) : PendingCall :=
  ⟨requestId, c.calls.length, if 0 < spec.timeoutSeconds then some c.nextTimer else none⟩

/-- The client after a call was started: it is in the table, its timer is armed,
and its request has been handed to the connection. -/
def started (c : Client) (spec : CallSpec) (body : Bytes) (requestId next : UInt32) : Client :=
  { c with
    calls := c.calls ++ [spec]
    nextRequestId := next
    pendings := c.pendings ++ [(requestId, c.entryFor requestId spec)]
    timers := if 0 < spec.timeoutSeconds then
      c.timers ++ [⟨c.nextTimer, requestId, c.calls.length⟩] else c.timers
    nextTimer := if 0 < spec.timeoutSeconds then c.nextTimer + 1 else c.nextTimer
    transport := c.transport.send
      (encodeFrame (requestHeader c.serializerId requestId body, body)) }

/-- The client after a response was matched with its call. -/
def answered (c : Client) (n : Nat) (f : Frame) (pending : PendingCall) : Client :=
  { c with
    input := c.input.retrieve n
    pendings := Pendings.erase c.pendings f.1.requestId }.cancelTimer pending.timer
    |>.complete pending.complete
      { status := f.1.status, payload := f.2, serializerId := f.1.serializerId }

/-- A frame that no response can have. -/
def Alien (c : Client) (f : Frame) : Prop :=
  f.1.version ≠ kVersion ∨ f.1.type ≠ .kResponse ∨ f.1.serializerId ≠ c.serializerId ∨
    kMaxBodyLen < f.2.length ∨
    Pendings.find c.pendings f.1.requestId = none ∧ c.wasTimedOut f.1.requestId = false

/-- Every step of the client. -/
inductive Outcome (c : Client) : Action → Client → Prop
  /-- A call that fails at once, for want of a connection. -/
  | unconnected (spec : CallSpec) (h : c.connection = false ∨ c.connected = false) :
      Outcome c (.call spec)
        ({ c with calls := c.calls ++ [spec] }.complete c.calls.length connectionClosedResponse)
  /-- A call that fails at once, with a request that cannot be encoded. -/
  | unencodable (spec : CallSpec) (hUp : c.connection = true ∧ c.connected = true)
      (h : RawCodec.encodeRequest spec.request = none) :
      Outcome c (.call spec)
        ({ c with calls := c.calls ++ [spec] }.complete c.calls.length badRequestResponse)
  | started (spec : CallSpec) (body : Bytes) (requestId next : UInt32)
      (hUp : c.connection = true ∧ c.connected = true)
      (hBody : RawCodec.encodeRequest spec.request = some body)
      (hId : c.allocateRequestId = some (requestId, next)) :
      Outcome c (.call spec) (c.started spec body requestId next)
  | disconnected : Outcome c .disconnect { c with transport := c.transport.shutdown }
  | returned (call : Nat) (rest : List Nat) (h : c.running = call :: rest) :
      Outcome c .ret { c with running := rest }
  /-- The message loop waits for more of a frame. -/
  | waiting (entry : Nat) (hRunning : c.running = []) (hControl : c.control = .messageLoop)
      (hCut : c.frameReader.cutter.cut c.input.contents = .more) :
      Outcome c (.resume entry) { c with control := .idle }
  | broken (entry : Nat) (hRunning : c.running = []) (hControl : c.control = .messageLoop)
      (hCut : c.frameReader.cutter.cut c.input.contents = .broken) :
      Outcome c (.resume entry) c.failConnection
  | alien (entry : Nat) (f : Frame) (n : Nat) (hRunning : c.running = [])
      (hControl : c.control = .messageLoop)
      (hCut : c.frameReader.cutter.cut c.input.contents = .frame f n) (hAlien : c.Alien f) :
      Outcome c (.resume entry) { c with input := c.input.retrieve n }.failConnection
  /-- A late response is dropped. -/
  | late (entry : Nat) (f : Frame) (n : Nat) (hRunning : c.running = [])
      (hControl : c.control = .messageLoop)
      (hCut : c.frameReader.cutter.cut c.input.contents = .frame f n) (hAlien : ¬ c.Alien f)
      (hFind : Pendings.find c.pendings f.1.requestId = none) :
      Outcome c (.resume entry) { c with input := c.input.retrieve n }
  | answered (entry : Nat) (f : Frame) (n : Nat) (pending : PendingCall)
      (hRunning : c.running = []) (hControl : c.control = .messageLoop)
      (hCut : c.frameReader.cutter.cut c.input.contents = .frame f n) (hAlien : ¬ c.Alien f)
      (hFind : Pendings.find c.pendings f.1.requestId = some pending) :
      Outcome c (.resume entry) (c.answered n f pending)
  /-- An entry of a moved-out table is failed. -/
  | failed (entry : Nat) (rest : List (UInt32 × PendingCall)) (after : AfterFail)
      (e : UInt32 × PendingCall) (hRunning : c.running = [])
      (hControl : c.control = .failing rest after) (hEntry : rest[entry]? = some e) :
      Outcome c (.resume entry)
        (({ c with control := .failing (rest.eraseIdx entry) after }.cancelTimer e.2.timer).complete
          e.2.complete connectionClosedResponse)
  | closed (entry : Nat) (hRunning : c.running = [])
      (hControl : c.control = .failing [] .forceClose) :
      Outcome c (.resume entry)
        { c with
          control := .idle
          transport := if c.connection then c.transport.forceClose else c.transport }
  | gone (entry : Nat) (calls : List Nat) (hRunning : c.running = [])
      (hControl : c.control = .failing [] (.down calls)) :
      Outcome c (.resume entry) { c with control := .idle }
  | expiredAll (entry : Nat) (hRunning : c.running = []) (hControl : c.control = .expiring []) :
      Outcome c (.resume entry) { c with control := .idle }
  /-- A deadline of a call that is not pending any more. -/
  | stale (entry : Nat) (t : Timer) (rest : List Timer) (hRunning : c.running = [])
      (hControl : c.control = .expiring (t :: rest))
      (hFind : Pendings.find c.pendings t.requestId = none) :
      Outcome c (.resume entry) { c with control := .expiring rest }
  | timedOut (entry : Nat) (t : Timer) (rest : List Timer) (pending : PendingCall)
      (hRunning : c.running = []) (hControl : c.control = .expiring (t :: rest))
      (hFind : Pendings.find c.pendings t.requestId = some pending) :
      Outcome c (.resume entry)
        (({ c with
            control := .expiring rest
            pendings := Pendings.erase c.pendings t.requestId }.rememberTimedOut
              t.requestId).complete pending.complete timeoutResponse)
  | received (chunk : Bytes) (hRunning : c.running = []) (hControl : c.control = .idle)
      (hReading : c.transport.Reading) (hQueued : c.transport.closeQueued = false) :
      Outcome c (.recv chunk)
        { c with input := c.input.append chunk, control := .messageLoop }
  | expired (due : List Timer) (hRunning : c.running = []) (hControl : c.control = .idle)
      (hDue : ∀ t ∈ due, t ∈ c.timers) :
      Outcome c (.expire due)
        { c with
          timers := c.timers.filter fun t => !due.contains t
          fired := c.fired ++ due
          control := .expiring due }
  | up (hRunning : c.running = []) (hControl : c.control = .idle) :
      Outcome c .up c.onConnectionUp
  | down (hRunning : c.running = []) (hControl : c.control = .idle) :
      Outcome c .down c.onConnectionDown

/-- An id that is handed out is not zero, not in flight and not remembered. -/
theorem allocateFrom_spec {m : List (UInt32 × PendingCall)} {remembered : List UInt32}
    {fuel : Nat} {id requestId next : UInt32}
    (h : allocateFrom m remembered fuel id = some (requestId, next)) :
    requestId ≠ 0 ∧ Pendings.find m requestId = none ∧
      remembered.contains requestId = false ∧ next = requestId + 1 := by
  induction fuel generalizing id with
  | zero => cases h
  | succ fuel ih =>
    rw [allocateFrom] at h
    -- a pass takes its id, or skips it and leaves the question to the next one
    split_ifs at h with hFree
    · cases h
      exact ⟨hFree.1, hFree.2.1, hFree.2.2, rfl⟩
    · exact ih h

variable {c c' : Client}

/-- With a fresh id, `emplace` inserts, and the timer is the new entry's. -/
theorem record_eq {requestId : UInt32} (h : Pendings.find c.pendings requestId = none)
    (call : Nat) (timeoutSeconds : Rat) :
    c.record requestId call timeoutSeconds =
      { c with
        pendings := c.pendings ++
          [(requestId, ⟨requestId, call, if 0 < timeoutSeconds then some c.nextTimer else none⟩)]
        timers := if 0 < timeoutSeconds then
          c.timers ++ [⟨c.nextTimer, requestId, call⟩] else c.timers
        nextTimer := if 0 < timeoutSeconds then c.nextTimer + 1 else c.nextTimer } := by
  have hEmplace := Pendings.emplace_of_find_none h ⟨requestId, call, none⟩
  unfold record
  by_cases hT : 0 < timeoutSeconds
  · -- the entry with the fresh id is the only one whose timer is set
    have hOld := Pendings.setTimer_of_find_none h c.nextTimer
    simp only [hEmplace, hT, if_true]
    simp only [Pendings.setTimer, List.map_append] at hOld ⊢
    rw [hOld]
    simp
  · simp only [hEmplace, hT, if_false]

theorem startCallInLoop_outcome {spec : CallSpec} (h : c.startCallInLoop spec = some c') :
    Outcome c (.call spec) c' := by
  simp only [startCallInLoop] at h
  split_ifs at h with hUp
  · cases h
    exact .unconnected spec hUp
  · have hUp' : c.connection = true ∧ c.connected = true := by
      simpa using hUp
    cases hBody : RawCodec.encodeRequest spec.request with
    | none =>
      rw [hBody] at h
      cases h
      exact .unencodable spec hUp' hBody
    | some body =>
      rw [hBody] at h
      cases hId : c.allocateRequestId with
      | none =>
        have hId' : Client.allocateRequestId { c with calls := c.calls ++ [spec] } = none := hId
        simp only [hId'] at h
        cases h
      | some r =>
        obtain ⟨requestId, next⟩ := r
        have hId' : Client.allocateRequestId { c with calls := c.calls ++ [spec] } =
          some (requestId, next) := hId
        simp only [hId'] at h
        -- the id was free, so `emplace` inserts
        obtain ⟨-, hFree, -, -⟩ := allocateFrom_spec hId
        have hRecord := record_eq
          (c := { c with calls := c.calls ++ [spec], nextRequestId := next }) hFree
          c.calls.length spec.timeoutSeconds
        rw [hRecord] at h
        cases h
        exact .started spec body requestId next hUp' hBody hId

theorem onResponse_outcome {f : Frame} {n entry : Nat} (hRunning : c.running = [])
    (hControl : c.control = .messageLoop)
    (hCut : c.frameReader.cutter.cut c.input.contents = .frame f n) :
    Outcome c (.resume entry) ({ c with input := c.input.retrieve n }.onResponse f.1 f.2) := by
  by_cases hAlien : c.Alien f
  · -- one of the checks fails, and all of them end alike
    have hFail : { c with input := c.input.retrieve n }.onResponse f.1 f.2 =
        { c with input := c.input.retrieve n }.failConnection := by
      unfold onResponse
      -- by the check that fails first
      rcases hAlien with h | h | h | h | ⟨hFind, hLate⟩
      · rw [if_pos (.inl h)]
      · rw [if_pos (.inr h)]
      · simp [h]
      · simp [RawCodec.decodeResponse, h]
      · by_cases hLen : kMaxBodyLen < f.2.length
        · simp [RawCodec.decodeResponse, hLen]
        · have hLate' : wasTimedOut { c with input := c.input.retrieve n } f.1.requestId =
            false := hLate
          simp [RawCodec.decodeResponse, hLen, hFind, hLate']
    rw [hFail]
    exact .alien entry f n hRunning hControl hCut hAlien
  · -- all checks passed: only the table decides
    obtain ⟨hv, ht, hs, hLen, hKnown⟩ : f.1.version = kVersion ∧ f.1.type = .kResponse ∧
        f.1.serializerId = c.serializerId ∧ ¬ kMaxBodyLen < f.2.length ∧
        ¬ (Pendings.find c.pendings f.1.requestId = none ∧
          c.wasTimedOut f.1.requestId = false) := by
      unfold Alien at hAlien
      tauto
    have hPass : { c with input := c.input.retrieve n }.onResponse f.1 f.2 =
        match Pendings.find c.pendings f.1.requestId with
        | none => { c with input := c.input.retrieve n }
        | some pending => c.answered n f pending := by
      unfold onResponse
      rw [if_neg (by simp [hv, ht]), if_neg (by simp [hs])]
      simp only [RawCodec.decodeResponse, if_neg hLen]
      cases hFind : Pendings.find c.pendings f.1.requestId with
      | none =>
        have hLate : c.wasTimedOut f.1.requestId = true := by
          simpa [hFind] using hKnown
        exact if_pos hLate
      | some pending => rfl
    rw [hPass]
    cases hFind : Pendings.find c.pendings f.1.requestId with
    | none => exact .late entry f n hRunning hControl hCut hAlien hFind
    | some pending => exact .answered entry f n pending hRunning hControl hCut hAlien hFind

theorem resume_outcome {entry : Nat} (hRunning : c.running = []) (h : c.resume entry = some c') :
    Outcome c (.resume entry) c' := by
  unfold resume at h
  split at h
  · cases h
  · rename_i hControl
    cases h
    -- the message loop, by the reader's verdict
    cases hCut : c.frameReader.cutter.cut c.input.contents with
    | more =>
      rw [onMessagePass, FrameReader.parse_of_more hCut]
      exact .waiting entry hRunning hControl hCut
    | broken =>
      rw [onMessagePass, FrameReader.parse_of_broken hCut]
      exact .broken entry hRunning hControl hCut
    | frame f n =>
      rw [onMessagePass, FrameReader.parse_of_frame hCut]
      exact onResponse_outcome hRunning hControl hCut
  · rename_i hControl
    cases h
    exact .closed entry hRunning hControl
  · rename_i calls hControl
    cases h
    exact .gone entry calls hRunning hControl
  · rename_i rest after _ _ hControl
    split at h
    · cases h
    · rename_i e hEntry
      cases h
      exact .failed entry rest after e hRunning hControl hEntry
  · rename_i hControl
    cases h
    exact .expiredAll entry hRunning hControl
  · rename_i t rest hControl
    cases h
    unfold onTimeout
    -- the deadline of a call that is still pending, or of none
    cases hFind : Pendings.find c.pendings t.requestId with
    | none => exact .stale entry t rest hRunning hControl hFind
    | some pending => exact .timedOut entry t rest pending hRunning hControl hFind

/-- **Every step of the client is one of its outcomes.** -/
theorem step_outcome {a : Action} (h : c.step a = some c') : Outcome c a c' := by
  cases a with
  | call spec =>
    simp only [step] at h
    split_ifs at h
    exact startCallInLoop_outcome h
  | disconnect =>
    simp only [step] at h
    split_ifs at h
    cases h
    exact .disconnected
  | ret =>
    simp only [step] at h
    split at h
    · cases h
    · rename_i call rest hRunning
      cases h
      exact .returned call rest hRunning
  | resume entry =>
    simp only [step] at h
    split_ifs at h with hRunning
    exact resume_outcome hRunning h
  | recv chunk =>
    simp only [step] at h
    split_ifs at h with hGuard
    cases h
    exact .received chunk hGuard.1 hGuard.2.1 hGuard.2.2.1 hGuard.2.2.2
  | expire due =>
    simp only [step] at h
    split_ifs at h with hGuard
    cases h
    exact .expired due hGuard.1 hGuard.2.1 hGuard.2.2
  | up =>
    simp only [step] at h
    split_ifs at h with hGuard
    cases h
    exact .up hGuard.1 hGuard.2
  | down =>
    simp only [step] at h
    split_ifs at h with hGuard
    cases h
    exact .down hGuard.1 hGuard.2

end Client

end ReactorNet.Rpc
