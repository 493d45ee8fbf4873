import ReactorNet.Net.Upcalls

/-!
# ReactorNet — an end of a connection in the turns of its loop

`TcpConnection` leaves two things to its surroundings: when the loop gets to the functors
that were queued, and what the reads find. Here they are settled. A turn of the loop
dispatches at most one event of the channel, and then runs the functors that were queued up
to then (`polled`, `batch`). A read finds the next bytes of what the peer has written, or
the end of its stream; a socket whose peer is gone takes nothing more.

Main results: `Endpoint.sound_step` — a forced close is carried out before the channel is read
again, and what was written is a front part of what was sent — and `Endpoint.effect_of_step`,
which is all that the layers above use of a step.
-/

namespace ReactorNet

open Lib

/-- What a read of the socket finds. -/
inductive Arrival where
  /-- Up to so many of the bytes that the peer has written. -/
  | data (n : Nat)
  | eof
  | failed (errno : Errno)
  deriving DecidableEq, Repr

def WriteResult.isFailed : WriteResult → Bool
  | .accepted _ => false
  | .failed _ => true

def ReadResult.size : ReadResult → Nat
  | .bytes chunk => chunk.length
  | .failed _ => 0

/-- What user code does, to a connection as the RPC layer sees it. -/
def Transport.user (t : Transport) : TcpConnection.UserOp → Transport
  | .send message _ => t.send message
  | .shutdown => t.shutdown
  | .forceClose => t.forceClose

theorem Transport.user_of_disconnected {t : Transport} (h : t.state = .kDisconnected)
    (op : TcpConnection.UserOp) : t.user op = t := by
  cases op with
  | send message w => exact Transport.send_of_not_connected (by simp [h]) message
  | shutdown => simp [Transport.user, Transport.shutdown, h]
  | forceClose => simp [Transport.user, Transport.forceClose, h]

theorem Transport.Reading.user {t : Transport} (h : t.Reading) (op : TcpConnection.UserOp) :
    (t.user op).Reading := by
  cases op with
  | send message w => exact h.send message
  | shutdown => exact h.shutdown
  | forceClose => exact h.forceClose

theorem TcpConnection.transport_user (c : TcpConnection) (op : UserOp) :
    (c.user op).transport = c.transport.user op := by
  cases op with
  | send message w => exact transport_send c message w
  | shutdown => exact transport_shutdown c
  | forceClose => exact transport_forceClose c

theorem TcpConnection.inputBuffer_user (c : TcpConnection) (op : UserOp) :
    (c.user op).inputBuffer = c.inputBuffer := by
  cases op with
  | send message w =>
    simp only [user, send]
    split_ifs
    · exact inputBuffer_sendInLoop c message w
    · rfl
  | shutdown =>
    simp only [user, shutdown, shutdownInLoop]
    split_ifs <;> rfl
  | forceClose =>
    simp only [user, forceClose]
    split_ifs <;> rfl

theorem TcpConnection.stack_user (c : TcpConnection) (op : UserOp) :
    (c.user op).stack = c.stack := by
  obtain ⟨state, tasks, -, hWorks⟩ := works_user c op
  exact hWorks.stack

/-- Only a forced close queues one. -/
theorem TcpConnection.tasks_user (c : TcpConnection) (op : UserOp) :
    ∃ ts, (c.user op).tasks = c.tasks ++ ts ∧
      ∀ t ∈ ts, t = .writeComplete ∨ t = .forceCloseInLoop ∧ op = .forceClose := by
  cases op with
  | send message w =>
    obtain ⟨ts, hTasks, hTs⟩ := (works_sendInLoop c message w).tasks
    simp only [user, send]
    split_ifs
    · exact ⟨ts, hTasks, fun t ht => .inl (hTs t ht)⟩
    · exact ⟨[], (List.append_nil _).symm, by simp⟩
  | shutdown =>
    refine ⟨[], ?_, by simp⟩
    simp only [user, shutdown, shutdownInLoop, List.append_nil]
    split_ifs <;> rfl
  | forceClose =>
    simp only [user, forceClose]
    split_ifs
    · exact ⟨[.forceCloseInLoop], rfl, by simp⟩
    · exact ⟨[], (List.append_nil _).symm, by simp⟩

structure Endpoint where
  tcp : TcpConnection := {}
  /-- An event of the channel was dispatched in this turn. -/
  polled : Bool := false
  /-- The functors that `doPendingFunctors` has swapped out and not run yet. They are the first
  ones of `tasks`. -/
  batch : Nat := 0
  /-- How many bytes of the peer's stream have been read. -/
  received : Nat := 0
  /-- The end of the peer's stream has been read. -/
  ended : Bool := false
  /-- A write has found that the peer is gone. -/
  dead : Bool := false

namespace Endpoint

open TcpConnection

/-- What happens at an end of the connection, on the thread of its loop. -/
inductive Action where
  | connectEstablished
  | event (revents : Revents)
  | resume (arrival : Arrival) (w : WriteResult)
  | ret
  /-- The events of the turn are dispatched, and the queued functors are swapped out. -/
  | doPendingFunctors
  | task (w : WriteResult)
  | removeConnection
  deriving DecidableEq, Repr

/-- The result of a read, when the peer has written `stream`. -/
def read (e : Endpoint) (stream : Bytes) : Arrival → ReadResult
  | .data n =>
    if e.ended then .bytes []
    -- nothing has arrived
    else if slice stream e.received n = [] then .failed .EAGAIN
    else .bytes (slice stream e.received n)
  | .eof => .bytes []
  | .failed errno => .failed errno

/-- A socket whose peer is gone takes nothing. -/
def Allows (e : Endpoint) (w : WriteResult) : Prop := e.dead = true → w.isFailed = true

instance (e : Endpoint) (w : WriteResult) : Decidable (e.Allows w) :=
  inferInstanceAs (Decidable (_ → _))

def step (stream : Bytes) (e : Endpoint) : Action → Option Endpoint
  | .connectEstablished => (e.tcp.step .connectEstablished).map fun tcp => { e with tcp := tcp }
  | .event m =>
    -- one event in a turn, and none while functors run
    if e.polled = false ∧ e.batch = 0 ∧ m.Reported then
      (e.tcp.step (.event m)).map fun tcp => { e with tcp := tcp, polled := true }
    else none
  | .resume arrival w =>
    if e.Allows w then
      (e.tcp.step (.resume (e.read stream arrival) w)).map fun tcp =>
        { e with
          tcp := tcp
          received :=
            if e.tcp.upcall tcp = some .messageCallback then
              e.received + (e.read stream arrival).size
            else e.received
          ended := e.ended || (e.tcp.readsNext && e.read stream arrival == .bytes [])
          dead := e.dead || w.fatal }
    else none
  | .ret => (e.tcp.step .ret).map fun tcp => { e with tcp := tcp }
  | .doPendingFunctors =>
    if e.tcp.stack = [] ∧ e.batch = 0 then
      some { e with polled := false, batch := e.tcp.tasks.length }
    else none
  | .task w =>
    if 0 < e.batch ∧ e.Allows w then
      (e.tcp.step (.task w)).map fun tcp =>
        { e with tcp := tcp, batch := e.batch - 1, dead := e.dead || w.fatal }
    else none
  | .removeConnection => (e.tcp.step .removeConnection).map fun tcp => { e with tcp := tcp }

/-- User code on the thread of the loop. -/
def user (e : Endpoint) : UserOp → Option Endpoint
  | .send message w =>
    if e.Allows w then
      some { e with tcp := e.tcp.send message w, dead := e.dead || w.fatal }
    else none
  | .shutdown => some { e with tcp := e.tcp.shutdown }
  | .forceClose => some { e with tcp := e.tcp.forceClose }

/-- Several calls of user code, one after the other. -/
def users : Endpoint → List UserOp → Option Endpoint
  | e, [] => some e
  | e, op :: ops => (e.user op).bind fun e' => e'.users ops

/-! ## Turns of the loop -/

/-- A turn up to the callback of a read. -/
def upToRead (arrival : Arrival) : List Action :=
  [.event { epollin := true }, .resume .eof (.accepted 0), .resume .eof (.accepted 0),
    .resume arrival (.accepted 0)]

/-- The rest of the turn. -/
def afterRead : List Action := [.ret, .resume .eof (.accepted 0), .doPendingFunctors]

/-- A turn in which the socket can be written. -/
def writeTurn : List Action :=
  [.event { epollout := true }, .resume .eof (.accepted 0), .resume .eof (.accepted 0),
    .resume .eof (.accepted 0), .resume .eof (.accepted 50), .ret, .resume .eof (.accepted 0),
    .doPendingFunctors]

/-! ## The invariant -/

/-- The connection is in one of its lives, and its stream has no gaps. -/
structure Faithful (dead : Bool) (c : TcpConnection) : Prop where
  life : Lifecycle c
  posted : ∀ m, .sendInLoop m ∉ c.tasks
  owes : dead = false → Owes [] c
  written : writtenBytes c.log <+: (sentMessages c.log).flatten

variable {c : TcpConnection}

/-- Nothing that is written was not sent, as long as the connection is up. -/
theorem written_of_owes (h : Owes [] c) (hUp : c.state ≠ .kDisconnected) :
    writtenBytes c.log <+: (sentMessages c.log).flatten :=
  ⟨c.outputBuffer.contents, by simpa using h.stream hUp⟩

theorem posted_of_step {c' : TcpConnection} (h : ∀ m, .sendInLoop m ∉ c.tasks)
    {a : TcpConnection.Action} (hOwn : a.isOwn = true) (hStep : c.step a = some c') :
    ∀ m, .sendInLoop m ∉ c'.tasks := by
  cases step_outcome hStep with
  | established | reported | returned => exact h
  | dispatched m b rest r w =>
    rw [(dispatch_frame { c with stack := rest } m r w b).1]
    exact h
  | afterWriteComplete rest =>
    obtain ⟨ts, hTasks, hTs⟩ := (works_afterWriteComplete { c with stack := rest }).tasks
    intro m hMem
    rw [hTasks, List.mem_append] at hMem
    exact hMem.elim (h m) fun hIn => by cases hTs _ hIn
  | afterDisconnected | afterDestroyed => exact h
  | user | posted => cases hOwn
  | ran w t rest hStack hTasks =>
    -- the functor run is no send, and queues none
    have hNot : ∀ m, t ≠ .sendInLoop m := by
      intro m ht
      exact h m (hTasks ▸ ht ▸ List.mem_cons_self ..)
    intro m hMem
    rw [tasks_runTask _ _ hNot] at hMem
    exact h m (hTasks ▸ List.mem_cons_of_mem _ hMem)
  | removed =>
    intro m hMem
    simp only [queueInLoop, List.mem_append, List.mem_singleton] at hMem
    exact hMem.elim (h m) (by simp)

theorem Faithful.step {dead dead' : Bool} {c' : TcpConnection} (h : Faithful dead c)
    {a : TcpConnection.Action} (hStep : c.step a = some c') (hOwn : a.isOwn = true)
    (hReported : a.Reported) (hHealthy : dead' = false → dead = false ∧ a.Healthy)
    (hAccepts : a.accepts = true → dead' = false) : Faithful dead' c' := by
  have hOwes : dead' = false → Owes [] c' := fun hAlive =>
    owes_step h.life (hHealthy hAlive).2 hStep (h.owes (hHealthy hAlive).1)
  refine ⟨lifecycle_step hReported hStep h.life, posted_of_step h.posted hOwn hStep, hOwes, ?_⟩
  have hLogs := (seen_of_step h.life h.posted hOwn hStep).2
  rcases hLogs.writtenBytes with hSame | ⟨hUp, hTaken⟩
  · rw [hSame, hLogs.sentMessages]
    exact h.written
  · exact written_of_owes (hOwes (hAccepts hTaken)) hUp

/-- What the turns of the loop make sure of. -/
structure Turns (e : Endpoint) : Prop where
  /-- A dispatch is of this turn. -/
  dispatching : ∀ m b, .dispatch m b ∈ e.tcp.stack → e.polled = true
  /-- A forced close that is queued and not swapped out was asked for in this turn. -/
  prompt : .forceCloseInLoop ∈ e.tcp.tasks.drop e.batch → e.polled = true
  /-- Up to its read branch a dispatch has called nothing, and no forced close is queued. -/
  ahead : ∀ m b, .dispatch m b ∈ e.tcp.stack → b ≠ .write → e.tcp.state ≠ .kDisconnected →
    e.tcp.stack = [.dispatch m b] ∧ .forceCloseInLoop ∉ e.tcp.tasks

namespace Turns

variable {e e' : Endpoint}

theorem mem_drop_of_append {l ts : List LoopTask} {n : Nat} (hTs : .forceCloseInLoop ∉ ts)
    (h : .forceCloseInLoop ∈ (l ++ ts).drop n) : .forceCloseInLoop ∈ l.drop n := by
  rw [List.drop_append, List.mem_append] at h
  exact h.resolve_right fun hIn => hTs (List.mem_of_mem_drop hIn)

variable {rest : List Frame}

/-- A dispatch below another frame has its read branch behind it. -/
theorem not_below (h : Turns e) {f : Frame} (hStack : e.tcp.stack = f :: rest) {m : Revents}
    {b : Branch} (hMem : .dispatch m b ∈ rest) (hb : b ≠ .write)
    (hUp : e.tcp.state ≠ .kDisconnected) : False := by
  have hAlone := (h.ahead m b (hStack ▸ List.mem_cons_of_mem _ hMem) hb hUp).1
  rw [hStack] at hAlone
  cases hAlone
  cases hMem

/-- Steps that only push callbacks, and queue no forced close. -/
theorem extend (h : Turns e) (hPolled : e'.polled = e.polled) (hBatch : e'.batch = e.batch)
    (ts : List LoopTask) (hTasks : e'.tcp.tasks = e.tcp.tasks ++ ts)
    (hTs : .forceCloseInLoop ∉ ts)
    (hStack : ∀ m b, .dispatch m b ∈ e'.tcp.stack → ∃ b', .dispatch m b' ∈ e.tcp.stack)
    (hAhead : ∀ m b, .dispatch m b ∈ e'.tcp.stack → b ≠ .write →
      e'.tcp.state ≠ .kDisconnected → e'.tcp.stack = [.dispatch m b] ∧
        .forceCloseInLoop ∉ e.tcp.tasks) : Turns e' where
  dispatching m b hMem := by
    obtain ⟨b', hMem'⟩ := hStack m b hMem
    rw [hPolled]
    exact h.dispatching m b' hMem'
  prompt hMem := by
    rw [hTasks, hBatch] at hMem
    rw [hPolled]
    exact h.prompt (mem_drop_of_append hTs hMem)
  ahead m b hMem hb hUp := by
    obtain ⟨hAlone, hNot⟩ := hAhead m b hMem hb hUp
    refine ⟨hAlone, ?_⟩
    rw [hTasks, List.mem_append, not_or]
    exact ⟨hNot, hTs⟩

/-- The function at the top of the stack is left. -/
theorem pop (h : Turns e) {f : Frame} (hOld : e.tcp.stack = f :: rest)
    (hPolled : e'.polled = e.polled) (hBatch : e'.batch = e.batch) (ts : List LoopTask)
    (hTasks : e'.tcp.tasks = e.tcp.tasks ++ ts) (hTs : .forceCloseInLoop ∉ ts)
    (hNew : e'.tcp.stack = rest) (hState : e'.tcp.state = e.tcp.state) : Turns e' := by
  refine h.extend hPolled hBatch ts hTasks hTs (fun m b hMem => ⟨b, ?_⟩) fun m b hMem hb hUp => ?_
  · rw [hNew] at hMem
    exact hOld ▸ List.mem_cons_of_mem _ hMem
  · rw [hNew] at hMem
    rw [hState] at hUp
    exact (h.not_below hOld hMem hb hUp).elim

theorem dispatch (h : Turns e) (hLife : Lifecycle e.tcp) {m : Revents} {b : Branch}
    (hOld : e.tcp.stack = .dispatch m b :: rest) (r : ReadResult) (w : WriteResult)
    (hPolled : e'.polled = e.polled) (hBatch : e'.batch = e.batch)
    (hTcp : e'.tcp = TcpConnection.dispatch { e.tcp with stack := rest } m r w b) : Turns e' := by
  have hFrame := dispatch_frame { e.tcp with stack := rest } m r w b
  refine h.extend hPolled hBatch [] (by rw [hTcp, hFrame.1, List.append_nil]) (by simp)
    (fun m' b' hMem => ?_) fun m' b' hMem hb hUp => ?_
  · rw [hTcp] at hMem
    rcases dispatch_mem_dispatch hMem with hIn | ⟨rfl, -, -⟩
    · exact ⟨b', hOld ▸ List.mem_cons_of_mem _ hIn⟩
    · exact ⟨b, hOld ▸ List.mem_cons_self ..⟩
  · rw [hTcp] at hMem hUp ⊢
    -- a connection that is down stays down
    have hWas : e.tcp.state ≠ .kDisconnected := by
      intro hDown
      exact hUp ((hLife.down_of_state hDown).dispatch hOld r w).state
    have hNot : .dispatch m' b' ∉ rest := fun hIn => h.not_below hOld hIn hb hWas
    obtain ⟨rfl, hb', hRead⟩ := (dispatch_mem_dispatch hMem).resolve_left hNot
    obtain ⟨hAlone, hQueue⟩ := h.ahead m' b (hOld ▸ List.mem_cons_self ..) hb' hWas
    rw [hOld] at hAlone
    cases hAlone
    refine ⟨?_, hQueue⟩
    cases b with
    | close =>
      simp only [TcpConnection.dispatch] at hMem hUp ⊢
      split_ifs at hMem hUp ⊢
      · exact absurd rfl hUp
      · rw [List.mem_singleton] at hMem
        rw [hMem]
    | error =>
      simp only [TcpConnection.dispatch, List.mem_singleton] at hMem ⊢
      rw [hMem]
    | read => exact absurd (hRead rfl) hb
    | write => exact absurd rfl hb'

end Turns

/-- **The invariant of an endpoint.** -/
structure Sound (e : Endpoint) : Prop where
  faithful : Faithful e.dead e.tcp
  turns : Turns e

theorem sound_new : Sound {} where
  faithful := ⟨.inl fresh_new, by simp, fun _ => owes_new, List.nil_prefix⟩
  turns := ⟨by simp, by simp, by simp⟩

variable {e e' : Endpoint} {stream : Bytes} {a : Action} {op : UserOp} {ops : List UserOp}

/-- The input of a connection is not the concern of the loop. -/
theorem Sound.setInput (h : e.Sound) (input : Buffer) :
    Sound { e with tcp := { e.tcp with inputBuffer := input } } where
  faithful :=
    { life := h.faithful.life.imp (fun hFresh => { hFresh with })
        (Or.imp (fun hUp => { hUp with }) fun hDown => { hDown with })
      posted := h.faithful.posted
      owes := fun hAlive => { h.faithful.owes hAlive with }
      written := h.faithful.written }
  turns := { h.turns with }

theorem fatal_of_accepts {w : WriteResult} (h : w.isFailed = false) : w.fatal = false := by
  cases w with
  | accepted n => rfl
  | failed errno => cases h

/-- The conditions of `Faithful.step`, of a step with this write. -/
theorem Allows.healthy {w : WriteResult} (h : e.Allows w) :
    ((e.dead || w.fatal) = false → e.dead = false ∧ w.fatal = false) ∧
      (w.isFailed = false → (e.dead || w.fatal) = false) := by
  refine ⟨fun hAlive => by simpa using hAlive, fun hTaken => ?_⟩
  rw [fatal_of_accepts hTaken, Bool.or_false]
  by_contra hDead
  rw [h (by simpa using hDead)] at hTaken
  cases hTaken

/-- The step of the connection that a step of the endpoint consists in. The peer is found gone at
a failed write only, and the end of its stream stays the end. -/
structure Acts (e e' : Endpoint) (b : TcpConnection.Action) : Prop where
  own : b.isOwn = true
  tcp : e.tcp.step b = some e'.tcp
  reported : b.Reported
  healthy : e'.dead = false → e.dead = false ∧ b.Healthy
  accepts : b.accepts = true → e'.dead = false
  ended : e'.ended = false → e.ended = false

/-- A step of an endpoint is one of its connection, or the loop getting to the functors. -/
theorem tcp_of_step (hStep : e.step stream a = some e') :
    e'.tcp = e.tcp ∧ e'.dead = e.dead ∧ e'.ended = e.ended ∨ ∃ b, Acts e e' b := by
  -- a write that was taken was taken by a peer that is there
  have hTaken : ∀ {w : WriteResult}, e.Allows w → w.isFailed = false →
      (e.dead || w.fatal) = false := fun hAllows => hAllows.healthy.2
  cases a with
  | connectEstablished | ret | removeConnection =>
    obtain ⟨tcp, hTcp, rfl⟩ := Option.map_eq_some_iff.mp hStep
    exact .inr ⟨_, rfl, hTcp, trivial, fun hAlive => ⟨hAlive, trivial⟩, by simp [Action.accepts], id⟩
  | event m =>
    simp only [step] at hStep
    split_ifs at hStep with hGuard
    obtain ⟨tcp, hTcp, rfl⟩ := Option.map_eq_some_iff.mp hStep
    exact .inr ⟨_, rfl, hTcp, hGuard.2.2, fun hAlive => ⟨hAlive, trivial⟩,
      by simp [Action.accepts], id⟩
  | resume arrival w =>
    simp only [step] at hStep
    split_ifs at hStep with hAllows
    obtain ⟨tcp, hTcp, rfl⟩ := Option.map_eq_some_iff.mp hStep
    refine .inr ⟨_, rfl, hTcp, trivial, fun hDead => ⟨(hAllows.healthy.1 hDead).1, trivial⟩, ?_,
      by simp +contextual⟩
    cases w with
    | accepted n => exact fun _ => hTaken hAllows rfl
    | failed errno => exact fun hAccepts => by cases hAccepts
  | doPendingFunctors =>
    simp only [step] at hStep
    split_ifs at hStep
    cases hStep
    exact .inl ⟨rfl, rfl, rfl⟩
  | task w =>
    simp only [step] at hStep
    split_ifs at hStep with hGuard
    obtain ⟨tcp, hTcp, rfl⟩ := Option.map_eq_some_iff.mp hStep
    refine .inr ⟨_, rfl, hTcp, trivial, hGuard.2.healthy.1, ?_, id⟩
    cases w with
    | accepted n => exact fun _ => hTaken hGuard.2 rfl
    | failed errno => exact fun hAccepts => by cases hAccepts

theorem faithful_step (h : Sound e) (hStep : e.step stream a = some e') :
    Faithful e'.dead e'.tcp := by
  rcases tcp_of_step hStep with ⟨hTcp, hDead, -⟩ | ⟨b, hActs⟩
  · rw [hTcp, hDead]
    exact h.faithful
  · exact h.faithful.step hActs.tcp hActs.own hActs.reported hActs.healthy hActs.accepts

/-- **Every step keeps the invariant.** -/
theorem sound_step (h : Sound e) (hStep : e.step stream a = some e') : Sound e' := by
  refine ⟨faithful_step h hStep, ?_⟩
  cases a with
  | connectEstablished =>
    obtain ⟨tcp, hTcp, rfl⟩ := Option.map_eq_some_iff.mp hStep
    cases step_outcome hTcp with
    | established hStack =>
      refine h.turns.extend rfl rfl [] (List.append_nil _).symm (by simp) (fun m b hMem => ?_)
        fun m b hMem => ?_
      · simp [connectEstablished, call, updateChannel, hStack] at hMem
      · simp [connectEstablished, call, updateChannel, hStack] at hMem
  | event m =>
    simp only [step] at hStep
    split_ifs at hStep with hGuard
    obtain ⟨hPolled, hBatch, -⟩ := hGuard
    obtain ⟨tcp, hTcp, rfl⟩ := Option.map_eq_some_iff.mp hStep
    -- the queue was empty of forced closes when the turn began
    have hNot : .forceCloseInLoop ∉ e.tcp.tasks := by
      intro hMem
      have := h.turns.prompt (by rwa [hBatch, List.drop_zero])
      simp [hPolled] at this
    cases step_outcome hTcp with
    | reported =>
      refine ⟨fun _ _ _ => rfl, fun _ => rfl, fun m' b hMem _ _ => ⟨?_, hNot⟩⟩
      rw [List.mem_singleton.mp hMem]
  | resume arrival w =>
    simp only [step] at hStep
    split_ifs at hStep
    obtain ⟨tcp, hTcp, rfl⟩ := Option.map_eq_some_iff.mp hStep
    cases step_outcome hTcp with
    | dispatched m b rest r w hStack =>
      exact h.turns.dispatch h.faithful.life hStack _ _ rfl rfl rfl
    | afterWriteComplete rest r w hStack =>
      have hWorks := works_afterWriteComplete { e.tcp with stack := rest }
      obtain ⟨ts, hTasks, hTs⟩ := hWorks.tasks
      exact h.turns.pop hStack rfl rfl ts hTasks (fun hMem => by cases hTs _ hMem)
        hWorks.stack hWorks.state
    | afterDisconnected rest r w hStack | afterDestroyed rest r w hStack =>
      exact h.turns.pop hStack rfl rfl [] (List.append_nil _).symm (by simp) rfl rfl
  | ret =>
    obtain ⟨tcp, hTcp, rfl⟩ := Option.map_eq_some_iff.mp hStep
    cases step_outcome hTcp with
    | returned rest hStack =>
      exact h.turns.pop hStack rfl rfl [] (List.append_nil _).symm (by simp) rfl rfl
  | doPendingFunctors =>
    simp only [step] at hStep
    split_ifs at hStep with hGuard
    cases hStep
    refine ⟨fun m b hMem => ?_, fun hMem => ?_, fun m b hMem => ?_⟩
    · simp [hGuard.1] at hMem
    · simp at hMem
    · simp [hGuard.1] at hMem
  | task w =>
    simp only [step] at hStep
    split_ifs at hStep with hGuard
    obtain ⟨tcp, hTcp, rfl⟩ := Option.map_eq_some_iff.mp hStep
    cases step_outcome hTcp with
    | ran w t rest hStack hTasks =>
      have hPosted : ∀ m, t ≠ .sendInLoop m := by
        intro m ht
        exact h.faithful.posted m (hTasks ▸ ht ▸ List.mem_cons_self ..)
      -- functors run between two dispatches
      have hNone : ∀ m b,
          .dispatch m b ∉ (TcpConnection.runTask { e.tcp with tasks := rest } w t).stack := by
        intro m b hMem
        have := (pushes_runTask _ w hPosted).dispatch_mem hMem
        simp [hStack] at this
      refine ⟨fun m b hMem => (hNone m b hMem).elim, fun hMem => h.turns.prompt ?_,
        fun m b hMem => (hNone m b hMem).elim⟩
      -- the functor that runs was the first of the batch
      rw [tasks_runTask _ w hPosted] at hMem
      obtain ⟨k, hk⟩ := Nat.exists_eq_succ_of_ne_zero (Nat.pos_iff_ne_zero.mp hGuard.1)
      rw [hTasks, hk, List.drop_succ_cons]
      simpa [hk] using hMem
  | removeConnection =>
    obtain ⟨tcp, hTcp, rfl⟩ := Option.map_eq_some_iff.mp hStep
    cases step_outcome hTcp with
    | removed =>
      exact h.turns.extend rfl rfl [.connectDestroyed] rfl (by simp) (fun m b hMem => ⟨b, hMem⟩)
        fun m b hMem hb hUp => h.turns.ahead m b hMem hb hUp

/-! ## User code -/

/-- User code works on the connection; what the endpoint adds to it stays. -/
theorem user_spec (h : e.user op = some e') :
    e'.tcp = e.tcp.user op ∧ e'.polled = e.polled ∧ e'.batch = e.batch ∧
      e'.received = e.received ∧ e'.ended = e.ended := by
  cases op with
  | send message w =>
    simp only [user] at h
    split_ifs at h
    cases h
    exact ⟨rfl, rfl, rfl, rfl, rfl⟩
  | shutdown | forceClose =>
    cases h
    exact ⟨rfl, rfl, rfl, rfl, rfl⟩

theorem lifecycle_user {c : TcpConnection} (h : Lifecycle c) (op : UserOp) :
    Lifecycle (c.user op) := by
  rcases h with hFresh | hUp | hDown
  · rw [user_of_ne (by simp [hFresh.state]) (by simp [hFresh.state])]
    exact .inl hFresh
  · exact .inr (.inl (hUp.user op))
  · rw [user_of_ne hDown.ne_connected (by simp [hDown.state])]
    exact .inr (.inr hDown)

/-- What is sent is added to, and what is written is the front part of it. -/
theorem Faithful.user (h : Faithful e.dead e.tcp) (hUser : e.user op = some e') :
    Faithful e'.dead e'.tcp := by
  have hLife := lifecycle_user h.life op
  have hPosted : ∀ m, .sendInLoop m ∉ (e.tcp.user op).tasks := by
    intro m hMem
    obtain ⟨ts, hTasks, hTs⟩ := tasks_user e.tcp op
    rw [hTasks, List.mem_append] at hMem
    rcases hMem with hMem | hMem
    · exact h.posted m hMem
    · rcases hTs _ hMem with hEq | ⟨hEq, -⟩ <;> cases hEq
  cases op with
  | send message w =>
    -- only a fatal write may lose bytes
    simp only [Endpoint.user] at hUser
    split_ifs at hUser with hAllows
    cases hUser
    obtain ⟨hAlive, hTaken⟩ := hAllows.healthy
    have hOwes : (e.dead || w.fatal) = false → Owes [] (e.tcp.send message w) := by
      intro hDead
      have hHealthy : TcpConnection.Action.Healthy (.user (.send message w)) := (hAlive hDead).2
      exact (h.owes (hAlive hDead).1).user hHealthy
    refine ⟨hLife, hPosted, hOwes, ?_⟩
    by_cases hState : e.tcp.state = .kConnected
    · rw [TcpConnection.send, if_pos hState] at hOwes ⊢
      cases w with
      | accepted n =>
        refine written_of_owes (hOwes (hTaken rfl)) ?_
        rw [(works_sendInLoop e.tcp message (.accepted n)).state, hState]
        simp
      | failed errno =>
        rw [writtenBytes_sendInLoop_failed, sentMessages_sendInLoop, List.flatten_append]
        exact h.written.trans (List.prefix_append ..)
    · rw [TcpConnection.send, if_neg hState]
      exact h.written
  | shutdown =>
    cases hUser
    have hHealthy : TcpConnection.Action.Healthy (.user .shutdown) := trivial
    refine ⟨hLife, hPosted, fun hAlive => (h.owes hAlive).user hHealthy, ?_⟩
    simp only [TcpConnection.shutdown, shutdownInLoop]
    split_ifs
    · simpa [record, writtenBytes, sentMessages] using h.written
    · exact h.written
    · exact h.written
  | forceClose =>
    cases hUser
    have hHealthy : TcpConnection.Action.Healthy (.user .forceClose) := trivial
    refine ⟨hLife, hPosted, fun hAlive => (h.owes hAlive).user hHealthy, ?_⟩
    simp only [TcpConnection.forceClose]
    split_ifs <;> exact h.written

/-- The loop thread is in a callback of the connection, called in this turn. -/
def InCallback (e : Endpoint) : Prop := e.polled = true ∧ e.tcp.stack.head? = some .callback

/-- **User code keeps the invariant**, if it forces the connection closed only in a callback of
the turn. -/
theorem sound_user (h : Sound e) (hUser : e.user op = some e')
    (hForce : op = .forceClose → e.InCallback) : Sound e' := by
  obtain ⟨hTcp, hPolled, hBatch, -, -⟩ := user_spec hUser
  refine ⟨h.faithful.user hUser, ?_⟩
  have hStack : e'.tcp.stack = e.tcp.stack := by rw [hTcp, stack_user]
  obtain ⟨ts, hTasks, hTs⟩ := tasks_user e.tcp op
  have hWas : e'.tcp.state ≠ .kDisconnected → e.tcp.state ≠ .kDisconnected := by
    intro hUp hDown
    rw [hTcp, user_of_ne (by simp [hDown]) (by simp [hDown])] at hUp
    exact hUp hDown
  by_cases hOp : op = .forceClose
  · obtain ⟨hTurn, hHead⟩ := hForce hOp
    refine ⟨fun _ _ _ => hPolled.trans hTurn, fun _ => hPolled.trans hTurn,
      fun m b hMem hb hUp => ?_⟩
    -- in a callback, the read branch of the dispatch is over
    rw [hStack] at hMem
    have hAlone := (h.turns.ahead m b hMem hb (hWas hUp)).1
    rw [hAlone] at hHead
    cases hHead
  · refine h.turns.extend hPolled hBatch ts (by rw [hTcp, hTasks]) (fun hMem => ?_)
      (fun m b hMem => ⟨b, hStack ▸ hMem⟩) fun m b hMem hb hUp => ?_
    · rcases hTs _ hMem with hEq | ⟨-, hEq⟩
      · cases hEq
      · exact hOp hEq
    · rw [hStack] at hMem ⊢
      exact h.turns.ahead m b hMem hb (hWas hUp)

/-- A sequence of calls does to the connection what it does to its view, and leaves the rest. -/
theorem users_spec (h : e.users ops = some e') :
    e'.tcp.transport = ops.foldl Transport.user e.tcp.transport ∧
      e'.tcp.inputBuffer = e.tcp.inputBuffer ∧ e'.tcp.stack = e.tcp.stack ∧
      e'.polled = e.polled ∧ e'.received = e.received ∧ e'.ended = e.ended := by
  induction ops generalizing e with
  | nil =>
    cases h
    exact ⟨rfl, rfl, rfl, rfl, rfl, rfl⟩
  | cons op ops ih =>
    obtain ⟨e₁, hUser, hRest⟩ := Option.bind_eq_some_iff.mp h
    obtain ⟨hTcp, hPolled, -, hReceived, hEnded⟩ := user_spec hUser
    obtain ⟨hTransport, hInput, hStack, hPolled', hReceived', hEnded'⟩ := ih hRest
    refine ⟨?_, ?_, ?_, hPolled'.trans hPolled, hReceived'.trans hReceived,
      hEnded'.trans hEnded⟩
    · rw [hTransport, hTcp, transport_user, List.foldl_cons]
    · rw [hInput, hTcp, inputBuffer_user]
    · rw [hStack, hTcp, stack_user]

/-- The calls of a callback of the turn keep the invariant. -/
theorem sound_users (h : Sound e) (hUsers : e.users ops = some e') (hCallback : e.InCallback) :
    Sound e' := by
  induction ops generalizing e with
  | nil =>
    cases hUsers
    exact h
  | cons op ops ih =>
    obtain ⟨e₁, hUser, hRest⟩ := Option.bind_eq_some_iff.mp hUsers
    obtain ⟨hTcp, hPolled, -, -, -⟩ := user_spec hUser
    refine ih (sound_user h hUser fun _ => hCallback) hRest ⟨hPolled.trans hCallback.1, ?_⟩
    rw [hTcp, stack_user]
    exact hCallback.2

/-! ## What a step is to the layer above -/

structure Opens (e e' : Endpoint) : Prop extends TcpConnection.Opens e.tcp e'.tcp where
  received : e'.received = e.received

/-- The next bytes of the peer's stream are delivered. No forced close is waiting. -/
structure Delivers (stream : Bytes) (n : Nat) (e e' : Endpoint) : Prop
    extends TcpConnection.Delivers (slice stream e.received n) e.tcp e'.tcp where
  reading : e.ended = false
  queued : .forceCloseInLoop ∉ e.tcp.tasks
  received : e'.received = e.received + (slice stream e.received n).length
  ended : e'.ended = false
  callback : e'.InCallback

structure HalfCloses (e e' : Endpoint) : Prop extends TcpConnection.HalfCloses e.tcp e'.tcp where
  received : e'.received = e.received
  ended : e'.ended = true

structure GoesDown (e e' : Endpoint) : Prop extends TcpConnection.GoesDown e.tcp e'.tcp where
  received : e'.received = e.received

/-- What a step of an endpoint is to the layer above. -/
inductive Effect (stream : Bytes) (e e' : Endpoint) : Prop
  | quiet (h : Quiet e.tcp e'.tcp) (hReceived : e'.received = e.received)
  | up (h : Opens e e')
  | message (n : Nat) (h : Delivers stream n e e')
  | halfClosed (h : HalfCloses e e')
  | down (h : GoesDown e e')

theorem Effect.of_seen {a : TcpConnection.Action} (h : Seen e.tcp a e'.tcp)
    (hReceived : e'.received = e.received) (hNot : ∀ r w, a ≠ .resume r w) :
    Effect stream e e' := by
  cases h with
  | quiet h => exact .quiet h hReceived
  | up h => exact .up ⟨h, hReceived⟩
  | message chunk w hRead => exact absurd hRead (hNot _ _)
  | halfClosed w hRead => exact absurd hRead (hNot _ _)
  | down h => exact .down ⟨h, hReceived⟩

/-- A read that finds bytes finds the next ones of the stream. -/
theorem read_eq_bytes {chunk : Bytes} {arrival : Arrival}
    (h : e.read stream arrival = .bytes chunk) (hChunk : chunk ≠ []) :
    e.ended = false ∧ ∃ n, chunk = slice stream e.received n := by
  cases arrival with
  | data n =>
    simp only [read] at h
    split_ifs at h with hEnded hNone
    · cases h
      exact absurd rfl hChunk
    · cases h
      exact ⟨by simpa using hEnded, n, rfl⟩
  | eof =>
    cases h
    exact absurd rfl hChunk
  | failed errno => cases h

/-- **What a step of an endpoint does**, as far as the layers above can see it. -/
theorem effect_of_step (h : Sound e) (hStep : e.step stream a = some e') : Effect stream e e' := by
  -- what the connection shows, to be told in terms of the endpoint
  have hSeen : ∀ {a : TcpConnection.Action} {tcp : TcpConnection}, e.tcp.step a = some tcp →
      a.isOwn = true → Seen e.tcp a tcp := fun hTcp hOwn =>
    (seen_of_step h.faithful.life h.faithful.posted hOwn hTcp).1
  cases a with
  | connectEstablished | ret | removeConnection =>
    obtain ⟨tcp, hTcp, rfl⟩ := Option.map_eq_some_iff.mp hStep
    exact .of_seen (hSeen hTcp rfl) rfl (by simp)
  | event m =>
    simp only [step] at hStep
    split_ifs at hStep
    obtain ⟨tcp, hTcp, rfl⟩ := Option.map_eq_some_iff.mp hStep
    exact .of_seen (hSeen hTcp rfl) rfl (by simp)
  | doPendingFunctors =>
    simp only [step] at hStep
    split_ifs at hStep
    cases hStep
    exact .quiet (.of_same rfl rfl rfl rfl) rfl
  | task w =>
    simp only [step] at hStep
    split_ifs at hStep
    obtain ⟨tcp, hTcp, rfl⟩ := Option.map_eq_some_iff.mp hStep
    exact .of_seen (hSeen hTcp rfl) rfl (by simp)
  | resume arrival w =>
    simp only [step] at hStep
    split_ifs at hStep
    obtain ⟨tcp, hTcp, rfl⟩ := Option.map_eq_some_iff.mp hStep
    cases hSeen hTcp rfl with
    | quiet hQuiet => exact .quiet hQuiet (by simp [hQuiet.call])
    | up hOpens => exact .up ⟨hOpens, by simp [hOpens.call]⟩
    | down hDown => exact .down ⟨hDown, by simp [hDown.call]⟩
    | halfClosed w' hRead hReads hEnds =>
      obtain ⟨hRead, -⟩ := TcpConnection.Action.resume.inj hRead
      exact .halfClosed ⟨hEnds, by simp [hEnds.call], by simp [hReads, hRead]⟩
    | message chunk w' hRead hGot hStack =>
      -- the bytes read are the next ones of the stream
      obtain ⟨hRead, -⟩ := TcpConnection.Action.resume.inj hRead
      obtain ⟨hOpen, n, rfl⟩ := read_eq_bytes hRead hGot.nonempty
      obtain ⟨m, hOld, hNew⟩ := hStack
      have hMem : .dispatch m .read ∈ e.tcp.stack := by rw [hOld]; exact List.mem_cons_self ..
      refine .message n ⟨hGot, hOpen, ?_, ?_, ?_, ?_, ?_⟩
      · exact (h.turns.ahead m .read hMem (by simp) hGot.up.ne_disconnected).2
      · simp [hGot.call, hRead, ReadResult.size]
      · simp [hOpen, hRead, hGot.nonempty]
      · exact h.turns.dispatching m .read hMem
      · rw [hNew]
        rfl

/-- A step that is not user code sends nothing. -/
theorem sentMessages_step (h : Sound e) (hStep : e.step stream a = some e') :
    sentMessages e'.tcp.log = sentMessages e.tcp.log := by
  rcases tcp_of_step hStep with ⟨hTcp, -⟩ | ⟨b, hActs⟩
  · rw [hTcp]
  · exact (seen_of_step h.faithful.life h.faithful.posted hActs.own hActs.tcp).2.sentMessages

theorem ended_step (hStep : e.step stream a = some e') (hEnded : e'.ended = false) :
    e.ended = false := by
  rcases tcp_of_step hStep with ⟨-, -, hSame⟩ | ⟨b, hActs⟩
  · exact hSame ▸ hEnded
  · exact hActs.ended hEnded

/-! ## The end of the stream -/

/-- A connection that was closed at the end of the peer's stream has written all that was sent,
unless a write found that the peer was gone. -/
structure Flushed (e : Endpoint) : Prop where
  down : Finished e.tcp → e.tcp.state = .kDisconnected
  written : Finished e.tcp → e.dead = false →
    writtenBytes e.tcp.log = (sentMessages e.tcp.log).flatten

theorem flushed_new : Flushed {} := by
  have hNot : ¬ Finished {} := fun ⟨q, hMem⟩ => by cases hMem
  exact ⟨fun h => absurd h hNot, fun h => absurd h hNot⟩

theorem Flushed.of_tcp (hFlushed : Flushed e) (h : Sound e) {a : TcpConnection.Action}
    (hOwn : a.isOwn = true) (hTcp : e.tcp.step a = some e'.tcp)
    (hAlive : e'.dead = false → e.dead = false) : Flushed e' := by
  obtain ⟨hSeen, hLogs⟩ := seen_of_step h.faithful.life h.faithful.posted hOwn hTcp
  have hWritten : e'.tcp.state = .kDisconnected →
      writtenBytes e'.tcp.log = writtenBytes e.tcp.log := by
    intro hDown
    exact hLogs.writtenBytes.resolve_right fun hWrites => hWrites.1 hDown
  have hDown : Finished e'.tcp → e'.tcp.state = .kDisconnected := by
    intro hFinished
    rcases hLogs.of_finished hFinished with hBefore | ⟨-, hNow, -⟩
    · have hState := hFlushed.down hBefore
      -- a connection that is down stays so
      cases hSeen with
      | quiet hQuiet => exact hQuiet.state.trans hState
      | up hOpens => exact absurd hState (by simp [hOpens.fresh.state])
      | message _ _ _ hGot => exact absurd hState hGot.up.ne_disconnected
      | halfClosed _ _ _ hEnds => exact absurd hState hEnds.up.ne_disconnected
      | down hNow => exact absurd hState hNow.up.ne_disconnected
    · exact hNow
  refine ⟨hDown, fun hFinished hDead => ?_⟩
  rw [hWritten (hDown hFinished), hLogs.sentMessages]
  rcases hLogs.of_finished hFinished with hBefore | ⟨hUp, -, hOutput⟩
  · exact hFlushed.written hBefore (hAlive hDead)
  · have hStream := (h.faithful.owes (hAlive hDead)).stream hUp.ne_disconnected
    simpa [hOutput] using hStream

theorem flushed_step (hFlushed : Flushed e) (h : Sound e) (hStep : e.step stream a = some e') :
    Flushed e' := by
  rcases tcp_of_step hStep with ⟨hTcp, hDead, -⟩ | ⟨b, hActs⟩
  · refine ⟨?_, ?_⟩ <;> rw [hTcp]
    · exact hFlushed.down
    · rw [hDead]
      exact hFlushed.written
  · exact hFlushed.of_tcp h hActs.own hActs.tcp fun hAlive => (hActs.healthy hAlive).1

theorem flushed_user (hFlushed : Flushed e) (hUser : e.user op = some e') : Flushed e' := by
  have hTcp := (user_spec hUser).1
  have hSame : Finished e'.tcp → Finished e.tcp ∧ e'.tcp = e.tcp := by
    intro hFinished
    have hBefore := finished_user (hTcp ▸ hFinished)
    have hState := hFlushed.down hBefore
    exact ⟨hBefore, by rw [hTcp, user_of_ne (by simp [hState]) (by simp [hState])]⟩
  refine ⟨fun hFinished => ?_, fun hFinished hDead => ?_⟩
  · rw [(hSame hFinished).2]
    exact hFlushed.down (hSame hFinished).1
  · rw [(hSame hFinished).2]
    refine hFlushed.written (hSame hFinished).1 ?_
    cases op with
    | send message w =>
      simp only [user] at hUser
      split_ifs at hUser
      cases hUser
      exact (Bool.or_eq_false_iff.mp hDead).1
    | shutdown | forceClose =>
      cases hUser
      exact hDead

theorem flushed_users (hFlushed : Flushed e) (hUsers : e.users ops = some e') : Flushed e' := by
  induction ops generalizing e with
  | nil =>
    cases hUsers
    exact hFlushed
  | cons op ops ih =>
    obtain ⟨e₁, hUser, hRest⟩ := Option.bind_eq_some_iff.mp hUsers
    exact ih (flushed_user hFlushed hUser) hRest

end Endpoint

end ReactorNet
