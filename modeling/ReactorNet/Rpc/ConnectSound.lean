import ReactorNet.Rpc.SharedClient

/-!
# ReactorNet — a shared client in all runs

What a client, its connector and the threads in `connect` are to each other, whatever the
threads do (`Sound`): as long as the connector has not connected, the client has nothing to
do but to fail calls, and a promise that waits stands for one attempt or one start at most.
-/

namespace ReactorNet

open Lib

namespace Rpc

/-- A client that has never been connected. -/
structure Client.Fresh (c : Client) : Prop where
  connection : c.connection = false
  closed : c.transport.state = .kDisconnected
  timers : c.timers = []
  control : c.control = .idle ∨ c.control = .expiring []

theorem Client.Fresh.step {c c' : Client} {a : Client.Action} (h : c.Fresh)
    (hStep : c.step a = some c') (hUp : a ≠ .up) (hDown : a ≠ .down) : c'.Fresh := by
  obtain ⟨hConnection, hClosed, hTimers, hControl⟩ := h
  -- most of what a client can do it can do only with a connection
  cases Client.step_outcome hStep with
  | unconnected | unencodable | returned => exact ⟨hConnection, hClosed, hTimers, hControl⟩
  | started spec body requestId next hConnected => simp [hConnected.1] at hConnection
  | disconnected =>
    exact ⟨hConnection, by simp [Transport.shutdown, hClosed], hTimers, hControl⟩
  | expiredAll => exact ⟨hConnection, hClosed, hTimers, .inl rfl⟩
  | received chunk hRunning hIdle hReading => exact absurd hClosed hReading.ne_disconnected
  | expired due hRunning hIdle hDue =>
    have hNil : due = [] := List.eq_nil_iff_forall_not_mem.mpr fun t ht => by
      simpa [hTimers] using hDue t ht
    exact ⟨hConnection, hClosed, by simp [hTimers], .inr (by rw [hNil])⟩
  | up => exact absurd rfl hUp
  | down => exact absurd rfl hDown
  | waiting _ _ hc | broken _ _ hc | alien _ _ _ _ hc | late _ _ _ _ hc | answered _ _ _ _ _ hc
  | failed _ _ _ _ _ hc | closed _ _ hc | gone _ _ _ hc | stale _ _ _ _ hc
  | timedOut _ _ _ _ _ hc => simp [hc] at hControl

namespace SharedClient

variable {s s' t : SharedClient} {c c' : Connector} {p : Nat}

/-- The starts that are still to come: of the threads that are about to queue one, and in
the queue. -/
def starts (s : SharedClient) : Nat := s.threads.count .installed + s.tasks.count .start

/-- A client and its connector before there is a connection. -/
structure Matched (s : SharedClient) : Prop where
  fresh : s.connector.state ≠ .kConnected → s.client.Fresh
  /-- A promise that waits stands for one attempt, or for one start, at most. -/
  single : s.connector.state ≠ .kConnected →
    (s.starts + if s.connector.state = .kConnecting then 1 else 0) ≤
      if s.pendingConnect.isSome then 1 else 0

structure Sound (s : SharedClient) : Prop extends Matched s where
  kept : s.connector.Accounted
  attached : s.connector.Attached
  /-- In the middle of a dispatch of the connector the client does nothing. -/
  dispatch : s.connector.control ≠ .loop → s.Idle

theorem hear_quiet {es : List ConnectorEvent} (hLog : c.log = s.connector.log ++ es)
    (hQuiet : ∀ e ∈ es, e.isCallback = false) : s.hear c = { s with connector := c } := by
  rw [hear_append hLog, foldl_quiet hQuiet]

theorem hear_self (s : SharedClient) : s.hear s.connector = s := by
  simp [SharedClient.hear]

/-- The client after a step of its connector, by what it is told. -/
theorem hear_told (h : Connector.Told s.connector c) :
    (s.hear c = { s with connector := c } ∧ c.state = s.connector.state) ∨
    (s.hear c = { s with connector := c }.fulfil false ∧ s.connector.state = .kConnecting ∧
      c.state = .kFailed) ∨
    (s.hear c = { s with connector := c }.newConnection ∧ s.connector.state = .kConnecting ∧
      c.state = .kConnected) := by
  cases h with
  | nothing es hLog hQuiet hState => exact .inl ⟨hear_quiet hLog hQuiet, hState⟩
  | failed es errno a cause hWas hLog hQuiet hState =>
    refine .inr (.inl ⟨?_, hWas, hState⟩)
    rw [hear_append hLog, List.foldl_append, foldl_quiet hQuiet]
    rfl
  | connected fd a cause hWas hLog hState =>
    refine .inr (.inr ⟨?_, hWas, hState⟩)
    rw [hear_append hLog]
    rfl

@[simp] theorem newConnection_pendingConnect (s : SharedClient) :
    s.newConnection.pendingConnect = none := fulfil_pendingConnect ..

@[simp] theorem newConnection_connector (s : SharedClient) :
    s.newConnection.connector = s.connector := fulfil_connector ..

@[simp] theorem starts_fulfil (s : SharedClient) (v : Bool) : (s.fulfil v).starts = s.starts := by
  simp [starts]

theorem idle_fulfil (s : SharedClient) (v : Bool) : (s.fulfil v).Idle ↔ s.Idle := by
  unfold Idle
  rw [fulfil_client]

theorem idle_hear (s : SharedClient) (c : Connector) : (s.hear c).Idle ↔ s.Idle := by
  unfold SharedClient.hear
  generalize c.log.drop s.connector.log.length = es
  have hFold : ∀ (es : List ConnectorEvent) (s : SharedClient),
      (es.foldl onConnectorEvent s).Idle ↔ s.Idle := by
    intro es
    induction es with
    | nil => exact fun _ => Iff.rfl
    | cons e es ih =>
      intro s
      rw [List.foldl_cons, ih]
      cases e with
      | newConnection => exact idle_fulfil { s with
          client := s.client.onConnectionUp, everConnected := true } true
      | connectError => exact idle_fulfil s false
      | socket | close | stopped | dangling => exact Iff.rfl
  exact hFold es _

/-- The connector ends the attempt, or leaves it as it is. -/
theorem Matched.hear (h : Matched s) (hTold : Connector.Told s.connector c) :
    Matched (s.hear c) := by
  rcases hear_told hTold with ⟨hEq, hState⟩ | ⟨hEq, hWas, hState⟩ | ⟨hEq, hWas, hState⟩
  · rw [hEq]
    refine ⟨fun hne => h.fresh (hState ▸ hne), ?_⟩
    show c.state ≠ .kConnected → s.starts + (if c.state = .kConnecting then 1 else 0) ≤ _
    rw [hState]
    exact h.single
  · -- the promise is gone, and with it what it stood for
    have hNotYet : s.connector.state ≠ .kConnected := by simp [hWas]
    have hStarts : SharedClient.starts { s with connector := c } = 0 := by
      have hSingle := h.single hNotYet
      rw [if_pos hWas] at hSingle
      show s.starts = 0
      split at hSingle <;> omega
    have hFresh := h.fresh hNotYet
    rw [hEq]
    exact ⟨fun _ => by simpa using hFresh, fun _ => by simp [hState, hStarts]⟩
  · rw [hEq]
    exact ⟨fun hne => absurd hState (by simpa using hne),
      fun hne => absurd hState (by simpa using hne)⟩

theorem Sound.hear {a : Connector.Action} (h : Sound s) (hMatched : Matched (s.hear c))
    (hStep : s.connector.step a = some c) (hAttached : c.Attached)
    (hDispatch : c.control ≠ .loop → s.Idle) : Sound (s.hear c) where
  toMatched := hMatched
  kept := by
    rw [hear_connector]
    exact Connector.accounted_step hStep h.kept
  attached := by
    rw [hear_connector]
    exact hAttached
  dispatch := by
    rw [hear_connector, idle_hear]
    exact hDispatch

/-- A step of the threads or of the queue that leaves the connector and the client. -/
theorem Sound.others (h : Sound s) (hConnector : s'.connector = s.connector)
    (hClient : s'.client = s.client)
    (hStarts : s'.starts + (if s.pendingConnect.isSome then 1 else 0) ≤
      s.starts + if s'.pendingConnect.isSome then 1 else 0) : Sound s' where
  fresh := by
    rw [hConnector, hClient]
    exact h.fresh
  single hne := by
    rw [hConnector] at hne ⊢
    have hSingle := h.single hne
    omega
  kept := hConnector ▸ h.kept
  attached := hConnector ▸ h.attached
  dispatch := by
    unfold Idle
    rw [hConnector, hClient]
    exact h.dispatch

theorem Sound.fewer (h : Sound s) (hConnector : s'.connector = s.connector)
    (hClient : s'.client = s.client) (hPending : s'.pendingConnect = s.pendingConnect)
    (hStarts : s'.starts ≤ s.starts) : Sound s' := by
  refine h.others hConnector hClient ?_
  rw [hPending]
  omega

theorem starts_goTo {i : Nat} {pc : ConnectPc} (h : s.threads[i]? = some pc) (pc' : ConnectPc) :
    (s.goTo i pc').starts + (if pc = .installed then 1 else 0) =
      s.starts + if pc' = .installed then 1 else 0 := by
  obtain ⟨hi, hPc⟩ := List.getElem?_eq_some_iff.mp h
  have hPos : (if pc = .installed then 1 else 0) ≤ s.threads.count .installed := by
    split_ifs with hEq
    · exact List.count_pos_iff.mpr (hEq ▸ List.mem_of_getElem? h)
    · exact Nat.zero_le _
  have hCount : (s.threads.set i pc').count .installed + (if pc = .installed then 1 else 0) =
      s.threads.count .installed + if pc' = .installed then 1 else 0 := by
    rw [List.count_set hi, hPc]
    simp only [beq_iff_eq]
    omega
  show (s.threads.set i pc').count .installed + s.tasks.count .start + _ =
    s.threads.count .installed + s.tasks.count .start + _
  omega

/-- A functor leaves the queue; if it is a start, there is one less to come. -/
theorem Sound.popped (h : Sound s) {task : ClientTask} {rest : List ClientTask}
    (hTasks : s.tasks = task :: rest) : Sound { s with tasks := rest } := by
  refine h.fewer rfl rfl rfl ?_
  simp [starts, hTasks, List.count_cons]

/-- The connector is stopped: an attempt ends, and the promise stays. -/
theorem Sound.stop (h : Sound s) (hStep : s.connector.step .stop = some c) :
    s.hear c = { s with connector := c } ∧ Sound { s with connector := c } := by
  obtain ⟨⟨es, hLog, hQuiet⟩, hAttached, hControl, -, -, hState⟩ :=
    Connector.stop_quiet hStep h.kept h.attached
  have hEq := hear_quiet hLog hQuiet
  refine ⟨hEq, hEq ▸ h.hear (hEq ▸ ?_) hStep hAttached (hControl ▸ h.dispatch)⟩
  have hWas : c.state ≠ .kConnected → s.connector.state ≠ .kConnected := fun hne hUp => by
    simp [hState, hUp] at hne
  have hNot : c.state ≠ .kConnecting := by
    rw [hState]
    split_ifs with hOr
    · simp
    · exact fun hEq => hOr (.inl hEq)
  refine ⟨fun hne => h.fresh (hWas hne), fun hne => ?_⟩
  have hSingle := h.single (hWas hne)
  show s.starts + (if c.state = .kConnecting then 1 else 0) ≤ _
  rw [if_neg hNot]
  exact (Nat.le_add_right _ _).trans hSingle

/-- The connector begins an attempt, in the place of the start that was queued. -/
theorem Sound.start (h : Sound s) {rest : List ClientTask} (hTasks : s.tasks = .start :: rest)
    {socket : Except Nat Nat} {savedErrno : Nat} (hControl : s.connector.control = .loop)
    (hStep : s.connector.step (.start socket savedErrno) = some c) :
    Sound ({ s with tasks := rest }.hear c) := by
  have hPopped := h.popped hTasks
  by_cases hBusy : s.connector.state = .kConnecting ∨ s.connector.state = .kConnected
  · obtain rfl := Connector.start_eq hStep hBusy
    rw [hear_self { s with tasks := rest }]
    exact hPopped
  · obtain ⟨hConnecting, hConnected⟩ := not_or.mp hBusy
    obtain ⟨hTold, hAttached, hSame⟩ :=
      Connector.told_start hStep h.attached hConnecting hConnected
    refine hPopped.hear ?_ hStep hAttached fun hne => absurd (hSame.trans hControl) hne
    -- what is heard is heard of an attempt that has begun
    refine Matched.hear (s := { s with
      tasks := rest
      connector := { s.connector with state := .kConnecting } }) ⟨fun _ => ?_, fun _ => ?_⟩ hTold
    · exact h.fresh hConnected
    · have hSingle := h.single hConnected
      have hCount : s.starts = SharedClient.starts { s with tasks := rest } + 1 := by
        simp [starts, hTasks, add_assoc]
      rw [if_neg hConnecting, hCount] at hSingle
      simpa [starts] using hSingle

theorem Sound.connected (h : Sound s) (hUp : s.client.connection = true) :
    s.connector.state = .kConnected := by
  by_contra hne
  simp [(h.fresh hne).connection] at hUp

/-- Where there is a connection, the connector has connected. -/
theorem Sound.connected_of_reading (h : Sound s) (hReading : s.client.transport.Reading) :
    s.connector.state = .kConnected := by
  by_contra hne
  exact hReading.ne_disconnected (h.fresh hne).closed

/-- **The step lemma.** For each promise one start is queued, and it leaves the queue when it runs.
-/
theorem sound_step {a : Action} (hStep : s.step a = some s') (h : Sound s) : Sound s' := by
  cases step_outcome hStep with
  | entered => exact h.fewer rfl rfl rfl (by simp [starts])
  | moved i pc pc' hPc hFrom hTo =>
    have hStarts := starts_goTo hPc pc'
    rw [if_neg hFrom, if_neg hTo] at hStarts
    exact h.fewer rfl rfl rfl hStarts.le
  | installed i hPc hNone =>
    have hStarts := starts_goTo hPc .installed
    refine h.others rfl rfl ?_
    show (s.goTo i .installed).starts + _ ≤ _
    simpa [hNone] using hStarts.le
  | queued i hPc =>
    have hStarts := starts_goTo hPc .waiting
    refine h.fewer rfl rfl rfl ?_
    simpa [starts, List.count_append, goTo, add_assoc] using hStarts.le
  | queuedDisconnect => exact h.fewer rfl rfl rfl (by simp [starts])
  | started socket savedErrno rest c hTasks hSettled hStart =>
    -- the task is taken, and the attempt it starts is the one counted
    exact h.start hTasks hSettled.1 hStart
  | shutTask socket savedErrno rest hTasks hUp =>
    -- a connection that is up came from an established connector
    have hState := h.connected hUp
    exact { h.popped hTasks with
      fresh := fun hne => absurd hState hne }
  | stoppedTask socket savedErrno rest c hTasks hStop =>
    obtain ⟨hEq, hNext⟩ := (h.popped hTasks).stop hStop
    rw [hEq]
    exact hNext
  | connector a c hIdle hLoop hEvent =>
    obtain ⟨hTold, hAttached⟩ := Connector.told_event hEvent hLoop h.attached
    exact h.hear (h.toMatched.hear hTold) hEvent hAttached fun _ => hIdle
  | shut hControl hUp =>
    have hState := h.connected hUp
    exact { h with fresh := fun hne => absurd hState hne }
  | stopped c hControl hStop =>
    obtain ⟨hEq, hNext⟩ := h.stop hStop
    rw [hEq]
    exact hNext
  | down c hControl hReading hDown =>
    have hState := h.connected_of_reading hReading
    exact
      { fresh := fun hne => absurd hState (by simpa using hne)
        single := fun hne => absurd hState (by simpa using hne)
        kept := by simpa using h.kept
        attached := by simpa using h.attached
        dispatch := fun hne => absurd hControl (by simpa using hne) }
  | client a c hControl hMove hUp hDown =>
    exact { h with
      fresh := fun hne => (h.fresh hne).step hMove hUp hDown
      dispatch := fun hne => absurd hControl hne }

theorem sound_new (serializerId : UInt8) (frameReader : FrameReader) :
    Sound (new serializerId frameReader) where
  fresh _ := ⟨rfl, rfl, rfl, .inl rfl⟩
  single _ := Nat.zero_le _
  kept := Connector.accounted_new
  attached := ⟨rfl, rfl, rfl⟩
  dispatch hne := absurd rfl hne

theorem sound_of_reaches {serializerId : UInt8} {frameReader : FrameReader}
    (h : Reaches step (new serializerId frameReader) s) : Sound s :=
  h.invariant (sound_new serializerId frameReader) fun _ _ _ hStep => sound_step hStep

end SharedClient

end Rpc

end ReactorNet
