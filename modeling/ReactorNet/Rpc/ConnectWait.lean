import ReactorNet.Rpc.ConnectSound

/-!
# ReactorNet — waiting in connect

`RpcClient::connect` waits for a promise that only the connector's two callbacks fulfil, and
`onConnection` when the connection is down. An attempt that ends in another way leaves the
thread where it is: `stopInLoop`, which is what `disconnect` comes to during a handshake, calls
nothing back. And a thread that has made its checks before another thread's attempt
succeeded still installs its promise, for an attempt that `startInLoop` does not make.

The first part says that as long as neither of the two things happens there is something that
a waiting thread waits for, the second that it can come, and the third what comes of the two
things.

Main result: `connect_is_woken`.
-/

namespace ReactorNet

open Lib

namespace Rpc

namespace SharedClient

variable {s s' t : SharedClient} {c : Connector} {p : Nat}

/-! ## While nothing disturbs -/

/-- The loop is about to stop an attempt that a thread waits for. -/
def CutsOff (s : SharedClient) : Action → Prop
  | .client .disconnect => s.pendingConnect.isSome = true ∧ s.connector.state = .kConnecting
  | .task _ _ => s.tasks.head? = some .disconnect ∧ s.pendingConnect.isSome = true ∧
      s.connector.state = .kConnecting
  | _ => False

/-- A thread is about to install its promise, and another thread's attempt has succeeded. -/
def InstallsLate (s : SharedClient) : Action → Prop
  | .proceed i => s.threads[i]? = some .neverConnected ∧ s.pendingConnect = none ∧
      s.connector.state = .kConnected
  | _ => False

def Undisturbed (s : SharedClient) (a : Action) : Prop := ¬ s.CutsOff a ∧ ¬ s.InstallsLate a

instance (s : SharedClient) (a : Action) : Decidable (s.CutsOff a) := by
  unfold CutsOff
  split <;> infer_instance

instance (s : SharedClient) (a : Action) : Decidable (s.InstallsLate a) := by
  unfold InstallsLate
  split <;> infer_instance

instance (s : SharedClient) (a : Action) : Decidable (s.Undisturbed a) :=
  inferInstanceAs (Decidable (_ ∧ _))

/-- There is an attempt that will fulfil the promise of a thread, or there will be one: its
start is in the queue, or the thread is about to put it there. -/
def InFlight (s : SharedClient) (p : Nat) : Prop :=
  s.connector.state = .kConnecting ∨ .start ∈ s.tasks ∨ s.threads[p]? = some .installed

/-- A promise that is installed is in flight. -/
def Awaited (s : SharedClient) : Prop :=
  ∀ p, s.pendingConnect = some p → s.connector.state ≠ .kConnected ∧ s.InFlight p

theorem awaited_of_none (h : s.pendingConnect = none) : Awaited s := fun p hp => by
  simp [h] at hp

/-- The connector goes on, and whoever it leaves waiting waits for an attempt. -/
theorem Awaited.hear (h : Awaited s) (hTold : Connector.Told s.connector c) :
    Awaited (s.hear c) := by
  rcases hear_told hTold with ⟨hEq, hState⟩ | ⟨hEq, -, -⟩ | ⟨hEq, -, -⟩
  · rw [hEq]
    intro p hp
    unfold InFlight
    simp only [hState]
    exact h p hp
  · exact awaited_of_none (by simp [hEq])
  · exact awaited_of_none (by simp [hEq])

/-- The connector is stopped while no one waits for its attempt. -/
theorem Awaited.stop (h : Awaited s) (hSound : Sound s) (hStep : s.connector.step .stop = some c)
    (hFree : ¬ (s.pendingConnect.isSome = true ∧ s.connector.state = .kConnecting)) :
    Awaited (s.hear c) := by
  obtain ⟨-, -, -, -, -, hState⟩ := Connector.stop_quiet hStep hSound.kept hSound.attached
  rw [(hSound.stop hStep).1]
  intro p hp
  obtain ⟨hNotYet, hInFlight⟩ := h p hp
  have hIdle : s.connector.state ≠ .kConnecting := fun hEq => by
    replace hp : s.pendingConnect = some p := hp
    exact hFree ⟨by simp [hp], hEq⟩
  refine ⟨?_, .inr (hInFlight.resolve_left hIdle)⟩
  show c.state ≠ .kConnected
  rw [hState]
  split_ifs
  · simp
  · exact hNotYet

variable {rest : List ClientTask} {a : Action} {Q : Connector → Prop}

theorem Awaited.start (h : Awaited s) (hSound : Sound s) {socket : Except Nat Nat}
    {savedErrno : Nat} (hStep : s.connector.step (.start socket savedErrno) = some c) :
    Awaited ({ s with tasks := rest }.hear c) := by
  by_cases hConnected : s.connector.state = .kConnected
  · -- no one waits for a connector that has connected
    have hNone : s.pendingConnect = none := by
      rcases hp : s.pendingConnect with _ | p
      · rfl
      · exact absurd hConnected (h p hp).1
    obtain rfl := Connector.start_eq hStep (.inr hConnected)
    rw [hear_self { s with tasks := rest }]
    exact awaited_of_none hNone
  · by_cases hConnecting : s.connector.state = .kConnecting
    · obtain rfl := Connector.start_eq hStep (.inl hConnecting)
      rw [hear_self { s with tasks := rest }]
      exact fun p hp => ⟨hConnected, .inl hConnecting⟩
    · obtain ⟨hTold, -⟩ := Connector.told_start hStep hSound.attached hConnecting hConnected
      exact Awaited.hear (s := { s with
        tasks := rest
        connector := { s.connector with state := .kConnecting } })
        (fun p hp => ⟨by simp, .inl rfl⟩) hTold

/-- A functor other than a start leaves the queue. -/
theorem Awaited.popped (h : Awaited s) (hTasks : s.tasks = .disconnect :: rest) :
    Awaited { s with tasks := rest } := by
  intro p hp
  obtain ⟨hNotYet, hInFlight⟩ := h p hp
  refine ⟨hNotYet, ?_⟩
  rcases hInFlight with hState | hMem | hPc
  · exact .inl hState
  · exact .inr (.inl (by simpa [hTasks] using hMem))
  · exact .inr (.inr hPc)

/-- **The step lemma** under the condition. -/
theorem awaited_step (hStep : s.step a = some s') (hFree : s.Undisturbed a) (hSound : Sound s)
    (h : Awaited s) : Awaited s' := by
  obtain ⟨hNoCut, hNotLate⟩ := hFree
  cases step_outcome hStep with
  | entered =>
    intro p hp
    obtain ⟨hNotYet, hInFlight⟩ := h p hp
    refine ⟨hNotYet, hInFlight.imp_right (Or.imp_right fun hPc => ?_)⟩
    obtain ⟨hLt, -⟩ := List.getElem?_eq_some_iff.mp hPc
    rw [List.getElem?_append_left hLt]
    exact hPc
  | moved i pc pc' hPc hFrom hTo =>
    -- the waiting thread itself does not move like this
    intro p hp
    obtain ⟨hNotYet, hInFlight⟩ := h p hp
    refine ⟨hNotYet, hInFlight.imp_right (Or.imp_right fun hInstalled => ?_)⟩
    have hne : i ≠ p := fun hEq => by
      rw [hEq, hInstalled] at hPc
      exact hFrom (Option.some.inj hPc).symm
    show (s.threads.set i pc')[p]? = _
    rw [List.getElem?_set_ne hne]
    exact hInstalled
  | installed i hPc hNone =>
    -- the promise is new, and its thread has yet to queue the start
    intro p hp
    obtain rfl := Option.some.inj hp
    obtain ⟨hLt, -⟩ := List.getElem?_eq_some_iff.mp hPc
    refine ⟨fun hUp => hNotLate ⟨hPc, hNone, hUp⟩, .inr (.inr ?_)⟩
    exact List.getElem?_set_self hLt
  | queued i hPc => exact fun p hp => ⟨(h p hp).1, .inr (.inl (by simp))⟩
  | queuedDisconnect =>
    intro p hp
    obtain ⟨hNotYet, hInFlight⟩ := h p hp
    exact ⟨hNotYet, hInFlight.imp_right (Or.imp_left fun hMem => List.mem_append_left _ hMem)⟩
  | started socket savedErrno rest c hTasks hSettled hStart => exact h.start hSound hStart
  | shutTask socket savedErrno rest hTasks hUp =>
    exact fun p hp => absurd (hSound.connected hUp) (h p hp).1
  | stoppedTask socket savedErrno rest c hTasks hStop =>
    refine (h.popped hTasks).stop (hSound.popped hTasks) hStop fun hCut => hNoCut ?_
    exact ⟨by simp [hTasks], hCut⟩
  | connector a c hIdle hLoop hEvent =>
    exact h.hear (Connector.told_event hEvent hLoop hSound.attached).1
  | shut hControl hUp => exact fun p hp => absurd (hSound.connected hUp) (h p hp).1
  | stopped c hControl hStop => exact h.stop hSound hStop hNoCut
  | down => exact awaited_of_none (fulfil_pendingConnect ..)
  | client => exact h

/-! ## What fulfils the promise -/

/-- Only the loop goes on, and the thread itself; user code returns. -/
def Onward (p : Nat) (_ : SharedClient) : Action → Prop
  | .task .. | .connector _ | .client .ret | .client (.resume _) => True
  | .proceed i => i = p
  | _ => False

/-- The promise of a thread can be fulfilled by what is left to be done. -/
def Wakes (s : SharedClient) (p : Nat) : Prop :=
  ∃ s' v, ReachesBy step (Onward p) s s' ∧ (p, v) ∈ s'.fulfilled

theorem Wakes.of_reachesBy (h : Wakes t p) (hReach : ReachesBy step (Onward p) s t) :
    Wakes s p := by
  obtain ⟨s', v, hOn, hMem⟩ := h
  exact ⟨s', v, hReach.trans hOn, hMem⟩

theorem Sound.reachesBy (h : Sound s) (hReach : ReachesBy step (Onward p) s t) : Sound t :=
  hReach.invariant h fun _ _ _ hStep _ => sound_step hStep

/-- The promise is fulfilled, or the connector comes to what is wanted, in the same state and
in silence. -/
def Leads (s : SharedClient) (p : Nat) (Q : Connector → Prop) : Prop :=
  Wakes s p ∨ ∃ c, ReachesBy step (Onward p) s { s with connector := c } ∧
    c.state = s.connector.state ∧ Q c

theorem hear_fulfils (h : Connector.Told s.connector c) (hPending : s.pendingConnect = some p) :
    (s.hear c = { s with connector := c } ∧ c.state = s.connector.state) ∨
      ∃ v, (p, v) ∈ (s.hear c).fulfilled := by
  refine (hear_told h).imp_right ?_
  rintro (⟨hEq, -, -⟩ | ⟨hEq, -, -⟩)
  · refine ⟨false, hEq ▸ ?_⟩
    exact mem_fulfil (s := { s with connector := c }) hPending false
  · refine ⟨true, hEq ▸ ?_⟩
    exact mem_fulfil (s := { s with
      connector := c
      client := s.client.onConnectionUp
      everConnected := true }) hPending true

theorem leads_event {a : Connector.Action} (hSound : Sound s) (hIdle : s.Idle)
    (hPending : s.pendingConnect = some p) (hLoop : a.fromLoop = true)
    (hStep : s.connector.step a = some c) (hQ : Q c) : Leads s p Q := by
  have hNext : s.step (.connector a) = some (s.hear c) := by
    simp [step, hIdle, hLoop, connectorStep, hStep]
  have hReach : ReachesBy step (Onward p) s (s.hear c) :=
    ReachesBy.refl.next (.connector a) trivial hNext
  have hTold := (Connector.told_event hStep hLoop hSound.attached).1
  rcases hear_fulfils hTold hPending with ⟨hEq, hState⟩ | ⟨v, hMem⟩
  · exact .inr ⟨c, hEq ▸ hReach, hState, hQ⟩
  · exact .inl ⟨_, v, hReach, hMem⟩

theorem Leads.bind {R : Connector → Prop} (h : Leads s p Q) (hSound : Sound s)
    (hNext : ∀ c, Sound { s with connector := c } → c.state = s.connector.state → Q c → Leads { s
      with connector := c } p R) : Leads s p R := by
  rcases h with hWakes | ⟨c, hReach, hState, hQ⟩
  · exact .inl hWakes
  · rcases hNext c (hSound.reachesBy hReach) hState hQ with hWakes | ⟨c', hReach', hState', hR⟩
    · exact .inl (hWakes.of_reachesBy hReach)
    · exact .inr ⟨c', hReach.trans hReach', hState'.trans hState, hR⟩

theorem leads_refl (h : Q s.connector) : Leads s p Q :=
  .inr ⟨s.connector, .refl, rfl, h⟩

/-- The loop gets out of the dispatch it is in. -/
theorem leads_write (hSound : Sound s) (hIdle : s.Idle) (hPending : s.pendingConnect = some p) :
    Leads s p fun c => c.control = .loop ∧ c.ready = s.connector.ready ∧
      c.due = s.connector.due := by
  rcases hControl : s.connector.control with _ | ⟨a, revents, inCallback⟩
  · exact leads_refl ⟨hControl, rfl, rfl⟩
  · have hStep : s.connector.step (.writeBranch 0 false) = some
        (if revents.epollout then
            { s.connector with control := .loop }.invoke a (·.handleWrite a 0 false)
          else { s.connector with control := .loop }) := by
      simp [Connector.step, hControl]
    refine leads_event (a := .writeBranch 0 false) hSound hIdle hPending rfl hStep ?_
    split_ifs
    · exact (Connector.decides_handleWrite { s.connector with control := .loop } a 0 false).round
    · exact ⟨rfl, rfl, rfl⟩

theorem leads_timeout (hSound : Sound s) (hIdle : s.Idle) (hPending : s.pendingConnect = some p)
    (hControl : s.connector.control = .loop) :
    Leads s p fun c => c.control = .loop ∧ c.ready = s.connector.ready ∧ c.due = none := by
  rcases hDue : s.connector.due with _ | a
  · exact leads_refl ⟨hControl, rfl, hDue⟩
  · have hStep : s.connector.step .timeout = some
        ({ s.connector with due := none }.invoke a (·.handleTimeout a)) := by
      simp [Connector.step, hControl, hDue]
    refine leads_event (a := .timeout) hSound hIdle hPending rfl hStep ?_
    obtain ⟨hControl', hReady', hDue'⟩ :=
      (Connector.decides_handleTimeout { s.connector with due := none } a).round
    exact ⟨hControl'.trans hControl, hReady', hDue'⟩

theorem leads_dispatch (hSound : Sound s) (hIdle : s.Idle) (hPending : s.pendingConnect = some p)
    (hControl : s.connector.control = .loop) (hDue : s.connector.due = none) :
    Leads s p fun c => c.ready = none ∧ c.due = none := by
  rcases hReady : s.connector.ready with _ | ⟨a, revents⟩
  · exact leads_refl ⟨hReady, hDue⟩
  · have hStep : s.connector.step (.handleEvent 0) = some
        (if revents.epollerr then
          { s.connector with
            ready := none
            control := .writeBranch a revents (s.connector.calledBack revents) }.invoke a
            (·.handleError a 0)
        else { s.connector with
          ready := none
          control := .writeBranch a revents (s.connector.calledBack revents) }) := by
      simp [Connector.step, hControl, hReady, hDue]
    refine leads_event (a := .handleEvent 0) hSound hIdle hPending rfl hStep ?_
    split_ifs
    · obtain ⟨-, hReady', hDue'⟩ := (Connector.decides_handleError { s.connector with
        ready := none
        control := .writeBranch a revents (s.connector.calledBack revents) } a 0).round
      exact ⟨hReady', hDue'.trans hDue⟩
    · exact ⟨rfl, hDue⟩

/-- **The round comes to its end**, unless the promise is fulfilled in it. -/
theorem leads_settled (hSound : Sound s) (hIdle : s.Idle)
    (hPending : s.pendingConnect = some p) :
    Leads s p fun c => c.control = .loop ∧ c.ready = none ∧ c.due = none := by
  refine (leads_write hSound hIdle hPending).bind hSound fun c₁ h₁ _ hQ₁ => ?_
  refine (leads_timeout h₁ hIdle hPending hQ₁.1).bind h₁ fun c₂ h₂ _ hQ₂ => ?_
  refine (leads_dispatch h₂ hIdle hPending hQ₂.1 hQ₂.2.2).bind h₂ fun c₃ h₃ _ hQ₃ => ?_
  refine (leads_write h₃ hIdle hPending).bind h₃ fun c₄ h₄ _ hQ₄ => ?_
  obtain ⟨hControl, hReady, hDue⟩ := hQ₄
  exact leads_refl ⟨hControl, hReady.trans hQ₃.1, hDue.trans hQ₃.2⟩

/-- While an attempt is going on, an event of its channel fulfils the promise. -/
theorem wakes_connecting (hSound : Sound s) (hIdle : s.Idle) (hPending : s.pendingConnect = some p)
    (hState : s.connector.state = .kConnecting) : Wakes s p := by
  rcases leads_settled hSound hIdle hPending with hWakes | ⟨c, hReach, hSame, hControl, hReady, hDue⟩
  · exact hWakes
  have hSettled := hSound.reachesBy hReach
  refine Wakes.of_reachesBy ?_ hReach
  -- the attempt has a channel, and it may always turn out to be broken
  have hTidy : c.Tidy := hSettled.kept.tidy hSettled.attached.alive
  obtain ⟨a, hChannel⟩ := Option.isSome_iff_exists.mp (hTidy.channel.mpr (hSame.trans hState))
  have hPoll : c.step (.poll { epollerr := true }) = some
      { c with ready := some (a, { epollerr := true }) } := by
    simp [Connector.step, hChannel, hReady, hDue, hControl]
  have hLeads : Leads { s with connector := c } p fun d => d.control = .loop ∧
      d.ready = some (a, { epollerr := true }) ∧ d.due = none :=
    leads_event (a := .poll { epollerr := true }) hSettled hIdle hPending rfl hPoll
      ⟨hControl, rfl, hDue⟩
  rcases hLeads with hWakes | ⟨d, hReach', hSame', hControl', hReady', hDue'⟩
  · exact hWakes
  have hPolled := hSettled.reachesBy hReach'
  refine Wakes.of_reachesBy ?_ hReach'
  have hAlive : d.destroyed = false := hPolled.attached.alive
  have hGoing : d.state = .kConnecting := hSame'.trans (hSame.trans hState)
  have hError : d.step (.handleEvent 0) = some
      ({ d with
        ready := none
        control := .writeBranch a { epollerr := true }
          (d.calledBack { epollerr := true }) }.fail ECONNABORTED (.error a)) := by
    simp [Connector.step, Connector.invoke, hAlive, hControl', hReady', hDue',
      Connector.handleError, hGoing]
  rcases leads_event (a := .handleEvent 0) (Q := fun d => d.state = .kFailed) hPolled hIdle hPending
    rfl hError (Connector.fail_state ..) with hWakes | ⟨e, -, hStay, hFailed⟩
  · exact hWakes
  · -- a failure is not silent
    have hStill : e.state = .kConnecting := hStay.trans hGoing
    rw [hFailed] at hStill
    cases hStill

/-- A start that is at the front of the queue begins an attempt. -/
theorem wakes_start (hSound : Sound s) (hIdle : s.Idle) (hSettled : s.Settled)
    (hPending : s.pendingConnect = some p) (hConnecting : s.connector.state ≠ .kConnecting)
    (hNotYet : s.connector.state ≠ .kConnected) (hTasks : s.tasks = .start :: rest) :
    Wakes s p := by
  obtain ⟨c, hStep⟩ : ∃ c, s.connector.step (.start (.ok 0) EINPROGRESS) = some c := by
    simp [Connector.step, Connector.usable, hSound.attached.alive, hSettled.1,
      ConnectorControl.userCode]
  have hReady : s.Idle ∧ s.Settled := ⟨hIdle, hSettled⟩
  have hNext : s.step (.task (.ok 0) EINPROGRESS) = some ({ s with tasks := rest }.hear c) := by
    simp [step, hReady, runTask, hTasks, connectorStep, hStep]
  have hReach : ReachesBy step (Onward p) s ({ s with tasks := rest }.hear c) :=
    ReachesBy.refl.next (.task (.ok 0) EINPROGRESS) trivial hNext
  obtain ⟨hTold, -, -⟩ := Connector.told_start hStep hSound.attached hConnecting hNotYet
  rcases hear_fulfils (s := { s with
    tasks := rest
    connector := { s.connector with state := .kConnecting } }) hTold hPending with
    ⟨hEq, hState⟩ | ⟨v, hFulfilled⟩
  · replace hEq : { s with tasks := rest }.hear c = { s with tasks := rest, connector := c } := hEq
    rw [hEq] at hReach
    refine Wakes.of_reachesBy ?_ hReach
    exact wakes_connecting (hSound.reachesBy hReach) hIdle hPending hState
  · exact ⟨_, v, hReach, hFulfilled⟩

/-- A disconnect that is at the front of the queue finds nothing to stop. -/
theorem reaches_stopped (hSound : Sound s) (hIdle : s.Idle) (hSettled : s.Settled)
    (hNotYet : s.connector.state ≠ .kConnected) (hTasks : s.tasks = .disconnect :: rest) :
    ∃ c, ReachesBy step (Onward p) s { s with tasks := rest, connector := c } ∧
      Settled { s with tasks := rest, connector := c } ∧ c.state ≠ .kConnected := by
  obtain ⟨c, hStep⟩ : ∃ c, s.connector.step .stop = some c := by
    simp [Connector.step, Connector.usable, hSound.attached.alive, hSettled.1,
      ConnectorControl.userCode]
  have hReady : s.Idle ∧ s.Settled := ⟨hIdle, hSettled⟩
  have hDown : s.client.connection = false := (hSound.fresh hNotYet).connection
  have hEq := ((hSound.popped hTasks).stop hStep).1
  have hNext : s.step (.task (.ok 0) 0) = some { s with tasks := rest, connector := c } := by
    simp [step, hReady, runTask, hTasks, disconnectInLoop, hDown, connectorStep, hStep, hEq]
  obtain ⟨-, -, hControl, hEvent, hDue, hState⟩ :=
    Connector.stop_quiet hStep hSound.kept hSound.attached
  refine ⟨c, ReachesBy.refl.next (.task (.ok 0) 0) trivial hNext, ?_, ?_⟩
  · exact ⟨hControl.trans hSettled.1, hEvent.trans hSettled.2.1, hDue.trans hSettled.2.2⟩
  · rw [hState]
    split_ifs
    · simp
    · exact hNotYet

/-- A start that is in the queue comes to its turn. -/
theorem wakes_queued (hSound : Sound s) (hIdle : s.Idle) (hSettled : s.Settled)
    (hPending : s.pendingConnect = some p) (hNotYet : s.connector.state ≠ .kConnected)
    (hMem : .start ∈ s.tasks) : Wakes s p := by
  -- by induction on the queue: a functor in front of the start leaves the promise waiting
  induction hTasks : s.tasks generalizing s with
  | nil => simp [hTasks] at hMem
  | cons task rest ih =>
    by_cases hConnecting : s.connector.state = .kConnecting
    · exact wakes_connecting hSound hIdle hPending hConnecting
    cases task with
    | start => exact wakes_start hSound hIdle hSettled hPending hConnecting hNotYet hTasks
    | disconnect =>
      obtain ⟨c, hReach, hNext, hState⟩ :=
        reaches_stopped (p := p) hSound hIdle hSettled hNotYet hTasks
      refine Wakes.of_reachesBy ?_ hReach
      exact ih (hSound.reachesBy hReach) hIdle hNext hPending hState
        (by simpa [hTasks] using hMem) rfl

theorem reaches_returned (hControl : s.connector.control = .loop) :
    ReachesBy step (Onward p) s { s with client := { s.client with running := [] } } := by
  induction hRunning : s.client.running generalizing s with
  | nil =>
    rw [← hRunning]
    exact .refl
  | cons call rest ih =>
    have hNext : s.step (.client .ret) =
        some { s with client := { s.client with running := rest } } := by
      simp [step, hControl, clientStep, Client.step, hRunning]
    exact (ReachesBy.refl.next (.client .ret) trivial hNext).trans
      (ih (s := { s with client := { s.client with running := rest } }) hControl rfl)

/-- A client that has no connection comes to rest. -/
theorem reaches_idle (hSound : Sound s) (hNotYet : s.connector.state ≠ .kConnected) :
    ∃ client, ReachesBy step (Onward p) s { s with client := client } ∧
      Idle { s with client := client } := by
  by_cases hControl : s.connector.control = .loop
  · have hReturned := reaches_returned (p := p) hControl
    rcases (hSound.fresh hNotYet).control with hIdle | hExpiring
    · exact ⟨_, hReturned, rfl, hIdle⟩
    · -- the batch of expired timers is empty
      refine ⟨{ s.client with running := [], control := .idle }, ?_, rfl, rfl⟩
      refine hReturned.next (.client (.resume 0)) trivial ?_
      simp [step, hControl, clientStep, Client.step, Client.resume, hExpiring]
  · exact ⟨s.client, .refl, hSound.dispatch hControl⟩

/-- **What is in flight fulfils the promise.** -/
theorem wakes_of_awaited (hSound : Sound s) (h : Awaited s) (hPending : s.pendingConnect = some p) :
    Wakes s p := by
  obtain ⟨hNotYet, hInFlight⟩ := h p hPending
  have hGoing : ∀ s : SharedClient, Sound s → s.pendingConnect = some p →
      s.connector.state ≠ .kConnected → s.connector.state = .kConnecting ∨ .start ∈ s.tasks →
      Wakes s p := by
    intro s hSound hPending hNotYet hFlight
    obtain ⟨client, hReach, hIdle⟩ := reaches_idle (p := p) hSound hNotYet
    refine Wakes.of_reachesBy ?_ hReach
    have hRest := hSound.reachesBy hReach
    rcases hFlight with hState | hMem
    · exact wakes_connecting hRest hIdle hPending hState
    · rcases leads_settled hRest hIdle hPending with hWakes | ⟨c, hReach', hSame, hSettled⟩
      · exact hWakes
      · refine Wakes.of_reachesBy ?_ hReach'
        exact wakes_queued (hRest.reachesBy hReach') hIdle hSettled hPending
          (fun hUp => hNotYet (hSame.symm.trans hUp)) hMem
  rcases hInFlight with hState | hMem | hPc
  · exact hGoing s hSound hPending hNotYet (.inl hState)
  · exact hGoing s hSound hPending hNotYet (.inr hMem)
  · -- the thread queues its start first
    have hNext : s.step (.proceed p) =
        some { s.goTo p .waiting with tasks := s.tasks ++ [.start] } := by
      simp [step, proceed, hPc]
    have hReach : ReachesBy step (Onward p) s _ := ReachesBy.refl.next (.proceed p) rfl hNext
    refine Wakes.of_reachesBy ?_ hReach
    exact hGoing _ (hSound.reachesBy hReach) hPending hNotYet (.inr (by simp))

/-! ## What comes of a disturbance -/

/-- A promise that no attempt will fulfil: the connector has connected, or it is at rest and
no start is to come. -/
structure Abandoned (s : SharedClient) (p : Nat) (state : ConnectorState) : Prop where
  pending : s.pendingConnect = some p
  state_eq : s.connector.state = state
  quiet : state = .kConnected ∨ state = .kDisconnected ∧ s.starts = 0

variable {state : ConnectorState}

theorem Abandoned.fewer (h : Abandoned s p state) (hPending : s'.pendingConnect = s.pendingConnect)
    (hState : s'.connector.state = s.connector.state) (hStarts : s'.starts ≤ s.starts) :
    Abandoned s' p state where
  pending := hPending.trans h.pending
  state_eq := hState.trans h.state_eq
  quiet := h.quiet.imp_right fun hRest => ⟨hRest.1, Nat.le_zero.mp (hStarts.trans hRest.2.le)⟩

theorem Abandoned.state_ne (h : Abandoned s p state) : s.connector.state ≠ .kConnecting := by
  rw [h.state_eq]
  rcases h.quiet with hUp | ⟨hDown, -⟩
  · simp [hUp]
  · simp [hDown]

theorem Abandoned.popped (h : Abandoned s p state) {task : ClientTask}
    (hTasks : s.tasks = task :: rest) : Abandoned { s with tasks := rest } p state :=
  h.fewer rfl rfl (by simp [starts, hTasks, List.count_cons])

theorem Abandoned.stop (h : Abandoned s p state) (hSound : Sound s)
    (hStep : s.connector.step .stop = some c) : Abandoned (s.hear c) p state := by
  obtain ⟨-, -, -, -, -, hState⟩ := Connector.stop_quiet hStep hSound.kept hSound.attached
  rw [(hSound.stop hStep).1]
  refine h.fewer rfl ?_ le_rfl
  show c.state = s.connector.state
  rw [hState, if_neg]
  rintro (hEq | hEq)
  · exact h.state_ne hEq
  · rcases h.quiet with hUp | ⟨hDown, -⟩ <;> simp_all [h.state_eq]

/-- It stays abandoned, unless a connection goes down. -/
theorem abandoned_step (hStep : s.step a = some s') (hSound : Sound s)
    (hDown : state = .kConnected → a ≠ .client .down) (h : Abandoned s p state) :
    Abandoned s' p state := by
  cases step_outcome hStep with
  | entered => exact h.fewer rfl rfl (by simp [starts])
  | moved i pc pc' hPc hFrom hTo =>
    have hStarts := starts_goTo hPc pc'
    rw [if_neg hFrom, if_neg hTo] at hStarts
    exact h.fewer rfl rfl hStarts.le
  | installed i hPc hNone => simp [h.pending] at hNone
  | queued i hPc =>
    have hStarts := starts_goTo hPc .waiting
    refine h.fewer rfl rfl ?_
    simpa [starts, List.count_append, goTo, add_assoc] using hStarts.le
  | queuedDisconnect => exact h.fewer rfl rfl (by simp [starts])
  | started socket savedErrno rest c hTasks hSettled hStart =>
    -- a start finds the connector connected, or there is none queued
    rcases h.quiet with hUp | ⟨-, hNone⟩
    · obtain rfl := Connector.start_eq hStart (.inr (h.state_eq.trans hUp))
      rw [hear_self { s with tasks := rest }]
      exact h.popped hTasks
    · simp [starts, hTasks] at hNone
  | shutTask socket savedErrno rest hTasks hUp => exact (h.popped hTasks).fewer rfl rfl le_rfl
  | stoppedTask socket savedErrno rest c hTasks hStop =>
    exact (h.popped hTasks).stop (hSound.popped hTasks) hStop
  | connector a c hIdle hLoop hEvent =>
    -- only a connecting connector could still fulfil the promise
    have hTold := (Connector.told_event hEvent hLoop hSound.attached).1
    rcases hear_told hTold with ⟨hEq, hState⟩ | ⟨-, hWas, -⟩ | ⟨-, hWas, -⟩
    · rw [hEq]
      exact h.fewer rfl hState le_rfl
    · exact absurd hWas h.state_ne
    · exact absurd hWas h.state_ne
  | shut hControl hUp => exact h.fewer rfl rfl le_rfl
  | stopped c hControl hStop => exact h.stop hSound hStop
  | down c hControl hReading =>
    exact absurd rfl (hDown (h.state_eq.symm.trans (hSound.connected_of_reading hReading)))
  | client => exact h.fewer rfl rfl le_rfl

/-- Where there has been no connection, it stays abandoned for ever. -/
theorem Abandoned.forever (h : Abandoned s p .kDisconnected) (hSound : Sound s)
    (hReach : Reaches step s t) : Abandoned t p .kDisconnected := by
  have hInv := hReach.invariant (P := fun s => Sound s ∧ Abandoned s p .kDisconnected)
    ⟨hSound, h⟩
    fun s s' a hStep h => ⟨sound_step hStep h.1, abandoned_step hStep h.1 (by simp) h.2⟩
  exact hInv.2

theorem Abandoned.not_inFlight (h : Abandoned s p .kDisconnected) : ¬ s.InFlight p := by
  rcases h.quiet with hUp | ⟨-, hNone⟩
  · cases hUp
  · obtain ⟨hThreads, hTasks⟩ := Nat.add_eq_zero_iff.mp hNone
    rintro (hState | hMem | hPc)
    · exact h.state_ne hState
    · exact List.count_eq_zero.mp hTasks hMem
    · exact List.count_eq_zero.mp hThreads (List.mem_of_getElem? hPc)

/-- A stop in a handshake takes everything away that the promise waited for. -/
theorem abandoned_stop (hSound : Sound s) (hPending : s.pendingConnect = some p)
    (hState : s.connector.state = .kConnecting) (hStep : s.connector.step .stop = some c) :
    Abandoned (s.hear c) p .kDisconnected := by
  obtain ⟨-, -, -, -, -, hNext⟩ := Connector.stop_quiet hStep hSound.kept hSound.attached
  rw [(hSound.stop hStep).1]
  refine ⟨hPending, hNext.trans (if_pos (.inl hState)), .inr ⟨rfl, ?_⟩⟩
  have hSingle := hSound.single (by simp [hState])
  rw [if_pos hState] at hSingle
  show s.starts = 0
  split at hSingle <;> omega

theorem abandoned_of_cutsOff (hSound : Sound s) (hStep : s.step a = some s') (hCuts : s.CutsOff a) :
    ∃ p, s.pendingConnect = some p ∧ Abandoned s' p .kDisconnected := by
  -- what cuts a connect off is a stop while it is pending
  cases step_outcome hStep with
  | entered | moved | installed | queued | queuedDisconnect | connector | down => exact hCuts.elim
  | started socket savedErrno rest c hTasks =>
    simp [CutsOff, hTasks] at hCuts
  | shutTask socket savedErrno rest hTasks hUp =>
    obtain ⟨-, -, hState⟩ := hCuts
    simp [hSound.connected hUp] at hState
  | stoppedTask socket savedErrno rest c hTasks hStop =>
    obtain ⟨-, hSome, hState⟩ := hCuts
    obtain ⟨p, hp⟩ := Option.isSome_iff_exists.mp hSome
    exact ⟨p, hp, abandoned_stop (hSound.popped hTasks) hp hState hStop⟩
  | shut hControl hUp =>
    obtain ⟨-, hState⟩ := hCuts
    simp [hSound.connected hUp] at hState
  | stopped c hControl hStop =>
    obtain ⟨hSome, hState⟩ := hCuts
    obtain ⟨p, hp⟩ := Option.isSome_iff_exists.mp hSome
    exact ⟨p, hp, abandoned_stop hSound hp hState hStop⟩
  | client a c hControl hMove hUp hDown hDisconnect =>
    cases a with
    | disconnect => exact absurd rfl hDisconnect
    | call | ret | resume | recv | expire | up | down => exact hCuts.elim

theorem abandoned_of_installsLate {i : Nat} (hStep : s.step (.proceed i) = some s')
    (hLate : s.InstallsLate (.proceed i)) : Abandoned s' i .kConnected := by
  obtain ⟨hPc, hNone, hState⟩ := hLate
  have hNext : s.step (.proceed i) =
      some { s.goTo i .installed with pendingConnect := some i } := by
    simp [step, proceed, hPc, hNone]
  obtain rfl := Option.some.inj (hNext.symm.trans hStep)
  exact ⟨rfl, hState, .inl rfl⟩

/-- **A thread in `connect` is going to be woken**: in every run in which the loop never stops
an attempt that is waited for, and no promise is installed after another thread's attempt has
succeeded, a promise that is installed has an attempt that is going on, or a start that is
queued or about to be, and what is left to be done can fulfil it. A stop during the handshake
leaves the promise for ever, with nothing in flight; a promise that comes too late is left for
as long as the connection lasts. -/
theorem connect_is_woken (serializerId : UInt8) (frameReader : FrameReader) (s : SharedClient) :
    (ReachesBy step Undisturbed (new serializerId frameReader) s →
      ∀ p, s.pendingConnect = some p → s.InFlight p ∧ s.Wakes p) ∧
    (Reaches step (new serializerId frameReader) s → ∀ a s', s.step a = some s' →
      (s.CutsOff a → ∃ p, s.pendingConnect = some p ∧
        ∀ t, Reaches step s' t → t.pendingConnect = some p ∧ ¬ t.InFlight p) ∧
      (s.InstallsLate a → ∃ p, a = .proceed p ∧
        ∀ t, ReachesBy step (fun _ a => a ≠ .client .down) s' t → t.pendingConnect = some p)) := by
  refine ⟨fun h p hp => ?_, fun h a s' hStep => ⟨fun hCuts => ?_, fun hLate => ?_⟩⟩
  · have hInv := h.invariant (P := fun s => Sound s ∧ Awaited s)
      ⟨sound_new serializerId frameReader, awaited_of_none rfl⟩
      fun s s' a hStep hFree h => ⟨sound_step hStep h.1, awaited_step hStep hFree h.1 h.2⟩
    exact ⟨(hInv.2 p hp).2, wakes_of_awaited hInv.1 hInv.2 hp⟩
  · have hSound := sound_of_reaches h
    obtain ⟨p, hp, hLeft⟩ := abandoned_of_cutsOff hSound hStep hCuts
    refine ⟨p, hp, fun t hReach => ?_⟩
    have hStill := hLeft.forever (sound_step hStep hSound) hReach
    exact ⟨hStill.pending, hStill.not_inFlight⟩
  · cases a with
    | proceed i =>
      refine ⟨i, rfl, fun t hReach => ?_⟩
      have hInv := hReach.invariant (P := fun s => Sound s ∧ Abandoned s i .kConnected)
        ⟨sound_step hStep (sound_of_reaches h), abandoned_of_installsLate hStep hLate⟩
        fun s s' a hStep hOk h =>
          ⟨sound_step hStep h.1, abandoned_step hStep h.1 (fun _ => hOk) h.2⟩
      exact hInv.2.pending
    | connect | disconnect | task | connector | client => exact hLate.elim

/-- A thread has got through `connect` up to its wait, and the loop has begun its attempt. -/
def handshake : List Action :=
  [.connect, .proceed 0, .proceed 0, .proceed 0, .proceed 0, .task (.ok 5) EINPROGRESS]

theorem connect_is_woken_handshake :
    ∃ s, runAllBy step Undisturbed (new kSerializerRaw FrameReader.default) handshake = some s ∧
      s.threads = [.waiting] ∧ s.pendingConnect = some 0 ∧ s.InFlight 0 ∧ s.Wakes 0 := by
  obtain ⟨s, hRun, hThreads, hPending⟩ : ∃ s,
      runAllBy step Undisturbed (new kSerializerRaw FrameReader.default) handshake = some s ∧
        s.threads = [.waiting] ∧ s.pendingConnect = some 0 := ⟨_, rfl, rfl, rfl⟩
  obtain ⟨hInFlight, hWakes⟩ :=
    (connect_is_woken kSerializerRaw FrameReader.default s).1 (reachesBy_of_runAllBy hRun) 0 hPending
  exact ⟨s, hRun, hThreads, hPending, hInFlight, hWakes⟩

/-- Then another thread disconnects, and the loop carries it out: the thread waits for a
promise that nothing is going to fulfil. -/
theorem disconnect_strands_connect :
    ∃ s, runAll step (new kSerializerRaw FrameReader.default)
        (handshake ++ [.disconnect, .task (.ok 0) 0]) = some s ∧
      s.threads = [.waiting] ∧ s.pendingConnect = some 0 ∧ ¬ s.InFlight 0 ∧
      ∀ t, Reaches step s t → t.pendingConnect = some 0 := by
  obtain ⟨s, hRun, hThreads, hPending, hState, hTasks⟩ : ∃ s,
      runAll step (new kSerializerRaw FrameReader.default)
          (handshake ++ [.disconnect, .task (.ok 0) 0]) = some s ∧
        s.threads = [.waiting] ∧ s.pendingConnect = some 0 ∧
        s.connector.state = .kDisconnected ∧ s.tasks = [] := ⟨_, rfl, rfl, rfl, rfl, rfl⟩
  have hLeft : Abandoned s 0 .kDisconnected :=
    ⟨hPending, hState, .inr ⟨rfl, by simp [starts, hThreads, hTasks]⟩⟩
  have hSound := sound_of_reaches (reaches_of_runAll hRun)
  exact ⟨s, hRun, hThreads, hPending, hLeft.not_inFlight,
    fun t hReach => (hLeft.forever hSound hReach).pending⟩

end SharedClient

end Rpc

end ReactorNet
