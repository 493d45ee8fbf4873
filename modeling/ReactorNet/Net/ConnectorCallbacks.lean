import ReactorNet.Net.ConnectorAccounting

/-!
# ReactorNet — what a connector tells its client

Whoever waits for an attempt hears of its end through one of the two callbacks, if at all. A
loop event leaves the attempt going on in silence, or ends it with a callback (`told_event`);
so does a start (`told_start`). A stop ends the attempt and is silent (`stop_quiet`).
-/

namespace ReactorNet

def ConnectorEvent.isCallback : ConnectorEvent → Bool
  | .newConnection .. | .connectError .. => true
  | _ => false

/-- What the loop itself does with a connector. -/
def Connector.Action.fromLoop : Connector.Action → Bool
  | .poll _ | .handleEvent _ | .writeBranch .. | .expire | .timeout => true
  | .configure .. | .start .. | .stop | .destroy => false

namespace Connector

variable {c c' d : Connector}

/-- A connector that is used by a `TcpClient`. -/
structure Attached (c : Connector) : Prop where
  alive : c.destroyed = false
  newConnection : c.newConnectionCallback = true
  connectError : c.connectErrorCallback = true

/-- What a step tells who waits for the attempt. -/
inductive Told (c c' : Connector) : Prop
  | nothing (es : List ConnectorEvent) (hLog : c'.log = c.log ++ es)
      (hQuiet : ∀ e ∈ es, e.isCallback = false) (hState : c'.state = c.state)
  | failed (es : List ConnectorEvent) (errno a : Nat) (cause : Cause)
      (hWas : c.state = .kConnecting)
      (hLog : c'.log = c.log ++ (es ++ [.connectError errno a cause]))
      (hQuiet : ∀ e ∈ es, e.isCallback = false) (hState : c'.state = .kFailed)
  | connected (fd : Int) (a : Nat) (cause : Cause) (hWas : c.state = .kConnecting)
      (hLog : c'.log = c.log ++ [.newConnection fd a cause]) (hState : c'.state = .kConnected)

/-- A step that is silent and stays in its state. -/
theorem told_same (hLog : c'.log = c.log) (hState : c'.state = c.state) : Told c c' :=
  .nothing [] (by simpa using hLog) (by simp) hState

theorem Told.congr (h : Told d c') (hLog : d.log = c.log) (hState : d.state = c.state) :
    Told c c' := by
  cases h with
  | nothing es hNew hQuiet hNext => exact .nothing es (hLog ▸ hNew) hQuiet (hState ▸ hNext)
  | failed es errno a cause hWas hNew hQuiet hNext =>
    exact .failed es errno a cause (hState ▸ hWas) (hLog ▸ hNew) hQuiet hNext
  | connected fd a cause hWas hNew hNext =>
    exact .connected fd a cause (hState ▸ hWas) (hLog ▸ hNew) hNext

theorem closing_quiet (c : Connector) : ∀ e ∈ c.closing, e.isCallback = false := by
  unfold closing
  split_ifs <;> simp [ConnectorEvent.isCallback]

theorem told_fail (hWas : c.state = .kConnecting) (h : Attached c) (errno : Nat) (cause : Cause) :
    Told c (c.fail errno cause) ∧ Attached (c.fail errno cause) := by
  obtain ⟨sockfd, -, hEq⟩ := fail_eq c errno cause
  rw [hEq]
  refine ⟨.failed c.closing errno c.attempt cause hWas ?_ (closing_quiet c) rfl, ?_⟩
  · simp [failing, h.connectError]
  · exact ⟨h.alive, h.newConnection, h.connectError⟩

theorem told_finishConnect (hWas : c.state = .kConnecting) (h : Attached c) (cause : Cause) :
    Told c (c.finishConnect cause) ∧ Attached (c.finishConnect cause) := by
  have hEq : c.finishConnect cause =
      { c with
        timeoutId := none
        channel := none
        sockfd := -1
        state := .kConnected
        log := c.log ++ [.newConnection c.sockfd c.attempt cause] } := by
    simp [finishConnect, cancelTimeout, removeChannel, record, h.newConnection]
  rw [hEq]
  exact ⟨.connected c.sockfd c.attempt cause hWas rfl rfl,
    h.alive, h.newConnection, h.connectError⟩

theorem Decides.told {a : Nat} (hDecides : Decides c a c') (h : Attached c) :
    Told c c' ∧ Attached c' := by
  cases hDecides with
  | nothing => exact ⟨told_same rfl rfl, h⟩
  | failed errno cause _ hGoing => exact told_fail hGoing h errno cause
  | finished _ hGoing => exact told_finishConnect hGoing h _
  | dangling hDead => simp [h.alive] at hDead

/-! What an outcome does not take back: the rest of the round. -/

theorem fail_state (c : Connector) (errno : Nat) (cause : Cause) :
    (c.fail errno cause).state = .kFailed := by
  obtain ⟨sockfd, -, hEq⟩ := fail_eq c errno cause
  rw [hEq]

theorem fail_round (c : Connector) (errno : Nat) (cause : Cause) :
    (c.fail errno cause).control = c.control ∧ (c.fail errno cause).ready = c.ready ∧
      (c.fail errno cause).due = c.due := by
  obtain ⟨sockfd, -, hEq⟩ := fail_eq c errno cause
  rw [hEq]
  exact ⟨rfl, rfl, rfl⟩

theorem Decides.round {a : Nat} (hDecides : Decides c a c') :
    c'.control = c.control ∧ c'.ready = c.ready ∧ c'.due = c.due := by
  cases hDecides with
  | nothing | dangling => exact ⟨rfl, rfl, rfl⟩
  | failed errno cause => exact fail_round c errno cause
  | finished =>
    unfold finishConnect
    simp only
    split_ifs <;> exact ⟨rfl, rfl, rfl⟩

/-- **A loop event** leaves the attempt going on in silence, or ends it with a callback. -/
theorem told_event {a : Action} (hStep : c.step a = some c') (hLoop : a.fromLoop = true)
    (h : Attached c) : Told c c' ∧ Attached c' := by
  cases step_outcome hStep with
  | configured | started | stopped | destroyed => cases hLoop
  | polled | expired => exact ⟨told_same rfl rfl, { h with }⟩
  | dispatched a revents soError =>
    split_ifs
    · obtain ⟨hTold, hNext⟩ := (decides_handleError { c with
        ready := none
        control := .writeBranch a revents (c.calledBack revents) } a soError).told { h with }
      exact ⟨hTold.congr rfl rfl, hNext⟩
    · exact ⟨told_same rfl rfl, { h with }⟩
  | wrote a revents inCallback soError selfConnect =>
    split_ifs
    · obtain ⟨hTold, hNext⟩ :=
        (decides_handleWrite { c with control := .loop } a soError selfConnect).told { h with }
      exact ⟨hTold.congr rfl rfl, hNext⟩
    · exact ⟨told_same rfl rfl, { h with }⟩
  | timedOut a =>
    obtain ⟨hTold, hNext⟩ := (decides_handleTimeout { c with due := none } a).told { h with }
    exact ⟨hTold.congr rfl rfl, hNext⟩

/-- A start that finds no attempt and no connection. -/
theorem told_start {socket : Except Nat Nat} {savedErrno : Nat}
    (hStep : c.step (.start socket savedErrno) = some c') (h : Attached c)
    (hConnecting : c.state ≠ .kConnecting) (hConnected : c.state ≠ .kConnected) :
    Told { c with state := .kConnecting } c' ∧ Attached c' ∧ c'.control = c.control := by
  cases step_outcome hStep
  have hBegins := begins_startInLoop c socket savedErrno
  generalize c.startInLoop socket savedErrno = c' at hBegins hStep ⊢
  cases hBegins with
  | busy hBusy => exact absurd hBusy (not_or.mpr ⟨hConnecting, hConnected⟩)
  | noSocket errno =>
    obtain ⟨hTold, hNext⟩ := told_fail (c := { c with
      state := .kConnecting
      attempt := c.attempt + 1 }) rfl { h with } errno (.syscall (c.attempt + 1))
    exact ⟨hTold.congr rfl rfl, hNext, (fail_round ..).1⟩
  | refused fd errno =>
    obtain ⟨sockfd, -, hEq⟩ := fail_eq (c.opened fd) errno (.syscall (c.attempt + 1))
    rw [hEq]
    refine ⟨.failed [.socket fd (c.attempt + 1), .close fd] errno (c.attempt + 1)
      (.syscall (c.attempt + 1)) rfl ?_ (by simp [ConnectorEvent.isCallback]) rfl, { h with }, rfl⟩
    simp [failing, closing, opened, h.connectError]
  | going fd timeoutId =>
    exact ⟨.nothing [.socket fd (c.attempt + 1)] rfl (by simp [ConnectorEvent.isCallback]) rfl,
      { h with }, rfl⟩

/-- A start that finds one of the two does nothing. -/
theorem start_eq {socket : Except Nat Nat} {savedErrno : Nat}
    (hStep : c.step (.start socket savedErrno) = some c')
    (hBusy : c.state = .kConnecting ∨ c.state = .kConnected) : c' = c := by
  cases step_outcome hStep
  exact if_pos hBusy

theorem stop_quiet (hStep : c.step .stop = some c') (hKept : Accounted c) (h : Attached c) :
    (∃ es, c'.log = c.log ++ es ∧ ∀ e ∈ es, e.isCallback = false) ∧ Attached c' ∧
      c'.control = c.control ∧ c'.ready = c.ready ∧ c'.due = c.due ∧
      c'.state =
        if c.state = .kConnecting ∨ c.state = .kFailed then .kDisconnected else c.state := by
  rcases step_outcome hStep with _ | _ | ⟨hAlive⟩
  have hState : (c.stopInLoop.record (.stopped c.attempt)).state =
      if c.state = .kConnecting ∨ c.state = .kFailed then .kDisconnected else c.state := by
    unfold stopInLoop
    by_cases hGoing : c.state = .kConnecting
    · obtain ⟨sockfd, -, hEq⟩ := closeSockfd_eq
        { c with state := .kDisconnected, timeoutId := none, channel := none }
      simp [hGoing, cancelTimeout, removeChannel, hEq, record]
    · by_cases hFailed : c.state = .kFailed <;> simp [hGoing, hFailed, record]
  obtain ⟨sockfd, -, state, -, hEq⟩ := stopInLoop_eq (hKept.tidy hAlive)
  rw [hState.symm, hEq]
  refine ⟨⟨_, rfl, fun e he => ?_⟩, ⟨h.alive, h.newConnection, h.connectError⟩, rfl, rfl, rfl, rfl⟩
  rcases List.mem_append.mp he with he | he
  · exact closing_quiet c e he
  · rw [List.mem_singleton.mp he]
    rfl

end Connector

end ReactorNet
