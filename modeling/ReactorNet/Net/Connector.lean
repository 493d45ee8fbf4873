import ReactorNet.Lib.System
import ReactorNet.Net.TcpConnection

/-!
# ReactorNet — the connector

`Connector` of `src/Connector.cpp` on its loop. Every function of the class calls back as
the last thing it does, so each is one step, and what a callback does (start, stop) is the
next step. What the loop has committed itself to is kept beside the connector: the channel
event that epoll has reported, the rest of the dispatch that the loop is in, and the
deadline timer of the expired batch. `stop` and a failure remove the channel and cancel the
timer, but they do not take back a commitment: the callbacks of the old channel and of the
old timer will still be called, and they know nothing but the connector.

Attempts are numbered, so that the log can say whose outcome a callback reported and what
caused it. The numbers are not in the source: there, a callback only looks at the state.

The destructor does not take the commitments back either. After it no one uses the connector
any more, but the loop still carries out what it is committed to, and the callback captures the
dead object. What the callback does there is undefined: the model records that it is called
(`ConnectorEvent.dangling`) and lets nothing else happen. Whether there is such a call can be
told when the destructor runs (`leftover`).
-/

namespace ReactorNet

open Lib

/-! ## Error numbers that the connector names -/

def EINTR : Nat := 4

def ECONNABORTED : Nat := 103

def EISCONN : Nat := 106

def ETIMEDOUT : Nat := 110

def ECONNREFUSED : Nat := 111

def EINPROGRESS : Nat := 115

/-- `Connector::StateE`. -/
inductive ConnectorState where
  | kDisconnected
  | kConnecting
  | kConnected
  | kFailed
  deriving DecidableEq, Repr

/-- What made the connector report an outcome, with the attempt that it belongs to. -/
inductive Cause where
  /-- `socket` or `connect` failed. -/
  | syscall (attempt : Nat)
  /-- The attempt's channel is writable, and this is the error that the socket has. -/
  | writable (attempt soError : Nat)
  /-- The attempt's channel has an error. -/
  | error (attempt : Nat)
  /-- The attempt's deadline has passed. -/
  | timer (attempt : Nat)
  deriving DecidableEq, Repr

def Cause.attempt : Cause → Nat
  | .syscall a | .writable a _ | .error a | .timer a => a

inductive ConnectorEvent where
  /-- `socket` returned this descriptor. -/
  | socket (fd : Int) (attempt : Nat)
  | close (fd : Int)
  | newConnection (fd : Int) (attempt : Nat) (cause : Cause)
  | connectError (savedErrno : Nat) (attempt : Nat) (cause : Cause)
  /-- `stop`, with the number of the last attempt. -/
  | stopped (attempt : Nat)
  /-- A callback of this attempt was called after the connector was destroyed. -/
  | dangling (attempt : Nat)
  deriving DecidableEq, Repr

/-- Where the loop is. -/
inductive ConnectorControl where
  /-- In no dispatch of a channel of the connector. -/
  | loop
  /-- In the dispatch of the channel of an attempt, before the write branch; user code runs
  only if the error branch has called back. -/
  | writeBranch (attempt : Nat) (revents : Revents) (inCallback : Bool)
  deriving DecidableEq, Repr

/-- User code can be running. -/
def ConnectorControl.userCode : ConnectorControl → Bool
  | .loop => true
  | .writeBranch _ _ inCallback => inCallback

structure Connector where
  state : ConnectorState := .kDisconnected
  /-- `channel_`, by the attempt it was created for. -/
  channel : Option Nat := none
  sockfd : Int := -1
  /-- `timeoutId_`, by the attempt it was armed for. -/
  timeoutId : Option Nat := none
  /-- `timeoutSeconds_` is positive. -/
  hasTimeout : Bool := true
  /-- The callbacks are set. -/
  newConnectionCallback : Bool := true
  connectErrorCallback : Bool := true
  /-- The number of attempts so far. -/
  attempt : Nat := 0
  /-- The event that epoll has reported of a channel, and that is to be dispatched. -/
  ready : Option (Nat × Revents) := none
  /-- The deadline that is in the batch of expired timers, and that is to be run. -/
  due : Option Nat := none
  control : ConnectorControl := .loop
  destroyed : Bool := false
  log : List ConnectorEvent := []

namespace Connector

def record (c : Connector) (e : ConnectorEvent) : Connector := { c with log := c.log ++ [e] }

/-! ## The functions of the class -/

/-- `cancelTimer` takes the timer out of the queue, unless its batch is running. -/
def cancelTimeout (c : Connector) : Connector := { c with timeoutId := none }

def removeChannel (c : Connector) : Connector := { c with channel := none }

def closeSockfd (c : Connector) : Connector :=
  if 0 ≤ c.sockfd then { c.record (.close c.sockfd) with sockfd := -1 } else c

def fail (c : Connector) (savedErrno : Nat) (cause : Cause) : Connector :=
  let c := { c with state := .kFailed }.cancelTimeout.removeChannel.closeSockfd
  if c.connectErrorCallback then c.record (.connectError savedErrno c.attempt cause) else c

def finishConnect (c : Connector) (cause : Cause) : Connector :=
  let c := c.cancelTimeout.removeChannel
  let sockfd := c.sockfd
  let c := { c with sockfd := -1, state := .kConnected }
  if c.newConnectionCallback then c.record (.newConnection sockfd c.attempt cause)
  else c.record (.close sockfd)

/-- The answers of `connect` after which the handshake goes on. -/
def inProgress (savedErrno : Nat) : Bool :=
  savedErrno == 0 || savedErrno == EINPROGRESS || savedErrno == EINTR || savedErrno == EISCONN

/-- `connect`, with what the calls of `socket` and `connect` return. -/
def connect (c : Connector) (socket : Except Nat Nat) (savedErrno : Nat) : Connector :=
  match socket with
  | .error errno => c.fail errno (.syscall c.attempt)
  | .ok fd =>
    let c := { c with sockfd := fd, channel := some c.attempt }.record (.socket fd c.attempt)
    if inProgress savedErrno then
      -- an immediate success waits for the channel, too: that is the only way to complete
      if c.hasTimeout then { c with timeoutId := some c.attempt } else c
    else c.fail savedErrno (.syscall c.attempt)

def startInLoop (c : Connector) (socket : Except Nat Nat) (savedErrno : Nat) : Connector :=
  -- one attempt at a time, and none after a success
  if c.state = .kConnecting ∨ c.state = .kConnected then c
  else { c with state := .kConnecting, attempt := c.attempt + 1 }.connect socket savedErrno

def stopInLoop (c : Connector) : Connector :=
  if c.state = .kConnecting then
    { c with state := .kDisconnected }.cancelTimeout.removeChannel.closeSockfd
  -- a failure has cleaned up already
  else if c.state = .kFailed then { c with state := .kDisconnected }
  else c

/-- `handleWrite`, as the write callback of the channel of an attempt. -/
def handleWrite (c : Connector) (attempt soError : Nat) (selfConnect : Bool) : Connector :=
  if c.state ≠ .kConnecting then c
  else if soError ≠ 0 then c.fail soError (.writable attempt soError)
  -- the kernel may connect a socket to itself when the port is free
  else if selfConnect then c.fail ECONNREFUSED (.writable attempt soError)
  else c.finishConnect (.writable attempt soError)

/-- `handleError`, as the error callback of the channel of an attempt. -/
def handleError (c : Connector) (attempt soError : Nat) : Connector :=
  if c.state ≠ .kConnecting then c
  else c.fail (if soError = 0 then ECONNABORTED else soError) (.error attempt)

/-- `handleTimeout`, as the callback of the deadline of an attempt. -/
def handleTimeout (c : Connector) (attempt : Nat) : Connector :=
  if c.state = .kConnecting then c.fail ETIMEDOUT (.timer attempt) else c

/-- The destructor. -/
def destroy (c : Connector) : Connector :=
  { c.cancelTimeout.removeChannel.closeSockfd with destroyed := true }

/-- The loop calls a callback of an attempt's channel or deadline, which captures the
connector, dead or alive. -/
def invoke (c : Connector) (attempt : Nat) (callback : Connector → Connector) : Connector :=
  if c.destroyed then c.record (.dangling attempt) else callback c

/-- What a callback of an attempt's channel or deadline can do: it decides the attempt that
is going on, whichever that is, and does nothing if there is none. -/
inductive Decides (c : Connector) (a : Nat) : Connector → Prop
  | nothing (hIdle : c.state ≠ .kConnecting) : Decides c a c
  | failed (errno : Nat) (cause : Cause) (hAlive : c.destroyed = false)
      (hGoing : c.state = .kConnecting) (hCause : cause.attempt = a) :
      Decides c a (c.fail errno cause)
  | finished (hAlive : c.destroyed = false) (hGoing : c.state = .kConnecting) :
      Decides c a (c.finishConnect (.writable a 0))
  | dangling (hDead : c.destroyed = true) : Decides c a (c.record (.dangling a))

theorem decides_invoke {c : Connector} {a : Nat} {callback : Connector → Connector}
    (h : c.destroyed = false → Decides c a (callback c)) :
    Decides c a (c.invoke a callback) := by
  unfold invoke
  split_ifs with hDead
  · exact .dangling hDead
  · exact h (Bool.eq_false_iff.mpr hDead)

theorem decides_handleWrite (c : Connector) (a soError : Nat) (selfConnect : Bool) :
    Decides c a (c.invoke a (·.handleWrite a soError selfConnect)) := by
  refine decides_invoke fun hAlive => ?_
  unfold handleWrite
  split_ifs with hIdle hError
  · exact .nothing hIdle
  · exact .failed _ _ hAlive (not_not.mp hIdle) rfl
  · exact .failed _ _ hAlive (not_not.mp hIdle) rfl
  · obtain rfl : soError = 0 := not_not.mp hError
    exact .finished hAlive (not_not.mp hIdle)

theorem decides_handleError (c : Connector) (a soError : Nat) :
    Decides c a (c.invoke a (·.handleError a soError)) := by
  refine decides_invoke fun hAlive => ?_
  by_cases hGoing : c.state = .kConnecting
  · rw [handleError, if_neg (not_not.mpr hGoing)]
    exact .failed _ _ hAlive hGoing rfl
  · rw [handleError, if_pos hGoing]
    exact .nothing hGoing

theorem decides_handleTimeout (c : Connector) (a : Nat) :
    Decides c a (c.invoke a (·.handleTimeout a)) := by
  refine decides_invoke fun hAlive => ?_
  unfold handleTimeout
  split_ifs with hGoing
  · exact .failed _ _ hAlive hGoing rfl
  · exact .nothing hGoing

/-- A new attempt has got its descriptor and its channel. -/
def opened (c : Connector) (fd : Nat) : Connector :=
  { c with
    state := .kConnecting
    attempt := c.attempt + 1
    sockfd := fd
    channel := some (c.attempt + 1)
    log := c.log ++ [.socket fd (c.attempt + 1)] }

/-- What a start can do: nothing, or an attempt that fails at once, for want of a descriptor
or because `connect` fails, or one that goes on. -/
inductive Begins (c : Connector) : Connector → Prop
  | busy (hBusy : c.state = .kConnecting ∨ c.state = .kConnected) : Begins c c
  | noSocket (errno : Nat) (hFree : c.state ≠ .kConnecting ∧ c.state ≠ .kConnected) :
      Begins c ({ c with state := .kConnecting, attempt := c.attempt + 1 }.fail errno
        (.syscall (c.attempt + 1)))
  | refused (fd errno : Nat) (hFree : c.state ≠ .kConnecting ∧ c.state ≠ .kConnected) :
      Begins c ((c.opened fd).fail errno (.syscall (c.attempt + 1)))
  | going (fd : Nat) (timeoutId : Option Nat)
      (hFree : c.state ≠ .kConnecting ∧ c.state ≠ .kConnected)
      (hTimeout : timeoutId = some (c.attempt + 1) ∨ timeoutId = c.timeoutId) :
      Begins c { c.opened fd with timeoutId := timeoutId }

theorem begins_startInLoop (c : Connector) (socket : Except Nat Nat) (savedErrno : Nat) :
    Begins c (c.startInLoop socket savedErrno) := by
  by_cases hBusy : c.state = .kConnecting ∨ c.state = .kConnected
  · rw [startInLoop, if_pos hBusy]
    exact .busy hBusy
  · have hFree := not_or.mp hBusy
    rw [startInLoop, if_neg hBusy]
    cases socket with
    | error errno => exact .noSocket errno hFree
    | ok fd =>
      simp only [connect]
      split_ifs
      · exact .going fd (some (c.attempt + 1)) hFree (.inl rfl)
      · exact .going fd c.timeoutId hFree (.inr rfl)
      · exact .refused fd savedErrno hFree

/-! ## The machine -/

inductive Action where
  /-- The setters. -/
  | configure (hasTimeout newConnectionCallback connectErrorCallback : Bool)
  | start (socket : Except Nat Nat) (savedErrno : Nat)
  | stop
  | destroy
  /-- epoll reports an event of the channel. -/
  | poll (revents : Revents)
  /-- The loop dispatches it: the error branch. The channel has no callback for the branches
  before it and for the read branch. -/
  | handleEvent (soError : Nat)
  /-- The write branch. -/
  | writeBranch (soError : Nat) (selfConnect : Bool)
  /-- The deadline gets into a batch of expired timers. -/
  | expire
  /-- The batch gets to it. -/
  | timeout

/-- The error branch has called back. -/
def calledBack (c : Connector) (revents : Revents) : Bool :=
  revents.epollerr && c.state == .kConnecting && c.connectErrorCallback

/-- The loop is committed to call a callback of the connector. -/
def leftover (c : Connector) : Bool :=
  (match c.ready with
    | some (_, revents) => revents.epollerr || revents.epollout
    | none => false) ||
  c.due.isSome ||
  (match c.control with
    | .writeBranch _ revents _ => revents.epollout
    | .loop => false)

/-- User code can be running, and has a connector to use. -/
def usable (c : Connector) : Bool := !c.destroyed && c.control.userCode

def step (c : Connector) : Action → Option Connector
  | .configure hasTimeout newConnectionCallback connectErrorCallback =>
    if c.usable then
      some { c with
        hasTimeout := hasTimeout
        newConnectionCallback := newConnectionCallback
        connectErrorCallback := connectErrorCallback }
    else none
  | .start socket savedErrno =>
    if c.usable then some (c.startInLoop socket savedErrno) else none
  | .stop => if c.usable then some (c.stopInLoop.record (.stopped c.attempt)) else none
  | .destroy => if c.usable then some c.destroy else none
  | .poll revents =>
    -- the loop polls after it has handled everything of the last round
    match c.channel, c.ready, c.due, c.control with
    | some a, none, none, .loop => some { c with ready := some (a, revents) }
    | _, _, _, _ => none
  | .handleEvent soError =>
    match c.ready, c.due, c.control with
    | some (a, revents), none, .loop =>
      let next := { c with
        ready := none
        control := .writeBranch a revents (c.calledBack revents) }
      some (if revents.epollerr then next.invoke a (·.handleError a soError) else next)
    | _, _, _ => none
  | .writeBranch soError selfConnect =>
    match c.control with
    | .writeBranch a revents _ =>
      let next := { c with control := .loop }
      some (if revents.epollout then next.invoke a (·.handleWrite a soError selfConnect) else next)
    | .loop => none
  | .expire =>
    match c.timeoutId, c.due, c.control with
    | some a, none, .loop => some { c with due := some a }
    | _, _, _ => none
  | .timeout =>
    match c.due, c.control with
    | some a, .loop => some ({ c with due := none }.invoke a (·.handleTimeout a))
    | _, _ => none

/-- What a step does, with what had to hold for it. -/
inductive Outcome (c : Connector) : Action → Connector → Prop
  | configured (hasTimeout newConnectionCallback connectErrorCallback : Bool)
      (hAlive : c.destroyed = false) :
      Outcome c (.configure hasTimeout newConnectionCallback connectErrorCallback)
        { c with
          hasTimeout := hasTimeout
          newConnectionCallback := newConnectionCallback
          connectErrorCallback := connectErrorCallback }
  | started (socket : Except Nat Nat) (savedErrno : Nat) (hAlive : c.destroyed = false) :
      Outcome c (.start socket savedErrno) (c.startInLoop socket savedErrno)
  | stopped (hAlive : c.destroyed = false) :
      Outcome c .stop (c.stopInLoop.record (.stopped c.attempt))
  | destroyed (hAlive : c.destroyed = false) : Outcome c .destroy c.destroy
  | polled (a : Nat) (revents : Revents) (hChannel : c.channel = some a) (hReady : c.ready = none)
      (hDue : c.due = none) (hControl : c.control = .loop) :
      Outcome c (.poll revents) { c with ready := some (a, revents) }
  | dispatched (a : Nat) (revents : Revents) (soError : Nat) (hReady : c.ready = some (a, revents))
      (hDue : c.due = none) (hControl : c.control = .loop) :
      Outcome c (.handleEvent soError)
        (if revents.epollerr then
          { c with
            ready := none
            control := .writeBranch a revents (c.calledBack revents) }.invoke a
            (·.handleError a soError)
        else { c with ready := none, control := .writeBranch a revents (c.calledBack revents) })
  | wrote (a : Nat) (revents : Revents) (inCallback : Bool) (soError : Nat) (selfConnect : Bool)
      (hControl : c.control = .writeBranch a revents inCallback) :
      Outcome c (.writeBranch soError selfConnect)
        (if revents.epollout then
          { c with control := .loop }.invoke a (·.handleWrite a soError selfConnect)
        else { c with control := .loop })
  | expired (a : Nat) (hTimeout : c.timeoutId = some a) (hDue : c.due = none)
      (hControl : c.control = .loop) : Outcome c .expire { c with due := some a }
  | timedOut (a : Nat) (hDue : c.due = some a) (hControl : c.control = .loop) :
      Outcome c .timeout ({ c with due := none }.invoke a (·.handleTimeout a))

theorem alive_of_usable {c : Connector} (h : c.usable = true) : c.destroyed = false := by
  simpa using (Bool.and_eq_true_iff.mp h).1

/-- **Inversion of a step.** -/
theorem step_outcome {c c' : Connector} {a : Action} (h : c.step a = some c') :
    c.Outcome a c' := by
  cases a with
  | configure =>
    obtain ⟨hUsable, ⟨⟩⟩ := Option.ite_none_right_eq_some.mp h
    exact .configured _ _ _ (alive_of_usable hUsable)
  | start =>
    obtain ⟨hUsable, ⟨⟩⟩ := Option.ite_none_right_eq_some.mp h
    exact .started _ _ (alive_of_usable hUsable)
  | stop =>
    obtain ⟨hUsable, ⟨⟩⟩ := Option.ite_none_right_eq_some.mp h
    exact .stopped (alive_of_usable hUsable)
  | destroy =>
    obtain ⟨hUsable, ⟨⟩⟩ := Option.ite_none_right_eq_some.mp h
    exact .destroyed (alive_of_usable hUsable)
  | poll =>
    simp only [step] at h
    split at h
    · exact Option.some.inj h ▸ .polled _ _ ‹_› ‹_› ‹_› ‹_›
    · cases h
  | handleEvent =>
    simp only [step] at h
    split at h
    · exact Option.some.inj h ▸ .dispatched _ _ _ ‹_› ‹_› ‹_›
    · cases h
  | writeBranch =>
    simp only [step] at h
    split at h
    · exact Option.some.inj h ▸ .wrote _ _ _ _ _ ‹_›
    · cases h
  | expire =>
    simp only [step] at h
    split at h
    · exact Option.some.inj h ▸ .expired _ ‹_› ‹_› ‹_›
    · cases h
  | timeout =>
    simp only [step] at h
    split at h
    · exact Option.some.inj h ▸ .timedOut _ ‹_› ‹_›
    · cases h

end Connector

end ReactorNet
