import ReactorNet.Lib.Bytes

/-!
# ReactorNet — a connection as the RPC layer sees it

The `Transport` interface over a `TcpConnection`, on the thread of its loop: the
connection's state, the messages it has accepted for sending, and whether a
forced close is waiting in the loop's queue. `send` drops a message unless the
state is `kConnected`; `shutdown` and `forceClose` both leave that state, the
first without touching the reading side, the second with a close that the loop
carries out before it reads again.
-/

namespace ReactorNet

/-- `TcpConnection::StateE`. -/
inductive StateE where
  | kConnecting
  | kConnected
  | kDisconnecting
  | kDisconnected
  deriving DecidableEq, Repr

structure Transport where
  state : StateE
  /-- The messages handed to the socket layer, oldest first. -/
  sent : List Bytes
  /-- `forceCloseInLoop` is in the loop's queue. -/
  closeQueued : Bool
  deriving DecidableEq, Repr

namespace Transport

/-- A connection right after `connectEstablished()`. -/
def established : Transport := ⟨.kConnected, [], false⟩

def send (t : Transport) (message : Bytes) : Transport :=
  -- anything else is dropped without a word to the caller
  if t.state = .kConnected then { t with sent := t.sent ++ [message] } else t

def shutdown (t : Transport) : Transport :=
  -- the write side closes once the output is flushed; reading goes on
  if t.state = .kConnected then { t with state := .kDisconnecting } else t

def forceClose (t : Transport) : Transport :=
  if t.state = .kConnected ∨ t.state = .kDisconnecting then
    -- the close itself is queued, behind the callback that asked for it
    { t with state := .kDisconnecting, closeQueued := true }
  else t

/-- The end of a loop turn: the queued `forceCloseInLoop`, if any, runs. -/
def runQueued (t : Transport) : Transport :=
  if t.closeQueued then { t with state := .kDisconnected, closeQueued := false } else t

@[simp] theorem send_state (t : Transport) (m : Bytes) : (t.send m).state = t.state := by
  unfold send
  split <;> rfl

@[simp] theorem send_closeQueued (t : Transport) (m : Bytes) :
    (t.send m).closeQueued = t.closeQueued := by
  unfold send
  split <;> rfl

variable {t : Transport}

theorem send_sent_of_connected (h : t.state = .kConnected) (m : Bytes) :
    (t.send m).sent = t.sent ++ [m] := by
  rw [send, if_pos h]

theorem send_of_not_connected (h : t.state ≠ .kConnected) (m : Bytes) : t.send m = t := by
  rw [send, if_neg h]

@[simp] theorem shutdown_sent (t : Transport) : t.shutdown.sent = t.sent := by
  unfold shutdown
  split <;> rfl

@[simp] theorem shutdown_closeQueued (t : Transport) :
    t.shutdown.closeQueued = t.closeQueued := by
  unfold shutdown
  split <;> rfl

@[simp] theorem forceClose_sent (t : Transport) : t.forceClose.sent = t.sent := by
  unfold forceClose
  split <;> rfl

@[simp] theorem runQueued_sent (t : Transport) : t.runQueued.sent = t.sent := by
  unfold runQueued
  split <;> rfl

/-- The connection still delivers what it reads: it is open, or only its write
side is closed. -/
def Reading (t : Transport) : Prop := t.state = .kConnected ∨ t.state = .kDisconnecting

instance (t : Transport) : Decidable t.Reading := inferInstanceAs (Decidable (_ ∨ _))

theorem Reading.ne_disconnected (h : t.Reading) : t.state ≠ .kDisconnected := by
  rcases h with h | h <;> simp [h]

theorem Reading.send (h : t.Reading) (m : Bytes) : (t.send m).Reading := by
  unfold Reading
  rw [send_state]
  exact h

theorem Reading.shutdown (h : t.Reading) : t.shutdown.Reading := by
  rcases h with h | h
  · exact .inr (by simp [Transport.shutdown, h])
  · exact .inr (by simp [Transport.shutdown, h])

theorem Reading.forceClose_eq (h : t.Reading) :
    t.forceClose = { t with state := .kDisconnecting, closeQueued := true } :=
  if_pos h

theorem Reading.forceClose (h : t.Reading) : t.forceClose.Reading := by
  rw [h.forceClose_eq]
  exact .inr rfl

theorem runQueued_state_of_queued (h : t.closeQueued = true) :
    t.runQueued.state = .kDisconnected := by
  rw [runQueued, if_pos h]

theorem runQueued_of_not_queued (h : t.closeQueued = false) : t.runQueued = t := by
  rw [runQueued, h]
  rfl

end Transport

end ReactorNet
