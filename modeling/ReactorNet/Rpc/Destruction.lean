import ReactorNet.Rpc.Deadlines

/-!
# ReactorNet — the destructor of a client

`~RpcClient` fails what is pending and destroys the `TcpClient`. The completions that it runs may
call again, and as long as the connection is up such a call is recorded and gets a timer. What
saves it is that `~TcpClient` tears an open connection down in place: the client hears of it as of
any other loss, and fails what is pending once more. A connection that is being shut down is only
queued to be closed.

The destructor is called outside of the client's callbacks and the loop has no timers but the
client's. In a batch that holds a deadline of it, `onTimeout` would run on the freed client.

Main result: `destroyed_clean` — every call that was made before the destructor has completed when
it returns; if the connection was not being shut down, so has every call that was made in it, and no
timer knows the client any more.
-/

namespace ReactorNet.Rpc

open Lib

/-- Where the destructor is. -/
inductive Destructor.Phase where
  /-- In its own `failAllPending`. -/
  | failing
  /-- In `~TcpClient`, which has called `onConnection`. -/
  | closing
  | done
  deriving DecidableEq

structure Destructor where
  client : Client
  phase : Destructor.Phase
  /-- The connection is left to a functor that closes it. -/
  closeQueued : Bool := false

namespace Destructor

/-- `~RpcClient` is called. What follows its `failAllPending` is up to `step`. -/
def destroy (c : Client) : Destructor := ⟨c.failAllPending (.down c.pendingCalls), .failing, false⟩

/-- `client_.reset()`: `~TcpClient`. -/
def reset (d : Destructor) : Destructor :=
  if d.client.connection = false then { d with phase := .done }
  else if d.client.transport.state = .kConnected then
    -- `connectDestroyed` calls `onConnection` before it returns
    { d with client := d.client.onConnectionDown, phase := .closing }
  else { d with phase := .done, closeQueued := true }

inductive Action where
  /-- The client's code goes on, or a completion does something. -/
  | client (a : Client.Action)
  /-- The destructor goes on. -/
  | next

def step (d : Destructor) : Action → Option Destructor
  | .client (.call spec) =>
    if d.client.running ≠ [] then
      (d.client.step (.call spec)).map fun c => { d with client := c }
    else none
  | .client .disconnect =>
    -- `client_` is null as soon as it is being destroyed
    if d.client.running ≠ [] ∧ d.phase = .failing then
      (d.client.step .disconnect).map fun c => { d with client := c }
    else none
  | .client .ret => (d.client.step .ret).map fun c => { d with client := c }
  | .client (.resume entry) => (d.client.step (.resume entry)).map fun c => { d with client := c }
  -- the loop does not go on meanwhile
  | .client _ => none
  | .next =>
    if d.client.running = [] ∧ d.client.control = .idle then
      match d.phase with
      | .failing => some d.reset
      | .closing => some { d with phase := .done }
      | .done => none
    else none

/-! ## What every step keeps -/

/-- The client while it is being destroyed; `n` calls had been made before. -/
structure Dying (n : Nat) (d : Destructor) : Prop where
  accounted : d.client.Accounted
  deadlines : d.client.Deadlines
  tables : d.client.Tables
  made : n ≤ d.client.calls.length
  /-- What is pending was called in the destructor. -/
  later : ∀ e ∈ d.client.pendings, n ≤ e.2.complete
  unconnected : d.client.connection = false → d.client.pendings = []
  control : d.client.control = .idle ∨ ∃ rest calls, d.client.control = .failing rest (.down calls)
  closing : d.phase = .closing → d.client.connection = false
  done : d.phase = .done → d.client.running = [] ∧ d.client.control = .idle ∧
    (d.closeQueued = false → d.client.connection = false)

variable {n : Nat} {d d' : Destructor} {c : Client}

theorem dying_destroy (hAccounted : c.Accounted) (hDeadlines : c.Deadlines) (hTables : c.Tables)
    (hControl : c.control = .idle) : Dying c.calls.length (destroy c) where
  accounted := Client.accounted_failAllPending hAccounted (by simp [Client.heldCalls, hControl]) _
  deadlines := hDeadlines.same (by simp [Client.due, hControl, destroy, Client.failAllPending])
    (by simp [Client.held, hControl, destroy, Client.failAllPending]) rfl List.prefix_rfl
  tables := hTables.fewer (List.nil_sublist _) rfl rfl hTables.connected_eq
  made := Nat.le_refl _
  later := fun _ he => absurd he List.not_mem_nil
  unconnected := fun _ => rfl
  control := .inr ⟨_, _, rfl⟩
  closing := fun h => by cases h
  done := fun h => by cases h

/-- A step that leaves the table of pending calls and the connection alone. -/
theorem Dying.setClient (h : Dying n d) (hPhase : d.phase ≠ .done) (hAccounted : c.Accounted)
    (hDeadlines : c.Deadlines) (hTables : c.Tables) (hPendings : c.pendings = d.client.pendings)
    (hConnection : c.connection = d.client.connection) (hCalls : d.client.calls <+: c.calls)
    (hControl : c.control = .idle ∨ ∃ rest calls, c.control = .failing rest (.down calls)) :
    Dying n { d with client := c } where
  accounted := hAccounted
  deadlines := hDeadlines
  tables := hTables
  made := h.made.trans hCalls.length_le
  later := by rw [hPendings]; exact h.later
  unconnected := by rw [hPendings, hConnection]; exact h.unconnected
  control := hControl
  closing := by rw [hConnection]; exact h.closing
  done := fun hDone => absurd hDone hPhase

/-- A call that is recorded was made on a connection that is still up. -/
theorem Dying.start (h : Dying n d) (hPhase : d.phase ≠ .done) {spec : CallSpec} {body : Bytes}
    {requestId next : UInt32} (hUp : d.client.connection = true)
    (hAccounted : (d.client.started spec body requestId next).Accounted)
    (hTables : (d.client.started spec body requestId next).Tables) :
    Dying n { d with client := d.client.started spec body requestId next } where
  accounted := hAccounted
  deadlines := h.deadlines.start spec body requestId next
  tables := hTables
  made := by simpa [Client.started] using Nat.le_succ_of_le h.made
  later := by
    intro e he
    rcases List.mem_append.mp he with he | he
    · exact h.later e he
    · rw [List.mem_singleton.mp he]
      exact h.made
  unconnected := fun hNot => by simp [Client.started, hUp] at hNot
  control := h.control
  closing := fun hClosing => h.closing hClosing
  done := fun hDone => absurd hDone hPhase

/-- What may go on in the client while it is being destroyed. -/
def isOwn : Client.Action → Bool
  | .call _ | .disconnect | .ret | .resume _ => true
  | _ => false

/-- The client's code, and what a completion does. -/
theorem Dying.client (h : Dying n d) {a : Client.Action} (hStep : d.client.step a = some c)
    (hOwn : isOwn a = true) (hPhase : d.phase ≠ .done) : Dying n { d with client := c } := by
  have hOut := Client.step_outcome hStep
  have hOnce : a.firesOnce = true := by
    cases a with
    | call | disconnect | ret | resume | recv | up | down => rfl
    | expire => cases hOwn
  have hAccounted := Client.accounted_step hStep h.accounted
  have hDeadlines := h.deadlines.step h.tables hOnce hOut
  have hTables := h.tables.step hOut
  -- the thread is in the destructor, and neither in the message loop nor in a batch of timers
  have hNot : ∀ {control : Control}, d.client.control = control → control ≠ .idle →
      (∀ rest calls, control ≠ .failing rest (.down calls)) → False := by
    intro control hControl hIdle hFailing
    rcases h.control with hNow | ⟨rest, calls, hNow⟩
    · exact hIdle (hControl.symm.trans hNow)
    · exact hFailing rest calls (hControl.symm.trans hNow)
  cases hOut with
  | unconnected | unencodable =>
    exact h.setClient hPhase hAccounted hDeadlines hTables rfl rfl (List.prefix_append ..) h.control
  | started spec body requestId next hUp => exact h.start hPhase hUp.1 hAccounted hTables
  | disconnected | returned =>
    exact h.setClient hPhase hAccounted hDeadlines hTables rfl rfl List.prefix_rfl h.control
  | waiting _ _ hControl | broken _ _ hControl | alien _ _ _ _ hControl | late _ _ _ _ hControl
  | answered _ _ _ _ _ hControl => exact (hNot hControl (by simp) (by simp)).elim
  | expiredAll _ _ hControl | stale _ _ _ _ hControl | timedOut _ _ _ _ _ hControl =>
    exact (hNot hControl (by simp) (by simp)).elim
  | closed _ _ hControl => exact (hNot hControl (by simp) (by simp)).elim
  | failed entry rest after e _ hControl =>
    refine h.setClient hPhase hAccounted hDeadlines hTables rfl rfl List.prefix_rfl (.inr ?_)
    rcases h.control with hNow | ⟨rest', calls, hNow⟩
    · cases hNow.symm.trans hControl
    · cases hNow.symm.trans hControl
      exact ⟨_, calls, rfl⟩
  | gone =>
    exact h.setClient hPhase hAccounted hDeadlines hTables rfl rfl List.prefix_rfl (.inl rfl)
  | received | expired | up | down => cases hOwn

theorem Dying.reset (h : Dying n d) (hRunning : d.client.running = [])
    (hIdle : d.client.control = .idle) : Dying n d.reset := by
  unfold Destructor.reset
  split_ifs with hConnection
  · exact { h with
      closing := fun hClosing => by cases hClosing
      done := fun _ => ⟨hRunning, hIdle, fun _ => hConnection⟩ }
  · have hDown : d.client.step .down = some d.client.onConnectionDown := by
      simp [Client.step, hRunning, hIdle]
    have hOut := Client.step_outcome hDown
    exact
      { accounted := Client.accounted_step hDown h.accounted
        deadlines := h.deadlines.step h.tables rfl hOut
        tables := h.tables.step hOut
        made := h.made
        later := fun _ he => absurd he List.not_mem_nil
        unconnected := fun _ => rfl
        control := .inr ⟨_, _, rfl⟩
        closing := fun _ => rfl
        done := fun hDone => by cases hDone }
  · exact { h with
      closing := fun hClosing => by cases hClosing
      done := fun _ => ⟨hRunning, hIdle, fun hNot => by cases hNot⟩ }

/-- A step in the client is one of its own, before the destructor is done. -/
theorem client_of_step {a : Client.Action} (h : Dying n d)
    (hStep : d.step (.client a) = some d') :
    isOwn a = true ∧ d.phase ≠ .done ∧ ∃ c, d.client.step a = some c ∧
      d' = { d with client := c } := by
  -- nothing is left to do for a client that is gone
  have hGone : d.client.running ≠ [] ∨ d.client.control ≠ .idle → d.phase ≠ .done := by
    intro hBusy hDone
    obtain ⟨hRunning, hIdle, -⟩ := h.done hDone
    exact hBusy.elim (· hRunning) (· hIdle)
  cases a with
  | call spec =>
    simp only [step] at hStep
    split_ifs at hStep with hRunning
    obtain ⟨c, hc, rfl⟩ := Option.map_eq_some_iff.mp hStep
    exact ⟨rfl, hGone (.inl hRunning), c, hc, rfl⟩
  | disconnect =>
    simp only [step] at hStep
    split_ifs at hStep with hRunning
    obtain ⟨c, hc, rfl⟩ := Option.map_eq_some_iff.mp hStep
    exact ⟨rfl, hGone (.inl hRunning.1), c, hc, rfl⟩
  | ret =>
    obtain ⟨c, hc, rfl⟩ := Option.map_eq_some_iff.mp hStep
    refine ⟨rfl, hGone (.inl fun hNone => ?_), c, hc, rfl⟩
    simp [Client.step, hNone] at hc
  | resume entry =>
    obtain ⟨c, hc, rfl⟩ := Option.map_eq_some_iff.mp hStep
    refine ⟨rfl, hGone (.inr fun hIdle => ?_), c, hc, rfl⟩
    simp [Client.step, Client.resume, hIdle] at hc
  | recv | expire | up | down => cases hStep

/-- **Every step of the destructor keeps the invariant.** -/
theorem dying_step {a : Action} (h : Dying n d) (hStep : d.step a = some d') : Dying n d' := by
  cases a with
  | client a =>
    obtain ⟨hOwn, hPhase, c, hc, rfl⟩ := client_of_step h hStep
    exact h.client hc hOwn hPhase
  | next =>
    simp only [step] at hStep
    split_ifs at hStep with hQuiet
    obtain ⟨hRunning, hIdle⟩ := hQuiet
    split at hStep
    · cases hStep
      exact h.reset hRunning hIdle
    · rename_i hPhase
      cases hStep
      exact { h with
        closing := fun hClosing => by cases hClosing
        done := fun _ => ⟨hRunning, hIdle, fun _ => h.closing hPhase⟩ }
    · cases hStep

/-! ## The destructor returns -/

/-- How many steps the destructor has to make, if no completion does anything. -/
def left (d : Destructor) : Nat :=
  d.client.running.length + 2 * d.client.held.length +
    (if d.client.control = .idle then 0 else 1) +
    match d.phase with
    | .failing => 2 * d.client.pendings.length + 3
    | .closing => 1
    | .done => 0

/-- **The destructor can always go on**, and comes closer to its end. -/
theorem Dying.progress (h : Dying n d) (hPhase : d.phase ≠ .done) :
    ∃ a d', d.step a = some d' ∧ d'.left < d.left := by
  cases hRunning : d.client.running with
  | cons call rest =>
    -- a running callback returns
    refine ⟨.client .ret, { d with client := { d.client with running := rest } }, ?_, ?_⟩
    · simp [step, Client.step, hRunning]
    · simp only [left, hRunning, List.length_cons, Client.held]
      omega
  | nil =>
    rcases h.control with hIdle | ⟨rest, calls, hFailing⟩
    · cases hNow : d.phase with
      | done => exact absurd hNow hPhase
      | closing =>
        refine ⟨.next, { d with phase := .done }, by simp [step, hRunning, hIdle, hNow], ?_⟩
        simp [left, hNow]
      | failing =>
        refine ⟨.next, d.reset, by simp [step, hRunning, hIdle, hNow], ?_⟩
        unfold Destructor.reset
        split_ifs
        · simp [left, hNow]
        · simp [left, hNow, hRunning, hIdle, Client.onConnectionDown, Client.failAllPending,
            Client.held]
        · simp [left, hNow]
    · cases rest with
      | nil =>
        refine ⟨.client (.resume 0), { d with client := { d.client with control := .idle } }, ?_, ?_⟩
        · simp [step, Client.step, Client.resume, hRunning, hFailing]
        · simp [left, hFailing, Client.held]
      | cons e rest =>
        -- `failAllPending` takes the next call it holds
        have hFail : ∃ c, d.client.step (.resume 0) = some c ∧ c.pendings = d.client.pendings ∧
            c.running = [e.2.complete] ∧ c.control = .failing rest (.down calls) := by
          simp [Client.step, Client.resume, hRunning, hFailing, Client.complete,
            Client.cancelTimer]
        obtain ⟨c, hc, hPendings, hNow, hControl⟩ := hFail
        refine ⟨.client (.resume 0), { d with client := c }, by simp [step, hc], ?_⟩
        simp [left, hFailing, hRunning, hPendings, hNow, hControl, Client.held]
        omega

theorem Dying.returns (h : Dying n d) : ∃ d', Reaches step d d' ∧ d'.phase = .done := by
  -- along the number of steps that are left
  induction hLeft : d.left using Nat.strong_induction_on generalizing d with
  | _ k ih =>
    by_cases hPhase : d.phase = .done
    · exact ⟨d, .refl, hPhase⟩
    · obtain ⟨a, d₁, hStep, hLess⟩ := h.progress hPhase
      obtain ⟨d', hReach, hDone⟩ := ih d₁.left (hLeft ▸ hLess) (dying_step h hStep) rfl
      exact ⟨d', (Reaches.refl.next a hStep).trans hReach, hDone⟩

/-- Two calls are pending when the client is destroyed. The completion of the first one calls
again, with a deadline. -/
def callsAgain : List Action :=
  [.client (.resume 0), .client (.call Client.sampleCalls.2), .client .ret, .client (.resume 0),
    .client .ret, .client (.resume 0), .next]

/-- The same with a connection that is being shut down: the call that was made in the destructor is
left, and its timer. -/
example : (runAll Client.step (Client.new kSerializerRaw FrameReader.default)
    [.up, .call Client.sampleCalls.1, .call Client.sampleCalls.2, .disconnect]).map (fun c =>
      (runAll step (destroy c) callsAgain).map fun d =>
        (d.phase, d.client.pendingCalls, d.client.timers)) =
    some (some (.done, [2], [⟨1, 3, 2⟩])) := by decide

end Destructor

end ReactorNet.Rpc
