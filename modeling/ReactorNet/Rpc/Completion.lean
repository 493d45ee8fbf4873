import ReactorNet.Rpc.Client

/-!
# ReactorNet — every call completes once

A call that was started is in one of three places: in the table of pending calls,
in a table that `failAllPending` has moved out and is working through, or among
the completed ones. Five paths move a call from one place to the next. `Accounted`
says that every call is in exactly one of the places, once; every outcome of a
step keeps it (`accounted_step`).

A connection that goes down fails the calls that were pending, and no call that
their completions start can get into the table meanwhile (`GoingDown`).

Main result: `exactly_once_completion`.
-/

namespace ReactorNet.Rpc

open Lib

namespace Client

/-- A client before its first connection. -/
def new (serializerId : UInt8) (frameReader : FrameReader) : Client where
  serializerId := serializerId
  frameReader := frameReader

/-! ## Where a call is -/

/-- The calls in a table. -/
def callsIn (m : List (UInt32 × PendingCall)) : List Nat := m.map fun e => e.2.complete

/-- The calls in `pendings_`. -/
def pendingCalls (c : Client) : List Nat := callsIn c.pendings

/-- The calls in a table that was moved out. -/
def heldCalls (c : Client) : List Nat :=
  match c.control with
  | .failing rest _ => callsIn rest
  | _ => []

/-- The calls whose completion was invoked, once for each invocation. -/
def completedCalls (c : Client) : List Nat := c.completed.map fun e => e.1

/-- Every started call is in one place, once, and no other is anywhere. -/
def Accounted (c : Client) : Prop :=
  ∀ k, c.pendingCalls.count k + c.heldCalls.count k + c.completedCalls.count k =
    if k < c.calls.length then 1 else 0

/-! ## The table -/

variable {m : List (UInt32 × PendingCall)} {c c' : Client} {a : Action}

/-- Erasing takes out the call that was found, and no other. -/
theorem count_callsIn_erase {id : UInt32} {p : PendingCall} (h : Pendings.find m id = some p)
    (k : Nat) :
    (callsIn m).count k =
      (callsIn (Pendings.erase m id)).count k + if p.complete = k then 1 else 0 := by
  induction m with
  | nil => cases h
  | cons e m ih =>
    obtain ⟨id', p'⟩ := e
    by_cases he : id' = id
    · -- the first entry with the id is the one that `find` returns and `erase` takes out
      subst he
      obtain rfl : p' = p := by simpa [Pendings.find] using h
      simp [callsIn, Pendings.erase, List.count_cons]
    · have hp : Pendings.find m id = some p := by
        simpa [Pendings.find, List.lookup_cons, beq_eq_false_iff_ne.mpr (Ne.symm he)] using h
      have ih := ih hp
      simp only [callsIn, Pendings.erase] at ih ⊢
      simp only [List.map_cons, List.count_cons, List.eraseP_cons, beq_eq_false_iff_ne.mpr he,
        cond_false, ih]
      omega

theorem count_callsIn_eraseIdx {i : Nat} {e : UInt32 × PendingCall} (h : m[i]? = some e) (k : Nat) :
    (callsIn m).count k =
      (callsIn (m.eraseIdx i)).count k + if e.2.complete = k then 1 else 0 := by
  induction m generalizing i with
  | nil => cases h
  | cons e' m ih =>
    cases i with
    | zero =>
      obtain rfl : e' = e := by simpa using h
      simp [callsIn, List.count_cons, beq_iff_eq]
    | succ i =>
      have ih := ih (by simpa using h)
      simp only [callsIn] at ih ⊢
      simp only [List.eraseIdx_cons_succ, List.map_cons, List.count_cons, ih]
      omega

/-! ## Every step keeps the account -/

/-- The account is about four fields of the state. -/
theorem Accounted.of_eq (h : Accounted c) (hPending : c'.pendings = c.pendings)
    (hHeld : c'.heldCalls = c.heldCalls) (hCompleted : c'.completed = c.completed)
    (hCalls : c'.calls = c.calls) : Accounted c' := by
  unfold Accounted pendingCalls completedCalls at *
  rw [hPending, hHeld, hCompleted, hCalls]
  exact h

/-- Moving the table out moves its calls. -/
theorem accounted_failAllPending (h : Accounted c) (hHeld : c.heldCalls = []) (after : AfterFail) :
    Accounted (c.failAllPending after) := by
  intro k
  have hk := h k
  have hMoved : (c.failAllPending after).pendingCalls = [] ∧
      (c.failAllPending after).heldCalls = c.pendingCalls := ⟨rfl, rfl⟩
  rw [hHeld] at hk
  rw [hMoved.1, hMoved.2, Nat.add_comm (List.count k [])]
  exact hk

theorem accounted_complete {call : Nat} {response : Response} (h : Accounted c)
    (hCalls : c'.calls = c.calls) (hCompleted : c'.completed = c.completed)
    (hFrom : ∀ k, c.pendingCalls.count k + c.heldCalls.count k = c'.pendingCalls.count k +
      c'.heldCalls.count k + if call = k then 1 else 0) :
    Accounted (c'.complete call response) := by
  intro k
  have hk := h k
  have hFrom := hFrom k
  -- what the other places lose, the completed ones gain
  have hDone : (c'.complete call response).completedCalls.count k =
      c.completedCalls.count k + if call = k then 1 else 0 := by
    simp [completedCalls, complete, hCompleted, List.count_cons, List.count_append]
  have hSame : (c'.complete call response).pendingCalls = c'.pendingCalls ∧
      (c'.complete call response).heldCalls = c'.heldCalls ∧
      (c'.complete call response).calls = c.calls := ⟨rfl, rfl, hCalls⟩
  rw [hDone, hSame.1, hSame.2.1, hSame.2.2]
  omega

/-- A call that fails at once is a new one, and completed. -/
theorem accounted_failedStart (h : Accounted c) (spec : CallSpec) (response : Response) :
    Accounted ({ c with calls := c.calls ++ [spec] }.complete c.calls.length response) := by
  intro k
  have hk := h k
  have hDone : ({ c with calls := c.calls ++ [spec] }.complete c.calls.length
      response).completedCalls.count k =
      c.completedCalls.count k + if c.calls.length = k then 1 else 0 := by
    simp [completedCalls, complete, List.count_cons, List.count_append]
  have hLen : ({ c with calls := c.calls ++ [spec] }.complete c.calls.length
      response).calls.length = c.calls.length + 1 := by
    simp [complete]
  rw [hDone, hLen]
  have hRest : ({ c with calls := c.calls ++ [spec] }.complete c.calls.length
      response).pendingCalls = c.pendingCalls ∧
      ({ c with calls := c.calls ++ [spec] }.complete c.calls.length
        response).heldCalls = c.heldCalls := ⟨rfl, rfl⟩
  rw [hRest.1, hRest.2]
  split_ifs at hk ⊢ <;> omega

/-- **Every step keeps the account.** -/
theorem accounted_step (hStep : c.step a = some c') (h : Accounted c) : Accounted c' := by
  cases step_outcome hStep with
  | unconnected spec => exact accounted_failedStart h spec _
  | unencodable spec => exact accounted_failedStart h spec _
  | started spec body requestId next =>
    -- a new call, in the table
    intro k
    have hk := h k
    have hPending : (c.started spec body requestId next).pendingCalls.count k =
        c.pendingCalls.count k + if c.calls.length = k then 1 else 0 := by
      simp [pendingCalls, started, List.count_append, callsIn, entryFor, List.count_cons]
    have hLen : (c.started spec body requestId next).calls.length = c.calls.length + 1 := by
      simp [started]
    have hRest : (c.started spec body requestId next).heldCalls = c.heldCalls ∧
        (c.started spec body requestId next).completedCalls = c.completedCalls := ⟨rfl, rfl⟩
    rw [hPending, hLen, hRest.1, hRest.2]
    split_ifs at hk ⊢ <;> omega
  | disconnected => exact h.of_eq rfl rfl rfl rfl
  | returned => exact h.of_eq rfl rfl rfl rfl
  | waiting _ _ hControl => exact h.of_eq rfl (by simp [heldCalls, hControl]) rfl rfl
  | broken _ _ hControl =>
    exact accounted_failAllPending h (by simp [heldCalls, hControl]) _
  | alien _ f n _ hControl =>
    have hRead : Accounted { c with input := c.input.retrieve n } := h.of_eq rfl rfl rfl rfl
    exact accounted_failAllPending hRead (by simp [heldCalls, hControl]) _
  | late => exact h.of_eq rfl rfl rfl rfl
  | answered _ f n pending _ hControl _ _ hFind =>
    -- from the table to the completed ones
    refine accounted_complete h rfl rfl fun k => ?_
    have hErase := count_callsIn_erase hFind k
    simp only [pendingCalls, heldCalls, hControl, cancelTimer] at hErase ⊢
    omega
  | failed entry rest after e _ hControl hEntry =>
    -- from the table that was moved out to the completed ones
    refine accounted_complete h rfl rfl fun k => ?_
    have hErase := count_callsIn_eraseIdx hEntry k
    simp only [pendingCalls, heldCalls, hControl, cancelTimer] at hErase ⊢
    omega
  | closed _ _ hControl => exact h.of_eq rfl (by simp [heldCalls, hControl, callsIn]) rfl rfl
  | gone _ _ _ hControl => exact h.of_eq rfl (by simp [heldCalls, hControl, callsIn]) rfl rfl
  | expiredAll _ _ hControl => exact h.of_eq rfl (by simp [heldCalls, hControl]) rfl rfl
  | stale _ t rest _ hControl => exact h.of_eq rfl (by simp [heldCalls, hControl]) rfl rfl
  | timedOut _ t rest pending _ hControl hFind =>
    refine accounted_complete h rfl rfl fun k => ?_
    have hErase := count_callsIn_erase hFind k
    simp only [pendingCalls, heldCalls, hControl, rememberTimedOut] at hErase ⊢
    omega
  | received _ _ hControl => exact h.of_eq rfl (by simp [heldCalls, hControl]) rfl rfl
  | expired _ _ hControl => exact h.of_eq rfl (by simp [heldCalls, hControl]) rfl rfl
  | up _ hControl => exact h.of_eq rfl rfl rfl rfl
  | down _ hControl =>
    have hGone : Accounted { c with
        transport := { c.transport with state := .kDisconnected, closeQueued := false }
        connection := false
        connected := false } := h.of_eq rfl rfl rfl rfl
    exact accounted_failAllPending hGone (by simp [heldCalls, hControl]) _

theorem completed_of_step (hStep : c.step a = some c') : c.completed <+: c'.completed := by
  cases step_outcome hStep with
  | unconnected | unencodable | answered | failed | timedOut => exact List.prefix_append ..
  | started | disconnected | returned | waiting | broken | alien | late | closed | gone
  | expiredAll | stale | received | expired | up | down => exact List.prefix_rfl

/-! ## A connection that goes down -/

/-- While `onConnection` fails the calls of a lost connection, no call gets into
the table, and those that were there are still to be failed or have been. -/
def GoingDown (c : Client) : Prop :=
  ∀ rest calls, c.control = .failing rest (.down calls) →
    c.connection = false ∧ c.pendings = [] ∧
      ∀ k ∈ calls, k ∈ callsIn rest ∨ (k, connectionClosedResponse) ∈ c.completed

/-- The invariant says nothing where the thread is elsewhere. -/
theorem goingDown_of_control (h : ∀ rest calls, c.control ≠ .failing rest (.down calls)) :
    GoingDown c :=
  fun rest calls hControl => absurd hControl (h rest calls)

/-- What is still to be failed, after one entry was. -/
theorem mem_callsIn_eraseIdx {i k : Nat} {e : UInt32 × PendingCall} (h : m[i]? = some e)
    (hk : k ∈ callsIn m) : k ∈ callsIn (m.eraseIdx i) ∨ k = e.2.complete := by
  have hCount := count_callsIn_eraseIdx h k
  have hPos := List.count_pos_iff.mpr hk
  by_cases he : e.2.complete = k
  · exact .inr he.symm
  · rw [if_neg he] at hCount
    exact .inl (List.count_pos_iff.mp (by omega))

theorem goingDown_step (hStep : c.step a = some c') (h : GoingDown c) : GoingDown c' := by
  cases step_outcome hStep with
  | unconnected spec =>
    -- a completion calls again: that call fails at once and stays out of the table
    intro rest calls hControl
    obtain ⟨hConn, hPend, hCalls⟩ := h rest calls hControl
    exact ⟨hConn, hPend, fun k hk => (hCalls k hk).imp_right (List.mem_append_left _)⟩
  | unencodable spec hUp =>
    -- the connection is reset before the first completion runs
    intro rest calls hControl
    obtain ⟨hConn, -⟩ := h rest calls hControl
    rw [hUp.1] at hConn
    cases hConn
  | started spec body requestId next hUp =>
    intro rest calls hControl
    obtain ⟨hConn, -⟩ := h rest calls hControl
    rw [hUp.1] at hConn
    cases hConn
  | disconnected => exact h
  | returned => exact h
  | failed entry rest after e _ hControl hEntry =>
    intro rest' calls hControl'
    cases hControl'
    obtain ⟨hConn, hPend, hCalls⟩ := h rest calls hControl
    refine ⟨hConn, hPend, fun k hk => ?_⟩
    rcases hCalls k hk with hHeld | hDone
    · -- the entry that was failed is completed, the others are still held
      rcases mem_callsIn_eraseIdx hEntry hHeld with hHeld | rfl
      · exact .inl hHeld
      · exact .inr (List.mem_append_right _ (List.mem_singleton_self _))
    · exact .inr (List.mem_append_left _ hDone)
  | down =>
    intro rest calls hControl
    cases hControl
    exact ⟨rfl, rfl, fun k hk => .inl hk⟩
  | waiting | closed | gone | expiredAll => exact goingDown_of_control (by simp)
  | broken | alien => exact goingDown_of_control (by simp [failConnection, failAllPending])
  | late _ _ _ _ hControl => exact goingDown_of_control (by simp [hControl])
  | answered _ f n pending _ hControl =>
    exact goingDown_of_control (by simp [answered, complete, cancelTimer, hControl])
  | stale | received | expired => exact goingDown_of_control (by simp)
  | timedOut => exact goingDown_of_control (by simp [complete, rememberTimedOut])
  | up _ hControl => exact goingDown_of_control (by simp [onConnectionUp, hControl])

/-! ## Exactly once -/

/-- **Every call completes exactly once.** In every state that a client can reach,
whatever the peer sends and whatever the completions do, a call that was started
is in `pendings_` once and not completed, or in the table that `failAllPending` is
working through once and not completed, or completed once; outside of
`failAllPending` only the first and the last are left. When `onConnection` is about
to return for a connection that went down, `pendings_` is empty, and each call that
was pending has completed with `kConnectionClosed`. -/
theorem exactly_once_completion (serializerId : UInt8) (frameReader : FrameReader) (c : Client)
    (h : Reaches Client.step (Client.new serializerId frameReader) c) :
    (∀ k < c.calls.length,
      c.pendingCalls.count k = 1 ∧ c.heldCalls.count k = 0 ∧ c.completedCalls.count k = 0 ∨
      c.pendingCalls.count k = 0 ∧ c.heldCalls.count k = 1 ∧ c.completedCalls.count k = 0 ∨
      c.pendingCalls.count k = 0 ∧ c.heldCalls.count k = 0 ∧ c.completedCalls.count k = 1) ∧
    ((∀ rest after, c.control ≠ .failing rest after) → ∀ k < c.calls.length,
      c.pendingCalls.count k = 1 ∧ c.completedCalls.count k = 0 ∨
      c.pendingCalls.count k = 0 ∧ c.completedCalls.count k = 1) ∧
    (∀ calls, c.control = .failing [] (.down calls) →
      c.pendings = [] ∧ ∀ k ∈ calls,
        (k, connectionClosedResponse) ∈ c.completed ∧ c.completedCalls.count k = 1) := by
  have hAccounted : Accounted c :=
    h.invariant (fun k => by simp [new, pendingCalls, heldCalls, completedCalls, callsIn])
      fun _ _ _ => accounted_step
  have hDown : GoingDown c :=
    h.invariant (goingDown_of_control (by simp [new])) fun _ _ _ => goingDown_step
  refine ⟨fun k hk => ?_, fun hControl k hk => ?_, fun calls hControl => ?_⟩
  · have hOnce := hAccounted k
    rw [if_pos hk] at hOnce
    omega
  · -- no table is moved out, so nothing is held
    have hOnce := hAccounted k
    have hHeld : c.heldCalls = [] := by
      unfold heldCalls
      split
      · rename_i rest after hc
        exact absurd hc (hControl rest after)
      · rfl
    rw [if_pos hk, hHeld, List.count_nil] at hOnce
    omega
  · obtain ⟨-, hPend, hCalls⟩ := hDown [] calls hControl
    refine ⟨hPend, fun k hk => ?_⟩
    have hDone : (k, connectionClosedResponse) ∈ c.completed :=
      (hCalls k hk).resolve_left (by simp [callsIn])
    refine ⟨hDone, ?_⟩
    -- completed at least once, and accounted for at most once
    have hOnce := hAccounted k
    have hPos : 0 < c.completedCalls.count k :=
      List.count_pos_iff.mpr (List.mem_map_of_mem hDone)
    split_ifs at hOnce <;> omega

/-- A call of `a.b`, and one with a deadline. -/
def sampleCalls : CallSpec × CallSpec :=
  (⟨⟨[0x61], [0x62], []⟩, 0⟩, ⟨⟨[0x61], [0x62], [1]⟩, 5⟩)

/-- Two calls are pending when the connection is lost; the completion of the first
starts a third one, which fails at once. -/
def lostConnection : List Action :=
  [.up, .call sampleCalls.1, .call sampleCalls.2, .down, .resume 0, .call sampleCalls.1,
    .ret, .ret, .resume 0, .ret]

theorem exactly_once_completion_lost :
    ∃ c, runAll Client.step (Client.new kSerializerRaw FrameReader.default) lostConnection =
        some c ∧
      c.pendings = [] ∧ c.completedCalls.count 0 = 1 ∧ c.completedCalls.count 1 = 1 := by
  have hRun : (runAll Client.step (Client.new kSerializerRaw FrameReader.default)
      lostConnection).isSome = true := by decide
  obtain ⟨c, hc⟩ := Option.isSome_iff_exists.mp hRun
  have hControl : (runAll Client.step (Client.new kSerializerRaw FrameReader.default)
      lostConnection).map Client.control = some (.failing [] (.down [0, 1])) := by decide
  rw [hc] at hControl
  obtain ⟨-, -, hDown⟩ := exactly_once_completion _ _ c (reaches_of_runAll hc)
  obtain ⟨hPend, hCalls⟩ := hDown [0, 1] (Option.some.inj hControl)
  exact ⟨c, hc, hPend, (hCalls 0 (by simp)).2, (hCalls 1 (by simp)).2⟩

/-- While the completion of the first call runs, the second one is in the table that
`failAllPending` has moved out: neither in `pendings_` any more nor completed yet. -/
theorem held_while_failing :
    ∃ c, runAll Client.step (Client.new kSerializerRaw FrameReader.default)
        [.up, .call sampleCalls.1, .call sampleCalls.2, .down, .resume 0] = some c ∧
      c.running = [0] ∧ c.heldCalls = [1] ∧
      ¬ ∀ k < c.calls.length,
        c.pendingCalls.count k = 1 ∧ c.completedCalls.count k = 0 ∨
        c.pendingCalls.count k = 0 ∧ c.completedCalls.count k = 1 := by
  have hRun : (runAll Client.step (Client.new kSerializerRaw FrameReader.default)
      [.up, .call sampleCalls.1, .call sampleCalls.2, .down, .resume 0]).map
        (fun c => (c.running, c.heldCalls, c.pendingCalls, c.completedCalls, c.calls.length)) =
      some ([0], [1], [], [0], 2) := by decide
  obtain ⟨c, hc, hEq⟩ := Option.map_eq_some_iff.mp hRun
  simp only [Prod.mk.injEq] at hEq
  obtain ⟨hRunning, hHeld, hPending, hCompleted, hCalls⟩ := hEq
  refine ⟨c, hc, hRunning, hHeld, fun hAll => ?_⟩
  rw [hPending, hCompleted] at hAll
  exact absurd (hAll 1 (by omega)) (by decide)

end Client

end ReactorNet.Rpc
