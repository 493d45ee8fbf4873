import ReactorNet.Net.ConnectorAccounting

/-!
# ReactorNet — whose outcome it is

The callbacks of a channel and of a deadline capture the connector and test its state, and
nothing else. While an attempt is going on, a callback that is left over from an earlier
attempt is taken for one of the current attempt: the write branch of the old channel reads
`SO_ERROR` of the new socket, which is 0 during the handshake, and hands out a descriptor
that is not connected.

Main result: `outcome_of_own_attempt` — outcomes belong to their own attempt as long as an
attempt is started only when nothing is left over; and if something is, the attempt that
is started can get an outcome that is not its own.
-/

namespace ReactorNet

open Lib

/-- An outcome was caused by its own attempt: a connection by the writability of the channel
of the attempt that the descriptor was obtained for, with no error on the socket. -/
def ConnectorEvent.Own (log : List ConnectorEvent) : ConnectorEvent → Prop
  | .newConnection fd a cause => .socket fd a ∈ log ∧ cause = .writable a 0
  | .connectError _ a cause => cause.attempt = a
  | _ => True

theorem ConnectorEvent.Own.mono {log log' : List ConnectorEvent} {e : ConnectorEvent}
    (h : e.Own log) (hSub : log ⊆ log') : e.Own log' := by
  cases e with
  | newConnection fd a cause => exact ⟨hSub h.1, h.2⟩
  | connectError errno a cause => exact h
  | socket | close | stopped | dangling => trivial

namespace Connector

variable {c c' : Connector}

/-- An attempt is started only when nothing is left over. -/
def StartsClean (c : Connector) : Action → Prop
  | .start _ _ => c.state = .kConnecting ∨ c.state = .kConnected ∨ c.leftover = false
  | _ => True

instance (c : Connector) : ∀ a, Decidable (c.StartsClean a)
  | .start _ _ => inferInstanceAs (Decidable (_ ∨ _ ∨ _))
  | .configure .. | .stop | .destroy | .poll _ | .handleEvent _ | .writeBranch .. | .expire
  | .timeout => .isTrue trivial

/-! ## While the condition holds -/

/-- What is left to be called belongs to the current attempt. -/
structure Current (c : Connector) : Prop where
  ready : ∀ a revents, c.ready = some (a, revents) →
    revents.epollerr = true ∨ revents.epollout = true → a = c.attempt
  due : ∀ a, c.due = some a → a = c.attempt
  control : ∀ a revents inCallback, c.control = .writeBranch a revents inCallback →
    revents.epollout = true → a = c.attempt

/-- Nothing is left that could be of another attempt. -/
theorem current_of_clean (h : c.leftover = false) (hReady : c'.ready = c.ready)
    (hDue : c'.due = c.due) (hControl : c'.control = c.control) : Current c' := by
  unfold leftover at h
  simp only [Bool.or_eq_false_iff] at h
  obtain ⟨⟨hNoReady, hNoDue⟩, hNoControl⟩ := h
  refine
    { ready := fun a revents hSome hSet => ?_
      due := fun a hSome => ?_
      control := fun a revents inCallback hSome hOut => ?_ }
  · rw [hReady] at hSome
    simp only [hSome, Bool.or_eq_false_iff] at hNoReady
    rcases hSet with hSet | hSet <;> simp [hSet] at hNoReady
  · rw [hDue] at hSome
    simp [hSome] at hNoDue
  · rw [hControl] at hSome
    simp [hSome, hOut] at hNoControl

structure Attributed (c : Connector) : Prop where
  own : ∀ e ∈ c.log, e.Own c.log
  held : 0 ≤ c.sockfd → .socket c.sockfd c.attempt ∈ c.log
  channel : ∀ a, c.channel = some a → a = c.attempt
  timeoutId : ∀ a, c.timeoutId = some a → a = c.attempt
  current : c.state = .kConnecting → Current c

/-- An attempt ends, with outcomes that are its own. -/
theorem Attributed.ended (h : Attributed c) (es : List ConnectorEvent)
    (hEs : ∀ e ∈ es, e.Own c.log) (hState : c'.state ≠ .kConnecting) (hSockfd : c'.sockfd < 0)
    (hChannel : c'.channel = none) (hTimeout : c'.timeoutId = none)
    (hLog : c'.log = c.log ++ es) : Attributed c' where
  own e he := by
    rw [hLog] at he ⊢
    refine ConnectorEvent.Own.mono ?_ (List.subset_append_left c.log es)
    exact (List.mem_append.mp he).elim (h.own e) (hEs e)
  held hHeld := absurd hHeld (by omega)
  channel a ha := by simp [hChannel] at ha
  timeoutId a ha := by simp [hTimeout] at ha
  current hGoing := absurd hGoing hState

theorem own_closing (c : Connector) (log : List ConnectorEvent) : ∀ e ∈ c.closing, e.Own log := by
  unfold closing
  split_ifs <;> simp [ConnectorEvent.Own]

theorem Attributed.fail (h : Attributed c) (errno : Nat) {cause : Cause}
    (hCause : cause.attempt = c.attempt) : Attributed (c.fail errno cause) := by
  obtain ⟨sockfd, hSockfd, hEq⟩ := fail_eq c errno cause
  rw [hEq]
  refine h.ended (c.failing errno cause) (fun e he => ?_) (by simp) hSockfd rfl rfl rfl
  rcases List.mem_append.mp he with he | he
  · exact own_closing c c.log e he
  · split_ifs at he
    · obtain rfl := List.mem_singleton.mp he
      exact hCause
    · cases he

theorem Attributed.finishConnect (h : Attributed c) (hHeld : 0 ≤ c.sockfd) :
    Attributed (c.finishConnect (.writable c.attempt 0)) := by
  unfold Connector.finishConnect
  simp only
  split_ifs
  · refine h.ended [.newConnection c.sockfd c.attempt (.writable c.attempt 0)]
      (fun e he => ?_) (by simp [record]) (by simp [record]) rfl rfl rfl
    obtain rfl := List.mem_singleton.mp he
    exact ⟨h.held hHeld, rfl⟩
  · exact h.ended [.close c.sockfd] (by simp [ConnectorEvent.Own]) (by simp [record])
      (by simp [record]) rfl rfl rfl

variable {a : Nat}

theorem Attributed.decided (h : Attributed c) (hDecides : Decides c a c')
    (ha : c.state = .kConnecting → a = c.attempt) (hKept : Accounted c) : Attributed c' := by
  cases hDecides with
  | nothing => exact h
  | failed errno cause _ hGoing hCause => exact h.fail errno (hCause.trans (ha hGoing))
  | finished hAlive hGoing =>
    obtain rfl := ha hGoing
    exact h.finishConnect ((hKept.tidy hAlive).sockfd.mpr hGoing)
  | dangling =>
    refine
      { h with
        own := fun e he => ?_
        held := fun hHeld => ?_
        current := fun hGoing => { h.current hGoing with } }
    · rcases List.mem_append.mp he with he | he
      · exact (h.own e he).mono (List.subset_append_left ..)
      · obtain rfl := List.mem_singleton.mp he
        trivial
    · exact List.mem_append_left _ (h.held hHeld)

theorem Attributed.same (h : Attributed c) (hState : c'.state = c.state)
    (hAttempt : c'.attempt = c.attempt) (hSockfd : c'.sockfd = c.sockfd) (hLog : c'.log = c.log)
    (hChannel : c'.channel = c.channel) (hTimeout : c'.timeoutId = c.timeoutId)
    (hCurrent : c.state = .kConnecting → Current c') : Attributed c' where
  own := by rw [hLog]; exact h.own
  held := by rw [hSockfd, hAttempt, hLog]; exact h.held
  channel := by rw [hChannel, hAttempt]; exact h.channel
  timeoutId := by rw [hTimeout, hAttempt]; exact h.timeoutId
  current := by rw [hState]; exact hCurrent

/-- An attempt has got its descriptor, and nothing is left over. -/
theorem Attributed.opened (h : Attributed c) (hTimeout : c.timeoutId = none)
    (hLeft : c.leftover = false) (fd : Nat) : Attributed (c.opened fd) where
  own e he := by
    rcases List.mem_append.mp he with he | he
    · exact (h.own e he).mono (List.subset_append_left ..)
    · obtain rfl := List.mem_singleton.mp he
      trivial
  held _ := List.mem_append_right _ (List.mem_singleton_self _)
  channel a ha := (Option.some.inj ha).symm
  timeoutId a ha := by simp [Connector.opened, hTimeout] at ha
  current _ := current_of_clean hLeft rfl rfl rfl

/-- A new attempt, of which nothing is known but that nothing is left over. -/
theorem Attributed.begun (h : Attributed c) (hBegins : Begins c c') (hTidy : Tidy c)
    (hClean : c.state = .kConnecting ∨ c.state = .kConnected ∨ c.leftover = false) :
    Attributed c' := by
  have hLeft : c.state ≠ .kConnecting ∧ c.state ≠ .kConnected → c.leftover = false := by tauto
  cases hBegins with
  | busy => exact h
  | noSocket errno hFree =>
    obtain ⟨hNeg, hChannel, hTimeout⟩ := hTidy.idle hFree.1
    refine Attributed.fail ?_ errno rfl
    exact
      { own := h.own
        held := fun hHeld => absurd hHeld (not_le.mpr hNeg)
        channel := fun a ha => by simp [hChannel] at ha
        timeoutId := fun a ha => by simp [hTimeout] at ha
        current := fun _ => current_of_clean (hLeft hFree) rfl rfl rfl }
  | refused fd errno hFree =>
    exact (h.opened (hTidy.idle hFree.1).2.2 (hLeft hFree) fd).fail errno rfl
  | going fd timeoutId hFree hTimeout =>
    have hNone := (hTidy.idle hFree.1).2.2
    have hOpened := h.opened hNone (hLeft hFree) fd
    refine
      { own := hOpened.own
        held := hOpened.held
        channel := hOpened.channel
        timeoutId := fun a ha => ?_
        current := fun _ => current_of_clean (hLeft hFree) rfl rfl rfl }
    -- the deadline, if there is one, is the new one
    obtain rfl : timeoutId = some a := ha
    rcases hTimeout with hNew | hOld
    · exact Option.some.inj hNew
    · simp [hNone] at hOld

theorem Attributed.stopInLoop (h : Attributed c) (hTidy : Tidy c) :
    Attributed (c.stopInLoop.record (.stopped c.attempt)) := by
  obtain ⟨sockfd, hSockfd, state, hState, hEq⟩ := stopInLoop_eq hTidy
  rw [hEq]
  refine h.ended _ (fun e he => ?_) hState hSockfd rfl rfl rfl
  rcases List.mem_append.mp he with he | he
  · exact own_closing c c.log e he
  · obtain rfl := List.mem_singleton.mp he
    trivial

theorem Attributed.destroy (h : Attributed c) : Attributed c.destroy := by
  obtain ⟨sockfd, hSockfd, hEq⟩ := destroy_eq c
  rw [hEq]
  refine
    { own := fun e he => ?_
      held := fun hHeld => absurd hHeld (by simpa using hSockfd)
      channel := fun a ha => by cases ha
      timeoutId := fun a ha => by cases ha
      current := fun hGoing => { h.current hGoing with } }
  rcases List.mem_append.mp he with he | he
  · exact (h.own e he).mono (List.subset_append_left ..)
  · exact own_closing c _ e he

/-- **The step lemma.** A new attempt finds nothing left over of the old one: here `StartsClean` is
used. -/
theorem attributed_step {a : Action} (hStep : c.step a = some c') (hClean : c.StartsClean a)
    (hKept : Accounted c) (h : Attributed c) : Attributed c' := by
  cases step_outcome hStep with
  | configured =>
    exact h.same rfl rfl rfl rfl rfl rfl fun hGoing => { h.current hGoing with }
  | started socket savedErrno hAlive =>
    exact h.begun (begins_startInLoop c socket savedErrno) (hKept.tidy hAlive) hClean
  | stopped hAlive => exact h.stopInLoop (hKept.tidy hAlive)
  | destroyed => exact h.destroy
  | polled a revents hChannel hReady hDue hControl =>
    refine h.same rfl rfl rfl rfl rfl rfl fun hGoing => ?_
    refine { h.current hGoing with ready := fun a' revents' hSome _ => ?_ }
    obtain ⟨rfl, -⟩ := Prod.mk.inj (Option.some.inj hSome)
    exact h.channel a hChannel
  | dispatched a revents soError hReady hDue hControl =>
    -- the event is consumed first, whichever branches then run
    have hNext : Attributed { c with
        ready := none
        control := .writeBranch a revents (c.calledBack revents) } := by
      refine h.same rfl rfl rfl rfl rfl rfl fun hGoing => ?_
      refine
        { ready := fun a' revents' hSome => by cases hSome
          due := (h.current hGoing).due
          control := fun a' revents' inCallback hEq hOut => ?_ }
      obtain ⟨rfl, rfl, -⟩ := ConnectorControl.writeBranch.inj hEq
      exact (h.current hGoing).ready a revents hReady (.inr hOut)
    split_ifs with hErr
    · refine hNext.decided (decides_handleError _ a soError) (fun hGoing => ?_)
        (hKept.same rfl rfl rfl rfl rfl rfl rfl)
      exact (h.current hGoing).ready a revents hReady (.inl hErr)
    · exact hNext
  | wrote a revents inCallback soError selfConnect hControl =>
    have hNext : Attributed { c with control := .loop } := by
      refine h.same rfl rfl rfl rfl rfl rfl fun hGoing => ?_
      exact { h.current hGoing with control := fun _ _ _ hEq => by cases hEq }
    split_ifs with hOut
    · refine hNext.decided (decides_handleWrite _ a soError selfConnect) (fun hGoing => ?_)
        (hKept.same rfl rfl rfl rfl rfl rfl rfl)
      exact (h.current hGoing).control a revents inCallback hControl hOut
    · exact hNext
  | expired a hTimeout hDue hControl =>
    refine h.same rfl rfl rfl rfl rfl rfl fun hGoing => ?_
    exact { h.current hGoing with due := fun a' ha' => h.timeoutId a' (hTimeout.trans ha') }
  | timedOut a hDue hControl =>
    have hNext : Attributed { c with due := none } := by
      refine h.same rfl rfl rfl rfl rfl rfl fun hGoing => ?_
      exact { h.current hGoing with due := fun a' ha' => by cases ha' }
    exact hNext.decided (decides_handleTimeout _ a) (fun hGoing => (h.current hGoing).due a hDue)
      (hKept.same rfl rfl rfl rfl rfl rfl rfl)

theorem attributed_new : Attributed {} where
  own e he := by simp at he
  held hHeld := by simp at hHeld
  channel a ha := by cases ha
  timeoutId a ha := by cases ha
  current hGoing := by cases hGoing

theorem attributed_of_reachesBy (h : ReachesBy Connector.step StartsClean {} c) :
    Attributed c := by
  have hKept := h.invariant (P := fun c => Accounted c ∧ Attributed c)
    ⟨accounted_new, attributed_new⟩
    (fun _ _ _ hStep hClean h => ⟨accounted_step hStep h.1, attributed_step hStep hClean h.1 h.2⟩)
  exact hKept.2

/-! ## When it does not -/

/-- Whatever is left over is of an attempt that has begun. -/
structure Past (c : Connector) : Prop where
  channel : ∀ a, c.channel = some a → a ≤ c.attempt
  timeoutId : ∀ a, c.timeoutId = some a → a ≤ c.attempt
  ready : ∀ a revents, c.ready = some (a, revents) → a ≤ c.attempt
  due : ∀ a, c.due = some a → a ≤ c.attempt
  control : ∀ a revents inCallback, c.control = .writeBranch a revents inCallback → a ≤ c.attempt

/-- The end of an attempt leaves no channel and no deadline, and takes nothing back. -/
theorem Past.ended (h : Past c) (hAttempt : c'.attempt = c.attempt) (hChannel : c'.channel = none)
    (hTimeout : c'.timeoutId = none) (hReady : c'.ready = c.ready) (hDue : c'.due = c.due)
    (hControl : c'.control = c.control) : Past c' where
  channel a ha := by simp [hChannel] at ha
  timeoutId a ha := by simp [hTimeout] at ha
  ready := by rw [hReady, hAttempt]; exact h.ready
  due := by rw [hDue, hAttempt]; exact h.due
  control := by rw [hControl, hAttempt]; exact h.control

theorem Past.fail (h : Past c) (errno : Nat) (cause : Cause) : Past (c.fail errno cause) := by
  obtain ⟨sockfd, -, hEq⟩ := fail_eq c errno cause
  rw [hEq]
  exact h.ended rfl rfl rfl rfl rfl rfl

theorem Past.finishConnect (h : Past c) (cause : Cause) : Past (c.finishConnect cause) := by
  unfold Connector.finishConnect
  simp only
  split_ifs <;> exact h.ended rfl rfl rfl rfl rfl rfl

theorem Past.decided (h : Past c) (hDecides : Decides c a c') : Past c' := by
  cases hDecides with
  | nothing => exact h
  | failed errno cause => exact h.fail errno cause
  | finished => exact h.finishConnect _
  | dangling => exact { h with }

theorem Past.opened (h : Past c) (fd : Nat) : Past (c.opened fd) where
  channel _ ha := (Option.some.inj ha).ge
  timeoutId a ha := (h.timeoutId a ha).trans (Nat.le_succ _)
  ready a revents ha := (h.ready a revents ha).trans (Nat.le_succ _)
  due a ha := (h.due a ha).trans (Nat.le_succ _)
  control a revents inCallback ha := (h.control a revents inCallback ha).trans (Nat.le_succ _)

theorem Past.begun (h : Past c) (hBegins : Begins c c') : Past c' := by
  cases hBegins with
  | busy => exact h
  | noSocket errno =>
    refine Past.fail ?_ errno _
    exact { h.opened 0 with channel := fun a ha => (h.channel a ha).trans (Nat.le_succ _) }
  | refused fd errno => exact (h.opened fd).fail errno _
  | going fd timeoutId hFree hTimeout =>
    refine { h.opened fd with timeoutId := fun a ha => ?_ }
    obtain rfl : timeoutId = some a := ha
    rcases hTimeout with hNew | hOld
    · exact (Option.some.inj hNew).le
    · exact (h.timeoutId a hOld.symm).trans (Nat.le_succ _)

theorem past_step {a : Action} (hStep : c.step a = some c') (hKept : Accounted c) (h : Past c) :
    Past c' := by
  cases step_outcome hStep with
  | configured => exact { h with }
  | started socket savedErrno => exact h.begun (begins_startInLoop c socket savedErrno)
  | stopped hAlive =>
    obtain ⟨sockfd, -, state, -, hEq⟩ := stopInLoop_eq (hKept.tidy hAlive)
    rw [hEq]
    exact h.ended rfl rfl rfl rfl rfl rfl
  | destroyed =>
    obtain ⟨sockfd, -, hEq⟩ := destroy_eq c
    rw [hEq]
    exact h.ended rfl rfl rfl rfl rfl rfl
  | polled a revents hChannel =>
    refine { h with ready := fun a' revents' hSome => ?_ }
    obtain ⟨rfl, -⟩ := Prod.mk.inj (Option.some.inj hSome)
    exact h.channel a hChannel
  | dispatched a revents soError hReady =>
    -- the attempt reported on is an old one already
    have hNext : Past { c with
        ready := none
        control := .writeBranch a revents (c.calledBack revents) } :=
      { h with
        ready := fun _ _ hSome => by cases hSome
        control := fun a' _ _ hEq => by
          obtain ⟨rfl, -, -⟩ := ConnectorControl.writeBranch.inj hEq
          exact h.ready a revents hReady }
    split_ifs
    · exact hNext.decided (decides_handleError _ a soError)
    · exact hNext
  | wrote a revents inCallback soError selfConnect =>
    have hNext : Past { c with control := .loop } :=
      { h with control := fun _ _ _ hEq => by cases hEq }
    split_ifs
    · exact hNext.decided (decides_handleWrite _ a soError selfConnect)
    · exact hNext
  | expired a hTimeout =>
    exact { h with due := fun a' ha' => h.timeoutId a' (hTimeout.trans ha') }
  | timedOut a =>
    have hNext : Past { c with due := none } := { h with due := fun _ ha => by cases ha }
    exact hNext.decided (decides_handleTimeout _ a)

/-- An outcome was reported that is not caused by its own attempt. -/
def Misattributed (c : Connector) : Prop := ∃ e ∈ c.log, ¬ e.Own c.log

/-- An attempt is going on, and its callbacks are set. -/
structure Going (c : Connector) : Prop where
  alive : c.destroyed = false
  state : c.state = .kConnecting
  newConnection : c.newConnectionCallback = true
  connectError : c.connectErrorCallback = true

theorem misattributed_fail (h : Going c) (errno : Nat) {cause : Cause}
    (hCause : cause.attempt ≠ c.attempt) : Misattributed (c.fail errno cause) := by
  obtain ⟨sockfd, -, hEq⟩ := fail_eq c errno cause
  refine ⟨.connectError errno c.attempt cause, ?_, hCause⟩
  rw [hEq]
  simp [failing, h.connectError]

/-- The write branch of an old channel hands out the new descriptor. -/
theorem misattributed_writeBranch (h : Going c) {revents : Revents} {inCallback : Bool}
    (hControl : c.control = .writeBranch a revents inCallback) (hOut : revents.epollout = true)
    (ha : a ≠ c.attempt) : ∃ c', c.step (.writeBranch 0 false) = some c' ∧ Misattributed c' := by
  have hFinish : { c with control := .loop }.invoke a (·.handleWrite a 0 false) =
      { c with control := .loop }.finishConnect (.writable a 0) := by
    simp [invoke, h.alive, handleWrite, h.state]
  refine ⟨{ c with control := .loop }.finishConnect (.writable a 0), ?_, ?_⟩
  · rw [← hFinish]
    simp [step, hControl, hOut]
  · refine ⟨.newConnection c.sockfd c.attempt (.writable a 0), ?_, fun hOwn => ?_⟩
    · simp [finishConnect, cancelTimeout, removeChannel, h.newConnection, record]
    · obtain ⟨hEq, -⟩ := Cause.writable.inj hOwn.2
      exact ha hEq

/-- An old deadline fails the new attempt. -/
theorem misattributed_timeout (h : Going c) (hControl : c.control = .loop) (hDue : c.due = some a)
    (ha : a ≠ c.attempt) : ∃ c', c.step .timeout = some c' ∧ Misattributed c' := by
  refine ⟨{ c with due := none }.fail ETIMEDOUT (.timer a), ?_, ?_⟩
  · simp [step, invoke, h.alive, hControl, hDue, handleTimeout, h.state]
  · have hNext : Going { c with due := none } :=
      ⟨h.alive, h.state, h.newConnection, h.connectError⟩
    exact misattributed_fail hNext ETIMEDOUT (show (Cause.timer a).attempt ≠ _ from ha)

/-- An old event is dispatched: its error branch fails the new attempt, or its write branch
finishes it. -/
theorem misattributed_event (h : Going c) {revents : Revents} (hControl : c.control = .loop)
    (hDue : c.due = none) (hReady : c.ready = some (a, revents))
    (hSet : revents.epollerr = true ∨ revents.epollout = true) (ha : a ≠ c.attempt) :
    ∃ c', Reaches Connector.step c c' ∧ Misattributed c' := by
  have hNext : Going { c with
      ready := none
      control := .writeBranch a revents (c.calledBack revents) } :=
    ⟨h.alive, h.state, h.newConnection, h.connectError⟩
  by_cases hErr : revents.epollerr = true
  · have hWrong := misattributed_fail hNext ECONNABORTED (show (Cause.error a).attempt ≠ _ from ha)
    refine ⟨_, Reaches.refl.next (.handleEvent 0) ?_, hWrong⟩
    simp [step, invoke, h.alive, hControl, hDue, hReady, hErr, handleError, h.state]
  · obtain ⟨c', hStep, hWrong⟩ := misattributed_writeBranch hNext rfl (hSet.resolve_left hErr) ha
    refine ⟨c', (Reaches.refl.next (.handleEvent 0) ?_).next _ hStep, hWrong⟩
    simp [step, hControl, hDue, hReady, hErr]

/-- An attempt is going on, and something is left over from an earlier one. -/
theorem misattributed_of_leftover (h : Going c) (hLeft : c.leftover = true)
    (hReady : ∀ a revents, c.ready = some (a, revents) → a ≠ c.attempt)
    (hDue : ∀ a, c.due = some a → a ≠ c.attempt)
    (hControl : ∀ a revents inCallback, c.control = .writeBranch a revents inCallback →
      a ≠ c.attempt) : ∃ c', Reaches Connector.step c c' ∧ Misattributed c' := by
  -- in the loop, what is left is a deadline or an event
  have hLoop : ∀ d : Connector, Going d → d.control = .loop → d.leftover = true →
      d.ready = c.ready → d.due = c.due → d.attempt = c.attempt →
      ∃ c', Reaches Connector.step d c' ∧ Misattributed c' := by
    intro d hd hdControl hdLeft hdReady hdDue hdAttempt
    rcases hdSome : d.due with _ | a
    · rcases hdEvent : d.ready with _ | ⟨a, revents⟩
      · simp [leftover, hdControl, hdSome, hdEvent] at hdLeft
      · refine misattributed_event hd hdControl hdSome hdEvent ?_ ?_
        · simpa [leftover, hdControl, hdSome, hdEvent] using hdLeft
        · rw [hdAttempt]
          exact hReady a revents (hdReady ▸ hdEvent)
    · obtain ⟨c', hStep, hWrong⟩ := misattributed_timeout hd hdControl hdSome (by
        rw [hdAttempt]
        exact hDue a (hdDue ▸ hdSome))
      exact ⟨c', Reaches.refl.next _ hStep, hWrong⟩
  rcases hc : c.control with _ | ⟨a, revents, inCallback⟩
  · exact hLoop c h hc hLeft rfl rfl rfl
  · by_cases hOut : revents.epollout = true
    · obtain ⟨c', hStep, hWrong⟩ := misattributed_writeBranch h hc hOut (hControl a revents _ hc)
      exact ⟨c', Reaches.refl.next _ hStep, hWrong⟩
    · -- the write branch has nothing to do, and the loop goes on
      obtain ⟨c', hReach, hWrong⟩ := hLoop { c with control := .loop }
        ⟨h.alive, h.state, h.newConnection, h.connectError⟩ rfl
        (by simpa [leftover, hc, hOut] using hLeft) rfl rfl rfl
      have hStep : c.step (.writeBranch 0 false) = some { c with control := .loop } := by
        simp [step, hc, hOut]
      exact ⟨c', (Reaches.refl.next _ hStep).trans hReach, hWrong⟩

/-- An attempt that is started over something left over can get an outcome of another. -/
theorem misattributed_of_start (hPast : Past c) {fd savedErrno : Nat}
    (hProgress : inProgress savedErrno = true) (hClean : ¬ c.StartsClean (.start (.ok fd) savedErrno))
    (hNew : c.newConnectionCallback = true) (hError : c.connectErrorCallback = true)
    (hStep : c.step (.start (.ok fd) savedErrno) = some c') :
    ∃ c'', Reaches Connector.step c' c'' ∧ Misattributed c'' := by
  simp only [StartsClean, not_or, Bool.not_eq_false] at hClean
  obtain ⟨hNotConnecting, hNotConnected, hLeft⟩ := hClean
  rcases step_outcome hStep with _ | ⟨_, _, hAlive⟩
  have hState : ¬ (c.state = .kConnecting ∨ c.state = .kConnected) := by
    rintro (h | h)
    · exact hNotConnecting h
    · exact hNotConnected h
  simp only [startInLoop, if_neg hState, connect, if_pos hProgress]
  -- with a deadline or without, what is left is of an attempt before the one that begins
  split_ifs
  all_goals
    refine misattributed_of_leftover ⟨hAlive, rfl, hNew, hError⟩ hLeft ?_ ?_ ?_
    · exact fun a revents ha => (Nat.lt_succ_of_le (hPast.ready a revents ha)).ne
    · exact fun a ha => (Nat.lt_succ_of_le (hPast.due a ha)).ne
    · exact fun a revents inCallback ha =>
        (Nat.lt_succ_of_le (hPast.control a revents inCallback ha)).ne

/-- **Outcomes belong to their own attempt**: in every run in which an attempt is started
only when nothing is left over from an earlier one, a connection is handed out because the
channel of its own descriptor was writable without an error, and a failure is reported
because of the attempt's own calls, channel or deadline. Where an attempt is started over
something left over, the run can go on to an outcome that is not the attempt's own. -/
theorem outcome_of_own_attempt (c : Connector) :
    (ReachesBy Connector.step StartsClean {} c → ∀ e ∈ c.log, e.Own c.log) ∧
    (Reaches Connector.step {} c → c.newConnectionCallback = true →
      c.connectErrorCallback = true →
      ∀ fd savedErrno c', inProgress savedErrno = true →
        ¬ c.StartsClean (.start (.ok fd) savedErrno) →
        c.step (.start (.ok fd) savedErrno) = some c' →
        ∃ c'', Reaches Connector.step c' c'' ∧ Misattributed c'') := by
  constructor
  · intro hReach
    exact (attributed_of_reachesBy hReach).own
  · intro hReach hNew hError fd savedErrno c' hProgress hClean hStep
    have hKept := hReach.invariant (P := fun c => Accounted c ∧ Past c)
      ⟨accounted_new, by constructor <;> simp⟩
      (fun _ _ _ hStep h => ⟨accounted_step hStep h.1, past_step hStep h.1 h.2⟩)
    exact misattributed_of_start hKept.2 hProgress hClean hNew hError hStep

/-- The first attempt is refused, and after its event is dispatched a second one connects. -/
theorem outcome_of_own_attempt_retry :
    ∃ c, runAllBy Connector.step StartsClean {}
        [.start (.ok 5) EINPROGRESS, .poll { epollerr := true, epollout := true },
          .handleEvent ECONNREFUSED, .writeBranch 0 false, .start (.ok 5) EINPROGRESS,
          .poll { epollout := true }, .handleEvent 0, .writeBranch 0 false] = some c ∧
      c.log = [.socket 5 1, .close 5, .connectError ECONNREFUSED 1 (.error 1), .socket 5 2,
        .newConnection 5 2 (.writable 2 0)] ∧
      ∀ e ∈ c.log, e.Own c.log := by
  obtain ⟨c, hRun, hLog⟩ : ∃ c, runAllBy Connector.step StartsClean {}
        [.start (.ok 5) EINPROGRESS, .poll { epollerr := true, epollout := true },
          .handleEvent ECONNREFUSED, .writeBranch 0 false, .start (.ok 5) EINPROGRESS,
          .poll { epollout := true }, .handleEvent 0, .writeBranch 0 false] = some c ∧
      c.log = [.socket 5 1, .close 5, .connectError ECONNREFUSED 1 (.error 1), .socket 5 2,
        .newConnection 5 2 (.writable 2 0)] := ⟨_, rfl, rfl⟩
  exact ⟨c, hRun, hLog, (outcome_of_own_attempt c).1 (reachesBy_of_runAllBy hRun)⟩

/-- The same refusal, but the error callback itself starts the second attempt: the write
branch of the first channel reads `SO_ERROR` of the second socket, whose handshake has only
begun, and hands the descriptor out. -/
theorem old_channel_hands_out_new_socket :
    ∃ c, runAll Connector.step {}
        [.start (.ok 5) EINPROGRESS, .poll { epollerr := true, epollout := true },
          .handleEvent ECONNREFUSED, .start (.ok 5) EINPROGRESS, .writeBranch 0 false] = some c ∧
      c.log = [.socket 5 1, .close 5, .connectError ECONNREFUSED 1 (.error 1), .socket 5 2,
        .newConnection 5 2 (.writable 1 0)] ∧
      ¬ ∀ e ∈ c.log, e.Own c.log := by
  have hForeign : ¬ ∀ e ∈ ([.socket 5 1, .close 5, .connectError ECONNREFUSED 1 (.error 1),
      .socket 5 2, .newConnection 5 2 (.writable 1 0)] : List ConnectorEvent), e.Own
      [.socket 5 1, .close 5, .connectError ECONNREFUSED 1 (.error 1), .socket 5 2,
        .newConnection 5 2 (.writable 1 0)] := by
    simp [ConnectorEvent.Own]
  exact ⟨_, rfl, rfl, hForeign⟩

end Connector

end ReactorNet
