import ReactorNet.Net.Connector

/-!
# ReactorNet — the descriptors of a connector

Eight functions share the descriptor, the channel, the timer and the state, and a callback
may start a new attempt. What keeps the books right is that an attempt ends in one way:
`fail`, `finishConnect` and `stopInLoop` all leave `kConnecting`, and with it the
descriptor, the channel and the timer, before anything is called back (`Books.ended`).

* `Books` is about the log: every descriptor that was obtained is held, closed or handed
  over, and every attempt has at most one outcome.
* `Tidy` is about the fields between two steps of a connector that is in use.
* A connector that is destroyed holds nothing, and all that still happens to it is that the
  loop calls the callbacks that it was committed to (`dead_step`, `dead_run`).

Main result: `connector_accounting`.
-/

namespace ReactorNet

open Lib

/-! ## What the log says -/

def ConnectorEvent.obtains (fd : Int) : ConnectorEvent → Bool
  | .socket fd' _ => fd' == fd
  | _ => false

def ConnectorEvent.closes (fd : Int) : ConnectorEvent → Bool
  | .close fd' => fd' == fd
  | _ => false

def ConnectorEvent.hands (fd : Int) : ConnectorEvent → Bool
  | .newConnection fd' _ _ => fd' == fd
  | _ => false

/-- One of the two outcome callbacks, for this attempt. -/
def ConnectorEvent.outcomeOf (a : Nat) : ConnectorEvent → Bool
  | .newConnection _ a' _ | .connectError _ a' _ => a' == a
  | _ => false

namespace Connector

variable {c c' : Connector}

/-- The attempt has begun, and is over. -/
def Ended (c : Connector) (a : Nat) : Prop :=
  a < c.attempt ∨ (a = c.attempt ∧ c.state ≠ .kConnecting)

instance (c : Connector) (a : Nat) : Decidable (c.Ended a) := inferInstanceAs (Decidable (_ ∨ _))

theorem not_ended_of_connecting (h : c.state = .kConnecting) : ¬ c.Ended c.attempt := by
  rintro (hLt | ⟨-, hne⟩)
  · exact absurd hLt (lt_irrefl _)
  · exact hne h

structure Books (c : Connector) : Prop where
  fds : ∀ fd, 0 ≤ fd → c.log.countP (ConnectorEvent.obtains fd) =
    c.log.countP (ConnectorEvent.closes fd) + c.log.countP (ConnectorEvent.hands fd) +
      if c.sockfd = fd then 1 else 0
  outcomes : ∀ a, c.log.countP (ConnectorEvent.outcomeOf a) ≤ if c.Ended a then 1 else 0
  stopped : ∀ a, .stopped a ∈ c.log → c.Ended a
  quiet : c.log.Pairwise fun e e' => ∀ a, e = .stopped a → e'.outcomeOf a = false

/-- The descriptor, the channel and the timer belong to an attempt that is going on. -/
structure Tidy (c : Connector) : Prop where
  sockfd : 0 ≤ c.sockfd ↔ c.state = .kConnecting
  channel : c.channel.isSome = true ↔ c.state = .kConnecting
  timeoutId : c.timeoutId.isSome = true → c.state = .kConnecting

theorem Books.same (h : Books c) (hState : c'.state = c.state) (hAttempt : c'.attempt = c.attempt)
    (hSockfd : c'.sockfd = c.sockfd) (hLog : c'.log = c.log) : Books c' := by
  have hEnded : c'.Ended = c.Ended := by
    unfold Ended
    rw [hState, hAttempt]
  exact
    { fds := by rw [hLog, hSockfd]; exact h.fds
      outcomes := fun a => by
        rw [hLog]
        simpa only [hEnded] using h.outcomes a
      stopped := by rw [hLog, hEnded]; exact h.stopped
      quiet := by rw [hLog]; exact h.quiet }

theorem Tidy.same (h : Tidy c) (hState : c'.state = c.state) (hSockfd : c'.sockfd = c.sockfd)
    (hChannel : c'.channel = c.channel) (hTimeout : c'.timeoutId = c.timeoutId) : Tidy c' where
  sockfd := by rw [hState, hSockfd]; exact h.sockfd
  channel := by rw [hState, hChannel]; exact h.channel
  timeoutId := by rw [hState, hTimeout]; exact h.timeoutId

/-! ## The end of an attempt -/

/-- Events that dispose of the descriptor that is held, and report the current attempt. -/
structure Ending (c : Connector) (es : List ConnectorEvent) : Prop where
  obtains : ∀ fd, es.countP (ConnectorEvent.obtains fd) = 0
  disposes : ∀ fd, 0 ≤ fd → es.countP (ConnectorEvent.closes fd) +
    es.countP (ConnectorEvent.hands fd) = if c.sockfd = fd then 1 else 0
  outcomes : ∀ a, es.countP (ConnectorEvent.outcomeOf a) ≤ if a = c.attempt then 1 else 0
  /-- An outcome is reported of an attempt that is going on. -/
  going : ∀ a, ∀ e ∈ es, e.outcomeOf a = true → a = c.attempt ∧ c.state = .kConnecting
  stopped : ∀ a, .stopped a ∈ es → a = c.attempt
  quiet : es.Pairwise fun e e' => ∀ a, e = .stopped a → e'.outcomeOf a = false

/-- **The end of an attempt**, whichever way it ends. -/
theorem Books.ended (h : Books c) (es : List ConnectorEvent) (hEs : Ending c es)
    (hState : c'.state ≠ .kConnecting) (hAttempt : c'.attempt = c.attempt)
    (hSockfd : c'.sockfd < 0) (hLog : c'.log = c.log ++ es) : Books c' := by
  have hEnded : ∀ a, c'.Ended a ↔ a < c.attempt ∨ a = c.attempt := fun a => by
    unfold Ended
    rw [hAttempt]
    exact or_congr_right (and_iff_left hState)
  refine
    { fds := fun fd hfd => ?_
      outcomes := fun a => ?_
      stopped := fun a ha => ?_
      quiet := ?_ }
  · have hOld := h.fds fd hfd
    have hNew := hEs.disposes fd hfd
    have hNone : ¬ c'.sockfd = fd := fun hEq => absurd hfd (by omega)
    rw [hLog, List.countP_append, List.countP_append, List.countP_append, hEs.obtains, if_neg hNone]
    omega
  · rw [hLog, List.countP_append]
    have hOld := h.outcomes a
    have hNew := hEs.outcomes a
    by_cases ha : a = c.attempt
    · rw [if_pos ((hEnded a).mpr (.inr ha))]
      by_cases hGoing : c.state = .kConnecting
      · rw [if_neg (ha ▸ not_ended_of_connecting hGoing)] at hOld
        rw [if_pos ha] at hNew
        omega
      · -- nothing is reported of an attempt that is over
        have hNone : es.countP (ConnectorEvent.outcomeOf a) = 0 :=
          List.countP_eq_zero.mpr fun e he hOutcome => hGoing (hEs.going a e he hOutcome).2
        have : (if c.Ended a then 1 else 0) ≤ 1 := by split <;> omega
        omega
    · rw [if_neg ha] at hNew
      have hSame : c.Ended a ↔ c'.Ended a := by
        rw [hEnded]
        simp [Ended, ha]
      simp only [hSame] at hOld
      omega
  · rw [hEnded]
    rcases List.mem_append.mp (hLog ▸ ha) with ha | ha
    · exact (h.stopped a ha).imp_right fun hEq => hEq.1
    · exact .inr (hEs.stopped a ha)
  · rw [hLog, List.pairwise_append]
    refine ⟨h.quiet, hEs.quiet, fun e he e' he' a hStopped => ?_⟩
    -- an attempt that was stopped is not going on
    by_contra hOutcome
    obtain ⟨rfl, hGoing⟩ := hEs.going a e' he' (by simpa using hOutcome)
    exact not_ended_of_connecting hGoing (h.stopped _ (hStopped ▸ he))

theorem tidy_of_not_connecting (hState : c.state ≠ .kConnecting) (hSockfd : c.sockfd < 0)
    (hChannel : c.channel = none) (hTimeout : c.timeoutId = none) : Tidy c where
  sockfd := iff_of_false (by omega) hState
  channel := iff_of_false (by simp [hChannel]) hState
  timeoutId h := by simp [hTimeout] at h

/-- What `closeSockfd` logs. -/
def closing (c : Connector) : List ConnectorEvent :=
  if 0 ≤ c.sockfd then [.close c.sockfd] else []

theorem ending_closing (c : Connector) : Ending c c.closing := by
  unfold closing
  split_ifs with hHeld
  · refine ⟨fun fd => rfl, fun fd _ => ?_, fun a => ?_, ?_, ?_, List.pairwise_singleton ..⟩
    · by_cases hEq : c.sockfd = fd <;> simp [ConnectorEvent.closes, ConnectorEvent.hands, hEq]
    · simp [ConnectorEvent.outcomeOf]
    · simp [ConnectorEvent.outcomeOf]
    · simp
  · refine ⟨fun fd => rfl, fun fd hfd => ?_, fun a => Nat.zero_le _, ?_, ?_, List.Pairwise.nil⟩
    · have hne : c.sockfd ≠ fd := fun hEq => hHeld (hEq ▸ hfd)
      simp [hne]
    · simp
    · simp

/-- One event more, of which the descriptors do not care. -/
theorem Ending.concat {es : List ConnectorEvent} (h : Ending c es)
    (hNone : ∀ a, ∀ e ∈ es, e.outcomeOf a = false) (hQuiet : ∀ a, .stopped a ∉ es)
    {e : ConnectorEvent}
    (hE : (∃ errno cause, e = .connectError errno c.attempt cause ∧ c.state = .kConnecting) ∨
      e = .stopped c.attempt) : Ending c (es ++ [e]) := by
  -- before `e` there was no outcome, so `e` is the only one
  have hCount : ∀ a, es.countP (ConnectorEvent.outcomeOf a) = 0 := fun a =>
    List.countP_eq_zero.mpr fun e he => by simp [hNone a e he]
  refine ⟨fun fd => ?_, fun fd hfd => ?_, fun a => ?_, fun a e' he' hOutcome => ?_, fun a ha => ?_, ?_⟩
  · rw [List.countP_append, h.obtains]
    rcases hE with ⟨errno, cause, rfl, -⟩ | rfl <;> rfl
  · rw [← h.disposes fd hfd, List.countP_append, List.countP_append]
    rcases hE with ⟨errno, cause, rfl, -⟩ | rfl <;> simp [ConnectorEvent.closes, ConnectorEvent.hands]
  · rw [List.countP_append, hCount]
    rcases hE with ⟨errno, cause, rfl, -⟩ | rfl
    · by_cases ha : a = c.attempt
      · simp [ConnectorEvent.outcomeOf, ha]
      · simp [ConnectorEvent.outcomeOf, ha, Ne.symm ha]
    · simp [ConnectorEvent.outcomeOf]
  · rcases List.mem_append.mp he' with he' | he'
    · simp [hNone a e' he'] at hOutcome
    · obtain rfl := List.mem_singleton.mp he'
      rcases hE with ⟨errno, cause, rfl, hGoing⟩ | rfl
      · exact ⟨(beq_iff_eq.mp hOutcome).symm, hGoing⟩
      · simp [ConnectorEvent.outcomeOf] at hOutcome
  · rcases List.mem_append.mp ha with ha | ha
    · exact absurd ha (hQuiet a)
    · rcases hE with ⟨errno, cause, rfl, -⟩ | rfl
      · simp at ha
      · simpa using ha
  · refine List.pairwise_append.mpr ⟨h.quiet, List.pairwise_singleton .., fun e₁ he₁ e₂ _ a hEq => ?_⟩
    exact absurd (hEq ▸ he₁) (hQuiet a)

theorem closing_plain (c : Connector) :
    (∀ a, ∀ e ∈ c.closing, e.outcomeOf a = false) ∧ ∀ a, .stopped a ∉ c.closing := by
  unfold closing
  split_ifs <;> simp [ConnectorEvent.outcomeOf]

theorem closeSockfd_eq (c : Connector) : ∃ sockfd < 0, c.closeSockfd =
    { c with sockfd := sockfd, log := c.log ++ c.closing } := by
  unfold closeSockfd closing
  split_ifs with hHeld
  · exact ⟨-1, by norm_num, rfl⟩
  · exact ⟨c.sockfd, by omega, by simp⟩

/-- What `fail` logs. -/
def failing (c : Connector) (errno : Nat) (cause : Cause) : List ConnectorEvent :=
  c.closing ++ if c.connectErrorCallback then [.connectError errno c.attempt cause] else []

theorem fail_eq (c : Connector) (errno : Nat) (cause : Cause) : ∃ sockfd < 0, c.fail errno cause =
    { c with
      state := .kFailed
      timeoutId := none
      channel := none
      sockfd := sockfd
      log := c.log ++ c.failing errno cause } := by
  obtain ⟨sockfd, hSockfd, hEq⟩ := closeSockfd_eq
    { c with state := .kFailed, timeoutId := none, channel := none }
  refine ⟨sockfd, hSockfd, ?_⟩
  have hClosing : closing { c with state := .kFailed, timeoutId := none, channel := none } =
      c.closing := rfl
  simp only [fail, cancelTimeout, removeChannel, hEq, failing, hClosing]
  split_ifs
  · simp [record]
  · simp

theorem ending_failing (hState : c.state = .kConnecting) (errno : Nat) (cause : Cause) :
    Ending c (c.failing errno cause) := by
  unfold failing
  split_ifs
  · exact (ending_closing c).concat (closing_plain c).1 (closing_plain c).2
      (.inl ⟨errno, cause, rfl, hState⟩)
  · rw [List.append_nil]
    exact ending_closing c

theorem fail_ended (h : Books c) (hState : c.state = .kConnecting) (errno : Nat) (cause : Cause) :
    Books (c.fail errno cause) ∧ Tidy (c.fail errno cause) := by
  obtain ⟨sockfd, hSockfd, hEq⟩ := fail_eq c errno cause
  rw [hEq]
  exact ⟨h.ended _ (ending_failing hState errno cause) (by simp) rfl hSockfd rfl,
    tidy_of_not_connecting (by simp) hSockfd rfl rfl⟩

theorem finishConnect_ended (h : Books c) (hState : c.state = .kConnecting) (hHeld : 0 ≤ c.sockfd)
    (cause : Cause) : Books (c.finishConnect cause) ∧ Tidy (c.finishConnect cause) := by
  unfold finishConnect
  simp only
  split_ifs
  · refine ⟨?_, tidy_of_not_connecting (by simp [record]) (by simp [record]) rfl rfl⟩
    refine h.ended [.newConnection c.sockfd c.attempt cause] ?_ (by simp [record]) rfl
      (by simp [record]) rfl
    refine ⟨fun fd => rfl, fun fd _ => ?_, fun a => ?_, fun a e he hOutcome => ?_, by simp,
      List.pairwise_singleton ..⟩
    · by_cases hEq : c.sockfd = fd <;> simp [ConnectorEvent.closes, ConnectorEvent.hands, hEq]
    · by_cases ha : a = c.attempt
      · simp [ConnectorEvent.outcomeOf, ha]
      · simp [ConnectorEvent.outcomeOf, ha, Ne.symm ha]
    · obtain rfl := List.mem_singleton.mp he
      exact ⟨(beq_iff_eq.mp hOutcome).symm, hState⟩
  · -- with no callback the descriptor is closed
    refine ⟨?_, tidy_of_not_connecting (by simp [record]) (by simp [record]) rfl rfl⟩
    have hClosing : c.closing = [.close c.sockfd] := if_pos hHeld
    exact h.ended _ (hClosing ▸ ending_closing c) (by simp [record]) rfl (by simp [record]) rfl

/-! ## Every step -/

/-- An attempt begins, and has not yet got its descriptor. -/
theorem Books.begin (h : Books c) (hState : c.state ≠ .kConnecting) :
    Books { c with state := .kConnecting, attempt := c.attempt + 1 } := by
  have hEnded : ∀ a, Ended { c with state := .kConnecting, attempt := c.attempt + 1 } a ↔
      c.Ended a := fun a => by
    simp only [Ended, ne_eq, not_true_eq_false, and_false, or_false, hState, not_false_eq_true,
      and_true]
    omega
  exact
    { fds := h.fds
      outcomes := fun a => by simpa only [hEnded] using h.outcomes a
      stopped := fun a ha => (hEnded a).mpr (h.stopped a ha)
      quiet := h.quiet }

theorem Books.opened (h : Books c) (hSockfd : c.sockfd < 0) (fd : Nat) (channel : Option Nat) :
    Books ({ c with sockfd := fd, channel := channel }.record (.socket fd c.attempt)) where
  fds fd' hfd' := by
    have hOld := h.fds fd' hfd'
    have hNone : ¬ c.sockfd = fd' := fun hEq => absurd hfd' (by omega)
    rw [if_neg hNone] at hOld
    by_cases hEq : (fd : Int) = fd' <;>
      simp [record, ConnectorEvent.obtains, ConnectorEvent.closes, ConnectorEvent.hands, hEq, hOld]
  outcomes a := by
    show (c.log ++ [ConnectorEvent.socket fd c.attempt]).countP (ConnectorEvent.outcomeOf a) ≤ _
    rw [List.countP_append]
    exact h.outcomes a
  stopped a ha := h.stopped a (by simpa [record] using ha)
  quiet := List.pairwise_append.mpr ⟨h.quiet, List.pairwise_singleton .., fun e _ e' he' a _ => by
    obtain rfl := List.mem_singleton.mp he'
    rfl⟩

/-- Outside of an attempt there is nothing to clean up. -/
theorem Tidy.idle (h : Tidy c) (hState : c.state ≠ .kConnecting) :
    c.sockfd < 0 ∧ c.channel = none ∧ c.timeoutId = none := by
  refine ⟨not_le.mp (h.sockfd.not.mpr hState), ?_, ?_⟩
  · simpa using h.channel.not.mpr hState
  · simpa using mt h.timeoutId hState

theorem Begins.kept (hBegins : Begins c c') (h : Books c) (hTidy : Tidy c) :
    Books c' ∧ Tidy c' := by
  have hOpened : ∀ fd, c.state ≠ .kConnecting → Books (c.opened fd) := fun fd hIdle =>
    (h.begin hIdle).opened (hTidy.idle hIdle).1 fd (some (c.attempt + 1))
  cases hBegins with
  | busy => exact ⟨h, hTidy⟩
  | noSocket errno hFree => exact fail_ended (h.begin hFree.1) rfl errno _
  | refused fd errno hFree => exact fail_ended (hOpened fd hFree.1) rfl errno _
  | going fd timeoutId hFree =>
    refine ⟨(hOpened fd hFree.1).same rfl rfl rfl rfl, ?_, iff_of_true rfl rfl, fun _ => rfl⟩
    exact iff_of_true (Int.natCast_nonneg fd) rfl

/-- A stop ends the attempt, if there is one. -/
theorem stopInLoop_eq (hTidy : Tidy c) : ∃ sockfd < 0, ∃ state, state ≠ .kConnecting ∧
    c.stopInLoop.record (.stopped c.attempt) =
      { c with
        state := state
        timeoutId := none
        channel := none
        sockfd := sockfd
        log := c.log ++ (c.closing ++ [.stopped c.attempt]) } := by
  unfold stopInLoop
  by_cases hGoing : c.state = .kConnecting
  · obtain ⟨sockfd, hSockfd, hEq⟩ := closeSockfd_eq
      { c with state := .kDisconnected, timeoutId := none, channel := none }
    have hClosing : closing { c with state := .kDisconnected, timeoutId := none, channel := none } =
        c.closing := rfl
    refine ⟨sockfd, hSockfd, .kDisconnected, by simp, ?_⟩
    simp [hGoing, cancelTimeout, removeChannel, hEq, hClosing, record]
  · obtain ⟨hNeg, hChannel, hTimeout⟩ := hTidy.idle hGoing
    have hNil : c.closing = [] := if_neg (by omega)
    rw [if_neg hGoing]
    split_ifs
    · exact ⟨c.sockfd, hNeg, .kDisconnected, by simp, by simp [record, hNil, hChannel, hTimeout]⟩
    · exact ⟨c.sockfd, hNeg, c.state, hGoing, by simp [record, hNil, hChannel, hTimeout]⟩

theorem stopInLoop_kept (h : Books c) (hTidy : Tidy c) :
    Books (c.stopInLoop.record (.stopped c.attempt)) ∧
      Tidy (c.stopInLoop.record (.stopped c.attempt)) := by
  obtain ⟨sockfd, hSockfd, state, hState, hEq⟩ := stopInLoop_eq hTidy
  have hEnding := (ending_closing c).concat (closing_plain c).1 (closing_plain c).2 (.inr rfl)
  rw [hEq]
  exact ⟨h.ended _ hEnding hState rfl hSockfd rfl,
    tidy_of_not_connecting hState hSockfd rfl rfl⟩

/-- A call on the dead object is no entry of the books. -/
theorem Books.dangling (h : Books c) (a : Nat) : Books (c.record (.dangling a)) where
  fds fd hfd := by
    simp only [record, List.countP_append]
    exact h.fds fd hfd
  outcomes a' := by
    show (c.log ++ [ConnectorEvent.dangling a]).countP (ConnectorEvent.outcomeOf a') ≤ _
    rw [List.countP_append]
    exact h.outcomes a'
  stopped a' ha' := h.stopped a' (by simpa [record] using ha')
  quiet := List.pairwise_append.mpr ⟨h.quiet, List.pairwise_singleton .., fun e _ e' he' a _ => by
    obtain rfl := List.mem_singleton.mp he'
    rfl⟩

theorem destroy_eq (c : Connector) : ∃ sockfd < 0, c.destroy =
    { c with
      timeoutId := none
      channel := none
      sockfd := sockfd
      destroyed := true
      log := c.log ++ c.closing } := by
  obtain ⟨sockfd, hSockfd, hEq⟩ := closeSockfd_eq { c with timeoutId := none, channel := none }
  refine ⟨sockfd, hSockfd, ?_⟩
  have hClosing : closing { c with timeoutId := none, channel := none } = c.closing := rfl
  simp only [destroy, cancelTimeout, removeChannel, hEq, hClosing]

theorem destroy_books (h : Books c) : Books c.destroy := by
  obtain ⟨sockfd, hSockfd, hEq⟩ := destroy_eq c
  have hNone : ∀ a, c.closing.countP (ConnectorEvent.outcomeOf a) = 0 := fun a =>
    List.countP_eq_zero.mpr fun e he => by simp [(closing_plain c).1 a e he]
  rw [hEq]
  refine
    { fds := fun fd hfd => ?_
      outcomes := fun a => ?_
      stopped := fun a ha => ?_
      quiet := ?_ }
  · have hOld := h.fds fd hfd
    have hNew := (ending_closing c).disposes fd hfd
    have hFree : ¬ sockfd = fd := fun hEq => absurd hfd (by omega)
    rw [List.countP_append, List.countP_append, List.countP_append, (ending_closing c).obtains,
      if_neg hFree]
    omega
  · rw [List.countP_append, hNone, Nat.add_zero]
    exact h.outcomes a
  · exact h.stopped a ((List.mem_append.mp ha).resolve_right ((closing_plain c).2 a))
  · refine List.pairwise_append.mpr ⟨h.quiet, (ending_closing c).quiet, ?_⟩
    exact fun e _ e' he' a _ => (closing_plain c).1 a e' he'

/-- What holds between two steps of a connector: the fields are in order as long as it is in
use, and nothing is held once it is destroyed. -/
structure Accounted (c : Connector) : Prop where
  books : Books c
  tidy : c.destroyed = false → Tidy c
  released : c.destroyed = true → c.sockfd < 0 ∧ c.channel = none ∧ c.timeoutId = none

theorem Accounted.of_tidy (h : Books c ∧ Tidy c) (hAlive : c.destroyed = false) : Accounted c :=
  ⟨h.1, fun _ => h.2, fun hDead => by simp [hAlive] at hDead⟩

theorem Accounted.same (h : Accounted c) (hState : c'.state = c.state)
    (hAttempt : c'.attempt = c.attempt) (hSockfd : c'.sockfd = c.sockfd)
    (hChannel : c'.channel = c.channel) (hTimeout : c'.timeoutId = c.timeoutId)
    (hDestroyed : c'.destroyed = c.destroyed) (hLog : c'.log = c.log) : Accounted c' where
  books := h.books.same hState hAttempt hSockfd hLog
  tidy hAlive := (h.tidy (hDestroyed ▸ hAlive)).same hState hSockfd hChannel hTimeout
  released := by rw [hDestroyed, hSockfd, hChannel, hTimeout]; exact h.released

/-- The end of an attempt and its beginning leave the connector alive. -/
theorem Decides.destroyed {a : Nat} (hDecides : Decides c a c') : c'.destroyed = c.destroyed := by
  cases hDecides with
  | nothing | dangling => rfl
  | failed errno cause =>
    obtain ⟨sockfd, -, hEq⟩ := fail_eq c errno cause
    rw [hEq]
  | finished =>
    unfold finishConnect
    simp only
    split_ifs <;> rfl

theorem Begins.destroyed (hBegins : Begins c c') : c'.destroyed = c.destroyed := by
  cases hBegins with
  | busy | going => rfl
  | noSocket errno =>
    obtain ⟨sockfd, -, hEq⟩ := fail_eq { c with state := .kConnecting, attempt := c.attempt + 1 }
      errno (.syscall (c.attempt + 1))
    rw [hEq]
  | refused fd errno =>
    obtain ⟨sockfd, -, hEq⟩ := fail_eq (c.opened fd) errno (.syscall (c.attempt + 1))
    rw [hEq]
    rfl

/-- A callback of a channel or a deadline keeps the books, dead or alive. -/
theorem Decides.kept {a : Nat} (hDecides : Decides c a c') (h : Accounted c) : Accounted c' := by
  have hSame := hDecides.destroyed
  cases hDecides with
  | nothing => exact h
  | failed errno cause hAlive hGoing =>
    exact .of_tidy (fail_ended h.books hGoing errno cause) (hSame.trans hAlive)
  | finished hAlive hGoing =>
    have hHeld := (h.tidy hAlive).sockfd.mpr hGoing
    exact .of_tidy (finishConnect_ended h.books hGoing hHeld _) (hSame.trans hAlive)
  | dangling =>
    exact ⟨h.books.dangling a, fun hAlive => (h.tidy hAlive).same rfl rfl rfl rfl, h.released⟩

/-- **The step lemma.** A step obtains a socket and holds it, or closes or hands over the one held,
or moves none. -/
theorem accounted_step {a : Action} (hStep : c.step a = some c') (h : Accounted c) :
    Accounted c' := by
  cases step_outcome hStep with
  | started socket savedErrno hAlive =>
    have hBegins := begins_startInLoop c socket savedErrno
    exact .of_tidy (hBegins.kept h.books (h.tidy hAlive)) (hBegins.destroyed.trans hAlive)
  | stopped hAlive =>
    have hKept := stopInLoop_kept h.books (h.tidy hAlive)
    obtain ⟨sockfd, -, state, -, hEq⟩ := stopInLoop_eq (h.tidy hAlive)
    exact .of_tidy hKept (by rw [hEq]; exact hAlive)
  | destroyed =>
    have hBooks := destroy_books h.books
    obtain ⟨sockfd, hSockfd, hEq⟩ := destroy_eq c
    rw [hEq] at hBooks ⊢
    exact ⟨hBooks, fun hAlive => by simp at hAlive, fun _ => ⟨hSockfd, rfl, rfl⟩⟩
  | dispatched a revents soError =>
    -- consuming the event moves no resource; the branch then decides
    have hNext : Accounted { c with
        ready := none
        control := .writeBranch a revents (c.calledBack revents) } :=
      h.same rfl rfl rfl rfl rfl rfl rfl
    split_ifs
    · exact (decides_handleError _ a soError).kept hNext
    · exact hNext
  | wrote a revents inCallback soError selfConnect =>
    have hNext : Accounted { c with control := .loop } := h.same rfl rfl rfl rfl rfl rfl rfl
    split_ifs
    · exact (decides_handleWrite _ a soError selfConnect).kept hNext
    · exact hNext
  | timedOut a =>
    exact (decides_handleTimeout _ a).kept (h.same rfl rfl rfl rfl rfl rfl rfl)
  | configured | polled | expired => exact h.same rfl rfl rfl rfl rfl rfl rfl

theorem accounted_new : Accounted {} := by
  refine .of_tidy ⟨⟨fun fd hfd => ?_, fun a => Nat.zero_le _, fun a ha => ?_, List.Pairwise.nil⟩,
    tidy_of_not_connecting (by simp) (by norm_num) rfl rfl⟩ rfl
  · have hne : ¬ (-1 : Int) = fd := by omega
    simp [hne]
  · simp at ha

theorem accounted_of_reaches (h : Reaches Connector.step {} c) : Accounted c :=
  h.invariant accounted_new fun _ _ _ => accounted_step

/-! ## After the destructor -/

/-- What happens to a dead object: calls of callbacks that were left over when it died. -/
structure Haunted (c c' : Connector) : Prop where
  dead : c'.destroyed = true
  calls : ∃ es, c'.log = c.log ++ es ∧ (∀ e ∈ es, ∃ a, e = .dangling a) ∧
    (c.leftover = false → es = [])
  leftover : c.leftover = false → c'.leftover = false

theorem Haunted.trans {d : Connector} (h : Haunted c c') (h' : Haunted c' d) : Haunted c d := by
  obtain ⟨es, hLog, hEs, hNil⟩ := h.calls
  obtain ⟨es', hLog', hEs', hNil'⟩ := h'.calls
  refine ⟨h'.dead, ⟨es ++ es', ?_, fun e he => ?_, fun hNone => ?_⟩, fun hNone => ?_⟩
  · rw [hLog', hLog, List.append_assoc]
  · exact (List.mem_append.mp he).elim (hEs e) (hEs' e)
  · rw [hNil hNone, hNil' (h.leftover hNone), List.append_nil]
  · exact h'.leftover (h.leftover hNone)

/-- A callback is called, which was left over. -/
theorem haunted_invoke (hDead : c'.destroyed = true) (hLog : c'.log = c.log)
    (hLeft : c.leftover = true) (a : Nat) (callback : Connector → Connector) :
    Haunted c (c'.invoke a callback) := by
  have hEq : c'.invoke a callback = c'.record (.dangling a) := if_pos hDead
  rw [hEq]
  refine ⟨hDead, ⟨[.dangling a], ?_, ?_, ?_⟩, ?_⟩
  · rw [record, hLog]
  · simp
  · simp [hLeft]
  · simp [hLeft]

theorem haunted_quiet (hDead : c'.destroyed = true) (hLog : c'.log = c.log)
    (hLeft : c.leftover = false → c'.leftover = false) : Haunted c c' :=
  ⟨hDead, ⟨[], by simpa using hLog, by simp, fun _ => rfl⟩, hLeft⟩

/-- **A step after the destructor.** Only what the loop is committed to is left to do. -/
theorem dead_step {a : Action} (hStep : c.step a = some c') (h : Accounted c)
    (hDead : c.destroyed = true) : Haunted c c' := by
  obtain ⟨-, hChannel, hTimeout⟩ := h.released hDead
  cases step_outcome hStep with
  | configured _ _ _ hAlive => simp [hAlive] at hDead
  | started _ _ hAlive => simp [hAlive] at hDead
  | stopped hAlive => simp [hAlive] at hDead
  | destroyed hAlive => simp [hAlive] at hDead
  | polled a revents hSome => simp [hChannel] at hSome
  | expired a hSome => simp [hTimeout] at hSome
  | dispatched a revents soError hReady hDue hControl =>
    -- an error event calls into the dead object, any other is dropped
    split_ifs with hErr
    · refine haunted_invoke ?_ ?_ ?_ a _
      · exact hDead
      · rfl
      · simp [leftover, hReady, hErr]
    · refine haunted_quiet hDead rfl fun hNone => ?_
      simpa [leftover, hReady, hDue, hControl, hErr] using hNone
  | wrote a revents inCallback soError selfConnect hControl =>
    split_ifs with hOut
    · refine haunted_invoke ?_ ?_ ?_ a _
      · exact hDead
      · rfl
      · simp [leftover, hControl, hOut]
    · refine haunted_quiet hDead rfl fun hNone => ?_
      simpa [leftover, hControl, hOut] using hNone
  | timedOut a hDue =>
    refine haunted_invoke ?_ ?_ ?_ a _
    · exact hDead
    · rfl
    · simp [leftover, hDue]

theorem dead_run (h : Reaches Connector.step c c') (hKept : Accounted c)
    (hDead : c.destroyed = true) : Haunted c c' := by
  have hAll := h.invariant (P := fun d => Accounted d ∧ Haunted c d)
    ⟨hKept, haunted_quiet hDead rfl id⟩
    (fun _ _ _ hStep hd =>
      ⟨accounted_step hStep hd.1, hd.2.trans (dead_step hStep hd.1 hd.2.dead)⟩)
  exact hAll.2

/-- **The descriptors of a connector.** In every state of every run:

* every descriptor that `socket` returned is held in `sockfd_`, was closed or was handed to
  the callback, each exactly once for each time it was obtained;
* as long as the connector is not destroyed, it holds a descriptor if and only if it is
  connecting, and has a channel if and only if it is, and an armed deadline means that it
  is;
* once it is destroyed it holds no descriptor, no channel and no deadline, and whatever still
  happens is the call of a callback on the dead object; there is none if nothing was left over
  when the destructor ran;
* every attempt has at most one outcome callback, and none after a stop of it. -/
theorem connector_accounting (h : Reaches Connector.step {} c) :
    (∀ fd, 0 ≤ fd → c.log.countP (ConnectorEvent.obtains fd) =
      c.log.countP (ConnectorEvent.closes fd) + c.log.countP (ConnectorEvent.hands fd) +
        if c.sockfd = fd then 1 else 0) ∧
    (c.destroyed = false →
      (0 ≤ c.sockfd ↔ c.state = .kConnecting) ∧
      (c.channel.isSome = true ↔ c.state = .kConnecting) ∧
      (c.timeoutId.isSome = true → c.state = .kConnecting)) ∧
    (c.destroyed = true →
      (c.sockfd < 0 ∧ c.channel = none ∧ c.timeoutId = none) ∧
      ∀ c', Reaches Connector.step c c' →
        ∃ es, c'.log = c.log ++ es ∧ (∀ e ∈ es, ∃ a, e = .dangling a) ∧
          (c.leftover = false → es = [])) ∧
    (∀ a, c.log.countP (ConnectorEvent.outcomeOf a) ≤ 1) ∧
    (∀ a before after, c.log = before ++ .stopped a :: after →
      ∀ e ∈ after, e.outcomeOf a = false) := by
  have hKept := accounted_of_reaches h
  have hBooks := hKept.books
  refine ⟨hBooks.fds, fun hAlive => ?_, fun hDead => ⟨hKept.released hDead, fun c' hReach => ?_⟩,
    fun a => ?_, fun a before after hLog e he => ?_⟩
  · have hTidy := hKept.tidy hAlive
    exact ⟨hTidy.sockfd, hTidy.channel, hTidy.timeoutId⟩
  · exact (dead_run hReach hKept hDead).calls
  · exact (hBooks.outcomes a).trans (by split <;> omega)
  · have hQuiet := hBooks.quiet
    rw [hLog, List.pairwise_append, List.pairwise_cons] at hQuiet
    exact hQuiet.2.1.1 e he a rfl

/-- The first attempt is refused and started again from the error callback; the second one
succeeds. -/
theorem connector_accounting_retry :
    ∃ c, runAll Connector.step {}
        [.start (.ok 5) ECONNREFUSED, .start (.ok 5) EINPROGRESS, .poll { epollout := true },
          .handleEvent 0, .writeBranch 0 false] = some c ∧
      c.log = [.socket 5 1, .close 5, .connectError ECONNREFUSED 1 (.syscall 1), .socket 5 2,
        .newConnection 5 2 (.writable 2 0)] ∧
      c.log.countP (ConnectorEvent.outcomeOf 2) ≤ 1 := by
  have hRun : (runAll Connector.step {}
      [.start (.ok 5) ECONNREFUSED, .start (.ok 5) EINPROGRESS, .poll { epollout := true },
        .handleEvent 0, .writeBranch 0 false]).map (fun c => c.log) =
      some [.socket 5 1, .close 5, .connectError ECONNREFUSED 1 (.syscall 1), .socket 5 2,
        .newConnection 5 2 (.writable 2 0)] := by decide
  obtain ⟨c, hc, hLog⟩ := Option.map_eq_some_iff.mp hRun
  obtain ⟨-, -, -, hOutcomes, -⟩ := connector_accounting (reaches_of_runAll hc)
  exact ⟨c, hc, hLog, hOutcomes 2⟩

/-- A deadline of the running batch, and a connector that is destroyed before its turn comes. -/
example : (runAll Connector.step {}
    [.start (.ok 5) EINPROGRESS, .expire, .destroy, .timeout]).map (fun c => c.log) =
    some [.socket 5 1, .close 5, .dangling 1] := by decide

end Connector

end ReactorNet
