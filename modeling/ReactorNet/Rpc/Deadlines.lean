import ReactorNet.Rpc.ClientTables

/-!
# ReactorNet — the deadlines of a client's calls

A call with a deadline has a timer of the loop, whose callback knows the client and the id of the
call, and nothing else. So a timer that outlived its call would meet a later call with the same id,
or a client that is gone. `Deadlines` says that the timers are those of the calls in the tables,
one for one: what is armed or in the batch that is running, is what the entries name.

No bound on the number of calls is needed, although ids are used again when the counter has wrapped
around.

Main result: `deadlines_exact`.
-/

namespace ReactorNet.Rpc

open Lib

namespace Client

/-- The timer that an entry of the table names. -/
def timerOf (e : UInt32 × PendingCall) : Option Timer :=
  e.2.timer.map fun n => ⟨n, e.1, e.2.complete⟩

/-- The timers that a table names. -/
def timersOf (m : List (UInt32 × PendingCall)) : List Timer := m.filterMap timerOf

/-- The entries of a table that was moved out. -/
def held (c : Client) : List (UInt32 × PendingCall) :=
  match c.control with
  | .failing rest _ => rest
  | _ => []

/-- The timers that are due, and whose callbacks have not run yet. -/
def due (c : Client) : List Timer :=
  match c.control with
  | .expiring rest => rest
  | _ => []

/-- The loop hands out a timer that is due once. -/
def Action.firesOnce : Action → Bool
  | .expire due => decide due.Nodup
  | _ => true

/-! ## Timers and entries -/

theorem timersOf_perm {m m' : List (UInt32 × PendingCall)} (h : m.Perm m') :
    (timersOf m).Perm (timersOf m') := h.filterMap _

theorem timersOf_cons (e : UInt32 × PendingCall) (m : List (UInt32 × PendingCall)) :
    timersOf (e :: m) = (timerOf e).toList ++ timersOf m := by
  rw [timersOf, List.filterMap_cons]
  cases timerOf e <;> rfl

theorem perm_erase {m : List (UInt32 × PendingCall)} {id : UInt32} {p : PendingCall}
    (h : Pendings.find m id = some p) : m.Perm ((id, p) :: Pendings.erase m id) := by
  induction m with
  | nil => cases h
  | cons e m ih =>
    obtain ⟨id', p'⟩ := e
    by_cases he : id' = id
    · subst he
      obtain rfl : p' = p := by simpa [Pendings.find] using h
      simp [Pendings.erase]
    · have hp : Pendings.find m id = some p := by
        simpa [Pendings.find, List.lookup_cons, beq_eq_false_iff_ne.mpr (Ne.symm he)] using h
      have hErase : Pendings.erase ((id', p') :: m) id = (id', p') :: Pendings.erase m id := by
        simp [Pendings.erase, beq_eq_false_iff_ne.mpr he]
      rw [hErase]
      exact ((ih hp).cons _).trans (List.Perm.swap ..)

/-- Cancelling the timer of an entry leaves those of the others. -/
theorem cancel_perm {timers others : List Timer} {e : UInt32 × PendingCall}
    (hPerm : timers.Perm ((timerOf e).toList ++ others))
    (hNodup : (timers.map Timer.id).Nodup) :
    (timers.filter fun t => some t.id != e.2.timer).Perm others := by
  have hIds := (hPerm.map Timer.id).nodup_iff.mp hNodup
  refine (hPerm.filter _).trans ?_
  cases hTimer : e.2.timer with
  | none =>
    have hKeep : others.filter (fun t => some t.id != none) = others :=
      List.filter_eq_self.mpr fun _ _ => rfl
    simp [timerOf, hTimer, hKeep]
  | some n =>
    -- no other timer has this id
    have hOthers : ∀ t ∈ others, t.id ≠ n := by
      intro t ht hId
      simp only [timerOf, hTimer, Option.map_some, Option.toList_some, List.singleton_append,
        List.map_cons, List.nodup_cons] at hIds
      exact hIds.1 (List.mem_map.mpr ⟨t, ht, hId⟩)
    have hKeep : others.filter (fun t => some t.id != some n) = others :=
      List.filter_eq_self.mpr fun t ht => by simpa using hOthers t ht
    simp [timerOf, hTimer, hKeep]

/-- Timers that are due leave the queue, and nothing else does. -/
theorem expire_perm {timers batch : List Timer} (hDue : ∀ t ∈ batch, t ∈ timers)
    (hBatch : batch.Nodup) (hTimers : timers.Nodup) :
    ((timers.filter fun t => !batch.contains t) ++ batch).Perm timers := by
  have hNodup : ((timers.filter fun t => !batch.contains t) ++ batch).Nodup := by
    refine (hTimers.filter _).append hBatch fun t ht hIn => ?_
    simp [hIn] at ht
  refine (List.perm_ext_iff_of_nodup hNodup hTimers).mpr fun t => ?_
  by_cases hIn : t ∈ batch
  · simp [hIn, hDue t hIn]
  · simp [hIn]

/-! ## The invariant -/

/-- The timers are those of the calls in the tables. -/
structure Deadlines (c : Client) : Prop where
  exact : (c.timers ++ c.due).Perm (timersOf (c.pendings ++ c.held))
  distinct : ((c.timers ++ c.due).map Timer.id).Nodup
  fresh : ∀ t ∈ c.timers ++ c.due, t.id < c.nextTimer
  /-- A call has a timer exactly if it has a deadline. -/
  asked : ∀ e ∈ c.pendings ++ c.held, ∃ spec, c.calls[e.2.complete]? = some spec ∧
    (e.2.timer.isSome ↔ 0 < spec.timeoutSeconds)

namespace Deadlines

variable {c c' : Client}

theorem new (serializerId : UInt8) (frameReader : FrameReader) :
    Deadlines (Client.new serializerId frameReader) where
  exact := .refl _
  distinct := List.nodup_nil
  fresh := fun _ ht => absurd ht List.not_mem_nil
  asked := fun _ he => absurd he List.not_mem_nil

/-- A step that moves nothing between the tables and the timers. -/
theorem same (h : Deadlines c) (hTimers : c'.timers ++ c'.due = c.timers ++ c.due)
    (hTables : (c'.pendings ++ c'.held) = c.pendings ++ c.held)
    (hNext : c'.nextTimer = c.nextTimer) (hCalls : c.calls <+: c'.calls) : Deadlines c' where
  exact := by rw [hTimers, hTables]; exact h.exact
  distinct := by rw [hTimers]; exact h.distinct
  fresh := by rw [hTimers, hNext]; exact h.fresh
  asked := by
    rw [hTables]
    intro e he
    obtain ⟨spec, hSpec, hTimer⟩ := h.asked e he
    exact ⟨spec, getElem?_mono hCalls hSpec, hTimer⟩

/-- A step that takes an entry out of the tables, and its timer with it. -/
theorem remove (h : Deadlines c) {e : UInt32 × PendingCall}
    (hTables : (c.pendings ++ c.held).Perm (e :: (c'.pendings ++ c'.held)))
    (hTimers : (c'.timers ++ c'.due).Perm (timersOf (c'.pendings ++ c'.held)))
    (hNext : c'.nextTimer = c.nextTimer) (hCalls : c'.calls = c.calls) : Deadlines c' := by
  have hAll : (c.timers ++ c.due).Perm ((timerOf e).toList ++ (c'.timers ++ c'.due)) := by
    have hOld := h.exact.trans (timersOf_perm hTables)
    rw [timersOf_cons] at hOld
    exact hOld.trans (hTimers.symm.append_left _)
  have hIn : ∀ t ∈ c'.timers ++ c'.due, t ∈ c.timers ++ c.due := fun t ht =>
    hAll.mem_iff.mpr (List.mem_append_right _ ht)
  have hDistinct := (hAll.map Timer.id).nodup_iff.mp h.distinct
  rw [List.map_append] at hDistinct
  refine ⟨hTimers, hDistinct.of_append_right, fun t ht => hNext ▸ h.fresh t (hIn t ht),
    fun e' he' => ?_⟩
  rw [hCalls]
  exact h.asked e' (hTables.mem_iff.mpr (List.mem_cons_of_mem _ he'))

/-- A new call, with its timer if it has a deadline. -/
theorem start (h : Deadlines c) (spec : CallSpec) (body : Bytes) (requestId next : UInt32) :
    Deadlines (c.started spec body requestId next) := by
  have hDue : (c.started spec body requestId next).due = c.due := rfl
  have hHeld : (c.started spec body requestId next).held = c.held := rfl
  -- the new entry, and what it names
  obtain ⟨e, he⟩ : ∃ e, e = (requestId, c.entryFor requestId spec) := ⟨_, rfl⟩
  have hPendings : (c.started spec body requestId next).pendings = c.pendings ++ [e] := by
    rw [he]
    rfl
  have hTimers : (c.started spec body requestId next).timers = c.timers ++ (timerOf e).toList := by
    by_cases hPos : 0 < spec.timeoutSeconds
    · simp [started, he, timerOf, entryFor, hPos]
    · simp [started, he, timerOf, entryFor, hPos]
  have hNew : ∀ t ∈ (timerOf e).toList, t.id = c.nextTimer ∧
      c.nextTimer < (c.started spec body requestId next).nextTimer := by
    intro t ht
    by_cases hPos : 0 < spec.timeoutSeconds
    · simp only [he, timerOf, entryFor, hPos, if_true, Option.map_some, Option.toList_some,
        List.mem_singleton] at ht
      rw [ht]
      simp [started, hPos]
    · simp [he, timerOf, entryFor, hPos] at ht
  have hNext : c.nextTimer ≤ (c.started spec body requestId next).nextTimer := by
    simp only [started]
    split_ifs
    · exact Nat.le_succ _
    · exact Nat.le_refl _
  have hMove : (c.timers ++ (timerOf e).toList ++ c.due).Perm
      ((timerOf e).toList ++ (c.timers ++ c.due)) := by
    rw [← List.append_assoc]
    exact List.perm_append_comm.append_right _
  refine ⟨?_, ?_, ?_, ?_⟩
  · rw [hTimers, hDue, hPendings, hHeld]
    refine hMove.trans ((h.exact.append_left _).trans ?_)
    rw [← timersOf_cons]
    refine timersOf_perm ?_
    rw [List.append_assoc]
    exact List.perm_middle.symm
  · rw [hTimers, hDue]
    refine (hMove.map _).nodup_iff.mpr ?_
    rw [List.map_append]
    refine List.Nodup.append ?_ h.distinct fun n hn hOld => ?_
    · cases timerOf e <;> simp
    · obtain ⟨t, ht, rfl⟩ := List.mem_map.mp hn
      obtain ⟨t', ht', hId⟩ := List.mem_map.mp hOld
      have hOld := h.fresh t' ht'
      rw [hId, (hNew t ht).1] at hOld
      exact Nat.lt_irrefl _ hOld
  · intro t ht
    rw [hTimers, hDue] at ht
    rcases List.mem_append.mp (hMove.mem_iff.mp ht) with ht | ht
    · rw [(hNew t ht).1]
      exact (hNew t ht).2
    · exact (h.fresh t ht).trans_le hNext
  · intro e' he'
    rw [hPendings, hHeld, List.append_assoc] at he'
    have hCalls : (c.started spec body requestId next).calls = c.calls ++ [spec] := rfl
    rw [hCalls]
    rcases List.mem_cons.mp (List.perm_middle.mem_iff.mp he') with rfl | hOld
    · refine ⟨spec, by simp [he, entryFor], ?_⟩
      by_cases hPos : 0 < spec.timeoutSeconds <;> simp [he, entryFor, hPos]
    · obtain ⟨spec', hSpec, hTimer⟩ := h.asked e' hOld
      exact ⟨spec', getElem?_mono (List.prefix_append ..) hSpec, hTimer⟩

/-- A timer that is due belongs to a call that is pending. -/
theorem find_due (h : Deadlines c) (hTables : Tables c) {t : Timer} {rest : List Timer}
    (hControl : c.control = .expiring (t :: rest)) :
    Pendings.find c.pendings t.requestId = some ⟨t.requestId, t.call, some t.id⟩ := by
  have hIn : t ∈ timersOf (c.pendings ++ c.held) :=
    h.exact.mem_iff.mp (List.mem_append_right _ (by simp [due, hControl]))
  rw [show c.held = [] by simp [held, hControl], List.append_nil] at hIn
  obtain ⟨⟨id, p⟩, he, hTimer⟩ := List.mem_filterMap.mp hIn
  obtain ⟨n, hn, rfl⟩ := Option.map_eq_some_iff.mp hTimer
  -- the table has one entry for an id, and it is stored under its own
  have hFind : Pendings.find c.pendings id = some p := by
    obtain ⟨l₁, l₂, hSplit⟩ := List.append_of_mem he
    have hNodup := hTables.pending_nodup
    rw [hSplit, List.map_append, List.map_cons, List.nodup_append'] at hNodup
    refine List.lookup_eq_some_iff.mpr ⟨l₁, l₂, hSplit, fun e he₁ => ?_⟩
    have hNe : id ≠ e.1 := by
      intro hEq
      exact hNodup.2.2 (List.mem_map_of_mem he₁) (hEq ▸ List.mem_cons_self ..)
    simpa using hNe
  have hOwn : p.id = id := hTables.own _ he
  rw [hFind]
  obtain ⟨id', call, timer⟩ := p
  cases hOwn
  cases hn
  rfl

/-- **Every step keeps the timers with the calls.** -/
theorem step {a : Action} (h : Deadlines c) (hTables : Tables c) (hOnce : a.firesOnce = true)
    (hOut : c.Outcome a c') : Deadlines c' := by
  cases hOut with
  | unconnected | unencodable => exact h.same rfl rfl rfl (List.prefix_append ..)
  | started spec body requestId next => exact h.start spec body requestId next
  | disconnected | returned | late | up => exact h.same rfl rfl rfl List.prefix_rfl
  | waiting _ _ hControl | expiredAll _ _ hControl | closed _ _ hControl | gone _ _ _ hControl
  | received _ _ hControl =>
    -- neither the table nor the timers change
    exact h.same (by simp [due, hControl]) (by simp [held, hControl]) rfl List.prefix_rfl
  | broken _ _ hControl | alien _ _ _ _ hControl | down _ hControl =>
    -- the table is moved out with what its entries name
    exact h.same (by simp [due, hControl, failConnection, failAllPending, onConnectionDown])
      (by simp [held, hControl, failConnection, failAllPending, onConnectionDown]) rfl
      List.prefix_rfl
  | answered entry f n pending hRunning hControl hCut hAlien hFind =>
    have hHeld : c.held = [] := by simp [held, hControl]
    have hDue : c.due = [] := by simp [due, hControl]
    have hErase := perm_erase hFind
    have hExact := h.exact.trans (timersOf_perm (hErase.append_right c.held))
    rw [hDue, hHeld, List.append_nil, List.append_nil, timersOf_cons] at hExact
    have hDistinct := h.distinct
    rw [hDue, List.append_nil] at hDistinct
    refine h.remove (e := (f.1.requestId, pending)) ?_ ?_ rfl rfl
    · simpa [hHeld, answered, complete, cancelTimer, held, hControl] using hErase
    · have hCancel := cancel_perm hExact hDistinct
      simpa [answered, complete, cancelTimer, held, due, hControl] using hCancel
  | failed entry rest after e hRunning hControl hEntry =>
    have hHeld : c.held = rest := by simp [held, hControl]
    have hDue : c.due = [] := by simp [due, hControl]
    obtain ⟨hLt, rfl⟩ := List.getElem?_eq_some_iff.mp hEntry
    have hErase : (c.pendings ++ rest).Perm (rest[entry] :: (c.pendings ++ rest.eraseIdx entry)) :=
      ((List.getElem_cons_eraseIdx_perm hLt).symm.append_left _).trans List.perm_middle
    have hExact := h.exact
    rw [hDue, hHeld, List.append_nil] at hExact
    have hExact := hExact.trans (timersOf_perm hErase)
    rw [timersOf_cons] at hExact
    have hDistinct := h.distinct
    rw [hDue, List.append_nil] at hDistinct
    refine h.remove (e := rest[entry]) ?_ ?_ rfl rfl
    · rw [hHeld]
      simpa [complete, cancelTimer, held] using hErase
    · have hCancel := cancel_perm hExact hDistinct
      simpa [complete, cancelTimer, held, due] using hCancel
  | stale _ t rest _ hControl hFind =>
    -- there is no such timer
    rw [h.find_due hTables hControl] at hFind
    cases hFind
  | timedOut _ t rest pending hRunning hControl hFind =>
    obtain rfl := Option.some.inj ((h.find_due hTables hControl).symm.trans hFind)
    have hHeld : c.held = [] := by simp [held, hControl]
    have hDue : c.due = t :: rest := by simp [due, hControl]
    have hErase := perm_erase hFind
    refine h.remove (e := (t.requestId, ⟨t.requestId, t.call, some t.id⟩)) ?_ ?_ rfl rfl
    · rw [hHeld, List.append_nil]
      simpa [complete, rememberTimedOut, held] using hErase
    · -- the timer that fires is the one that the entry names
      have hExact := h.exact.trans (timersOf_perm (hErase.append_right c.held))
      rw [hDue, hHeld, List.append_nil, timersOf_cons] at hExact
      have hTimer : timerOf (t.requestId, ⟨t.requestId, t.call, some t.id⟩) = some t := rfl
      rw [hTimer, Option.toList_some, List.singleton_append] at hExact
      have hRest := (List.perm_middle.symm.trans hExact).cons_inv
      simpa [complete, rememberTimedOut, held, due] using hRest
  | expired batch hRunning hControl hIn =>
    have hHeld : c.held = [] := by simp [held, hControl]
    have hDue : c.due = [] := by simp [due, hControl]
    have hDistinct := h.distinct
    rw [hDue, List.append_nil] at hDistinct
    have hPerm := expire_perm hIn (by simpa [Action.firesOnce] using hOnce) hDistinct.of_map
    have hExact := h.exact
    rw [hDue, hHeld, List.append_nil, List.append_nil] at hExact
    refine ⟨?_, (hPerm.map _).nodup_iff.mpr hDistinct, fun t ht => ?_, fun e he => ?_⟩
    · simpa [held, due] using hPerm.trans hExact
    · exact h.fresh t (List.mem_append_left _ (hPerm.mem_iff.mp ht))
    · refine h.asked e (List.mem_append_left _ ?_)
      simpa [held] using he

/-- The invariant, together with the one about the tables. -/
theorem of_reaches {serializerId : UInt8} {frameReader : FrameReader}
    (hReach : ReachesBy Client.step (fun _ a => a.firesOnce = true)
      (Client.new serializerId frameReader) c) : Deadlines c ∧ Tables c := by
  refine hReach.invariant (P := fun c => Deadlines c ∧ Tables c)
    ⟨.new serializerId frameReader, Tables.new serializerId frameReader⟩ ?_
  intro c c' a hStep hOnce ⟨hDeadlines, hTables⟩
  have hOut := step_outcome hStep
  exact ⟨hDeadlines.step hTables hOnce hOut, hTables.step hOut⟩

end Deadlines

theorem heldCalls_eq (c : Client) : c.heldCalls = callsIn c.held := by
  unfold heldCalls held
  cases c.control <;> rfl

/-- A call in one of the tables has not completed. -/
theorem Accounted.not_completed {c : Client} (h : Accounted c) {e : UInt32 × PendingCall}
    (he : e ∈ c.pendings ++ c.held) : c.completedCalls.count e.2.complete = 0 := by
  have hOnce := h e.2.complete
  rw [heldCalls_eq, pendingCalls, ← List.count_append] at hOnce
  have hPos : 0 < (callsIn c.pendings ++ callsIn c.held).count e.2.complete := by
    rw [List.count_pos_iff, callsIn, callsIn, ← List.map_append]
    exact List.mem_map.mpr ⟨e, he, rfl⟩
  split_ifs at hOnce <;> omega

theorem accounted_of_reachesBy {ok : Client → Action → Prop} {serializerId : UInt8}
    {frameReader : FrameReader} {c : Client}
    (hReach : ReachesBy Client.step ok (Client.new serializerId frameReader) c) : Accounted c :=
  hReach.invariant (fun k => by simp [new, pendingCalls, heldCalls, completedCalls, callsIn])
    fun _ _ _ hStep _ => accounted_step hStep

/-- **Deadlines are exact.** However often the ids have wrapped around: a pending call with a
deadline has one timer, armed or due, and a call without has none; every timer belongs to a call
that has not completed; and a timer whose callback runs finds the call that it was armed for. So
when nothing is pending, the client has no timer. -/
theorem deadlines_exact (serializerId : UInt8) (frameReader : FrameReader) (c : Client)
    (hReach : ReachesBy Client.step (fun _ a => a.firesOnce = true)
      (Client.new serializerId frameReader) c) :
    (∀ e ∈ c.pendings, ∃ spec, c.calls[e.2.complete]? = some spec ∧
      (0 < spec.timeoutSeconds →
        ∃ n, e.2.timer = some n ∧ (c.timers ++ c.due).count ⟨n, e.1, e.2.complete⟩ = 1) ∧
      (¬ 0 < spec.timeoutSeconds → ∀ t ∈ c.timers ++ c.due, t.call ≠ e.2.complete)) ∧
    (∀ t ∈ c.timers ++ c.due, c.completedCalls.count t.call = 0) ∧
    (∀ t rest, c.control = .expiring (t :: rest) →
      Pendings.find c.pendings t.requestId = some ⟨t.requestId, t.call, some t.id⟩) ∧
    (c.control = .idle → c.pendings = [] → c.timers = []) := by
  obtain ⟨hDeadlines, hTables⟩ := Deadlines.of_reaches hReach
  have hAccounted := accounted_of_reachesBy hReach
  -- a timer is named by an entry of a table
  have hOwner : ∀ t ∈ c.timers ++ c.due, ∃ e ∈ c.pendings ++ c.held,
      e.2.complete = t.call ∧ e.2.timer.isSome := by
    intro t ht
    obtain ⟨e, he, hTimer⟩ := List.mem_filterMap.mp (hDeadlines.exact.mem_iff.mp ht)
    obtain ⟨n, hn, rfl⟩ := Option.map_eq_some_iff.mp hTimer
    exact ⟨e, he, rfl, by simp [hn]⟩
  refine ⟨fun e he => ?_, fun t ht => ?_, fun t rest hControl => ?_, fun hControl hNone => ?_⟩
  · have hIn := List.mem_append_left c.held he
    obtain ⟨spec, hSpec, hAsked⟩ := hDeadlines.asked e hIn
    refine ⟨spec, hSpec, fun hPos => ?_, fun hNot t ht hCall => ?_⟩
    · obtain ⟨n, hn⟩ := Option.isSome_iff_exists.mp (hAsked.mpr hPos)
      have hMem : ⟨n, e.1, e.2.complete⟩ ∈ c.timers ++ c.due :=
        hDeadlines.exact.mem_iff.mpr (List.mem_filterMap.mpr ⟨e, hIn, by simp [timerOf, hn]⟩)
      exact ⟨n, hn, List.count_eq_one_of_mem hDeadlines.distinct.of_map hMem⟩
    · obtain ⟨e', he', hSame, hSome⟩ := hOwner t ht
      obtain ⟨spec', hSpec', hAsked'⟩ := hDeadlines.asked e' he'
      rw [hSame, hCall, hSpec] at hSpec'
      cases hSpec'
      exact hNot (hAsked'.mp hSome)
  · obtain ⟨e, he, hCall, -⟩ := hOwner t ht
    rw [← hCall]
    exact hAccounted.not_completed he
  · exact hDeadlines.find_due hTables hControl
  · have hExact := hDeadlines.exact
    rw [show c.held = [] by simp [held, hControl], hNone, List.append_nil] at hExact
    exact (List.append_eq_nil_iff.mp hExact.eq_nil).1

/-- Two calls with deadlines and one without; both deadlines are met in one batch, and the
completion of the first one calls again. -/
def twoDeadlines : List Action :=
  [.up, .call sampleCalls.2, .call sampleCalls.1, .call sampleCalls.2,
    .expire [⟨0, 1, 0⟩, ⟨1, 3, 2⟩], .resume 0, .call sampleCalls.2, .ret]

theorem deadlines_exact_twoDeadlines :
    ∃ c, runAllBy Client.step (fun _ a => a.firesOnce = true)
        (Client.new kSerializerRaw FrameReader.default) twoDeadlines = some c ∧
      c.control = .expiring [⟨1, 3, 2⟩] ∧
      Pendings.find c.pendings 3 = some ⟨3, 2, some 1⟩ ∧ c.completedCalls.count 2 = 0 := by
  have hRun : (runAllBy Client.step (fun _ a => a.firesOnce = true)
      (Client.new kSerializerRaw FrameReader.default) twoDeadlines).map Client.control =
      some (.expiring [⟨1, 3, 2⟩]) := by decide
  obtain ⟨c, hc, hControl⟩ := Option.map_eq_some_iff.mp hRun
  obtain ⟨-, hOpen, hFind, -⟩ := deadlines_exact _ _ c (reachesBy_of_runAllBy hc)
  refine ⟨c, hc, hControl, hFind _ _ hControl, hOpen ⟨1, 3, 2⟩ ?_⟩
  exact List.mem_append_right _ (by simp [due, hControl])

end Client

end ReactorNet.Rpc
