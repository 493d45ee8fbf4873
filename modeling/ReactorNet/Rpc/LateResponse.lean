import ReactorNet.Rpc.Completion
import ReactorNet.Rpc.Ledger

/-!
# ReactorNet — late responses

A response may arrive when its call has met its deadline. The client tells it from a
response to nothing by the ids it remembers: the last `kMaxRememberedTimeouts` that timed
out. What is remembered is a fact about the whole history, so the client is tracked with
the list of the calls it has timed out (`Tracked`); as long as no id is used twice, both
containers of the memory are the end of that list (`Remembered`).

Main result: `late_response_discarded`. A late response is dropped if it is one of the last
1024; `late_response_closes` is a session in which it is not.
-/

namespace ReactorNet.Rpc

open Lib

namespace Client

/-- The id and the call that a step completes at the call's deadline. A server may answer
with `kTimeout` too, so the responses alone do not tell. -/
def timesOut (c : Client) : Action → Option (UInt32 × Nat)
  | .resume _ =>
    match c.running, c.control with
    | [], .expiring (t :: _) =>
      (Pendings.find c.pendings t.requestId).map fun p => (t.requestId, p.complete)
    | _, _ => none
  | _ => none

/-- A client, with what has timed out so far, oldest first. -/
structure Tracked where
  client : Client
  expired : List (UInt32 × Nat) := []

namespace Tracked

/-- The ids that timed out. -/
def expiredIds (s : Tracked) : List UInt32 := s.expired.map Prod.fst

def step (s : Tracked) (a : Action) : Option Tracked :=
  (s.client.step a).map fun c => ⟨c, s.expired ++ (s.client.timesOut a).toList⟩

/-- A session before its first connection. -/
def new (serializerId : UInt8) (frameReader : FrameReader) : Tracked :=
  ⟨Client.new serializerId frameReader, []⟩

end Tracked

/-! ## The memory -/

theorem filter_ne_head {ids : List UInt32} (h : ids.Nodup) :
    (ids.filter fun x => some x != ids.head?) = ids.tail := by
  cases ids with
  | nil => rfl
  | cons id ids =>
    have hNot := (List.nodup_cons.mp h).1
    rw [List.filter_cons_of_neg (by simp), List.tail_cons, List.filter_eq_self]
    intro x hx
    have hNe : x ≠ id := fun h => hNot (h ▸ hx)
    simpa using hNe

/-- A new id joins the end of the history, in the queue and in the set alike. -/
theorem rememberTimedOut_recent {c : Client} {ids : List UInt32} {id : UInt32}
    (hIds : c.timedOutIds = recent kMaxRememberedTimeouts ids)
    (hSet : c.timedOutIdSet = recent kMaxRememberedTimeouts ids) (hNodup : (ids ++ [id]).Nodup) :
    (c.rememberTimedOut id).timedOutIds = recent kMaxRememberedTimeouts (ids ++ [id]) ∧
      (c.rememberTimedOut id).timedOutIdSet = recent kMaxRememberedTimeouts (ids ++ [id]) := by
  have hOld : ids.Nodup := hNodup.sublist (List.sublist_append_left ..)
  have hFresh : id ∉ recent kMaxRememberedTimeouts ids := fun h =>
    (List.nodup_append.mp hNodup).2.2 _ (List.mem_of_mem_drop h) _ (List.mem_singleton_self _) rfl
  have hLength := length_recent kMaxRememberedTimeouts ids
  have hPos : 0 < kMaxRememberedTimeouts := Nat.zero_lt_succ _
  simp only [rememberTimedOut, hIds, hSet]
  by_cases hFull : kMaxRememberedTimeouts ≤ ids.length
  · -- the set is as long as the queue, so it is the front of the queue that goes
    have hFull' : kMaxRememberedTimeouts ≤ (recent kMaxRememberedTimeouts ids).length := by
      omega
    have hRecent : (recent kMaxRememberedTimeouts ids).Nodup :=
      hOld.sublist (List.drop_sublist ..)
    have hTail := filter_ne_head hRecent
    have hNew : ¬ (recent kMaxRememberedTimeouts ids).tail.contains id = true := fun h =>
      hFresh (List.mem_of_mem_tail (List.contains_iff_mem.mp h))
    simp only [if_pos hFull', hTail, if_neg hNew, recent_concat_of_le hPos hFull, and_self]
  · have hRoom : ¬ kMaxRememberedTimeouts ≤ (recent kMaxRememberedTimeouts ids).length := by
      omega
    have hNew : ¬ (recent kMaxRememberedTimeouts ids).contains id = true := fun h =>
      hFresh (List.contains_iff_mem.mp h)
    simp only [if_neg hRoom, if_neg hNew, recent_concat_of_lt (Nat.lt_of_not_le hFull), and_self]

/-- The tables of the client, the ledger of its ids and the history agree. -/
structure Remembered (s : Tracked) (issued : Issued) : Prop where
  ledger : Ledger s.client issued
  pending_nodup : (s.client.pendings.map Prod.fst).Nodup
  nodup : s.expiredIds.Nodup
  apart : ∀ e ∈ s.client.pendings, e.1 ∉ s.expiredIds
  owned : ∀ e ∈ s.expired, Owns issued e.1 e.2
  completed : ∀ e ∈ s.expired, (e.2, timeoutResponse) ∈ s.client.completed
  queue : s.client.timedOutIds = recent kMaxRememberedTimeouts s.expiredIds
  set : s.client.timedOutIdSet = recent kMaxRememberedTimeouts s.expiredIds

namespace Remembered

variable {s : Tracked} {c' : Client} {a : Action} {issued : Issued}

/-- A step that starts no call and times none out. -/
theorem quiet (h : Remembered s issued) (hNone : s.client.timesOut a = none)
    {more : Issued} (hLedger : Ledger c' (issued ++ more))
    (hPendings : c'.pendings.Sublist s.client.pendings)
    (hQueue : c'.timedOutIds = s.client.timedOutIds)
    (hSet : c'.timedOutIdSet = s.client.timedOutIdSet)
    (hCompleted : s.client.completed <+: c'.completed) :
    ∃ issued', Remembered ⟨c', s.expired ++ (s.client.timesOut a).toList⟩ issued' := by
  rw [hNone, Option.toList_none, List.append_nil]
  exact ⟨_, {
    ledger := hLedger
    pending_nodup := h.pending_nodup.sublist (hPendings.map _)
    nodup := h.nodup
    apart := fun e he => h.apart e (hPendings.subset he)
    owned := fun e he => (h.owned e he).append _
    completed := fun e he => hCompleted.subset (h.completed e he)
    queue := hQueue.trans h.queue
    set := hSet.trans h.set }⟩

/-- An id that has no owner yet has neither timed out nor is it pending. -/
theorem start (h : Remembered s issued) {spec : CallSpec} {body : Bytes}
    (hBody : RawCodec.encodeRequest spec.request = some body)
    (hLength : issued.length + 1 < 2 ^ 32) :
    Remembered ⟨s.client.started spec body (idOf issued.length) (idOf (issued.length + 1)),
      s.expired⟩ (issued ++ [(s.client.calls.length, body)]) where
  ledger := h.ledger.start hBody
  pending_nodup := by
    have hNew : idOf issued.length ∉ s.client.pendings.map Prod.fst := by
      intro hMem
      obtain ⟨e, he, hId⟩ := List.mem_map.mp hMem
      exact not_owns_next hLength _ (hId ▸ h.ledger.pending e he)
    show ((s.client.pendings ++ [_]).map Prod.fst).Nodup
    rw [List.map_append]
    exact h.pending_nodup.append (List.nodup_singleton _)
      (List.disjoint_singleton.mpr hNew)
  nodup := h.nodup
  -- the new id has not been issued, so it was not remembered
  apart := by
    intro e he hMem
    rcases List.mem_append.mp he with he | he
    · exact h.apart e he hMem
    · rw [List.mem_singleton.mp he] at hMem
      obtain ⟨e', he', hId⟩ := List.mem_map.mp hMem
      exact not_owns_next hLength _ (hId ▸ h.owned e' he')
  owned := fun e he => (h.owned e he).append _
  completed := h.completed
  queue := h.queue
  set := h.set

/-- A pending call moves to the end of the history. -/
theorem expire (h : Remembered s issued) {t : Timer} {rest : List Timer} {pending : PendingCall}
    (hFind : Pendings.find s.client.pendings t.requestId = some pending)
    (hNext : c' = ({ s.client with
      control := .expiring rest
      pendings := Pendings.erase s.client.pendings t.requestId }.rememberTimedOut
        t.requestId).complete pending.complete timeoutResponse)
    {more : Issued} (hLedger : Ledger c' (issued ++ more)) :
    Remembered ⟨c', s.expired ++ [(t.requestId, pending.complete)]⟩ (issued ++ more) := by
  have hIds : Tracked.expiredIds ⟨c', s.expired ++ [(t.requestId, pending.complete)]⟩ =
      s.expiredIds ++ [t.requestId] := by
    simp [Tracked.expiredIds]
  have hFresh : t.requestId ∉ s.expiredIds := h.apart _ (Ledger.mem_of_find hFind)
  have hNodup : (s.expiredIds ++ [t.requestId]).Nodup :=
    h.nodup.append (List.nodup_singleton _) (List.disjoint_singleton.mpr hFresh)
  obtain ⟨hQueue, hSet⟩ := rememberTimedOut_recent (c := { s.client with
    control := .expiring rest
    pendings := Pendings.erase s.client.pendings t.requestId }) h.queue h.set hNodup
  subst hNext
  exact {
    ledger := hLedger
    pending_nodup := by
      show ((Pendings.erase s.client.pendings t.requestId).map Prod.fst).Nodup
      rw [Pendings.map_fst_erase]
      exact h.pending_nodup.erase _
    nodup := hIds ▸ hNodup
    apart := by
      intro e he hMem
      rw [hIds, List.mem_append, List.mem_singleton] at hMem
      have he' : e ∈ Pendings.erase s.client.pendings t.requestId := he
      rcases hMem with hMem | hSame
      · exact h.apart e (Ledger.erase_subset _ _ he') hMem
      · -- the table held the id once
        exact Pendings.notMem_erase h.pending_nodup (hSame ▸ List.mem_map_of_mem he')
    owned := by
      intro e he
      rcases List.mem_append.mp he with he | he
      · exact (h.owned e he).append _
      · rw [List.mem_singleton.mp he]
        exact (h.ledger.find hFind).append _
    completed := by
      intro e he
      rcases List.mem_append.mp he with he | he
      · exact List.mem_append_left _ (h.completed e he)
      · rw [List.mem_singleton.mp he]
        exact List.mem_append_right _ (List.mem_singleton_self _)
    queue := hIds ▸ hQueue
    set := hIds ▸ hSet }

/-- A reconnection leaves the ids alone, like every other step but a call. -/
theorem ledger_of_step {c : Client} (h : Ledger c issued) (hOut : c.Outcome a c')
    (hLength : c'.calls.length < 2 ^ 32) : ∃ more, Ledger c' (issued ++ more) := by
  by_cases hUp : a = .up
  · subst hUp
    cases hOut with
    | up _ hControl =>
      refine ⟨[], ?_⟩
      rw [List.append_nil]
      exact h.of_tables rfl h.held h.expiring
  · obtain ⟨more, -, hLedger, -⟩ := h.step hOut hUp hLength
    exact ⟨more, hLedger⟩

/-- **Every step keeps the memory**, as long as the ids last. -/
theorem step (h : Remembered s issued) (hOut : s.client.Outcome a c')
    (hLength : c'.calls.length < 2 ^ 32) :
    ∃ issued', Remembered ⟨c', s.expired ++ (s.client.timesOut a).toList⟩ issued' := by
  obtain ⟨more, hLedger⟩ := ledger_of_step h.ledger hOut hLength
  cases hOut with
  | started spec body requestId next _ hBody hId =>
    -- below 2^32 calls the id is the number of calls so far
    have hCount := h.ledger.room (by simpa [Client.started] using hLength)
    rw [h.ledger.allocate hCount] at hId
    cases hId
    refine ⟨issued ++ [(s.client.calls.length, body)], ?_⟩
    show Remembered ⟨_, s.expired ++ []⟩ _
    rw [List.append_nil]
    exact h.start hBody hCount
  | timedOut entry t rest pending hRunning hControl hFind =>
    have hTimesOut : s.client.timesOut (.resume entry) = some (t.requestId, pending.complete) := by
      simp only [timesOut, hRunning, hControl, hFind, Option.map_some]
    rw [hTimesOut]
    exact ⟨_, h.expire hFind rfl hLedger⟩
  | unconnected | unencodable =>
    exact h.quiet rfl hLedger (List.Sublist.refl _) rfl rfl (List.prefix_append ..)
  | disconnected | returned | received | expired | up =>
    exact h.quiet rfl hLedger (List.Sublist.refl _) rfl rfl List.prefix_rfl
  | down => exact h.quiet rfl hLedger (List.nil_sublist _) rfl rfl List.prefix_rfl
  | waiting entry hRunning hControl | late entry f n hRunning hControl
  | closed entry hRunning hControl | gone entry calls hRunning hControl
  | expiredAll entry hRunning hControl =>
    exact h.quiet (by simp only [timesOut, hRunning, hControl]) hLedger (List.Sublist.refl _)
      rfl rfl List.prefix_rfl
  | stale entry t rest hRunning hControl hFind =>
    exact h.quiet (by simp only [timesOut, hRunning, hControl, hFind, Option.map_none]) hLedger
      (List.Sublist.refl _) rfl rfl List.prefix_rfl
  | broken entry hRunning hControl | alien entry f n hRunning hControl =>
    exact h.quiet (by simp only [timesOut, hRunning, hControl]) hLedger (List.nil_sublist _)
      rfl rfl List.prefix_rfl
  | answered entry f n pending hRunning hControl =>
    exact h.quiet (by simp only [timesOut, hRunning, hControl]) hLedger List.eraseP_sublist
      rfl rfl (List.prefix_append ..)
  | failed entry rest after e hRunning hControl =>
    exact h.quiet (by simp only [timesOut, hRunning, hControl]) hLedger (List.Sublist.refl _)
      rfl rfl (List.prefix_append ..)

end Remembered

variable {s : Tracked} {f : Frame} {k : Nat}

/-- In every session that has not run out of ids, the memory is the end of the history. -/
theorem remembered_of_reaches {serializerId : UInt8} {frameReader : FrameReader}
    (h : Reaches Tracked.step (Tracked.new serializerId frameReader) s)
    (hCalls : s.client.calls.length < 2 ^ 32) : ∃ issued, Remembered s issued := by
  -- the number of calls never falls, so the bound held all along
  refine h.invariant (P := fun s => s.client.calls.length < 2 ^ 32 → ∃ issued, Remembered s issued)
    ?_ ?_ hCalls
  · intro _
    exact ⟨[], {
      ledger := {
        next := rfl
        length := Nat.le_refl _
        call := by simp
        pending := by simp [Tracked.new, Client.new]
        held := by simp [Tracked.new, Client.new]
        remembered := by simp [Tracked.new, Client.new]
        timer := by simp [Tracked.new, Client.new]
        fired := by simp [Tracked.new, Client.new]
        expiring := by simp [Tracked.new, Client.new] }
      pending_nodup := List.nodup_nil
      nodup := List.nodup_nil
      apart := by simp [Tracked.new, Client.new]
      owned := by simp [Tracked.new]
      completed := by simp [Tracked.new]
      queue := (recent_nil _).symm
      set := (recent_nil _).symm }⟩
  · intro s s' a hStep ih hLength
    obtain ⟨c', hClient, rfl⟩ := Option.map_eq_some_iff.mp hStep
    have hOut := step_outcome hClient
    have hBefore := (Ledger.stable_of_step hOut).2.2.1.length_le
    obtain ⟨issued, hRemembered⟩ := ih (Nat.lt_of_le_of_lt hBefore hLength)
    exact hRemembered.step hOut hLength

/-! ## A late response -/

/-- A response to no call in flight: the memory decides. -/
theorem onMessagePass_of_unknown {c : Client} {n : Nat}
    (hCut : c.frameReader.cutter.cut c.input.contents = .frame f n)
    (hVersion : f.1.version = kVersion) (hType : f.1.type = .kResponse)
    (hSerializer : f.1.serializerId = c.serializerId)
    (hFind : Pendings.find c.pendings f.1.requestId = none) :
    c.onMessagePass =
      if c.wasTimedOut f.1.requestId then { c with input := c.input.retrieve n }
      else { c with input := c.input.retrieve n }.failConnection := by
  have hLen : ¬ kMaxBodyLen < f.2.length := by
    -- the reader's own limit is not above the protocol's
    obtain ⟨-, hMax, hn, hInput, hBody⟩ := FrameReader.frameCut_eq_frame.mp hCut
    have hLe : f.2.length ≤ f.1.bodyLen.toNat := by
      rw [hBody, slice, List.length_take]
      omega
    have hBound : c.frameReader.maxBody ≤ kMaxBodyLen := Nat.min_le_right ..
    omega
  rw [onMessagePass, FrameReader.parse_of_frame hCut]
  show onResponse { c with input := c.input.retrieve n } f.1 f.2 = _
  rw [onResponse, if_neg (by simp [hVersion, hType]), if_neg (by simp [hSerializer])]
  simp only [RawCodec.decodeResponse, if_neg hLen, hFind]
  rfl

/-- The next pass over a response to a call that has timed out. -/
theorem resume_of_expired {issued : Issued} (h : Remembered s issued)
    (hRunning : s.client.running = []) (hControl : s.client.control = .messageLoop) {n : Nat}
    (hCut : s.client.frameReader.cutter.cut s.client.input.contents = .frame f n)
    (hVersion : f.1.version = kVersion) (hType : f.1.type = .kResponse)
    (hSerializer : f.1.serializerId = s.client.serializerId) {i call : Nat}
    (hExpired : s.expired[i]? = some (f.1.requestId, call)) (entry : Nat) :
    s.client.step (.resume entry) = some
      (if s.expired.length - i ≤ kMaxRememberedTimeouts then
        { s.client with input := s.client.input.retrieve n }
      else { s.client with input := s.client.input.retrieve n }.failConnection) := by
  have hId : s.expiredIds[i]? = some f.1.requestId := by
    rw [Tracked.expiredIds, List.getElem?_map, hExpired, Option.map_some]
  have hFind : Pendings.find s.client.pendings f.1.requestId = none := by
    by_contra hSome
    obtain ⟨p, hp⟩ := Option.ne_none_iff_exists'.mp hSome
    exact h.apart _ (Ledger.mem_of_find hp) (List.mem_of_getElem? hId)
  have hMemory : s.client.wasTimedOut f.1.requestId = true ↔
      s.expired.length - i ≤ kMaxRememberedTimeouts := by
    rw [wasTimedOut, List.contains_iff_mem, h.set, mem_recent_iff h.nodup hId,
      Tracked.expiredIds, List.length_map]
  have hStep : s.client.step (.resume entry) = some s.client.onMessagePass := by
    simp only [Client.step, hRunning, if_true, resume, hControl]
  rw [hStep, onMessagePass_of_unknown hCut hVersion hType hSerializer hFind]
  simp only [hMemory]

/-- **A late response does no harm while it is remembered.** In every session of fewer than
`2 ^ 32` calls, let the frame at the front of the input be a well-formed response, and let
its id be that of a call which was timed out at its deadline. The call completed with
`kTimeout`. If at most 1024 calls have timed out since then, the call itself counted, the
frame is taken from the input and nothing else changes. If there were more, it is a response
to nothing and the connection is failed. -/
theorem late_response_discarded (serializerId : UInt8) (frameReader : FrameReader) (s : Tracked)
    (h : Reaches Tracked.step (Tracked.new serializerId frameReader) s)
    (hCalls : s.client.calls.length < 2 ^ 32) (hRunning : s.client.running = [])
    (hControl : s.client.control = .messageLoop) (f : Frame) (n : Nat)
    (hCut : s.client.frameReader.cutter.cut s.client.input.contents = .frame f n)
    (hVersion : f.1.version = kVersion) (hType : f.1.type = .kResponse)
    (hSerializer : f.1.serializerId = s.client.serializerId) (i call entry : Nat)
    (hExpired : s.expired[i]? = some (f.1.requestId, call)) :
    (call, timeoutResponse) ∈ s.client.completed ∧
      (s.expired.length - i ≤ kMaxRememberedTimeouts →
        s.client.step (.resume entry) =
          some { s.client with input := s.client.input.retrieve n }) ∧
      (kMaxRememberedTimeouts < s.expired.length - i →
        s.client.step (.resume entry) =
          some { s.client with input := s.client.input.retrieve n }.failConnection) := by
  obtain ⟨issued, hRemembered⟩ := remembered_of_reaches h hCalls
  have hNext := resume_of_expired hRemembered hRunning hControl hCut hVersion hType hSerializer
    hExpired entry
  refine ⟨hRemembered.completed _ (List.mem_of_getElem? hExpired), fun hKept => ?_, fun hGone => ?_⟩
  · rw [hNext, if_pos hKept]
  · rw [hNext, if_neg (by omega)]

/-- A response with nothing in it. -/
def emptyResponse (requestId : UInt32) : Frame :=
  ({ requestHeader kSerializerRaw requestId [] with type := .kResponse }, [])

/-- A frame has been read, and the message loop is about to look at it. -/
def Tracked.received (s : Tracked) (f : Frame) : Tracked :=
  ⟨{ s.client with input := s.client.input.append (encodeFrame f), control := .messageLoop },
    s.expired⟩

theorem receive_frame (hRunning : s.client.running = []) (hControl : s.client.control = .idle)
    (hTransport : s.client.transport.state = .kConnected ∧ s.client.transport.closeQueued = false)
    (hInput : s.client.input.contents = []) (hAccepts : s.client.frameReader.Accepts f) :
    Tracked.step s (.recv (encodeFrame f)) = some (s.received f) ∧
      (s.received f).client.frameReader.cutter.cut (s.received f).client.input.contents =
        .frame f (encodeFrame f).length := by
  constructor
  · have hGuard : s.client.running = [] ∧ s.client.control = .idle ∧
        s.client.transport.Reading ∧ s.client.transport.closeQueued = false :=
      ⟨hRunning, hControl, .inl hTransport.1, hTransport.2⟩
    simp only [Tracked.step, Client.step, if_pos hGuard, Option.map_some, timesOut,
      Option.toList_none, List.append_nil]
    rfl
  · show s.client.frameReader.cutter.cut (s.client.input.append (encodeFrame f)).contents = _
    rw [Buffer.contents_append, hInput, List.nil_append, ← List.append_nil (encodeFrame f),
      FrameReader.cut_encodeFrame hAccepts, List.append_nil]

/-- A call meets its deadline. -/
def missedDeadline : List Action :=
  [.up, .call sampleCalls.2, .expire [⟨0, 1, 0⟩], .resume 0, .ret, .resume 0]

/-- Its response comes afterwards, and is dropped. -/
theorem late_response_discarded_once :
    ∃ s : Tracked, runAll Tracked.step (Tracked.new kSerializerRaw FrameReader.default)
        missedDeadline = some s ∧
      (0, timeoutResponse) ∈ s.client.completed ∧
      (s.received (emptyResponse 1)).client.step (.resume 0) =
        some { (s.received (emptyResponse 1)).client with
          input := (s.received (emptyResponse 1)).client.input.retrieve
            (encodeFrame (emptyResponse 1)).length } := by
  obtain ⟨s, hRun, hCalls, hRunning, hControl, hTransport, hInput, hReader, hSerializer,
      hExpired⟩ :
      ∃ s : Tracked, runAll Tracked.step (Tracked.new kSerializerRaw FrameReader.default)
          missedDeadline = some s ∧
        s.client.calls.length = 1 ∧ s.client.running = [] ∧ s.client.control = .idle ∧
        (s.client.transport.state = .kConnected ∧ s.client.transport.closeQueued = false) ∧
        s.client.input.contents = [] ∧ s.client.frameReader = FrameReader.default ∧
        s.client.serializerId = kSerializerRaw ∧ s.expired = [(1, 0)] :=
    ⟨_, rfl, rfl, rfl, rfl, ⟨rfl, rfl⟩, rfl, rfl, rfl, rfl⟩
  obtain ⟨hRecv, hCut⟩ := receive_frame (f := emptyResponse 1) hRunning hControl hTransport hInput
    (by rw [hReader]; decide)
  have hFirst : s.expired[0]? = some (1, 0) := by
    rw [hExpired]
    rfl
  have hOne : s.expired.length - 0 ≤ kMaxRememberedTimeouts := by
    rw [hExpired]
    exact Nat.succ_le_succ (Nat.zero_le _)
  have hLt : s.client.calls.length < 2 ^ 32 := by
    rw [hCalls]
    decide
  obtain ⟨hDone, hKept, -⟩ := late_response_discarded _ _ (s.received (emptyResponse 1))
    ((reaches_of_runAll hRun).next _ hRecv) hLt hRunning rfl _ _ hCut rfl rfl
    hSerializer.symm 0 0 0 hFirst
  exact ⟨s, hRun, hDone, hKept hOne⟩

/-! ## Forgotten -/

/-- A call that is connected and can be encoded is started. -/
theorem startCallInLoop_eq {c : Client} {spec : CallSpec} {body : Bytes} {requestId next : UInt32}
    (hUp : c.connection = true ∧ c.connected = true)
    (hBody : RawCodec.encodeRequest spec.request = some body)
    (hId : c.allocateRequestId = some (requestId, next)) :
    c.startCallInLoop spec = some (c.started spec body requestId next) := by
  have hId' : Client.allocateRequestId { c with calls := c.calls ++ [spec] } =
    some (requestId, next) := hId
  obtain ⟨-, hFree, -, -⟩ := allocateFrom_spec hId
  have hRecord := record_eq
    (c := { c with calls := c.calls ++ [spec], nextRequestId := next }) hFree c.calls.length
    spec.timeoutSeconds
  have hPeer : ¬ (c.connection = false ∨ c.connected = false) := by
    simp [hUp.1, hUp.2]
  simp only [startCallInLoop, if_neg hPeer, hBody, hId', hRecord]
  rfl

/-- A deadline of a pending call, from the timer to the return of the completion. -/
theorem runAll_deadline {t : Timer} {p : PendingCall} (hRunning : s.client.running = [])
    (hControl : s.client.control = .idle) (hTimers : s.client.timers = [t])
    (hFind : Pendings.find s.client.pendings t.requestId = some p) :
    runAll Tracked.step s [.expire [t], .resume 0, .ret, .resume 0] =
      some ⟨{ s.client.rememberTimedOut t.requestId with
          timers := []
          fired := s.client.fired ++ [t]
          pendings := Pendings.erase s.client.pendings t.requestId
          completed := s.client.completed ++ [(p.complete, timeoutResponse)] },
        s.expired ++ [(t.requestId, p.complete)]⟩ := by
  simp [runAll, Tracked.step, Client.step, hRunning, hControl, hTimers, resume, onTimeout, hFind,
    timesOut, complete, rememberTimedOut]

/-- A connected client with nothing to do: one call without a deadline is pending, and after
it this many calls have timed out. -/
structure Idle (s : Tracked) (k : Nat) : Prop where
  up : s.client.connection = true ∧ s.client.connected = true
  running : s.client.running = []
  control : s.client.control = .idle
  timers : s.client.timers = []
  pendings : s.client.pendings = [(idOf 0, ⟨idOf 0, 0, none⟩)]
  calls : s.client.calls.length = k + 1
  next : s.client.nextRequestId = idOf (k + 1)
  transport : s.client.transport.state = .kConnected ∧ s.client.transport.closeQueued = false
  input : s.client.input.contents = []
  reader : s.client.frameReader = FrameReader.default
  serializer : s.client.serializerId = kSerializerRaw
  expired : s.expired = (List.range k).map fun i => (idOf (i + 1), i + 1)

theorem Idle.find (hk : k + 2 < 2 ^ 32) (p q : PendingCall) :
    Pendings.find [(idOf 0, p), (idOf (k + 1), q)] (idOf (k + 1)) = some q := by
  have hNe : idOf (k + 1) ≠ idOf 0 := fun h => by
    have := idOf_inj (by omega) (by omega) h
    omega
  simp [Pendings.find, List.lookup_cons, beq_eq_false_iff_ne.mpr hNe]

theorem Idle.erase (hk : k + 2 < 2 ^ 32) (p q : PendingCall) :
    Pendings.erase [(idOf 0, p), (idOf (k + 1), q)] (idOf (k + 1)) = [(idOf 0, p)] := by
  have hNe : idOf 0 ≠ idOf (k + 1) := fun h => by
    have := idOf_inj (by omega) (by omega) h
    omega
  simp [Pendings.erase, hNe]

theorem Idle.cycle (h : Idle s k) {issued : Issued} (hRemembered : Remembered s issued)
    (hk : k + 2 < 2 ^ 32) : ∃ s', Reaches Tracked.step s s' ∧ Idle s' (k + 1) := by
  obtain ⟨body, hBody⟩ : ∃ body, RawCodec.encodeRequest sampleCalls.2.request = some body :=
    ⟨_, rfl⟩
  have hPos : 0 < sampleCalls.2.timeoutSeconds := by decide
  have hCount := hRemembered.ledger.room (by rw [h.calls]; omega)
  -- the next id is free
  have hId : s.client.allocateRequestId = some (idOf (k + 1), idOf (k + 2)) := by
    rw [hRemembered.ledger.allocate hCount, ← idOf_succ, ← hRemembered.ledger.next, h.next,
      idOf_succ]
  let s₁ : Tracked := ⟨s.client.started sampleCalls.2 body (idOf (k + 1)) (idOf (k + 2)), s.expired⟩
  have hCall : Tracked.step s (.call sampleCalls.2) = some s₁ := by
    simp only [Tracked.step, Client.step, h.control, or_true, if_true,
      startCallInLoop_eq h.up hBody hId, Option.map_some, timesOut, Option.toList_none,
      List.append_nil]
    rfl
  have hEntry : Pendings.find s₁.client.pendings (idOf (k + 1)) =
      some (s.client.entryFor (idOf (k + 1)) sampleCalls.2) := by
    show Pendings.find (s.client.pendings ++ [_]) _ = _
    rw [h.pendings]
    exact Idle.find hk _ _
  have hTimers : s₁.client.timers = [⟨s.client.nextTimer, idOf (k + 1), k + 1⟩] := by
    show (if 0 < sampleCalls.2.timeoutSeconds then
      s.client.timers ++ [⟨s.client.nextTimer, idOf (k + 1), s.client.calls.length⟩]
      else s.client.timers) = _
    rw [if_pos hPos, h.timers, h.calls, List.nil_append]
  have hDeadline := runAll_deadline (s := s₁) h.running h.control hTimers hEntry
  refine ⟨_, (Reaches.refl.next _ hCall).trans (reaches_of_runAll hDeadline), ?_⟩
  exact {
    up := h.up
    running := h.running
    control := h.control
    timers := rfl
    pendings := by
      show Pendings.erase (s.client.pendings ++ [_]) _ = _
      rw [h.pendings]
      exact Idle.erase hk _ _
    calls := by
      show (s.client.calls ++ [_]).length = _
      rw [List.length_append, h.calls, List.length_singleton]
    next := rfl
    transport := by
      show (s.client.transport.send _).state = _ ∧ (s.client.transport.send _).closeQueued = _
      rw [Transport.send_state, Transport.send_closeQueued]
      exact h.transport
    input := h.input
    reader := h.reader
    serializer := h.serializer
    expired := by
      show s.expired ++ [(idOf (k + 1), s.client.calls.length)] = _
      rw [h.expired, h.calls, List.range_succ, List.map_append]
      rfl }

/-- Any number of calls can time out, one after the other. -/
theorem exists_idle (k : Nat) (hk : k + 1 < 2 ^ 32) :
    ∃ s, Reaches Tracked.step (Tracked.new kSerializerRaw FrameReader.default) s ∧ Idle s k := by
  induction k with
  | zero =>
    -- the connection comes up, and the call without a deadline is made
    obtain ⟨s, hRun, hIdle⟩ : ∃ s : Tracked,
        runAll Tracked.step (Tracked.new kSerializerRaw FrameReader.default)
          [.up, .call sampleCalls.1] = some s ∧ Idle s 0 :=
      ⟨_, rfl, {
        up := ⟨rfl, rfl⟩
        running := rfl
        control := rfl
        timers := rfl
        pendings := rfl
        calls := rfl
        next := rfl
        transport := ⟨rfl, rfl⟩
        input := rfl
        reader := rfl
        serializer := rfl
        expired := rfl }⟩
    exact ⟨s, reaches_of_runAll hRun, hIdle⟩
  | succ k ih =>
    obtain ⟨s, hReach, hIdle⟩ := ih (by omega)
    have hCalls : s.client.calls.length < 2 ^ 32 := by
      rw [hIdle.calls]
      omega
    obtain ⟨issued, hRemembered⟩ := remembered_of_reaches hReach hCalls
    obtain ⟨s', hNext, hIdle'⟩ := hIdle.cycle hRemembered (by omega)
    exact ⟨s', hReach.trans hNext, hIdle'⟩

/-- **A late response that is forgotten closes the connection.** One call without a deadline
is pending, and 1025 calls have timed out. The response to the first of these arrives: the
pending call, which has nothing to do with it, is failed with all that is in flight. -/
theorem late_response_closes :
    ∃ (s : Tracked) (f : Frame) (n : Nat),
      Reaches Tracked.step (Tracked.new kSerializerRaw FrameReader.default) s ∧
      s.client.calls.length < 2 ^ 32 ∧ s.client.running = [] ∧
      s.client.control = .messageLoop ∧
      s.client.frameReader.cutter.cut s.client.input.contents = .frame f n ∧
      f.1.version = kVersion ∧ f.1.type = .kResponse ∧
      f.1.serializerId = s.client.serializerId ∧
      s.expired[0]? = some (f.1.requestId, 1) ∧ (1, timeoutResponse) ∈ s.client.completed ∧
      s.client.pendings = [(1, ⟨1, 0, none⟩)] ∧
      ∃ c', s.client.step (.resume 0) = some c' ∧ c'.pendings = [] ∧
        c'.control = .failing [(1, ⟨1, 0, none⟩)] .forceClose := by
  obtain ⟨s, hReach, hIdle⟩ := exists_idle (kMaxRememberedTimeouts + 1) (by decide)
  obtain ⟨hRecv, hCut⟩ := receive_frame (f := emptyResponse 2) hIdle.running hIdle.control
    hIdle.transport hIdle.input (by rw [hIdle.reader]; decide)
  have hReach' := hReach.next _ hRecv
  have hCalls : s.client.calls.length < 2 ^ 32 := by
    rw [hIdle.calls]
    decide
  have hFirst : s.expired[0]? = some ((emptyResponse 2).1.requestId, 1) := by
    rw [hIdle.expired, List.range_succ_eq_map]
    rfl
  obtain ⟨issued, hRemembered⟩ := remembered_of_reaches hReach' hCalls
  have hNext := resume_of_expired hRemembered hIdle.running rfl hCut rfl rfl
    hIdle.serializer.symm hFirst 0
  have hForgotten : ¬ s.expired.length - 0 ≤ kMaxRememberedTimeouts := by
    rw [hIdle.expired, List.length_map, List.length_range]
    omega
  have hFailed := hNext.trans (congrArg some (if_neg hForgotten))
  refine ⟨s.received (emptyResponse 2), _, _, hReach', hCalls, hIdle.running, rfl, hCut, rfl, rfl,
    hIdle.serializer.symm, hFirst, hRemembered.completed _ (List.mem_of_getElem? hFirst),
    hIdle.pendings, _, hFailed, rfl, ?_⟩
  show Control.failing s.client.pendings .forceClose = _
  rw [hIdle.pendings]
  rfl

end Client

end ReactorNet.Rpc
