import ReactorNet.Rpc.Handover
import ReactorNet.Rpc.LateResponse

/-!
# ReactorNet — the tables of a client

A client keeps its calls in `pendings_`, and the ids of the calls that have met their
deadline twice: in the queue `timedOutIds_`, which knows the oldest one, and in the set
`timedOutIdSet_`, which is looked into. Completions run while a table is being worked
through, the counter for new ids wraps around, and the flag `connected_` is kept beside
the pointer `connection_`. `Tables` says how all of these fit together; unlike a `Ledger`
it needs no bound on the number of calls.

Main result: `tables_of_reaches`.
-/

namespace ReactorNet.Rpc

open Lib

namespace Client

/-- The tables agree with each other, and the flag with the pointer. -/
structure Tables (c : Client) : Prop where
  /-- Every entry is stored under its own id. -/
  own : ∀ e ∈ c.pendings, e.2.id = e.1
  pending_nodup : (c.pendings.map Prod.fst).Nodup
  /-- The reserved id is not in use. -/
  pending_ne_zero : ∀ e ∈ c.pendings, e.1 ≠ 0
  remembered_ne_zero : 0 ∉ c.timedOutIdSet
  /-- A pending id is not remembered. -/
  apart : ∀ e ∈ c.pendings, e.1 ∉ c.timedOutIdSet
  /-- Queue and set have the same elements, in the queue once. -/
  nodup : c.timedOutIds.Nodup
  same : c.timedOutIdSet = c.timedOutIds
  capacity : c.timedOutIds.length ≤ kMaxRememberedTimeouts
  connected_eq : c.connected = c.connection

namespace Tables

variable {c c' : Client}

/-- A step that remembers nothing and only takes from the table. -/
theorem fewer (h : Tables c) (hPendings : c'.pendings.Sublist c.pendings)
    (hQueue : c'.timedOutIds = c.timedOutIds) (hSet : c'.timedOutIdSet = c.timedOutIdSet)
    (hConnected : c'.connected = c'.connection) : Tables c' where
  own := fun e he => h.own e (hPendings.subset he)
  pending_nodup := h.pending_nodup.sublist (hPendings.map _)
  pending_ne_zero := fun e he => h.pending_ne_zero e (hPendings.subset he)
  remembered_ne_zero := hSet ▸ h.remembered_ne_zero
  apart := fun e he => hSet ▸ h.apart e (hPendings.subset he)
  nodup := hQueue ▸ h.nodup
  same := by rw [hSet, hQueue, h.same]
  capacity := hQueue ▸ h.capacity
  connected_eq := hConnected

theorem quiet (h : Tables c) (hPendings : c'.pendings = c.pendings)
    (hQueue : c'.timedOutIds = c.timedOutIds) (hSet : c'.timedOutIdSet = c.timedOutIdSet)
    (hConnected : c'.connected = c.connected) (hConnection : c'.connection = c.connection) :
    Tables c' :=
  h.fewer (hPendings ▸ List.Sublist.refl _) hQueue hSet
    (by rw [hConnected, hConnection, h.connected_eq])

/-- A new entry has an id that was free. -/
theorem start (h : Tables c) {spec : CallSpec} {body : Bytes} {requestId next : UInt32}
    (hId : c.allocateRequestId = some (requestId, next)) :
    Tables (c.started spec body requestId next) := by
  obtain ⟨hZero, hFind, hSet, -⟩ := allocateFrom_spec hId
  have hNew : requestId ∉ c.pendings.map Prod.fst := Pendings.find_eq_none_iff.mp hFind
  have hNot : requestId ∉ c.timedOutIdSet := by simpa using hSet
  -- the table has one entry more, the new call's
  have hEach : ∀ {P : UInt32 × PendingCall → Prop}, (∀ e ∈ c.pendings, P e) →
      P (requestId, c.entryFor requestId spec) →
      ∀ e ∈ (c.started spec body requestId next).pendings, P e := by
    intro P hOld hLast e he
    rcases List.mem_append.mp he with he | he
    · exact hOld e he
    · rw [List.mem_singleton.mp he]
      exact hLast
  exact {
    own := hEach h.own rfl
    pending_nodup := by
      show ((c.pendings ++ [_]).map Prod.fst).Nodup
      rw [List.map_append]
      exact h.pending_nodup.append (List.nodup_singleton _) (List.disjoint_singleton.mpr hNew)
    pending_ne_zero := hEach h.pending_ne_zero hZero
    remembered_ne_zero := h.remembered_ne_zero
    apart := hEach h.apart hNot
    nodup := h.nodup
    same := h.same
    capacity := h.capacity
    connected_eq := h.connected_eq }

theorem erase (h : Tables c) {id : UInt32} (hPendings : c'.pendings = Pendings.erase c.pendings id)
    (hQueue : c'.timedOutIds = c.timedOutIds) (hSet : c'.timedOutIdSet = c.timedOutIdSet)
    (hConnected : c'.connected = c.connected) (hConnection : c'.connection = c.connection) :
    Tables c' ∧ id ∉ c'.pendings.map Prod.fst := by
  refine ⟨h.fewer (hPendings ▸ List.eraseP_sublist) hQueue hSet
    (by rw [hConnected, hConnection, h.connected_eq]), ?_⟩
  -- the table held the id once
  rw [hPendings]
  exact Pendings.notMem_erase h.pending_nodup

/-- An id that was in flight is remembered. The oldest one makes room for it, in the queue
and in the set. -/
theorem remember (h : Tables c) {id : UInt32} (hZero : id ≠ 0) (hFresh : id ∉ c.timedOutIds)
    (hGone : id ∉ c.pendings.map Prod.fst) : Tables (c.rememberTimedOut id) := by
  have hNodup : (c.timedOutIds ++ [id]).Nodup :=
    h.nodup.append (List.nodup_singleton _) (List.disjoint_singleton.mpr hFresh)
  have hRecent : c.timedOutIds = recent kMaxRememberedTimeouts c.timedOutIds := by
    rw [recent, Nat.sub_eq_zero_of_le h.capacity, List.drop_zero]
  obtain ⟨hQueue, hSet⟩ := rememberTimedOut_recent hRecent (h.same.trans hRecent) hNodup
  have hMem : ∀ {x}, x ∈ (c.rememberTimedOut id).timedOutIdSet → x ∈ c.timedOutIdSet ∨ x = id :=
    Ledger.mem_rememberTimedOut
  exact {
    own := h.own
    pending_nodup := h.pending_nodup
    pending_ne_zero := h.pending_ne_zero
    remembered_ne_zero := fun hIn =>
      (hMem hIn).elim h.remembered_ne_zero fun hEq => hZero hEq.symm
    apart := fun e he hIn => (hMem hIn).elim (h.apart e he) fun hEq =>
      hGone (hEq ▸ List.mem_map_of_mem he)
    nodup := hQueue ▸ hNodup.sublist (List.drop_sublist ..)
    same := hSet.trans hQueue.symm
    capacity := by
      rw [hQueue, length_recent]
      exact Nat.min_le_left ..
    connected_eq := h.connected_eq }

/-- **Every step keeps the tables.** -/
theorem step {a : Action} (hOut : c.Outcome a c') (h : Tables c) : Tables c' := by
  cases hOut with
  | started spec body requestId next _ _ hId => exact h.start hId
  | answered _ f n pending =>
    have hErased : Tables (c.answered n f pending) ∧ f.1.requestId ∉ _ :=
      h.erase rfl rfl rfl rfl rfl
    exact hErased.1
  | timedOut _ t rest pending _ _ hFind =>
    -- out of the table first, and then into the memory
    have hEntry := Ledger.mem_of_find hFind
    obtain ⟨hErased, hGone⟩ : Tables { c with
        control := .expiring rest
        pendings := Pendings.erase c.pendings t.requestId } ∧ t.requestId ∉ _ :=
      h.erase rfl rfl rfl rfl rfl
    have hRemembered := hErased.remember (h.pending_ne_zero _ hEntry)
      (h.same ▸ h.apart _ hEntry) hGone
    exact hRemembered.quiet rfl rfl rfl rfl rfl
  | broken | alien =>
    exact h.fewer (List.nil_sublist _) rfl rfl h.connected_eq
  | down => exact h.fewer (List.nil_sublist _) rfl rfl rfl
  | up => exact h.fewer (List.Sublist.refl _) rfl rfl rfl
  | unconnected | unencodable | disconnected | returned | waiting | late | failed | closed | gone
  | expiredAll | stale | received | expired => exact h.quiet rfl rfl rfl rfl rfl

theorem new (serializerId : UInt8) (frameReader : FrameReader) :
    Tables (Client.new serializerId frameReader) where
  own := fun _ he => absurd he (List.not_mem_nil)
  pending_nodup := List.nodup_nil
  pending_ne_zero := fun _ he => absurd he (List.not_mem_nil)
  remembered_ne_zero := List.not_mem_nil
  apart := fun _ he => absurd he (List.not_mem_nil)
  nodup := List.nodup_nil
  same := rfl
  capacity := Nat.zero_le _
  connected_eq := rfl

end Tables

end Client

namespace Handover

theorem tables_step {s s' : Handover} {a : Action} (hStep : s.step a = some s')
    (h : s.client.Tables) : s'.client.Tables := by
  rcases step_cases hStep with ⟨action, c, -, hOutcome, rfl⟩ | ⟨-, rfl⟩
  · exact h.step hOutcome
  · exact h.quiet rfl rfl rfl rfl rfl

/-- A call that is started gets an entry of its own, or its completion is invoked at once. -/
def Started (c : Client) (spec : CallSpec) (c' : Client) : Prop :=
  (∃ response, c'.pendings = c.pendings ∧
    c'.completed = c.completed ++ [(c.calls.length, response)]) ∨
  ∃ requestId next, c.allocateRequestId = some (requestId, next) ∧
    Pendings.find c.pendings requestId = none ∧
    Pendings.emplace c.pendings requestId ⟨requestId, c.calls.length, none⟩ =
      c.pendings ++ [(requestId, ⟨requestId, c.calls.length, none⟩)] ∧
    c'.pendings = c.pendings ++ [(requestId, c.entryFor requestId spec)]

theorem started_of_call {c c' : Client} {spec : CallSpec} (h : c.step (.call spec) = some c') :
    Started c spec c' := by
  cases Client.step_outcome h with
  | unconnected | unencodable => exact .inl ⟨_, rfl, rfl⟩
  | started _ body requestId next _ _ hId =>
    obtain ⟨-, hFind, -, -⟩ := Client.allocateFrom_spec hId
    exact .inr ⟨requestId, next, hId, hFind, Pendings.emplace_of_find_none hFind _, rfl⟩

/-- **The tables of a client fit together**, in every state that it can reach, whatever the
peer sends, whatever the completions do and wherever the counter stands: every pending call
is stored under its own id; the reserved id is neither pending nor remembered; no pending id
is remembered; the queue and the set of remembered ids have the same elements, the queue has
each of them once, and there are at most 1024; and `connected_` is set when there is a
connection. So `emplace` always inserts: a call that is started is in the table with its
completion, unless that has been invoked already. -/
theorem tables_of_reaches (serializerId : UInt8) (frameReader : FrameReader) (s : Handover)
    (h : Reaches step (start serializerId frameReader) s) :
    ((s.client.pendings.map Prod.fst).Nodup ∧ ∀ e ∈ s.client.pendings, e.2.id = e.1) ∧
    ((∀ e ∈ s.client.pendings, e.1 ≠ 0) ∧ 0 ∉ s.client.timedOutIdSet) ∧
    (∀ e ∈ s.client.pendings, e.1 ∉ s.client.timedOutIdSet) ∧
    (s.client.timedOutIds.Nodup ∧
      (∀ id, id ∈ s.client.timedOutIds ↔ id ∈ s.client.timedOutIdSet) ∧
      s.client.timedOutIds.length ≤ 1024) ∧
    (s.client.connected = true ↔ s.client.connection = true) ∧
    (∀ spec c', s.client.step (.call spec) = some c' → Started s.client spec c') := by
  have hTables : s.client.Tables :=
    h.invariant (P := fun s => s.client.Tables) (Client.Tables.new serializerId frameReader)
      fun _ _ _ => tables_step
  exact ⟨⟨hTables.pending_nodup, hTables.own⟩,
    ⟨hTables.pending_ne_zero, hTables.remembered_ne_zero⟩, hTables.apart,
    ⟨hTables.nodup, fun id => by rw [hTables.same], hTables.capacity⟩,
    by rw [hTables.connected_eq], fun _ _ => started_of_call⟩

/-- Two calls, of which the second meets its deadline. -/
def oneTimedOut : List Action :=
  [.client .up, .client (.call Client.sampleCalls.1), .client (.call Client.sampleCalls.2),
    .client (.expire [⟨0, 2, 1⟩]), .client (.resume 0), .client .ret]

/-- The first call is pending with its id and the id of the second is remembered; a third
call is stored under the next id. -/
theorem tables_of_reaches_timedOut :
    ∃ s, runAll step (start kSerializerRaw FrameReader.default) oneTimedOut = some s ∧
      s.client.pendings = [(1, ⟨1, 0, none⟩)] ∧ s.client.timedOutIdSet = [2] ∧
      s.client.timedOutIds.Nodup ∧
      ∀ c', s.client.step (.call Client.sampleCalls.1) = some c' →
        Started s.client Client.sampleCalls.1 c' := by
  have hRun : (runAll step (start kSerializerRaw FrameReader.default) oneTimedOut).isSome = true :=
    by decide
  obtain ⟨s, hs⟩ := Option.isSome_iff_exists.mp hRun
  have hTables : (runAll step (start kSerializerRaw FrameReader.default) oneTimedOut).map
      (fun s => (s.client.pendings, s.client.timedOutIdSet)) =
        some ([(1, ⟨1, 0, none⟩)], [2]) := by decide
  rw [hs] at hTables
  obtain ⟨hPendings, hSet⟩ := Prod.mk.inj (Option.some.inj hTables)
  obtain ⟨-, -, -, hQueue, -, hStarted⟩ := tables_of_reaches _ _ s (reaches_of_runAll hs)
  exact ⟨s, hs, hPendings, hSet, hQueue.1, hStarted _⟩

end Handover

end ReactorNet.Rpc
