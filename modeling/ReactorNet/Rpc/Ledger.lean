import ReactorNet.Rpc.Client

/-!
# ReactorNet — the ids of a client's calls

Responses are matched with calls by an id of 32 bits, and expired timers name the id
of the call they were armed for. The ledger is the list of the calls that were given
an id, in that order. As long as it is shorter than `2 ^ 32` the ids are handed out
one after the other, from one on, and none is used twice: the table of pending calls,
the remembered timeouts and the timers all agree with it.

Main results:

* `Ledger.allocate` — the next id is the next in order.
* `Ledger.step` — every step of a connected client keeps the ledger.
* `Ledger.completed` — where a completion of a step has its response from.
-/

namespace ReactorNet.Rpc

open Lib

/-- The calls that were given an id, with the encoded body of each request. -/
abbrev Issued := List (Nat × Bytes)

/-- The id of the entry at an index of the ledger. -/
def idOf (i : Nat) : UInt32 := UInt32.ofNat (i + 1)

variable {call i : Nat} {issued : Issued}

theorem idOf_toNat (hi : i + 1 < 2 ^ 32) : (idOf i).toNat = i + 1 := by
  rw [idOf, UInt32.toNat_ofNat']
  omega

theorem idOf_inj {j : Nat} (hi : i + 1 < 2 ^ 32) (hj : j + 1 < 2 ^ 32) (h : idOf i = idOf j) :
    i = j := by
  have hNat := congrArg UInt32.toNat h
  rw [idOf_toNat hi, idOf_toNat hj] at hNat
  omega

theorem idOf_ne_zero (hi : i + 1 < 2 ^ 32) : idOf i ≠ 0 := by
  intro h
  have hNat := congrArg UInt32.toNat h
  rw [idOf_toNat hi] at hNat
  cases hNat

theorem idOf_succ (i : Nat) : idOf i + 1 = idOf (i + 1) := by
  rw [idOf, idOf, ← UInt32.toNat_inj, UInt32.toNat_add, UInt32.toNat_ofNat', UInt32.toNat_ofNat']
  simp

/-- The id was given to the call. -/
def Owns (issued : Issued) (id : UInt32) (call : Nat) : Prop :=
  ∃ i body, issued[i]? = some (call, body) ∧ id = idOf i

theorem Owns.append {id : UInt32} (h : Owns issued id call) (more : Issued) :
    Owns (issued ++ more) id call := by
  obtain ⟨i, body, hGet, hId⟩ := h
  exact ⟨i, body, getElem?_mono (List.prefix_append ..) hGet, hId⟩

theorem Owns.getElem? (hLength : issued.length < 2 ^ 32) {call' : Nat} {body : Bytes}
    (h : Owns issued (idOf i) call') (hGet : issued[i]? = some (call, body)) : call' = call := by
  obtain ⟨j, body', hGet', hId⟩ := h
  have hi := (List.getElem?_eq_some_iff.mp hGet).1
  have hj := (List.getElem?_eq_some_iff.mp hGet').1
  obtain rfl := idOf_inj (by omega) (by omega) hId
  rw [hGet] at hGet'
  cases hGet'
  rfl

theorem Owns.unique (hLength : issued.length < 2 ^ 32) {id : UInt32} {call' : Nat}
    (h : Owns issued id call) (h' : Owns issued id call') : call' = call := by
  obtain ⟨i, body, hGet, rfl⟩ := h
  exact h'.getElem? hLength hGet

/-- An id behind the end of the ledger has no owner. -/
theorem not_owns_next (hLength : issued.length + 1 < 2 ^ 32) (call : Nat) :
    ¬ Owns issued (idOf issued.length) call := by
  rintro ⟨i, body, hGet, hId⟩
  have hi := (List.getElem?_eq_some_iff.mp hGet).1
  have := idOf_inj hLength (by omega) hId
  omega

/-! ## The ledger -/

namespace Client

/-- The timer was armed for a call with a deadline, under the call's id. -/
def Armed (c : Client) (issued : Issued) (t : Timer) : Prop :=
  Owns issued t.requestId t.call ∧ ∃ spec, c.calls[t.call]? = some spec ∧ 0 < spec.timeoutSeconds

/-- What the ledger is about. -/
def tables (c : Client) : UInt32 × List CallSpec × List (UInt32 × PendingCall) × List UInt32 ×
    List Timer × List Timer :=
  (c.nextRequestId, c.calls, c.pendings, c.timedOutIdSet, c.timers, c.fired)

end Client

/-- The tables of the client agree with the ledger. -/
structure Ledger (c : Client) (issued : Issued) : Prop where
  next : c.nextRequestId = idOf issued.length
  length : issued.length ≤ c.calls.length
  call : ∀ e ∈ issued, ∃ spec, c.calls[e.1]? = some spec ∧
    RawCodec.encodeRequest spec.request = some e.2
  pending : ∀ e ∈ c.pendings, Owns issued e.1 e.2.complete
  held : ∀ rest after, c.control = .failing rest after → ∀ e ∈ rest, e.2.complete < c.calls.length
  remembered : ∀ id ∈ c.timedOutIdSet, ∃ call, Owns issued id call
  timer : ∀ t ∈ c.timers, c.Armed issued t
  fired : ∀ t ∈ c.fired, c.Armed issued t
  expiring : ∀ rest, c.control = .expiring rest → ∀ t ∈ rest, t ∈ c.fired

namespace Ledger

variable {c c' : Client} {issued : Issued}

variable {id : UInt32} {a : Client.Action}

theorem mem_of_find {m : List (UInt32 × PendingCall)} {p : PendingCall}
    (h : Pendings.find m id = some p) : (id, p) ∈ m := by
  obtain ⟨l₁, l₂, rfl, -⟩ := List.lookup_eq_some_iff.mp h
  simp

theorem find (h : Ledger c issued) {p : PendingCall}
    (hFind : Pendings.find c.pendings id = some p) : Owns issued id p.complete :=
  h.pending _ (mem_of_find hFind)

theorem lt_of_owns (h : Ledger c issued) (hOwns : Owns issued id call) : call < c.calls.length := by
  obtain ⟨i, body, hGet, -⟩ := hOwns
  obtain ⟨spec, hSpec, -⟩ := h.call _ (List.mem_of_getElem? hGet)
  exact (List.getElem?_eq_some_iff.mp hSpec).1

theorem allocateFrom_free {m : List (UInt32 × PendingCall)} {remembered : List UInt32}
    {fuel : Nat} (hFuel : 0 < fuel) (h0 : id ≠ 0) (hFind : Pendings.find m id = none)
    (hSet : remembered.contains id = false) :
    Client.allocateFrom m remembered fuel id = some (id, id + 1) := by
  cases fuel with
  | zero => omega
  | succ fuel => rw [Client.allocateFrom, if_pos ⟨h0, hFind, hSet⟩]

/-- The ledger is no longer than the list of calls. -/
theorem room (h : Ledger c issued) (hLength : c.calls.length + 1 < 2 ^ 32) :
    issued.length + 1 < 2 ^ 32 := by
  have := h.length
  omega

/-- **Ids are handed out in order.** The next one is not in use, so none is skipped. -/
theorem allocate (h : Ledger c issued) (hLength : issued.length + 1 < 2 ^ 32) :
    c.allocateRequestId = some (idOf issued.length, idOf (issued.length + 1)) := by
  have hNot := not_owns_next hLength
  rw [Client.allocateRequestId, h.next, ← idOf_succ]
  -- what is pending or remembered has an owner, and the next id has none
  refine allocateFrom_free (Nat.two_pow_pos 32) (idOf_ne_zero hLength) ?_ ?_
  · by_contra hFind
    obtain ⟨p, hp⟩ := Option.ne_none_iff_exists'.mp hFind
    exact hNot _ (h.find hp)
  · by_contra hSet
    obtain ⟨call, hOwns⟩ := h.remembered _ (by simpa using hSet)
    exact hNot _ hOwns

theorem armed_mono (hCalls : c.calls <+: c'.calls) {t : Timer} (h : c.Armed issued t) :
    c'.Armed issued t := by
  obtain ⟨hOwns, spec, hSpec, hPos⟩ := h
  exact ⟨hOwns, spec, getElem?_mono hCalls hSpec, hPos⟩

/-- A step that issues no id keeps the ledger, if it only takes from the tables. -/
theorem mono (h : Ledger c issued) (hNext : c'.nextRequestId = c.nextRequestId)
    (hCalls : c.calls <+: c'.calls) (hPendings : c'.pendings ⊆ c.pendings)
    (hRemembered : ∀ id ∈ c'.timedOutIdSet, id ∈ c.timedOutIdSet ∨ ∃ call, Owns issued id call)
    (hTimers : c'.timers ⊆ c.timers) (hFired : ∀ t ∈ c'.fired, t ∈ c.fired ∨ t ∈ c.timers)
    (hHeld : ∀ rest after, c'.control = .failing rest after →
      ∀ e ∈ rest, e.2.complete < c'.calls.length)
    (hExpiring : ∀ rest, c'.control = .expiring rest → ∀ t ∈ rest, t ∈ c'.fired) :
    Ledger c' issued where
  next := hNext.trans h.next
  length := h.length.trans hCalls.length_le
  call := by
    intro e he
    obtain ⟨spec, hSpec, hBody⟩ := h.call e he
    exact ⟨spec, getElem?_mono hCalls hSpec, hBody⟩
  pending := fun e he => h.pending e (hPendings he)
  held := hHeld
  remembered := fun id hId => (hRemembered id hId).elim (h.remembered id) fun h => h
  timer := fun t ht => armed_mono hCalls (h.timer t (hTimers ht))
  fired := fun t ht => armed_mono hCalls ((hFired t ht).elim (h.fired t) (h.timer t))
  expiring := hExpiring

/-- A step that leaves the tables alone keeps the ledger. -/
theorem of_tables (h : Ledger c issued) (hTables : c'.tables = c.tables)
    (hHeld : ∀ rest after, c'.control = .failing rest after →
      ∀ e ∈ rest, e.2.complete < c.calls.length)
    (hExpiring : ∀ rest, c'.control = .expiring rest → ∀ t ∈ rest, t ∈ c.fired) :
    Ledger c' issued := by
  simp only [Client.tables, Prod.mk.injEq] at hTables
  obtain ⟨hNext, hCalls, hPendings, hSet, hTimers, hFired⟩ := hTables
  refine h.mono hNext (by rw [hCalls]) (by rw [hPendings]; exact List.Subset.refl _)
    (fun id hId => .inl (hSet ▸ hId)) (by rw [hTimers]; exact List.Subset.refl _)
    (fun t ht => .inl (hFired ▸ ht)) ?_ ?_
  · rw [hCalls]
    exact hHeld
  · rw [hFired]
    exact hExpiring

theorem start (h : Ledger c issued) {spec : CallSpec} {body : Bytes}
    (hBody : RawCodec.encodeRequest spec.request = some body) :
    Ledger (c.started spec body (idOf issued.length) (idOf (issued.length + 1)))
      (issued ++ [(c.calls.length, body)]) := by
  have hCalls : c.calls <+: c.calls ++ [spec] := List.prefix_append ..
  have hNew : Owns (issued ++ [(c.calls.length, body)]) (idOf issued.length) c.calls.length :=
    ⟨issued.length, body, by simp, rfl⟩
  have hArmed : ∀ t, c.Armed issued t →
      (c.started spec body (idOf issued.length) (idOf (issued.length + 1))).Armed
        (issued ++ [(c.calls.length, body)]) t := by
    intro t ht
    have hLater : (c.started spec body (idOf issued.length) (idOf (issued.length + 1))).Armed
      issued t := armed_mono hCalls ht
    exact ⟨hLater.1.append _, hLater.2⟩
  exact {
    next := by simp [Client.started]
    length := by simpa [Client.started] using h.length
    call := by
      intro e he
      rcases List.mem_append.mp he with he | he
      · obtain ⟨spec', hSpec, hBody'⟩ := h.call e he
        exact ⟨spec', getElem?_mono hCalls hSpec, hBody'⟩
      · rw [List.mem_singleton.mp he]
        exact ⟨spec, by simp [Client.started], hBody⟩
    pending := by
      intro e he
      rcases List.mem_append.mp he with he | he
      · exact (h.pending e he).append _
      · rw [List.mem_singleton.mp he]
        exact hNew
    held := by
      intro rest after hControl e he
      have hLt := h.held rest after hControl e he
      simp only [Client.started, List.length_append]
      omega
    remembered := by
      intro id hId
      obtain ⟨call, hOwns⟩ := h.remembered id hId
      exact ⟨call, hOwns.append _⟩
    timer := by
      intro t ht
      -- the new timer, if there is one, is the new call's
      by_cases hPos : 0 < spec.timeoutSeconds
      · simp only [Client.started, if_pos hPos] at ht
        rcases List.mem_append.mp ht with ht | ht
        · exact hArmed t (h.timer t ht)
        · rw [List.mem_singleton.mp ht]
          exact ⟨hNew, spec, by simp [Client.started], hPos⟩
      · simp only [Client.started, if_neg hPos] at ht
        exact hArmed t (h.timer t ht)
    fired := fun t ht => hArmed t (h.fired t ht)
    expiring := fun rest hControl t ht => h.expiring rest hControl t ht }

/-! ## Steps -/

theorem erase_subset (m : List (UInt32 × PendingCall)) (id : UInt32) :
    Pendings.erase m id ⊆ m :=
  List.eraseP_subset

/-- What is remembered after a timeout: the id, and what was remembered before. -/
theorem mem_rememberTimedOut {x : UInt32} (h : x ∈ (c.rememberTimedOut id).timedOutIdSet) :
    x ∈ c.timedOutIdSet ∨ x = id := by
  simp only [Client.rememberTimedOut] at h
  -- full or not, and remembered already or not
  split_ifs at h
  · exact .inl (List.mem_of_mem_filter h)
  · rcases List.mem_append.mp h with h | h
    · exact .inl (List.mem_of_mem_filter h)
    · exact .inr (List.mem_singleton.mp h)
  · exact .inl h
  · rcases List.mem_append.mp h with h | h
    · exact .inl h
    · exact .inr (List.mem_singleton.mp h)

/-- A frame that carries the request of a call in the ledger. -/
def IsRequest (serializerId : UInt8) (issued : Issued) (f : Frame) : Prop :=
  ∃ i call body, issued[i]? = some (call, body) ∧
    f = (requestHeader serializerId (idOf i) body, body)

/-- The ledger after a step, and the requests that were handed to the connection. -/
def Kept (c c' : Client) (issued : Issued) : Prop :=
  ∃ (more : Issued) (fs : List Frame), Ledger c' (issued ++ more) ∧
    c'.transport.sent = c.transport.sent ++ fs.map encodeFrame ∧
    ∀ f ∈ fs, IsRequest c.serializerId (issued ++ more) f

theorem kept_of_eq (h : Ledger c' issued) (hSent : c'.transport.sent = c.transport.sent) :
    Kept c c' issued :=
  ⟨[], [], by rwa [List.append_nil], by rw [hSent, List.map_nil, List.append_nil], by simp⟩

theorem held_pendings (h : Ledger c issued) : ∀ e ∈ c.pendings, e.2.complete < c.calls.length :=
  fun e he => h.lt_of_owns (h.pending e he)

theorem failAll (h : Ledger c issued) {after : AfterFail} (hTables : c'.tables = c.tables) :
    Ledger (c'.failAllPending after) issued := by
  -- first with the table in place, where nothing is held yet
  have h' : Ledger { c' with control := .idle } issued := h.of_tables hTables (by simp) (by simp)
  refine h'.mono rfl List.prefix_rfl (List.nil_subset _) (fun id hId => .inl hId)
    (List.Subset.refl _) (fun t ht => .inl ht) ?_ ?_
  · intro rest' after' hControl e he
    cases hControl
    exact h'.held_pendings e he
  · intro rest hControl
    cases hControl

theorem refuse (h : Ledger c issued) (spec : CallSpec) (response : Response) :
    Ledger ({ c with calls := c.calls ++ [spec] }.complete c.calls.length response) issued := by
  refine h.mono rfl (List.prefix_append ..) (List.Subset.refl _) (fun id hId => .inl hId)
    (List.Subset.refl _) (fun t ht => .inl ht) ?_ h.expiring
  intro rest after hControl e he
  have hLt := h.held rest after hControl e he
  simp only [Client.complete, List.length_append]
  omega

/-- **Every step of a connected client keeps the ledger.** Only a call that is started
adds to it. -/
theorem step (h : Ledger c issued) (hStep : c.Outcome a c') (hUp : a ≠ .up)
    (hLength : c'.calls.length < 2 ^ 32) : Kept c c' issued := by
  cases hStep with
  | unconnected spec => exact kept_of_eq (h.refuse spec _) rfl
  | unencodable spec => exact kept_of_eq (h.refuse spec _) rfl
  | started spec body requestId next _ hBody hId =>
    -- the id is the next in order
    have hCount := h.room (by simpa [Client.started] using hLength)
    rw [h.allocate hCount] at hId
    cases hId
    -- the id is spent in any case; the connection may have dropped the request
    by_cases hState : c.transport.state = .kConnected
    · refine ⟨[(c.calls.length, body)],
        [(requestHeader c.serializerId (idOf issued.length) body, body)], h.start hBody, ?_, ?_⟩
      · simp [Client.started, Transport.send_sent_of_connected hState]
      · intro f hf
        rw [List.mem_singleton.mp hf]
        exact ⟨issued.length, c.calls.length, body, by simp, rfl⟩
    · refine ⟨[(c.calls.length, body)], [], h.start hBody, ?_, by simp⟩
      simp [Client.started, Transport.send_of_not_connected hState]
  | disconnected => exact kept_of_eq (h.of_tables rfl h.held h.expiring) (by simp)
  | returned => exact kept_of_eq (h.of_tables rfl h.held h.expiring) rfl
  | waiting => exact kept_of_eq (h.of_tables rfl (by simp) (by simp)) rfl
  | broken => exact kept_of_eq (h.failAll rfl) rfl
  | alien => exact kept_of_eq (h.failAll rfl) rfl
  | late => exact kept_of_eq (h.of_tables rfl h.held h.expiring) rfl
  | answered entry f n pending =>
    exact kept_of_eq (h.mono rfl List.prefix_rfl (erase_subset ..) (fun id hId => .inl hId)
      (List.filter_sublist.subset) (fun t ht => .inl ht) h.held h.expiring) rfl
  | failed entry rest after e _ hControl =>
    refine kept_of_eq (h.mono rfl List.prefix_rfl (List.Subset.refl _) (fun id hId => .inl hId)
      (List.filter_sublist.subset) (fun t ht => .inl ht) ?_ (by simp [Client.complete,
        Client.cancelTimer])) rfl
    intro rest' after' hControl' e' he'
    cases hControl'
    exact h.held rest after hControl e' (List.mem_of_mem_eraseIdx he')
  | closed =>
    refine kept_of_eq (h.of_tables rfl (by simp) (by simp)) ?_
    simp only
    split_ifs <;> simp
  | gone => exact kept_of_eq (h.of_tables rfl (by simp) (by simp)) rfl
  | expiredAll => exact kept_of_eq (h.of_tables rfl (by simp) (by simp)) rfl
  | stale entry t rest _ hControl =>
    -- the timers that are left to run are among those that fired
    refine kept_of_eq (h.of_tables rfl (by simp) ?_) rfl
    intro rest' hControl' t' ht'
    cases hControl'
    exact h.expiring _ hControl t' (List.mem_cons_of_mem t ht')
  | timedOut entry t rest pending _ hControl hFind =>
    refine kept_of_eq (h.mono rfl List.prefix_rfl (erase_subset ..) (fun id hId => ?_)
      (List.Subset.refl _) (fun t ht => .inl ht) (by simp [Client.complete,
        Client.rememberTimedOut]) ?_) rfl
    · -- the id that is remembered was pending, so it has an owner
      rcases mem_rememberTimedOut hId with hOld | rfl
      · exact .inl hOld
      · exact .inr ⟨_, h.find hFind⟩
    · intro rest' hControl' t' ht'
      cases hControl'
      exact h.expiring _ hControl t' (List.mem_cons_of_mem t ht')
  | received => exact kept_of_eq (h.of_tables rfl (by simp) (by simp)) rfl
  | expired due _ _ hDue =>
    -- due timers move from the queue to the fired ones
    refine kept_of_eq (h.mono rfl List.prefix_rfl (List.Subset.refl _) (fun id hId => .inl hId)
      (List.filter_sublist.subset) (fun t ht => ?_) (by simp) ?_) rfl
    · exact (List.mem_append.mp ht).imp id (hDue t)
    · intro rest hControl t ht
      cases hControl
      exact List.mem_append_right _ ht
  | up => exact absurd rfl hUp
  | down => exact kept_of_eq (h.failAll rfl) rfl

/-- Where the response of a completion comes from. -/
inductive Origin (c c' : Client) (issued : Issued) (call : Nat) (response : Response) : Prop
  /-- The call had completed before. -/
  | before (h : (call, response) ∈ c.completed)
  /-- The client made the response itself. -/
  | refused (hCall : call < c'.calls.length)
      (h : response = connectionClosedResponse ∨ response = badRequestResponse)
  /-- A timer of the call has fired. -/
  | deadline (h : response = timeoutResponse) (t : Timer) (hFired : t ∈ c.fired)
      (hCall : t.call = call) (hArmed : c.Armed issued t)
  /-- A frame with the call's id was at the front of the input. -/
  | frame (f : Frame) (n : Nat) (hCut : c.frameReader.cutter.cut c.input.contents = .frame f n)
      (hOwns : Owns issued f.1.requestId call) (hStatus : response.status = f.1.status)
      (hPayload : response.payload = f.2)

theorem origin_of_append {response : Response} {e : Nat × Response}
    (he : e ∈ c.completed ++ [(call, response)]) (h : Origin c c' issued call response) :
    Origin c c' issued e.1 e.2 := by
  rcases List.mem_append.mp he with he | he
  · exact .before he
  · rw [List.mem_singleton.mp he]
    exact h

/-- **Every completion has an origin**: the client itself, a deadline, or a frame. -/
theorem completed (h : Ledger c issued) (hStep : c.Outcome a c')
    (hLength : c.calls.length < 2 ^ 32) {e : Nat × Response} (he : e ∈ c'.completed) :
    Origin c c' issued e.1 e.2 := by
  cases hStep with
  | unconnected spec =>
    exact origin_of_append he (.refused (by simp [Client.complete]) (.inl rfl))
  | unencodable spec =>
    exact origin_of_append he (.refused (by simp [Client.complete]) (.inr rfl))
  | answered entry f n pending _ _ hCut _ hFind =>
    exact origin_of_append he (.frame f n hCut (h.find hFind) rfl rfl)
  | failed entry rest after entry' _ hControl hEntry =>
    exact origin_of_append he
      (.refused (h.held rest after hControl entry' (List.mem_of_getElem? hEntry)) (.inl rfl))
  | timedOut entry t rest pending _ hControl hFind =>
    -- the id of the timer finds the call that the timer was armed for
    have hFired := h.expiring _ hControl t (List.mem_cons_self ..)
    have hArmed := h.fired t hFired
    have hCall := (h.find hFind).unique (Nat.lt_of_le_of_lt h.length hLength) hArmed.1
    exact origin_of_append he (.deadline rfl t hFired hCall hArmed)
  | started | disconnected | returned | waiting | broken | alien | late | closed | gone
  | expiredAll | stale | received | expired | up | down => exact .before he

/-- What a step leaves as it was, or only adds to. -/
theorem stable_of_step (hStep : c.Outcome a c') :
    c'.serializerId = c.serializerId ∧ c'.frameReader = c.frameReader ∧
      c.calls <+: c'.calls ∧ c.fired <+: c'.fired := by
  cases hStep with
  | unconnected | unencodable | started =>
    exact ⟨rfl, rfl, List.prefix_append .., List.prefix_rfl⟩
  | expired => exact ⟨rfl, rfl, List.prefix_rfl, List.prefix_append ..⟩
  | disconnected | returned | waiting | broken | alien | late | answered | failed | closed | gone
  | expiredAll | stale | timedOut | received | up | down =>
    exact ⟨rfl, rfl, List.prefix_rfl, List.prefix_rfl⟩

end Ledger

end ReactorNet.Rpc
