import ReactorNet.Rpc.ClientTables
import ReactorNet.Rpc.Completion
import ReactorNet.Rpc.Responses

/-!
# ReactorNet — what a client has sent, and what it waits for

The requests of a client go out in the order of its ledger: the k-th entry travels under
the k-th id. As long as the connection takes messages nothing is left out; afterwards calls
are still given ids, but their requests are dropped, so what was sent is always the front
part of the ledger (`Sender`).

The other direction is `Receiver`. A server that answers in order answers the k-th request
with the k-th response; a client that has read `read` of them waits only for later ones, and
while its connection is up it goes back to the loop only when no complete frame is left.

Main results: `Sender.step` and `Receiver.step`.
-/

namespace ReactorNet.Rpc

open Lib

/-- What the client does without the network. -/
def Client.Action.isLocal : Client.Action → Bool
  | .recv _ | .up => false
  | _ => true

/-! ## Bodies that fit -/

/-- The largest body that fits a frame of the default limit. -/
def kMaxSessionBody : Nat := FrameReader.kDefaultMaxFrameSize - kHeaderSize

theorem le_kMaxBodyLen {n : Nat} (h : n ≤ kMaxSessionBody) : n ≤ kMaxBodyLen :=
  h.trans (by decide)

theorem accepts_of_le {header : MessageHeader} {body : Bytes} (hMagic : header.magic = kMagic)
    (hLen : header.bodyLen = UInt32.ofNat body.length) (hBody : body.length ≤ kMaxSessionBody) :
    FrameReader.default.Accepts (header, body) := by
  refine FrameReader.accepts_of_fits hMagic hLen ?_ (le_kMaxBodyLen hBody)
  have hMax : kHeaderSize + kMaxSessionBody ≤ FrameReader.default.maxFrameSize := by decide
  omega

/-- The request bodies fit a frame. -/
def RequestsFit (c : Client) : Prop :=
  ∀ spec ∈ c.calls, ∀ body, RawCodec.encodeRequest spec.request = some body →
    body.length ≤ kMaxSessionBody

/-! ## The requests of the ledger -/

/-- The frame that carries the request of an entry of the ledger. -/
def requestFrame (serializerId : UInt8) (k : Nat) (e : Nat × Bytes) : Frame :=
  (requestHeader serializerId (idOf k) e.2, e.2)

/-- The requests of the ledger, in its order. -/
def requestFrames (serializerId : UInt8) (issued : Issued) : List Frame :=
  issued.mapIdx (requestFrame serializerId)

@[simp] theorem length_requestFrames (serializerId : UInt8) (issued : Issued) :
    (requestFrames serializerId issued).length = issued.length :=
  List.length_mapIdx

theorem requestFrames_append (serializerId : UInt8) (issued : Issued) (e : Nat × Bytes) :
    requestFrames serializerId (issued ++ [e]) =
      requestFrames serializerId issued ++ [requestFrame serializerId issued.length e] :=
  List.mapIdx_concat

theorem getElem?_requestFrames {serializerId : UInt8} {issued : Issued} {k : Nat} {f : Frame}
    (h : (requestFrames serializerId issued)[k]? = some f) :
    ∃ e, issued[k]? = some e ∧ f = requestFrame serializerId k e := by
  rw [requestFrames, List.getElem?_mapIdx] at h
  obtain ⟨e, he, hf⟩ := Option.map_eq_some_iff.mp h
  exact ⟨e, he, hf.symm⟩

/-! ## Steps that start a call, and others -/

namespace Client

variable {c c' : Client}

/-- A step gives out an id and hands a request to the connection, or it does neither. Only
`up` makes a connection take messages again. -/
theorem Outcome.started_or_quiet {a : Action} (h : c.Outcome a c') (hUp : a ≠ .up) :
    (∃ spec body requestId next, c.connection = true ∧
      RawCodec.encodeRequest spec.request = some body ∧
      c.allocateRequestId = some (requestId, next) ∧ c' = c.started spec body requestId next) ∨
    c'.nextRequestId = c.nextRequestId ∧ c'.pendings ⊆ c.pendings ∧
      c'.transport.sent = c.transport.sent ∧
      (c'.transport.state = .kConnected → c.transport.state = .kConnected) := by
  cases h with
  | started spec body requestId next hConn hBody hId =>
    exact .inl ⟨spec, body, requestId, next, hConn.1, hBody, hId, rfl⟩
  | up => exact absurd rfl hUp
  | disconnected =>
    refine .inr ⟨rfl, List.Subset.refl _, by simp, fun hState => ?_⟩
    by_contra hNot
    simp [Transport.shutdown, hNot] at hState
  | closed =>
    refine .inr ⟨rfl, List.Subset.refl _, ?_, fun hState => ?_⟩
    · simp only
      split_ifs <;> simp
    · by_contra hNot
      simp only at hState
      -- a forced close leaves every state but the two last ones for `kDisconnecting`
      split_ifs at hState
      · simp only [Transport.forceClose] at hState
        split_ifs at hState
        exact hNot hState
      · exact hNot hState
  | down =>
    refine .inr ⟨rfl, List.nil_subset _, rfl, fun hState => ?_⟩
    cases hState
  | broken | alien => exact .inr ⟨rfl, List.nil_subset _, rfl, id⟩
  | answered | timedOut => exact .inr ⟨rfl, Ledger.erase_subset .., rfl, id⟩
  | unconnected | unencodable | returned | waiting | late | failed | gone | expiredAll | stale
  | received | expired => exact .inr ⟨rfl, List.Subset.refl _, rfl, id⟩

/-- Only `up` makes a connection. -/
theorem Outcome.connection_eq_false {a : Action} (h : c.Outcome a c') (hUp : a ≠ .up)
    (hConn : c.connection = false) : c'.connection = false := by
  cases h with
  | up => exact absurd rfl hUp
  | down => rfl
  | unconnected | unencodable | started | disconnected | returned | waiting | broken | alien | late
  | answered | failed | closed | gone | expiredAll | stale | timedOut | received | expired =>
    exact hConn

end Client

/-! ## What was sent -/

/-- `fs` are the requests that the connection has taken. -/
structure Sender (c : Client) (issued : Issued) (fs : List Frame) : Prop where
  ledger : Ledger c issued
  ascending : (issued.map Prod.fst).Pairwise (· < ·)
  front : fs <+: requestFrames c.serializerId issued
  whole : c.transport.state = .kConnected → fs = requestFrames c.serializerId issued

theorem idOf_inj_of_lt {i j : Nat} (hi : i < 2 ^ 32) (hj : j < 2 ^ 32) (h : idOf i = idOf j) :
    i = j := by
  have hNat := congrArg UInt32.toNat h
  simp only [idOf, UInt32.toNat_ofNat'] at hNat
  omega

/-- A step that gives out no id leaves the ledger as it is. -/
theorem Ledger.of_next {c c' : Client} {issued : Issued} (h : Ledger c issued)
    {a : Client.Action} (hStep : c.Outcome a c') (hUp : a ≠ .up)
    (hLength : c'.calls.length < 2 ^ 32) (hNext : c'.nextRequestId = c.nextRequestId) :
    Ledger c' issued := by
  obtain ⟨more, -, hLedger, -, -⟩ := h.step hStep hUp hLength
  have hLe := hLedger.length
  rw [List.length_append] at hLe
  -- the counter tells how long the ledger is
  have hSame : idOf (issued ++ more).length = idOf issued.length := by
    rw [← hLedger.next, ← h.next, hNext]
  have hNil := idOf_inj_of_lt (by rw [List.length_append]; omega) (by omega) hSame
  rw [List.length_append, Nat.add_eq_left, List.length_eq_zero_iff] at hNil
  rwa [hNil, List.append_nil] at hLedger

namespace Sender

variable {c c' : Client} {issued : Issued} {fs : List Frame}

theorem new (serializerId : UInt8) (frameReader : FrameReader) :
    Sender (Client.new serializerId frameReader) [] [] where
  ledger := by
    refine ⟨rfl, Nat.le_refl _, by simp, ?_, ?_, ?_, ?_, ?_, ?_⟩ <;> simp [Client.new]
  ascending := List.Pairwise.nil
  front := List.nil_prefix
  whole := fun _ => rfl

/-- The calls of the ledger are calls that were made. -/
theorem lt_calls (h : Sender c issued fs) {e : Nat × Bytes} (he : e ∈ issued) :
    e.1 < c.calls.length := by
  obtain ⟨spec, hSpec, -⟩ := h.ledger.call e he
  exact (List.getElem?_eq_some_iff.mp hSpec).1

/-- **Requests go out in the order of the ledger.** What a step adds to the ledger is a new
call of a connected client, and what it adds to the stream and to the table is that call's. -/
theorem step (h : Sender c issued fs) {a : Client.Action} (hStep : c.Outcome a c') (hUp : a ≠ .up)
    (hLength : c'.calls.length < 2 ^ 32) :
    ∃ more new, Sender c' (issued ++ more) (fs ++ new) ∧
      c'.transport.sent = c.transport.sent ++ new.map encodeFrame ∧
      (∀ e ∈ more, e.1 = c.calls.length ∧ c.connection = true ∧ c'.completed = c.completed) ∧
      ∀ e ∈ c'.pendings, e ∈ c.pendings ∨ e.1 = idOf issued.length ∧ more ≠ [] := by
  obtain ⟨hSerializer, -, -, -⟩ := Ledger.stable_of_step hStep
  rcases hStep.started_or_quiet hUp with
    ⟨spec, body, requestId, next, hConn, hBody, hId, rfl⟩ | ⟨hNext, hPendings, hSent, hState⟩
  · -- a call was started: its id is the next in order
    have hCount := h.ledger.room (by simpa [Client.started] using hLength)
    rw [h.ledger.allocate hCount] at hId
    cases hId
    have hAscending : ((issued ++ [(c.calls.length, body)]).map Prod.fst).Pairwise (· < ·) := by
      rw [List.map_append, List.pairwise_append]
      refine ⟨h.ascending, by simp, ?_⟩
      intro x hx y hy
      obtain ⟨e, he, rfl⟩ := List.mem_map.mp hx
      rw [List.mem_singleton.mp hy]
      exact h.lt_calls he
    have hMore : ∀ e ∈ [(c.calls.length, body)], e.1 = c.calls.length ∧ c.connection = true ∧
        (c.started spec body (idOf issued.length) (idOf (issued.length + 1))).completed =
          c.completed := by
      intro e he
      rw [List.mem_singleton.mp he]
      exact ⟨rfl, hConn, rfl⟩
    have hTable : ∀ e ∈ (c.started spec body (idOf issued.length)
        (idOf (issued.length + 1))).pendings, e ∈ c.pendings ∨
          e.1 = idOf issued.length ∧ [(c.calls.length, body)] ≠ [] := by
      intro e he
      refine (List.mem_append.mp he).imp id fun he => ?_
      rw [List.mem_singleton.mp he]
      exact ⟨rfl, by simp⟩
    have hFrames := requestFrames_append c.serializerId issued (c.calls.length, body)
    by_cases hState : c.transport.state = .kConnected
    · refine ⟨[(c.calls.length, body)], [requestFrame c.serializerId issued.length
        (c.calls.length, body)], ⟨h.ledger.start hBody, hAscending, ?_, fun _ => ?_⟩, ?_, hMore,
        hTable⟩
      · rw [h.whole hState]
        exact hFrames ▸ List.prefix_rfl
      · rw [h.whole hState]
        exact hFrames.symm
      · simp [Client.started, Transport.send_sent_of_connected hState, requestFrame]
    · -- the connection drops the request
      refine ⟨[(c.calls.length, body)], [], ⟨h.ledger.start hBody, hAscending, ?_, ?_⟩, ?_, hMore,
        hTable⟩
      · rw [List.append_nil]
        exact h.front.trans (hFrames ▸ List.prefix_append ..)
      · intro hState'
        simp only [Client.started, Transport.send_state] at hState'
        exact absurd hState' hState
      · simp [Client.started, Transport.send_of_not_connected hState]
  · refine ⟨[], [], ?_, by simpa using hSent, by simp, fun e he => .inl (hPendings he)⟩
    rw [List.append_nil, List.append_nil]
    refine ⟨h.ledger.of_next hStep hUp hLength hNext, h.ascending, ?_, fun hState' => ?_⟩
    · rw [hSerializer]
      exact h.front
    · rw [hSerializer]
      exact h.whole (hState hState')

end Sender

/-! ## What is waited for -/

theorem FrameReader.cut_nil (reader : FrameReader) : reader.cutter.cut [] = .more := rfl

/-- A client that reads everything its connection delivers. -/
structure Receiver (c : Client) : Prop where
  tables : c.Tables
  /-- A connection that takes messages is known to the client. -/
  attached : c.transport.state = .kConnected → c.connection = true
  /-- The table of a lost connection is worked through when it takes no more messages. -/
  lost : ∀ rest calls, c.control = .failing rest (.down calls) → c.transport.state ≠ .kConnected
  /-- Between two reads of an open connection no complete frame is left. -/
  awaiting : c.transport.state = .kConnected →
    (c.control = .idle ∨ ∃ rest, c.control = .expiring rest) →
    c.frameReader.cutter.cut c.input.contents = .more

namespace Receiver

variable {c c' : Client}

theorem new (serializerId : UInt8) (frameReader : FrameReader) :
    Receiver (Client.new serializerId frameReader) where
  tables := Client.Tables.new serializerId frameReader
  attached := fun h => by cases h
  lost := fun _ _ h => by cases h
  awaiting := fun h => by cases h

/-- A step that leaves connection, input and control alone. -/
theorem quiet (h : Receiver c) (hTables : c'.Tables) (hConn : c'.connection = c.connection)
    (hState : c'.transport.state = .kConnected → c.transport.state = .kConnected)
    (hReader : c'.frameReader = c.frameReader) (hInput : c'.input = c.input)
    (hControl : c'.control = c.control) : Receiver c' where
  tables := hTables
  attached := fun hUp => hConn ▸ h.attached (hState hUp)
  lost := fun rest calls hLost hUp => h.lost rest calls (hControl ▸ hLost) (hState hUp)
  awaiting := by
    intro hUp hIdle
    rw [hReader, hInput]
    exact h.awaiting (hState hUp) (hControl ▸ hIdle)

/-- A step into a function of the client that is not through yet. -/
theorem busy (h : Receiver c) (hTables : c'.Tables) (hConn : c'.connection = c.connection)
    (hState : c'.transport.state = .kConnected → c.transport.state = .kConnected)
    (hControl : c'.control = .messageLoop ∨
      ∃ rest after, c'.control = .failing rest after ∧
        ∀ calls, after = .down calls → c'.transport.state ≠ .kConnected) : Receiver c' where
  tables := hTables
  attached := fun hUp => hConn ▸ h.attached (hState hUp)
  lost := by
    intro rest calls hLost
    rcases hControl with hLoop | ⟨rest', after, hFailing, hDown⟩
    · rw [hLoop] at hLost
      cases hLost
    · rw [hFailing] at hLost
      cases hLost
      exact hDown calls rfl
  awaiting := by
    intro _ hIdle
    rcases hControl with hLoop | ⟨rest', after, hFailing, -⟩
    · rcases hIdle with hIdle | ⟨rest, hIdle⟩ <;> rw [hLoop] at hIdle <;> cases hIdle
    · rcases hIdle with hIdle | ⟨rest, hIdle⟩ <;> rw [hFailing] at hIdle <;> cases hIdle

/-- **Every step of a client keeps it reading.** -/
theorem step (h : Receiver c) {a : Client.Action} (hStep : c.Outcome a c') : Receiver c' := by
  have hTables := h.tables.step hStep
  cases hStep with
  | unconnected | unencodable | returned => exact h.quiet hTables rfl id rfl rfl rfl
  | started => exact h.quiet hTables rfl (by simp [Client.started]) rfl rfl rfl
  | disconnected =>
    refine h.quiet hTables rfl (fun hState => ?_) rfl rfl rfl
    by_contra hNot
    simp [Transport.shutdown, hNot] at hState
  | waiting _ _ _ hCut =>
    exact ⟨hTables, h.attached, by simp, fun _ _ => hCut⟩
  | broken | alien => exact h.busy hTables rfl id (.inr ⟨_, _, rfl, by simp⟩)
  | late _ _ _ _ hControl => exact h.busy hTables rfl id (.inl hControl)
  | answered _ _ _ _ _ hControl => exact h.busy hTables rfl id (.inl hControl)
  | failed _ rest after _ _ hControl =>
    refine h.busy hTables rfl id (.inr ⟨_, _, rfl, ?_⟩)
    rintro calls rfl
    exact h.lost rest calls hControl
  | closed =>
    -- the connection was known, so it takes no more messages
    have hState : (if c.connection then c.transport.forceClose else c.transport).state ≠
        .kConnected := by
      intro hUp
      by_cases hConn : c.connection = true
      · simp only [hConn, if_true, Transport.forceClose] at hUp
        split_ifs at hUp with hReading
        exact hReading (.inl hUp)
      · simp only [if_neg hConn] at hUp
        exact hConn (h.attached hUp)
    exact ⟨hTables, fun hUp => absurd hUp hState, by simp, fun hUp => absurd hUp hState⟩
  | gone _ calls _ hControl =>
    have hState := h.lost [] calls hControl
    exact ⟨hTables, h.attached, by simp, fun hUp => absurd hUp hState⟩
  | expiredAll _ _ hControl =>
    exact ⟨hTables, h.attached, by simp, fun hUp _ => h.awaiting hUp (.inr ⟨_, hControl⟩)⟩
  | stale _ t rest _ hControl =>
    exact ⟨hTables, h.attached, by simp, fun hUp _ => h.awaiting hUp (.inr ⟨_, hControl⟩)⟩
  | timedOut _ t rest _ _ hControl =>
    exact ⟨hTables, h.attached, by simp [Client.complete, Client.rememberTimedOut],
      fun hUp _ => h.awaiting hUp (.inr ⟨_, hControl⟩)⟩
  | received => exact h.busy hTables rfl id (.inl rfl)
  | expired _ _ hControl =>
    exact ⟨hTables, h.attached, by simp, fun hUp _ => h.awaiting hUp (.inl hControl)⟩
  | up _ hControl =>
    refine ⟨hTables, fun _ => rfl, ?_, fun _ _ => ?_⟩
    · intro rest calls hLost
      rw [show c.onConnectionUp.control = c.control from rfl, hControl] at hLost
      cases hLost
    · rw [show c.onConnectionUp.input = Buffer.new kInitialSize from rfl, Buffer.contents_new]
      exact FrameReader.cut_nil _
  | down =>
    have hState : c.onConnectionDown.transport.state ≠ .kConnected := fun hUp => by cases hUp
    exact ⟨hTables, fun hUp => absurd hUp hState, fun _ _ _ => hState,
      fun hUp => absurd hUp hState⟩

end Receiver

/-- The calls in the table wait for responses behind the first `read`. -/
def Outstanding (c : Client) (issued : Issued) (read : Nat) : Prop :=
  ∀ e ∈ c.pendings, ∃ k, read ≤ k ∧ k < issued.length ∧ e.1 = idOf k

namespace Outstanding

variable {c c' : Client} {issued more : Issued} {read : Nat}

theorem mono (h : Outstanding c issued read) (hRead : read ≤ issued.length)
    (hPendings : ∀ e ∈ c'.pendings, e ∈ c.pendings ∨ e.1 = idOf issued.length ∧ more ≠ []) :
    Outstanding c' (issued ++ more) read := by
  intro e he
  rcases hPendings e he with he | ⟨hId, hMore⟩
  · obtain ⟨k, hk, hLt, hId⟩ := h e he
    exact ⟨k, hk, by rw [List.length_append]; omega, hId⟩
  · have hPos := List.length_pos_iff.mpr hMore
    exact ⟨issued.length, hRead, by rw [List.length_append]; omega, hId⟩

/-- The next response was read, and no call waits for it any more. -/
theorem took (h : Outstanding c issued read) (hGone : idOf read ∉ c.pendings.map Prod.fst) :
    Outstanding c issued (read + 1) := by
  intro e he
  obtain ⟨k, hk, hLt, hId⟩ := h e he
  refine ⟨k, Nat.lt_of_le_of_ne hk ?_, hLt, hId⟩
  rintro rfl
  exact hGone (hId ▸ List.mem_map_of_mem he)

end Outstanding

namespace Client

variable {c c' : Client}

/-- What a step does to the input: nothing, or it reads on, or it takes a frame off the front
and nobody waits for that frame's id any more. -/
theorem Outcome.input_cases {a : Action} (h : c.Outcome a c') (hTables : c.Tables)
    (hUp : a ≠ .up) :
    c'.input.contents = c.input.contents ∧ a.isLocal = true ∨
    (∃ chunk, a = .recv chunk ∧ c'.input.contents = c.input.contents ++ chunk) ∨
    ∃ f n, c.frameReader.cutter.cut c.input.contents = .frame f n ∧
      c'.input.contents = c.input.contents.drop n ∧
      f.1.requestId ∉ c'.pendings.map Prod.fst := by
  cases h with
  | alien _ f n _ _ hCut =>
    exact .inr (.inr ⟨f, n, hCut, Buffer.contents_retrieve .., List.not_mem_nil⟩)
  | late _ f n _ _ hCut _ hFind =>
    exact .inr (.inr ⟨f, n, hCut, Buffer.contents_retrieve .., Pendings.find_eq_none_iff.mp hFind⟩)
  | answered _ f n _ _ _ hCut =>
    exact .inr (.inr ⟨f, n, hCut, Buffer.contents_retrieve ..,
      Pendings.notMem_erase hTables.pending_nodup⟩)
  | received chunk => exact .inr (.inl ⟨chunk, rfl, Buffer.contents_append ..⟩)
  | up => exact absurd rfl hUp
  | unconnected | unencodable | started | disconnected | returned | waiting | broken | failed
  | closed | gone | expiredAll | stale | timedOut | expired | down => exact .inl ⟨rfl, rfl⟩

end Client

/-! ## Refused calls -/

/-- A call that was refused for its request is not in the ledger. -/
def Refusals (c : Client) (issued : Issued) : Prop :=
  ∀ e ∈ c.completed, e.1 < c.calls.length ∧
    (e.2.status = .kBadRequest → e.1 ∉ issued.map Prod.fst)

namespace Refusals

variable {c c' : Client} {issued more : Issued}

theorem mono (h : Refusals c issued) (hCalls : c.calls <+: c'.calls)
    (hMore : ∀ e ∈ more, e.1 = c.calls.length) (hCompleted : c'.completed = c.completed) :
    Refusals c' (issued ++ more) := by
  intro e he
  rw [hCompleted] at he
  obtain ⟨hLt, hNot⟩ := h e he
  refine ⟨Nat.lt_of_lt_of_le hLt hCalls.length_le, fun hStatus hMem => ?_⟩
  rw [List.map_append, List.mem_append] at hMem
  -- what was added to the ledger is a call that did not exist then
  rcases hMem with hMem | hMem
  · exact hNot hStatus hMem
  · obtain ⟨e', he', hEq⟩ := List.mem_map.mp hMem
    have := hMore e' he'
    omega

/-- One more completion, of an old call with another status, or of a new one. -/
theorem complete (h : Refusals c issued) (hCalls : c.calls <+: c'.calls) {call : Nat}
    {r : Response} (hCompleted : c'.completed = c.completed ++ [(call, r)])
    (hCall : call < c'.calls.length)
    (hBad : r.status = .kBadRequest → call ∉ issued.map Prod.fst) : Refusals c' issued := by
  intro e he
  rw [hCompleted] at he
  rcases List.mem_append.mp he with he | he
  · exact ⟨Nat.lt_of_lt_of_le (h e he).1 hCalls.length_le, (h e he).2⟩
  · rw [List.mem_singleton.mp he]
    exact ⟨hCall, hBad⟩

/-- **A call that completed with `kBadRequest` was never given an id**, if the peer does not
answer so. -/
theorem step {fs : List Frame} (h : Refusals c issued) (hSender : Sender c issued fs)
    {a : Client.Action} (hStep : c.Outcome a c')
    (hMore : ∀ e ∈ more, e.1 = c.calls.length ∧ c'.completed = c.completed)
    (hPeer : ∀ f n, c.frameReader.cutter.cut c.input.contents = .frame f n →
      f.1.status ≠ .kBadRequest) : Refusals c' (issued ++ more) := by
  have hCalls := (Ledger.stable_of_step hStep).2.2.1
  -- a step that completes a call adds nothing to the ledger
  have hNil : ∀ {call : Nat} {r : Response}, c'.completed = c.completed ++ [(call, r)] →
      more = [] := by
    intro call r hCompleted
    refine List.eq_nil_iff_forall_not_mem.mpr fun e he => ?_
    rw [(hMore e he).2] at hCompleted
    simp at hCompleted
  have hOld : ∀ {call : Nat} {r : Response}, c'.completed = c.completed ++ [(call, r)] →
      call < c'.calls.length → (r.status = .kBadRequest → call ∉ issued.map Prod.fst) →
      Refusals c' (issued ++ more) := by
    intro call r hCompleted hCall hBad
    rw [hNil hCompleted, List.append_nil]
    exact h.complete hCalls hCompleted hCall hBad
  have hNew : c.calls.length ∉ issued.map Prod.fst := by
    intro hMem
    obtain ⟨e, he, hEq⟩ := List.mem_map.mp hMem
    have := hSender.lt_calls he
    omega
  cases hStep with
  | unconnected spec => exact hOld rfl (by simp [Client.complete]) fun _ => hNew
  | unencodable spec => exact hOld rfl (by simp [Client.complete]) fun _ => hNew
  | answered _ f n pending _ _ hCut _ hFind =>
    exact hOld rfl (hSender.ledger.lt_of_owns (hSender.ledger.find hFind)) fun hStatus =>
      absurd hStatus (hPeer f n hCut)
  | failed _ rest after entry _ hControl hEntry =>
    exact hOld rfl (hSender.ledger.held rest after hControl entry (List.mem_of_getElem? hEntry))
      fun hStatus => by cases hStatus
  | timedOut _ t rest pending _ _ hFind =>
    exact hOld rfl (hSender.ledger.lt_of_owns (hSender.ledger.find hFind))
      fun hStatus => by cases hStatus
  | started | disconnected | returned | waiting | broken | alien | late | closed | gone
  | expiredAll | stale | received | expired | up | down =>
    exact h.mono hCalls (fun e he => (hMore e he).1) rfl

end Refusals

end ReactorNet.Rpc
