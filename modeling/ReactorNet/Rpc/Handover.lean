import ReactorNet.Rpc.Completion
import ReactorNet.Rpc.Ledger

/-!
# ReactorNet — requests that are really sent

`startCallInLoop` decides by the client's own `connected_` whether a call can be
started, and `TcpConnection::send` decides by the state of the connection whether a
request is sent. The two change at different times. A connection leaves `kConnected`
when the client disconnects, when `failConnection` closes it, and when the peer ends
its stream while output is still buffered; the client hears of it only when the
connection is down. A call that is started in between is recorded, and its request is
dropped.

`Handover` is a client with a record of the messages that the connection accepted, and
for which call each of them was.

Main result: `pending_only_if_sent` — as long as no call is started in that window,
every pending call was sent, and every other one completed at once. A call that is
started in the window is left pending and was not sent.
-/

namespace ReactorNet.Rpc

open Lib

structure Handover where
  client : Client
  /-- The messages that `send` accepted, with the call that was being started. -/
  handed : List (Nat × Bytes) := []

namespace Handover

/-- What a client can do, and what its connection can do without it. -/
inductive Action where
  | client (a : Client.Action)
  /-- The peer ends its stream while output is buffered: `handleRead` leaves `kConnected`
  and tells no one. -/
  | halfClosed

/-- What the connection accepted between two states. -/
def accepted (before after : Client) : List (Nat × Bytes) :=
  (after.transport.sent.drop before.transport.sent.length).map fun m => (before.calls.length, m)

def step (s : Handover) : Action → Option Handover
  | .client a => (s.client.step a).map fun c => ⟨c, s.handed ++ accepted s.client c⟩
  | .halfClosed =>
    if s.client.running = [] ∧ s.client.control = .idle ∧ s.client.transport.Reading then
      some { s with
        client := { s.client with
          transport := { s.client.transport with state := .kDisconnecting } } }
    else none

/-- A client before its first connection. -/
def start (serializerId : UInt8) (frameReader : FrameReader) : Handover :=
  ⟨Client.new serializerId frameReader, []⟩

/-- The complete request frame of the pending call was accepted when it was started. -/
def Sent (s : Handover) (e : UInt32 × PendingCall) : Prop :=
  ∃ spec body, s.client.calls[e.2.complete]? = some spec ∧
    RawCodec.encodeRequest spec.request = some body ∧
    (e.2.complete, encodeFrame (requestHeader s.client.serializerId e.1 body, body)) ∈ s.handed

/-- The call was completed between the two states, by the client itself. -/
def RefusedAtOnce (before after : Handover) : Prop :=
  (before.client.calls.length, connectionClosedResponse) ∈ after.client.completed ∨
    (before.client.calls.length, badRequestResponse) ∈ after.client.completed

/-- A call with a request that can be encoded is started on a client that counts as
connected only while its connection accepts messages. -/
def CallsWhileOpen (s : Handover) : Action → Prop
  | .client (.call spec) =>
    s.client.connection = true → s.client.connected = true →
      (RawCodec.encodeRequest spec.request).isSome = true →
      s.client.transport.state = .kConnected
  | _ => True

instance (s : Handover) (a : Action) : Decidable (s.CallsWhileOpen a) := by
  unfold CallsWhileOpen
  split <;> infer_instance

/-! ## What a step does to the table -/

variable {s s' : Handover} {a : Action}

/-- A step is one of the client, with what the connection accepted meanwhile, or the end of
the peer's stream, which leaves all but the state of the connection as it was. -/
theorem step_cases (h : s.step a = some s') :
    (∃ action c, a = .client action ∧ s.client.Outcome action c ∧
      s' = ⟨c, s.handed ++ accepted s.client c⟩) ∨
    a = .halfClosed ∧ s' = { s with
      client := { s.client with
        transport := { s.client.transport with state := .kDisconnecting } } } := by
  cases a with
  | client action =>
    obtain ⟨c, hc, rfl⟩ := Option.map_eq_some_iff.mp h
    exact .inl ⟨action, c, rfl, Client.step_outcome hc, rfl⟩
  | halfClosed =>
    simp only [step] at h
    split_ifs at h
    exact .inr ⟨rfl, (Option.some.inj h).symm⟩

/-- A call gets into the table when it is started, and in no other way. -/
theorem pendings_of_outcome {c c' : Client} {a : Client.Action} (h : c.Outcome a c') :
    c'.pendings ⊆ c.pendings ∨ ∃ spec body requestId next,
      a = .call spec ∧ c.connection = true ∧ c.connected = true ∧
        RawCodec.encodeRequest spec.request = some body ∧
        c' = c.started spec body requestId next := by
  have hErase : ∀ id, Pendings.erase c.pendings id ⊆ c.pendings := fun id =>
    List.eraseP_subset
  cases h with
  | started spec body requestId next hUp hBody hId =>
    exact .inr ⟨spec, body, requestId, next, rfl, hUp.1, hUp.2, hBody, rfl⟩
  | answered | timedOut => exact .inl (hErase _)
  | broken | alien | down => exact .inl (List.nil_subset _)
  | unconnected | unencodable | disconnected | returned | waiting | late | failed | closed | gone
  | expiredAll | stale | received | expired | up => exact .inl (List.Subset.refl _)

/-- Only a call that is started hands a message over. -/
theorem accepted_of_outcome {c c' : Client} {a : Client.Action} (h : c.Outcome a c')
    (hCall : ∀ spec, a ≠ .call spec) : accepted c c' = [] := by
  have hSame : c'.transport.sent = c.transport.sent → accepted c c' = [] := fun h => by
    simp [accepted, h]
  cases h with
  | unconnected spec | unencodable spec | started spec => exact absurd rfl (hCall spec)
  | disconnected => exact hSame (Transport.shutdown_sent _)
  | closed =>
    refine hSame ?_
    show (if c.connection then c.transport.forceClose else c.transport).sent = _
    split_ifs
    · exact Transport.forceClose_sent _
    · rfl
  | up => simp [accepted, Client.onConnectionUp, Transport.established]
  | returned | waiting | broken | alien | late | answered | failed | gone | expiredAll | stale
  | timedOut | received | expired | down => exact hSame rfl

/-- A started call hands its request over, if the connection accepts messages. -/
theorem accepted_started (c : Client) (spec : CallSpec) (body : Bytes) (requestId next : UInt32) :
    accepted c (c.started spec body requestId next) =
      if c.transport.state = .kConnected then
        [(c.calls.length, encodeFrame (requestHeader c.serializerId requestId body, body))]
      else [] := by
  show (((c.transport.send _).sent.drop _).map _) = _
  split_ifs with hOpen
  · rw [Transport.send_sent_of_connected hOpen, List.drop_left]
    rfl
  · rw [Transport.send_of_not_connected hOpen, List.drop_length]
    rfl

/-! ## Every pending call was sent -/

theorem Sent.of_grow {e : UInt32 × PendingCall} (h : s.Sent e)
    (hSerializer : s'.client.serializerId = s.client.serializerId)
    (hCalls : s.client.calls <+: s'.client.calls) (hHanded : s.handed ⊆ s'.handed) : s'.Sent e := by
  obtain ⟨spec, body, hSpec, hBody, hMem⟩ := h
  refine ⟨spec, body, getElem?_mono hCalls hSpec, hBody, ?_⟩
  rw [hSerializer]
  exact hHanded hMem

/-- The step lemma: a step that meets the condition keeps every pending call sent. -/
theorem sent_step (hStep : s.step a = some s') (hOpen : s.CallsWhileOpen a)
    (h : ∀ e ∈ s.client.pendings, s.Sent e) : ∀ e ∈ s'.client.pendings, s'.Sent e := by
  rcases step_cases hStep with ⟨action, c, rfl, hOutcome, rfl⟩ | ⟨-, rfl⟩
  · obtain ⟨hSerializer, -, hCalls, -⟩ := Ledger.stable_of_step hOutcome
    have hOld : ∀ e ∈ s.client.pendings,
        Sent ⟨c, s.handed ++ accepted s.client c⟩ e := fun e he =>
      (h e he).of_grow hSerializer hCalls (List.subset_append_left _ _)
    rcases pendings_of_outcome hOutcome with
      hSub | ⟨spec, body, requestId, next, rfl, hUp, hUp', hBody, rfl⟩
    · exact fun e he => hOld e (hSub he)
    · -- the new entry is the last one, and its request is the message handed over
      have hState := hOpen hUp hUp' (by rw [hBody]; rfl)
      intro e he
      rcases List.mem_append.mp he with he | he
      · exact hOld e he
      · obtain rfl := List.mem_singleton.mp he
        refine ⟨spec, body, ?_, hBody, ?_⟩
        · exact List.getElem?_concat_length
        · rw [accepted_started, if_pos hState]
          exact List.mem_append_right _ (List.mem_singleton_self _)
  · exact h

/-- No message was handed over for a call that does not exist yet. -/
theorem handed_lt_step (hStep : s.step a = some s')
    (h : ∀ m ∈ s.handed, m.1 < s.client.calls.length) :
    ∀ m ∈ s'.handed, m.1 < s'.client.calls.length := by
  rcases step_cases hStep with ⟨action, c, rfl, hOutcome, rfl⟩ | ⟨-, rfl⟩
  · obtain ⟨-, -, hCalls, -⟩ := Ledger.stable_of_step hOutcome
    intro m hm
    rcases List.mem_append.mp hm with hm | hm
    · exact Nat.lt_of_lt_of_le (h m hm) hCalls.length_le
    · -- a message is accepted only by a step that adds a call
      obtain ⟨message, hMessage, rfl⟩ := List.mem_map.mp hm
      have hNonempty : accepted s.client c ≠ [] := List.ne_nil_of_mem hm
      have hEmpty := accepted_of_outcome hOutcome
      cases hOutcome with
      | unconnected | unencodable | started => simp [Client.complete, Client.started]
      | _ => exact absurd (hEmpty (by simp)) hNonempty
  · exact h

/-- A call on an open connection is sent, and any other completes at once. -/
theorem call_step {spec : CallSpec} (hStep : s.step (.client (.call spec)) = some s')
    (hOpen : s.CallsWhileOpen (.client (.call spec))) :
    (∃ e ∈ s'.client.pendings, e.2.complete = s.client.calls.length ∧ s'.Sent e) ∨
      RefusedAtOnce s s' := by
  obtain ⟨c, hc, rfl⟩ := Option.map_eq_some_iff.mp hStep
  have hOutcome := Client.step_outcome hc
  cases hOutcome with
  | unconnected => exact .inr (.inl (List.mem_append_right _ (List.mem_singleton_self _)))
  | unencodable => exact .inr (.inr (List.mem_append_right _ (List.mem_singleton_self _)))
  | started _ body requestId next hUp hBody hId =>
    have hState := hOpen hUp.1 hUp.2 (by rw [hBody]; rfl)
    refine .inl ⟨(requestId, s.client.entryFor requestId spec),
      List.mem_append_right _ (List.mem_singleton_self _), rfl, spec, body, ?_, hBody, ?_⟩
    · exact List.getElem?_concat_length
    · rw [accepted_started, if_pos hState]
      exact List.mem_append_right _ (List.mem_singleton_self _)

/-- A call that is started in the window is pending and was not sent. -/
theorem not_sent_of_closed {spec : CallSpec}
    (hHanded : ∀ m ∈ s.handed, m.1 < s.client.calls.length)
    (hStep : s.step (.client (.call spec)) = some s')
    (hClosed : ¬ s.CallsWhileOpen (.client (.call spec))) :
    ∃ e ∈ s'.client.pendings, e.2.complete = s.client.calls.length ∧ ¬ s'.Sent e := by
  obtain ⟨hUp, hUp', hBody, hState⟩ : s.client.connection = true ∧ s.client.connected = true ∧
      (RawCodec.encodeRequest spec.request).isSome = true ∧
      s.client.transport.state ≠ .kConnected := by
    unfold CallsWhileOpen at hClosed
    tauto
  obtain ⟨c, hc, rfl⟩ := Option.map_eq_some_iff.mp hStep
  have hOutcome := Client.step_outcome hc
  cases hOutcome with
  | unconnected _ h => simp [hUp, hUp'] at h
  | unencodable _ _ h => simp [h] at hBody
  | started _ body requestId next _ _ hId =>
    refine ⟨(requestId, s.client.entryFor requestId spec),
      List.mem_append_right _ (List.mem_singleton_self _), rfl, ?_⟩
    rintro ⟨_, _, -, -, hMem⟩
    -- nothing is handed over now, and nothing was before the call existed
    rw [accepted_started, if_neg hState, List.append_nil] at hMem
    exact absurd (hHanded _ hMem) (lt_irrefl _)

/-- **A call is left pending only if its request was really sent.** In every run in which no
call is started on a connection that the client takes for open and that does not accept
messages any more, every pending call's complete request frame was accepted by the
connection, and a call that is started is sent or completes at once with
`kConnectionClosed` or `kBadRequest`. A call that is started in the window, in whatever
state, is left pending and was not sent. -/
theorem pending_only_if_sent (serializerId : UInt8) (frameReader : FrameReader) (s : Handover) :
    (ReachesBy Handover.step CallsWhileOpen (start serializerId frameReader) s →
      (∀ e ∈ s.client.pendings, s.Sent e) ∧
      ∀ spec s', s.step (.client (.call spec)) = some s' →
        s.CallsWhileOpen (.client (.call spec)) →
        (∃ e ∈ s'.client.pendings, e.2.complete = s.client.calls.length ∧ s'.Sent e) ∨
          RefusedAtOnce s s') ∧
    (Reaches Handover.step (start serializerId frameReader) s →
      ∀ spec s', s.step (.client (.call spec)) = some s' →
        ¬ s.CallsWhileOpen (.client (.call spec)) →
        ∃ e ∈ s'.client.pendings, e.2.complete = s.client.calls.length ∧ ¬ s'.Sent e) := by
  constructor
  · intro h
    refine ⟨?_, fun spec s' hStep hOpen => call_step hStep hOpen⟩
    exact h.invariant (P := fun s => ∀ e ∈ s.client.pendings, s.Sent e)
      (by simp [start, Client.new]) fun _ _ _ => sent_step
  · intro h spec s' hStep hClosed
    refine not_sent_of_closed ?_ hStep hClosed
    exact h.invariant (P := fun s => ∀ m ∈ s.handed, m.1 < s.client.calls.length)
      (by simp [start]) fun _ _ _ => handed_lt_step

/-- A call of `a.b` with no deadline. -/
def lostCall : CallSpec := ⟨⟨[0x61], [0x62], []⟩, 0⟩

/-- A call right after the connection is up is pending, and was sent. -/
theorem pending_only_if_sent_up :
    ∃ s, runAllBy Handover.step CallsWhileOpen (start kSerializerRaw FrameReader.default)
        [.client .up, .client (.call lostCall)] = some s ∧
      s.client.pendings.length = 1 ∧ ∀ e ∈ s.client.pendings, s.Sent e := by
  have hRun : (runAllBy Handover.step CallsWhileOpen (start kSerializerRaw FrameReader.default)
      [.client .up, .client (.call lostCall)]).map (fun s => s.client.pendings.length) =
      some 1 := by decide
  obtain ⟨s, hs, hLength⟩ := Option.map_eq_some_iff.mp hRun
  have hReach := reachesBy_of_runAllBy hs
  exact ⟨s, hs, hLength, ((pending_only_if_sent kSerializerRaw FrameReader.default s).1 hReach).1⟩

/-- The client disconnects and then calls: the call is pending, its request was never
sent, and there is no deadline to end it. -/
theorem pending_after_disconnect :
    ∃ s, runAll Handover.step (start kSerializerRaw FrameReader.default)
        [.client .up, .client .disconnect, .client (.call lostCall)] = some s ∧
      s.client.pendings = [(1, ⟨1, 0, none⟩)] ∧ s.client.completed = [] ∧
      ¬ s.Sent (1, ⟨1, 0, none⟩) := by
  have hRun : (runAll Handover.step (start kSerializerRaw FrameReader.default)
      [.client .up, .client .disconnect, .client (.call lostCall)]).map
        (fun s => (s.client.pendings, s.client.completed, s.handed)) =
      some ([(1, ⟨1, 0, none⟩)], [], []) := rfl
  obtain ⟨s, hs, hFields⟩ := Option.map_eq_some_iff.mp hRun
  rw [Prod.mk.injEq, Prod.mk.injEq] at hFields
  obtain ⟨hPendings, hCompleted, hHanded⟩ := hFields
  refine ⟨s, hs, hPendings, hCompleted, ?_⟩
  rintro ⟨_, _, -, -, hMem⟩
  rw [hHanded] at hMem
  exact absurd hMem List.not_mem_nil

end Handover

end ReactorNet.Rpc
