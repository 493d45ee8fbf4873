import ReactorNet.Rpc.Closing

/-!
# ReactorNet — the bytes left unparsed

`setMaxInputBufferSize` promises a bound on the bytes that stay in a connection's
input buffer. The message callback checks it where it waits for more of a frame.
The passes that end in a rejection return without the check, with whatever
followed the rejected frame still in the buffer, and the connection goes on
reading. `RpcServer.LeftBehind` describes what such a turn leaves.

Main results:

* `onMessage_bounded_iff` — a turn that does not force the connection closed keeps
  the bound exactly when what it leaves behind is within it.
* `input_bounded_iff` — the same for every turn of a connection.
-/

namespace ReactorNet.Rpc

open Lib

universe u

variable {σ : Type u}

namespace RpcServer

/-- The server has closed the connection by force. -/
def ForceClosed (conn : Conn σ) : Prop := Event.forceClose ∈ conn.trace

instance (conn : Conn σ) : Decidable (ForceClosed conn) :=
  inferInstanceAs (Decidable (_ ∈ _))

/-- Unless the connection was closed by force, the unparsed bytes are bounded. -/
def InputBounded (server : RpcServer σ) (conn : Conn σ) : Prop :=
  ¬ ForceClosed conn → conn.input.readableBytes ≤ server.inputLimit

instance (server : RpcServer σ) (conn : Conn σ) : Decidable (server.InputBounded conn) :=
  inferInstanceAs (Decidable (_ → _))

/-- A turn that starts with the bytes `b` ends in a rejection with `k` of them
unparsed: behind the first frame that is refused, or all that are left when a
frame declares too large a body. The frames before it are taken off one by one;
an answer that cannot be encoded forces the connection closed instead. -/
inductive LeftBehind (server : RpcServer σ) : σ → Bytes → Nat → Prop
  | refused {world : σ} {b : Bytes} {f : Frame} {n : Nat}
      (hCut : server.frameReader.cutter.cut b = .frame f n) (hFrame : ¬ Admitted f.1) :
      LeftBehind server world b (b.length - n)
  | tooLarge {world : σ} {b : Bytes} {header : MessageHeader}
      (hCut : server.frameReader.cutter.cut b = .broken)
      (hHeader : decodeHeader b = some header) : LeftBehind server world b b.length
  | malformed {world : σ} {b : Bytes} {f : Frame} {n k : Nat}
      (hCut : server.frameReader.cutter.cut b = .frame f n) (hAdmitted : Admitted f.1)
      (hFrame : ¬ server.Answerable f) (h : LeftBehind server world (b.drop n) k) :
      LeftBehind server world b k
  | answered {world : σ} {b : Bytes} {f : Frame} {n k : Nat}
      (hCut : server.frameReader.cutter.cut b = .frame f n) (hFrame : server.Answerable f)
      (hFits : (server.answer world f).1.payload.length ≤ kMaxBodyLen)
      (h : LeftBehind server (server.answer world f).2 (b.drop n) k) :
      LeftBehind server world b k

/-! ## What is left behind, by the verdict on the bytes -/

variable {server : RpcServer σ} {world : σ} {b : Bytes} {k : Nat}

theorem not_leftBehind_of_more (hCut : server.frameReader.cutter.cut b = .more) :
    ¬ server.LeftBehind world b k := by
  intro h
  cases h <;> simp_all

theorem not_leftBehind_of_badMagic (hCut : server.frameReader.cutter.cut b = .broken)
    (hHeader : decodeHeader b = none) : ¬ server.LeftBehind world b k := by
  intro h
  cases h <;> simp_all

theorem leftBehind_of_tooLarge {header : MessageHeader}
    (hCut : server.frameReader.cutter.cut b = .broken) (hHeader : decodeHeader b = some header) :
    server.LeftBehind world b k ↔ k = b.length := by
  constructor
  · intro h
    cases h <;> simp_all
  · rintro rfl
    exact .tooLarge hCut hHeader

section Frame

variable {server : RpcServer σ} {world : σ} {b : Bytes} {f : Frame} {n k : Nat}
  (hCut : server.frameReader.cutter.cut b = .frame f n)

include hCut

/-- A frame at the front was refused, malformed or answered, and it is `f`. -/
theorem leftBehind_frame :
    server.LeftBehind world b k ↔
      ¬ Admitted f.1 ∧ k = b.length - n ∨
      Admitted f.1 ∧ ¬ server.Answerable f ∧ server.LeftBehind world (b.drop n) k ∨
      server.Answerable f ∧ (server.answer world f).1.payload.length ≤ kMaxBodyLen ∧
        server.LeftBehind (server.answer world f).2 (b.drop n) k := by
  constructor
  · intro h
    -- in every case the cut is the one of `hCut`
    cases h with
    | refused hCut' hFrame =>
      rw [hCut] at hCut'
      cases hCut'
      exact .inl ⟨hFrame, rfl⟩
    | tooLarge hCut' =>
      rw [hCut] at hCut'
      cases hCut'
    | malformed hCut' hAdmitted hFrame h =>
      rw [hCut] at hCut'
      cases hCut'
      exact .inr (.inl ⟨hAdmitted, hFrame, h⟩)
    | answered hCut' hFrame hFits h =>
      rw [hCut] at hCut'
      cases hCut'
      exact .inr (.inr ⟨hFrame, hFits, h⟩)
  · rintro (⟨hFrame, rfl⟩ | ⟨hAdmitted, hFrame, h⟩ | ⟨hFrame, hFits, h⟩)
    · exact .refused hCut hFrame
    · exact .malformed hCut hAdmitted hFrame h
    · exact .answered hCut hFrame hFits h

end Frame

/-! ## One turn -/

theorem forceClosed_rejectAndClose (conn : Conn σ) (input : Buffer) (reason : String)
    (requestId : UInt32) (status : StatusCode) :
    ForceClosed (rejectAndClose (Conn.logProtocolError { conn with input := input } reason)
      requestId status) ↔ ForceClosed conn := by
  simp [ForceClosed, rejectAndClose_eq]

/-- From `conn` on, up to `conn'` at the end of the turn: the trace has grown, and the input is
bounded at the end exactly when nothing more than the limit is left behind. -/
def Bounds (server : RpcServer σ) (conn conn' : Conn σ) : Prop :=
  -- a forced close in the middle of the turn is still in the trace at its end
  conn.trace <+: conn'.trace ∧
    (¬ ForceClosed conn → (server.InputBounded conn' ↔
      ∀ k, server.LeftBehind conn.world conn.input.contents k → k ≤ server.inputLimit))

variable {server : RpcServer σ} {conn : Conn σ}

/-- The last pass: it checked the limit, forced a close, or rejected a frame. -/
theorem bounds_of_done {conn' : Conn σ} (hp : PassOutcome server conn (.done conn')) :
    Bounds server conn conn' := by
  refine ⟨trace_prefix_of_pass hp, fun hOpen => ?_⟩
  cases hp with
  | idle hCut hLimit =>
    exact ⟨fun _ k h => absurd h (not_leftBehind_of_more hCut), fun _ _ => hLimit⟩
  | flooded reason hCut =>
    refine ⟨fun _ k h => absurd h (not_leftBehind_of_more hCut), fun _ hf => ?_⟩
    exact absurd (by simp [ForceClosed]) hf
  | badMagic reason hCut hHeader =>
    refine ⟨fun _ k h => absurd h (not_leftBehind_of_badMagic hCut hHeader), fun _ hf => ?_⟩
    exact absurd (by simp [ForceClosed]) hf
  | tooLarge reason header hCut hHeader =>
    have hStill : ¬ ForceClosed (rejectAndClose (conn.logProtocolError reason)
        header.requestId .kBodyTooLarge) :=
      (forceClosed_rejectAndClose conn conn.input reason _ _).not.mpr hOpen
    simp [InputBounded, hStill, leftBehind_of_tooLarge hCut hHeader]
  | refused reason f n hCut hFrame =>
    have hStill : ¬ ForceClosed (rejectAndClose
        (Conn.logProtocolError { conn with input := conn.input.retrieve n } reason)
        f.1.requestId (refusal f.1)) :=
      (forceClosed_rejectAndClose conn _ reason _ _).not.mpr hOpen
    have hNot : ¬ server.Answerable f := fun hAns => hFrame hAns.1
    -- the frame itself was retrieved, the bytes behind it were not
    simp only [InputBounded, hStill, not_false_eq_true, true_imp_iff, leftBehind_frame hCut,
      hFrame, hNot, true_and, false_and, or_false, forall_eq]
    rw [rejectAndClose_input, Conn.logProtocolError_input, ← Buffer.length_contents,
      Buffer.contents_retrieve, List.length_drop]

/-- A pass before it: what is left behind is left behind by the rest. -/
theorem bounds_of_again {conn' r : Conn σ} (hp : PassOutcome server conn (.again conn'))
    (ih : Bounds server conn' r) : Bounds server conn r := by
  obtain ⟨ihTrace, ih⟩ := ih
  refine ⟨(trace_prefix_of_pass hp).trans ihTrace, fun hOpen => ?_⟩
  cases hp with
  | malformed reason f n hCut hAdmitted hFrame =>
    have hStill : ¬ ForceClosed (rejectAndClose
        (Conn.logProtocolError { conn with input := conn.input.retrieve n } reason)
        f.1.requestId .kMalformedBody) :=
      (forceClosed_rejectAndClose conn _ reason _ _).not.mpr hOpen
    rw [ih hStill]
    simp [leftBehind_frame hCut, hAdmitted, hFrame]
  | overflow reason f n hCut hFrame hOver =>
    -- closed by force, so nothing is claimed, and nothing counts as left behind
    have hClosed : ForceClosed r := ihTrace.subset (by simp)
    have hNone : ∀ k, ¬ server.LeftBehind conn.world conn.input.contents k := by
      intro k
      simp [leftBehind_frame hCut, hFrame, hFrame.1, not_le.mpr hOver]
    exact ⟨fun _ k h => absurd h (hNone k), fun _ hf => absurd hClosed hf⟩
  | answered f n hCut hFrame hFits =>
    -- the registry's work closes nothing
    have hStill : ¬ ForceClosed ((server.afterWork conn f n).send
        (responseMessage f (server.answer conn.world f).1)) := by
      intro hf
      have hWork : Event.forceClose ∉ server.work f := fun h =>
        server.not_hasClose_work f ⟨_, h, rfl⟩
      simp [ForceClosed, hWork] at hf
      exact hOpen hf
    rw [ih hStill]
    simp [leftBehind_frame hCut, hFrame, hFrame.1, hFits]

/-- **What a turn leaves unparsed** is within the limit, or the connection is
closed by force, exactly when nothing more is left behind. -/
theorem onMessage_bounded_iff (server : RpcServer σ) (conn : Conn σ)
    (hOpen : ¬ ForceClosed conn) :
    server.InputBounded (server.onMessage conn) ↔
      ∀ k, server.LeftBehind conn.world conn.input.contents k → k ≤ server.inputLimit := by
  have hBounds : Bounds server conn (server.onMessage conn) :=
    onMessage_induct (P := Bounds server) (fun _ _ hp => bounds_of_done hp)
      (fun _ _ _ hp ih => bounds_of_again hp ih) conn
  exact hBounds.2 hOpen

/-! ## A whole connection -/

/-- Only a forced close ends the reading. -/
def OpenUnlessForced (conn : Conn σ) : Prop :=
  ¬ ForceClosed conn → conn.transport.Reading ∧ conn.transport.closeQueued = false

theorem openUnlessForced_of_pass {p : Pass (Conn σ)} (hp : PassOutcome server conn p)
    (h : OpenUnlessForced conn) : OpenUnlessForced p.state := by
  intro hOpen
  -- not closed by force now, so not before either
  have hBefore := h fun hf => hOpen ((trace_prefix_of_pass hp).subset hf)
  cases hp with
  | idle => exact hBefore
  | flooded | badMagic | overflow => exact absurd (by simp [ForceClosed, Pass.state]) hOpen
  | tooLarge reason header =>
    obtain ⟨hReading, hQueued⟩ := rejectAndClose_transport (conn.logProtocolError reason)
      hBefore.1 header.requestId .kBodyTooLarge
    exact ⟨hReading, hQueued.trans hBefore.2⟩
  | refused reason f n =>
    obtain ⟨hReading, hQueued, -⟩ :=
      rejectAndClose_consumed hBefore.1 n reason f.1.requestId (refusal f.1)
    exact ⟨hReading, hQueued.trans hBefore.2⟩
  | malformed reason f n =>
    obtain ⟨hReading, hQueued, -⟩ :=
      rejectAndClose_consumed hBefore.1 n reason f.1.requestId .kMalformedBody
    exact ⟨hReading, hQueued.trans hBefore.2⟩
  | answered f n => exact ⟨hBefore.1.send _, by simpa [Pass.state] using hBefore.2⟩

theorem openUnlessForced_onMessage (server : RpcServer σ) (conn : Conn σ) :
    OpenUnlessForced conn → OpenUnlessForced (server.onMessage conn) := by
  refine onMessage_induct (P := fun conn conn' => OpenUnlessForced conn → OpenUnlessForced conn')
    ?_ ?_ conn
  · exact fun _ _ hp h => openUnlessForced_of_pass hp h
  · exact fun _ _ _ hp ih h => ih (openUnlessForced_of_pass hp h)

theorem openUnlessForced_run (server : RpcServer σ) (initialSize : Nat) (world : σ)
    (chunks : List Bytes) :
    OpenUnlessForced (server.run (Conn.established initialSize world) chunks) := by
  induction chunks using List.reverseRecOn with
  | nil => exact fun _ => ⟨.inl rfl, rfl⟩
  | append_singleton chunks chunk ih =>
    rw [run_append_singleton]
    unfold handleRead
    split_ifs
    · exact ih
    · intro hOpen
      obtain ⟨hReading, hQueued⟩ :=
        server.openUnlessForced_onMessage (Conn.received _ chunk) ih hOpen
      rw [Conn.runQueued_transport, Transport.runQueued_of_not_queued hQueued]
      exact ⟨hReading, hQueued⟩

/-- **When the input buffer stays within its limit.** On a connection that was not
closed by force, the bytes left unparsed are within the limit after every turn if
and only if in every turn the bytes behind a rejected frame are. -/
theorem input_bounded_iff (server : RpcServer σ) (initialSize : Nat) (world : σ)
    (chunks : List Bytes) :
    (∀ before chunk, before ++ [chunk] <+: chunks →
      server.InputBounded
        (server.run (Conn.established initialSize world) (before ++ [chunk]))) ↔
    ∀ before chunk, before ++ [chunk] <+: chunks →
      let conn := server.run (Conn.established initialSize world) before
      ¬ ForceClosed conn → ∀ k,
        server.LeftBehind conn.world (conn.input.contents ++ chunk) k →
          k ≤ server.inputLimit := by
  refine forall_congr' fun before => forall_congr' fun chunk => forall_congr' fun _ => ?_
  rw [run_append_singleton]
  have hInv := server.openUnlessForced_run initialSize world before
  generalize server.run (Conn.established initialSize world) before = conn at *
  by_cases hOpen : ForceClosed conn
  · -- closed by force before this turn: nothing is claimed of it
    have hStill := (server.trace_prefix_handleRead conn chunk).subset hOpen
    exact ⟨fun _ hf => absurd hOpen hf, fun _ hf => absurd hStill hf⟩
  · -- still reading, so the turn is the message callback on the longer input
    have hTurn := server.onMessage_bounded_iff (conn.received chunk) hOpen
    rw [Conn.received_contents] at hTurn
    rw [handleRead, if_neg (hInv hOpen).1.ne_disconnected]
    exact hTurn.trans ⟨fun h _ => h, fun h => h hOpen⟩

/-- A request with a flag set, which is refused. -/
def flaggedRequest (requestId : UInt32) : Frame :=
  ({ (emptyRequest requestId).1 with flags := 4 }, [])

/-- The echo server with the tightest limits. -/
def strictServer : RpcServer Unit :=
  { echoServer with frameReader := FrameReader.default.setMaxFrameSize 16 }.setMaxInputBufferSize 16

/-- Seventeen bytes behind a refused frame stay in a buffer limited to sixteen;
and a header that declares too large a body is kept with all that follows it, turn
after turn. -/
theorem input_above_limit :
    ¬ strictServer.InputBounded (strictServer.run (Conn.established 64 ())
        [encodeFrame (flaggedRequest 7) ++ List.replicate 17 0]) ∧
      ¬ strictServer.InputBounded (strictServer.run (Conn.established 64 ())
        [encodeFrame (echoRequest 7 []), [0, 0], [0, 0]]) := by
  decide

end RpcServer

end ReactorNet.Rpc
