import ReactorNet.Lib.Loop
import ReactorNet.Lib.Stream
import ReactorNet.Net.Buffer
import ReactorNet.Rpc.Protocol

/-!
# ReactorNet — the frame reader

`FrameReader::parse` looks at the readable bytes of a `Buffer` and consumes one
frame, or nothing. The reader keeps no state of its own: after every read the
caller parses the same buffer again, until the verdict is not `kOk`.

The verdict depends on the readable bytes alone. `FrameReader.frameCut` states
it over a byte string; the reader is a `Cutter`, since a complete frame and a
hopeless prefix stay what they are when more bytes arrive. `parse` computes it
on the buffer (`parse_of_more`, `parse_of_broken`, `parse_of_frame`), and the
general theory of cutters does the rest.

Main results:

* `receive_refines` — one received chunk does to the reading what `Cutter.feed`
  does to a split stream.
* `framing_chunk_independent` — how the stream was cut into chunks shows neither
  in the frames, nor in the verdict, nor in what is left over; a stream of
  encoded frames gives back exactly these frames.
-/

namespace ReactorNet.Rpc

open Lib

/-! ## The reader -/

inductive ParseResult where
  | kOk
  | kNeedMore
  | kProtocolError
  deriving DecidableEq, Repr

/-- The reader's one setting: the largest frame, header included, it accepts.
`setMaxFrameSize` never stores less than a header. -/
structure FrameReader where
  maxFrameSize : Nat
  header_le : kHeaderSize ≤ maxFrameSize

/-- A frame: a header and the body bytes that follow it. -/
abbrev Frame := MessageHeader × Bytes

/-- What the sender of a frame writes. -/
def encodeFrame (f : Frame) : Bytes := encodeHeader f.1 ++ f.2

/-- `MessageHeader{}`: all fields zero. -/
def MessageHeader.zero : MessageHeader :=
  ⟨0, 0, ⟨0⟩, 0, ⟨0⟩, 0, 0, 0⟩

/-- The outcome of a `parse`: the verdict, and the three objects it was given
pointers to, as it leaves them. -/
structure Parsed where
  result : ParseResult
  buf : Buffer
  header : MessageHeader
  body : Bytes

namespace FrameReader

def kDefaultMaxFrameSize : Nat := 4 * 1024 * 1024

def setMaxFrameSize (_reader : FrameReader) (maxFrameSize : Nat) : FrameReader where
  maxFrameSize := max maxFrameSize kHeaderSize
  header_le := le_max_right _ _

def new (maxFrameSize : Nat) : FrameReader where
  maxFrameSize := max maxFrameSize kHeaderSize
  header_le := le_max_right _ _

/-- The reader a client or a server is built with. -/
def default : FrameReader := new kDefaultMaxFrameSize

/-- The largest body accepted: what fits the frame limit, and the protocol's
ceiling in any case. -/
def maxBody (reader : FrameReader) : Nat :=
  min (reader.maxFrameSize - kHeaderSize) kMaxBodyLen

def parse (reader : FrameReader) (buf : Buffer) (header : MessageHeader) (body : Bytes) :
    Parsed :=
  -- nothing is consumed, and the caller's header and body are left as they were
  if buf.readableBytes < kHeaderSize then ⟨.kNeedMore, buf, header, body⟩
  else
    match decodeHeader buf.peek with
    | none => ⟨.kProtocolError, buf, header, body⟩
    | some candidate =>
      -- the declared length is bounded before it is waited for
      if reader.maxBody < candidate.bodyLen.toNat then ⟨.kProtocolError, buf, header, body⟩
      else
        let frameSize := kHeaderSize + candidate.bodyLen.toNat
        -- the header alone is never consumed: it is decoded again at the next read
        if buf.readableBytes < frameSize then ⟨.kNeedMore, buf, header, body⟩
        else
          { result := .kOk
            body := slice buf.peek kHeaderSize candidate.bodyLen.toNat
            buf := buf.retrieve frameSize
            header := candidate }

/-! ## The verdict over a byte string -/

/-- The verdict on the bytes received so far. -/
def frameCut (reader : FrameReader) (s : Bytes) : Cut Frame :=
  if s.length < kHeaderSize then .more
  else
    match decodeHeader s with
    | none => .broken
    | some h =>
      if reader.maxBody < h.bodyLen.toNat then .broken
      else if s.length < kHeaderSize + h.bodyLen.toNat then .more
      else .frame (h, slice s kHeaderSize h.bodyLen.toNat) (kHeaderSize + h.bodyLen.toNat)

variable {reader : FrameReader} {s : Bytes} {f : Frame} {n : Nat} {buf : Buffer} {st : Reading}

/-- Without a header the bytes are too few or not a frame. -/
theorem frameCut_of_none (hd : decodeHeader s = none) :
    reader.frameCut s = if s.length < kHeaderSize then .more else .broken := by
  rw [frameCut, hd]

theorem frameCut_of_some {h : MessageHeader} (hd : decodeHeader s = some h) :
    reader.frameCut s =
      if reader.maxBody < h.bodyLen.toNat then .broken
      else if s.length < kHeaderSize + h.bodyLen.toNat then .more
      else .frame (h, slice s kHeaderSize h.bodyLen.toNat) (kHeaderSize + h.bodyLen.toNat) := by
  have hHeader := le_length_of_decodeHeader hd
  rw [frameCut, if_neg (Nat.not_lt.mpr hHeader), hd]

/-- Everything a verdict other than "more" says about the bytes. -/
theorem frameCut_eq_frame :
    reader.frameCut s = .frame f n ↔
      decodeHeader s = some f.1 ∧ f.1.bodyLen.toNat ≤ reader.maxBody ∧
        n = kHeaderSize + f.1.bodyLen.toNat ∧ n ≤ s.length ∧
        f.2 = slice s kHeaderSize f.1.bodyLen.toNat := by
  constructor
  · intro h
    cases hd : decodeHeader s with
    | none =>
      rw [frameCut_of_none hd] at h
      split_ifs at h
    | some header =>
      -- a frame only if the body is small enough and complete
      rw [frameCut_of_some hd] at h
      split_ifs at h with hMax hLen
      obtain ⟨rfl, rfl⟩ := Cut.frame.inj h
      exact ⟨rfl, Nat.le_of_not_lt hMax, rfl, Nat.le_of_not_lt hLen, rfl⟩
  · rintro ⟨hd, hMax, rfl, hLen, hBody⟩
    rw [frameCut_of_some hd, if_neg (Nat.not_lt.mpr hMax), if_neg (Nat.not_lt.mpr hLen), ← hBody]

theorem frameCut_eq_broken :
    reader.frameCut s = .broken ↔
      kHeaderSize ≤ s.length ∧
        ∀ h, decodeHeader s = some h → reader.maxBody < h.bodyLen.toNat := by
  cases hd : decodeHeader s with
  | none =>
    -- no header: broken exactly when there are bytes enough for one
    rw [frameCut_of_none hd]
    split_ifs with hLen
    · simp [hLen]
    · simp [Nat.le_of_not_lt hLen]
  | some header =>
    -- a header: broken exactly when the declared body is too large
    have hHeader := le_length_of_decodeHeader hd
    rw [frameCut_of_some hd]
    simp only [hHeader, Option.some.injEq, forall_eq', true_and]
    split_ifs with hMax hLen <;> simp [hMax]

theorem frameCut_eq_more :
    reader.frameCut s = .more ↔
      s.length < kHeaderSize ∨ ∃ h, decodeHeader s = some h ∧
        h.bodyLen.toNat ≤ reader.maxBody ∧ s.length < kHeaderSize + h.bodyLen.toNat := by
  cases hd : decodeHeader s with
  | none =>
    rw [frameCut_of_none hd]
    split_ifs with hLen <;> simp [hLen]
  | some header =>
    have hHeader := Nat.not_lt.mpr (le_length_of_decodeHeader hd)
    rw [frameCut_of_some hd]
    simp only [hHeader, Option.some.injEq, exists_eq_left', false_or]
    split_ifs with hMax hLen
    · simp [hMax]
    · simp [hLen, Nat.le_of_not_lt hMax]
    · simp [hLen]

theorem frameCut_bound (reader : FrameReader) (h : reader.frameCut s = .frame f n) :
    0 < n ∧ n ≤ s.length := by
  obtain ⟨-, -, hn, hlen, -⟩ := frameCut_eq_frame.mp h
  exact ⟨by rw [hn, kHeaderSize]; omega, hlen⟩

theorem frameCut_frame_append (reader : FrameReader) (t : Bytes)
    (h : reader.frameCut s = .frame f n) : reader.frameCut (s ++ t) = .frame f n := by
  obtain ⟨hd, hmax, hn, hlen, hbody⟩ := frameCut_eq_frame.mp h
  have hheader := le_length_of_decodeHeader hd
  -- header and body lie within `s`, so neither sees what is appended
  refine frameCut_eq_frame.mpr ⟨?_, hmax, hn, ?_, ?_⟩
  · rw [decodeHeader_append t hheader, hd]
  · rw [List.length_append]; omega
  · rw [hbody, slice, slice, List.drop_append_of_le_length hheader,
      List.take_append_of_le_length (by rw [List.length_drop]; omega)]

theorem frameCut_broken_append (reader : FrameReader) (t : Bytes)
    (h : reader.frameCut s = .broken) : reader.frameCut (s ++ t) = .broken := by
  -- magic and declared length are in the first 16 bytes, which are all there
  obtain ⟨hlen, hbad⟩ := frameCut_eq_broken.mp h
  refine frameCut_eq_broken.mpr ⟨by rw [List.length_append]; omega, ?_⟩
  rw [decodeHeader_append t hlen]
  exact hbad

/-- The reader as a cutter: its verdicts are stable. -/
def cutter (reader : FrameReader) : Cutter UInt8 Frame where
  cut := reader.frameCut
  bound := frameCut_bound reader
  frame_append := frameCut_frame_append reader
  broken_append := frameCut_broken_append reader

theorem cut_eq (reader : FrameReader) (s : Bytes) : reader.cutter.cut s = reader.frameCut s := rfl

@[simp] theorem split_nil (reader : FrameReader) : reader.cutter.split [] = ⟨[], false, []⟩ :=
  Cutter.split_more rfl

/-- A frame's own bytes are enough to cut it off. -/
theorem cut_take_of_frame (h : reader.cutter.cut s = .frame f n) :
    reader.cutter.cut (s.take n) = .frame f n := by
  obtain ⟨hd, hmax, hn, hlen, hbody⟩ := frameCut_eq_frame.mp h
  have htake : (s.take n).length = n := by rw [List.length_take]; omega
  refine frameCut_eq_frame.mpr ⟨?_, hmax, hn, by omega, ?_⟩
  · -- the header is within the frame
    rw [← hd]
    have happ := decodeHeader_append (s.drop n) (s := s.take n) (by omega)
    rw [List.take_append_drop] at happ
    exact happ.symm
  · -- and so is the body
    rw [hbody, slice, slice, List.drop_take, List.take_take, hn]
    congr 1
    omega

/-- Bytes that do not complete a frame are fewer than the largest frame. -/
theorem length_le_of_more (h : reader.cutter.cut s = .more) : s.length ≤ reader.maxFrameSize := by
  have hle := reader.header_le
  rcases frameCut_eq_more.mp h with hs | ⟨header, -, hmax, hs⟩
  · omega
  · -- a declared body within the limit, of which a part is missing
    unfold maxBody at hmax
    omega

/-! ## `parse` computes the verdict -/

theorem parse_of_more (h : reader.cutter.cut buf.contents = .more) (header : MessageHeader)
    (body : Bytes) : reader.parse buf header body = ⟨.kNeedMore, buf, header, body⟩ := by
  rcases frameCut_eq_more.mp h with hlen | ⟨candidate, hd, hmax, hlen⟩
  · rw [Buffer.length_contents] at hlen
    rw [parse, if_pos hlen]
  · have hheader := le_length_of_decodeHeader hd
    rw [Buffer.length_contents] at hlen hheader
    unfold parse
    rw [if_neg (by omega), Buffer.peek_eq_contents, hd]
    simp only
    rw [if_neg (by omega), if_pos hlen]

theorem parse_of_broken (h : reader.cutter.cut buf.contents = .broken) (header : MessageHeader)
    (body : Bytes) : reader.parse buf header body = ⟨.kProtocolError, buf, header, body⟩ := by
  obtain ⟨hlen, hbad⟩ := frameCut_eq_broken.mp h
  rw [Buffer.length_contents] at hlen
  unfold parse
  rw [if_neg (by omega), Buffer.peek_eq_contents]
  -- either there is no header, or it declares too much
  cases hd : decodeHeader buf.contents with
  | none => rfl
  | some candidate =>
    simp only
    rw [if_pos (hbad candidate hd)]

theorem parse_of_frame (h : reader.cutter.cut buf.contents = .frame f n) (header : MessageHeader)
    (body : Bytes) : reader.parse buf header body = ⟨.kOk, buf.retrieve n, f.1, f.2⟩ := by
  obtain ⟨hd, hmax, hn, hlen, hbody⟩ := frameCut_eq_frame.mp h
  rw [Buffer.length_contents] at hlen
  unfold parse
  rw [if_neg (by omega), Buffer.peek_eq_contents, hd]
  simp only
  -- past the two length checks, the body and the retrieved size are the cut's
  rw [if_neg (by omega), if_neg (by omega), ← hbody, ← hn]

/-! ## Reading a stream in chunks -/

/-- A stream being read: the buffer, the frames parsed so far, and the last
verdict. -/
structure Reading where
  buf : Buffer
  frames : List Frame
  verdict : ParseResult

/-- One `parse` of the caller's loop. -/
def drainPass (reader : FrameReader) (st : Reading) : Pass Reading :=
  let p := reader.parse st.buf MessageHeader.zero []
  match p.result with
  | .kOk => .again ⟨p.buf, st.frames ++ [(p.header, p.body)], p.result⟩
  | _ => .done { st with buf := p.buf, verdict := p.result }

/-- Parse until the verdict is not `kOk`. -/
def drain (reader : FrameReader) (st : Reading) : Reading :=
  loop (fun st => st.buf.readableBytes) reader.drainPass st

/-- A chunk arrives: append it, and parse unless the stream is lost already. -/
def receive (reader : FrameReader) (st : Reading) (chunk : Bytes) : Reading :=
  let st' := { st with buf := st.buf.append chunk }
  -- a lost stream is not parsed again, its bytes only pile up
  if st.verdict = .kProtocolError then st' else reader.drain st'

/-- All the chunks of a stream, into a fresh buffer. -/
def receiveAll (reader : FrameReader) (initialSize : Nat) (chunks : List Bytes) : Reading :=
  chunks.foldl reader.receive ⟨Buffer.new initialSize, [], .kNeedMore⟩

/-- The split stream a reading stands for. -/
def Reading.abs (st : Reading) : Split UInt8 Frame :=
  ⟨st.frames, st.verdict == .kProtocolError, st.buf.contents⟩

theorem drainPass_of_more (h : reader.cutter.cut st.buf.contents = .more) :
    reader.drainPass st = .done { st with verdict := .kNeedMore } := by
  rw [drainPass, parse_of_more h]

theorem drainPass_of_broken (h : reader.cutter.cut st.buf.contents = .broken) :
    reader.drainPass st = .done { st with verdict := .kProtocolError } := by
  rw [drainPass, parse_of_broken h]

theorem drainPass_of_frame (h : reader.cutter.cut st.buf.contents = .frame f n) :
    reader.drainPass st = .again ⟨st.buf.retrieve n, st.frames ++ [f], .kOk⟩ := by
  rw [drainPass, parse_of_frame h]

/-- A frame has at least its header, so every further pass has fewer bytes. -/
theorem drainPass_dec (reader : FrameReader) (st st' : Reading)
    (h : reader.drainPass st = .again st') : st'.buf.readableBytes < st.buf.readableBytes := by
  cases hc : reader.cutter.cut st.buf.contents with
  | more => rw [drainPass_of_more hc] at h; simp at h
  | broken => rw [drainPass_of_broken hc] at h; simp at h
  | frame f n =>
    rw [drainPass_of_frame hc] at h
    injection h with h
    have hb := reader.cutter.bound hc
    rw [← h, ← Buffer.length_contents, ← Buffer.length_contents, Buffer.contents_retrieve,
      List.length_drop]
    omega

/-- **The parse loop splits the buffer**: it ends with the frames before it
followed by the frames of the readable bytes, and with the verdict and the rest
of their split. -/
theorem drain_abs (reader : FrameReader) (st : Reading) :
    (reader.drain st).abs =
        { reader.cutter.split st.buf.contents with
          frames := st.frames ++ (reader.cutter.split st.buf.contents).frames } ∧
      (reader.drain st).verdict ≠ .kOk := by
  -- one step back through a frame is `Cutter.split_frame`; the two ways out of the loop are the
  -- two ways a split ends
  refine loop_induct (P := fun st r => r.abs =
      { reader.cutter.split st.buf.contents with
        frames := st.frames ++ (reader.cutter.split st.buf.contents).frames } ∧
      r.verdict ≠ .kOk) reader.drainPass_dec ?_ ?_ st
  · intro st st' hp
    cases hc : reader.cutter.cut st.buf.contents with
    | more =>
      rw [drainPass_of_more hc] at hp
      injection hp with hp
      subst hp
      simp [Cutter.split_more hc, Reading.abs]
    | broken =>
      rw [drainPass_of_broken hc] at hp
      injection hp with hp
      subst hp
      simp [Cutter.split_broken hc, Reading.abs]
    | frame f n => rw [drainPass_of_frame hc] at hp; simp at hp
  · intro st st' r hp ih
    cases hc : reader.cutter.cut st.buf.contents with
    | more => rw [drainPass_of_more hc] at hp; simp at hp
    | broken => rw [drainPass_of_broken hc] at hp; simp at hp
    | frame f n =>
      rw [drainPass_of_frame hc] at hp
      injection hp with hp
      subst hp
      obtain ⟨ih, hv⟩ := ih
      refine ⟨?_, hv⟩
      rw [ih, Cutter.split_frame hc]
      simp

/-- **One chunk of the real buffer is one `feed` of the split stream.** -/
theorem receive_refines (reader : FrameReader) (st : Reading) (chunk : Bytes) :
    (reader.receive st chunk).abs = reader.cutter.feed st.abs chunk ∧
      (reader.receive st chunk).verdict ≠ .kOk := by
  by_cases he : st.verdict = .kProtocolError
  · simp [receive, he, Cutter.feed, Reading.abs]
  · have hd := reader.drain_abs { st with buf := st.buf.append chunk }
    simp only [receive, he, if_false]
    refine ⟨?_, hd.2⟩
    rw [hd.1]
    simp [Cutter.feed, Reading.abs, he]

/-- Feeding chunks to the buffer splits their concatenation. -/
theorem receiveAll_abs (reader : FrameReader) (initialSize : Nat) (chunks : List Bytes) :
    (reader.receiveAll initialSize chunks).abs = reader.cutter.split chunks.flatten ∧
      (reader.receiveAll initialSize chunks).verdict ≠ .kOk := by
  -- the abstraction goes through the chunks one by one
  have hrun : ∀ (chunks : List Bytes) (st : Reading), st.verdict ≠ .kOk →
      (chunks.foldl reader.receive st).abs = chunks.foldl reader.cutter.feed st.abs ∧
        (chunks.foldl reader.receive st).verdict ≠ .kOk := by
    intro chunks
    induction chunks with
    | nil => intro st hv; exact ⟨rfl, hv⟩
    | cons chunk chunks ih =>
      intro st hv
      obtain ⟨habs, hv'⟩ := reader.receive_refines st chunk
      obtain ⟨ih1, ih2⟩ := ih _ hv'
      rw [List.foldl_cons, List.foldl_cons, ← habs]
      exact ⟨ih1, ih2⟩
  obtain ⟨h1, h2⟩ := hrun chunks ⟨Buffer.new initialSize, [], .kNeedMore⟩ (by simp)
  refine ⟨?_, h2⟩
  have hstart : Reading.abs ⟨Buffer.new initialSize, [], .kNeedMore⟩ = reader.cutter.split [] := by
    simp [Reading.abs]
  rw [receiveAll, h1, hstart, Cutter.foldl_feed, List.nil_append]

/-- The frames a sender may put on the wire for this reader. -/
def Accepts (reader : FrameReader) (f : Frame) : Prop :=
  f.1.magic = kMagic ∧ f.1.bodyLen.toNat = f.2.length ∧
    kHeaderSize + f.2.length ≤ reader.maxFrameSize ∧ f.2.length ≤ kMaxBodyLen

instance (reader : FrameReader) (f : Frame) : Decidable (reader.Accepts f) :=
  inferInstanceAs (Decidable (_ ∧ _ ∧ _ ∧ _))

/-- The length field of a body within the protocol's ceiling. -/
theorem toNat_bodyLen {body : Bytes} (h : body.length ≤ kMaxBodyLen) :
    (UInt32.ofNat body.length).toNat = body.length := by
  refine UInt32.toNat_ofNat_of_lt (Nat.lt_of_le_of_lt h ?_)
  decide

/-- A header with the right magic and length, on a body that fits. -/
theorem accepts_of_fits {header : MessageHeader} {body : Bytes} (hMagic : header.magic = kMagic)
    (hLen : header.bodyLen = UInt32.ofNat body.length)
    (hFits : kHeaderSize + body.length ≤ reader.maxFrameSize) (hMax : body.length ≤ kMaxBodyLen) :
    reader.Accepts (header, body) :=
  ⟨hMagic, by rw [hLen, toNat_bodyLen hMax], hFits, hMax⟩

/-- An accepted frame at the front is cut off, whatever follows it. -/
theorem cut_encodeFrame (h : reader.Accepts f) (t : Bytes) :
    reader.cutter.cut (encodeFrame f ++ t) = .frame f (encodeFrame f).length := by
  obtain ⟨hmagic, hlen, hframe, hmax⟩ := h
  rw [cut_eq]
  refine frameCut_eq_frame.mpr ⟨?_, ?_, ?_, ?_, ?_⟩
  · -- the header, read back from its encoding
    rw [encodeFrame, List.append_assoc]
    exact decodeHeader_encodeHeader hmagic _
  · -- the body is within both ceilings
    rw [hlen, maxBody]
    omega
  · -- the frame's length
    rw [encodeFrame, List.length_append, length_encodeHeader, hlen]
  · rw [List.length_append]; omega
  · -- the body, between the header and what follows
    rw [encodeFrame, slice, List.append_assoc, ← length_encodeHeader f.1, List.drop_left, hlen,
      List.take_left]

/-- A concatenation of accepted frames splits into these frames. -/
theorem split_encodeFrames {fs : List Frame} (h : ∀ f ∈ fs, reader.Accepts f) :
    reader.cutter.split (fs.map encodeFrame).flatten = ⟨fs, false, []⟩ := by
  have henc := Cutter.split_encode (fun f hf t => cut_encodeFrame (h f hf) t) []
  rw [split_nil, List.append_nil, List.append_nil] at henc
  exact henc

/-- **Framing is independent of how the stream is cut.** Whatever the chunks,
the frames, the final verdict and the leftover bytes are those of the whole
stream in one piece; and if the stream is a concatenation of encoded frames the
reader accepts, exactly these come out and nothing is left. -/
theorem framing_chunk_independent (reader : FrameReader) (initialSize : Nat)
    (chunks : List Bytes) :
    ((reader.receiveAll initialSize chunks).frames =
        (reader.receiveAll initialSize [chunks.flatten]).frames ∧
      (reader.receiveAll initialSize chunks).verdict =
        (reader.receiveAll initialSize [chunks.flatten]).verdict ∧
      (reader.receiveAll initialSize chunks).buf.contents =
        (reader.receiveAll initialSize [chunks.flatten]).buf.contents) ∧
    ∀ fs : List Frame, (∀ f ∈ fs, reader.Accepts f) →
      chunks.flatten = (fs.map encodeFrame).flatten →
      (reader.receiveAll initialSize chunks).frames = fs ∧
        (reader.receiveAll initialSize chunks).verdict = .kNeedMore ∧
        (reader.receiveAll initialSize chunks).buf.contents = [] := by
  obtain ⟨h1, hv1⟩ := reader.receiveAll_abs initialSize chunks
  obtain ⟨h2, hv2⟩ := reader.receiveAll_abs initialSize [chunks.flatten]
  rw [List.flatten_singleton, ← h1] at h2
  -- a verdict that is not `kOk` is determined by whether it is the error
  have hverdict : ∀ {v w : ParseResult}, v ≠ .kOk → w ≠ .kOk →
      (v == .kProtocolError) = (w == .kProtocolError) → v = w := by
    intro v w hv hw h
    cases v <;> cases w <;> simp_all
  refine ⟨?_, ?_⟩
  · have hf := congrArg Split.frames h2
    have hb := congrArg Split.broken h2
    have hr := congrArg Split.rest h2
    exact ⟨hf.symm, (hverdict hv2 hv1 hb).symm, hr.symm⟩
  · intro fs hfs hstream
    -- the split of the encoded stream is known: these frames, whole, nothing left
    rw [hstream, split_encodeFrames hfs] at h1
    have hf := congrArg Split.frames h1
    have hb := congrArg Split.broken h1
    have hr := congrArg Split.rest h1
    exact ⟨hf, hverdict hv1 (by simp) hb, hr⟩

end FrameReader

end ReactorNet.Rpc
