import ReactorNet.Rpc.FrameReader

/-!
# ReactorNet — the verdicts of the frame reader are final

After every read the caller parses the whole buffer again, so the reader has to give the
same answer about the same bytes however many more have arrived. With a header in the
buffer it also knows the future: an error is returned exactly when nothing that may still
arrive can complete a frame.

The limit on the body is a difference of two `size_t`. That it does not wrap around is due
to `setMaxFrameSize`, which never stores less than a header.

Main result: `verdicts_final`.
-/

namespace ReactorNet.Rpc

open Lib

namespace FrameReader

variable {reader : FrameReader} {buf longer : Buffer} {e : Bytes}

/-- The constructor, and any number of calls of `setMaxFrameSize`. -/
def configured (first : UInt64) (calls : List UInt64) : FrameReader :=
  calls.foldl (fun reader maxFrameSize => reader.setMaxFrameSize maxFrameSize.toNat)
    (new first.toNat)

theorem maxFrameSize_configured_lt (first : UInt64) (calls : List UInt64) :
    (configured first calls).maxFrameSize < 2 ^ 64 := by
  have hClamp : ∀ size : UInt64, max size.toNat kHeaderSize < 2 ^ 64 := fun size =>
    max_lt size.toNat_lt (by decide)
  cases calls using List.reverseRecOn with
  | nil => exact hClamp first
  | append_singleton calls last =>
    rw [configured, List.foldl_append]
    exact hClamp last

/-- The subtraction in `parse` is one of natural numbers. -/
theorem toNat_maxBodyForFrame (hSize : reader.maxFrameSize < 2 ^ 64) :
    (UInt64.ofNat reader.maxFrameSize - UInt64.ofNat kHeaderSize).toNat =
      reader.maxFrameSize - kHeaderSize := by
  have hLe := reader.header_le
  have hHeader : (UInt64.ofNat kHeaderSize).toNat = kHeaderSize := by decide
  have hMax : (UInt64.ofNat reader.maxFrameSize).toNat = reader.maxFrameSize :=
    UInt64.toNat_ofNat_of_lt' hSize
  rw [UInt64.toNat_sub_of_le _ _ (by rw [UInt64.le_iff_toNat_le, hHeader, hMax]; exact hLe),
    hHeader, hMax]

/-! ## What is still possible -/

/-- **With a header in the buffer the future is decided**: bytes that are not hopeless can be
completed to a frame. -/
theorem exists_frame_of_more (hLen : kHeaderSize ≤ buf.contents.length)
    (h : reader.cutter.cut buf.contents = .more) :
    ∃ e f n, reader.cutter.cut (buf.contents ++ e) = .frame f n := by
  rcases frameCut_eq_more.mp h with hShort | ⟨header, hHeader, hMax, hShort⟩
  · omega
  · -- the missing bytes of the body may be anything
    let e : Bytes := List.replicate (kHeaderSize + header.bodyLen.toNat - buf.contents.length) 0
    refine ⟨e, (header, slice (buf.contents ++ e) kHeaderSize header.bodyLen.toNat), _,
      frameCut_eq_frame.mpr ⟨?_, hMax, rfl, ?_, rfl⟩⟩
    · rw [decodeHeader_append _ hLen, hHeader]
    · simp only [e, List.length_append, List.length_replicate]
      omega

theorem result_parse (reader : FrameReader) (buf : Buffer) (header : MessageHeader) (body : Bytes) :
    (reader.parse buf header body).result =
      match reader.cutter.cut buf.contents with
      | .more => .kNeedMore
      | .broken => .kProtocolError
      | .frame _ _ => .kOk := by
  cases hCut : reader.cutter.cut buf.contents with
  | more => rw [parse_of_more hCut]
  | broken => rw [parse_of_broken hCut]
  | frame f n => rw [parse_of_frame hCut]

variable {header : MessageHeader} {body : Bytes}

theorem result_ok_iff :
    (reader.parse buf header body).result = .kOk ↔
      ∃ f n, reader.cutter.cut buf.contents = .frame f n := by
  rw [result_parse]
  cases reader.cutter.cut buf.contents <;> simp

theorem result_protocolError_iff :
    (reader.parse buf header body).result = .kProtocolError ↔
      reader.cutter.cut buf.contents = .broken := by
  rw [result_parse]
  cases reader.cutter.cut buf.contents <;> simp

theorem result_needMore_iff :
    (reader.parse buf header body).result = .kNeedMore ↔
      reader.cutter.cut buf.contents = .more := by
  rw [result_parse]
  cases reader.cutter.cut buf.contents <;> simp

/-- **When a frame is taken**, in the words of the format: a header can be decoded, the body
that it declares is within both limits, and all of it has arrived. The header that is
returned is this one. -/
theorem ok_header_iff {h : MessageHeader} :
    (reader.parse buf header body).result = .kOk ∧ (reader.parse buf header body).header = h ↔
      decodeHeader buf.contents = some h ∧
        h.bodyLen.toNat ≤ min (reader.maxFrameSize - kHeaderSize) kMaxBodyLen ∧
        kHeaderSize + h.bodyLen.toNat ≤ buf.readableBytes := by
  rw [← Buffer.length_contents]
  constructor
  · rintro ⟨hOk, rfl⟩
    obtain ⟨f, n, hFrame⟩ := result_ok_iff.mp hOk
    obtain ⟨hHeader, hMax, hn, hLe, -⟩ := frameCut_eq_frame.mp hFrame
    rw [parse_of_frame hFrame]
    exact ⟨hHeader, hMax, hn ▸ hLe⟩
  · rintro ⟨hHeader, hMax, hLe⟩
    have hFrame : reader.cutter.cut buf.contents =
        .frame (h, slice buf.contents kHeaderSize h.bodyLen.toNat) (kHeaderSize + h.bodyLen.toNat) :=
      frameCut_eq_frame.mpr ⟨hHeader, hMax, rfl, hLe, rfl⟩
    rw [parse_of_frame hFrame]
    exact ⟨rfl, rfl⟩

/-- A buffer that is not hopeless and not complete has an extension that is complete. -/
theorem exists_longer_of_more (hLen : kHeaderSize ≤ buf.readableBytes)
    (h : reader.cutter.cut buf.contents = .more) (header : MessageHeader) (body : Bytes) :
    ∃ longer : Buffer, buf.contents <+: longer.contents ∧
      (reader.parse longer header body).result = .kOk := by
  rw [← Buffer.length_contents] at hLen
  obtain ⟨e, f, n, hFrame⟩ := exists_frame_of_more hLen h
  refine ⟨buf.append e, by rw [Buffer.contents_append]; exact List.prefix_append _ _, ?_⟩
  rw [result_ok_iff, Buffer.contents_append]
  exact ⟨f, n, hFrame⟩

/-- What is broken stays broken, whatever follows it. -/
theorem not_ok_of_broken (h : reader.cutter.cut buf.contents = .broken) {longer : Buffer}
    (hLonger : buf.contents <+: longer.contents) :
    (reader.parse longer header body).result ≠ .kOk := by
  obtain ⟨e, hLonger⟩ := hLonger
  intro hOk
  obtain ⟨f, n, hFrame⟩ := result_ok_iff.mp hOk
  rw [← hLonger, reader.cutter.broken_append e h] at hFrame
  cases hFrame

/-- **The verdicts are final, bounded and atomic.** For a reader after any calls of
`setMaxFrameSize` and a buffer with at least a header in it:

* `kOk` with a header is returned if and only if that header can be decoded from the buffer,
  the body that it declares is within both limits, and all of it is in the buffer;
* `kProtocolError` is returned if and only if no extension of the buffer parses to `kOk`;
* `kNeedMore` is returned if and only if the buffer does not complete a frame and some
  extension of it does;
* `kProtocolError` and `kOk` are returned for every extension too, `kOk` with the same frame;
* on `kOk` exactly the header and the body it declares are consumed, and the body is within
  both limits, of which the first does not wrap around;
* on any other verdict the buffer, the header and the body are as they were. -/
theorem verdicts_final (first : UInt64) (calls : List UInt64) (buf : Buffer)
    (header : MessageHeader) (body : Bytes) (hLen : kHeaderSize ≤ buf.readableBytes) :
    let reader := configured first calls
    let parsed := reader.parse buf header body
    (∀ h, parsed.result = .kOk ∧ parsed.header = h ↔
      decodeHeader buf.contents = some h ∧
        h.bodyLen.toNat ≤ min (reader.maxFrameSize - kHeaderSize) kMaxBodyLen ∧
        kHeaderSize + h.bodyLen.toNat ≤ buf.readableBytes) ∧
    (parsed.result = .kProtocolError ↔ ∀ longer : Buffer, buf.contents <+: longer.contents →
      (reader.parse longer header body).result ≠ .kOk) ∧
    (parsed.result = .kNeedMore ↔ parsed.result ≠ .kOk ∧
      ∃ longer : Buffer, buf.contents <+: longer.contents ∧
        (reader.parse longer header body).result = .kOk) ∧
    (∀ longer : Buffer, buf.contents <+: longer.contents → ∀ header' body',
      (parsed.result = .kProtocolError →
        (reader.parse longer header' body').result = .kProtocolError) ∧
      (parsed.result = .kOk →
        (reader.parse longer header' body').result = .kOk ∧
        (reader.parse longer header' body').header = parsed.header ∧
        (reader.parse longer header' body').body = parsed.body)) ∧
    (parsed.result = .kOk →
      kHeaderSize + parsed.header.bodyLen.toNat ≤ buf.readableBytes ∧
      parsed.buf.contents = buf.contents.drop (kHeaderSize + parsed.header.bodyLen.toNat) ∧
      parsed.body = slice buf.contents kHeaderSize parsed.header.bodyLen.toNat ∧
      parsed.body.length = parsed.header.bodyLen.toNat ∧
      parsed.header.bodyLen.toNat ≤ min (reader.maxFrameSize - kHeaderSize) kMaxBodyLen) ∧
    (parsed.result ≠ .kOk → parsed = ⟨parsed.result, buf, header, body⟩) ∧
    (UInt64.ofNat reader.maxFrameSize - UInt64.ofNat kHeaderSize).toNat =
      reader.maxFrameSize - kHeaderSize := by
  intro reader parsed
  refine ⟨fun h => ok_header_iff, ?_, ?_, ?_, ?_, ?_,
    toNat_maxBodyForFrame (maxFrameSize_configured_lt first calls)⟩
  · -- `kProtocolError`: of the other two verdicts, one is `kOk` and one can become it
    constructor
    · intro hError longer hLonger
      exact not_ok_of_broken (result_protocolError_iff.mp hError) hLonger
    · intro hNever
      rw [result_protocolError_iff]
      cases hCut : reader.cutter.cut buf.contents with
      | broken => rfl
      | frame f n =>
        exact absurd (result_ok_iff.mpr ⟨f, n, hCut⟩) (hNever buf (List.prefix_refl _))
      | more =>
        obtain ⟨longer, hLonger, hOk⟩ := exists_longer_of_more hLen hCut header body
        exact absurd hOk (hNever longer hLonger)
  · -- `kNeedMore`: what is broken has no such extension
    constructor
    · intro hMore
      refine ⟨by rw [hMore]; decide, ?_⟩
      exact exists_longer_of_more hLen (result_needMore_iff.mp hMore) header body
    · rintro ⟨hNot, longer, hLonger, hOk⟩
      rw [result_needMore_iff]
      cases hCut : reader.cutter.cut buf.contents with
      | more => rfl
      | frame f n => exact absurd (result_ok_iff.mpr ⟨f, n, hCut⟩) hNot
      | broken => exact absurd hOk (not_ok_of_broken hCut hLonger)
  · -- the cutter's verdict on a longer buffer is the same
    rintro longer ⟨e, hLonger⟩ header' body'
    constructor
    · intro hError
      rw [result_protocolError_iff] at hError ⊢
      rw [← hLonger]
      exact reader.cutter.broken_append e hError
    · intro hOk
      obtain ⟨f, n, hFrame⟩ := result_ok_iff.mp hOk
      have hLongerFrame : reader.cutter.cut longer.contents = .frame f n := by
        rw [← hLonger]
        exact reader.cutter.frame_append e hFrame
      have hParsed : parsed = ⟨.kOk, buf.retrieve n, f.1, f.2⟩ := parse_of_frame hFrame header body
      rw [hParsed, parse_of_frame hLongerFrame]
      exact ⟨rfl, rfl, rfl⟩
  · -- what is consumed is what the header declares
    intro hOk
    obtain ⟨f, n, hFrame⟩ := result_ok_iff.mp hOk
    have hParsed : parsed = ⟨.kOk, buf.retrieve n, f.1, f.2⟩ := parse_of_frame hFrame header body
    obtain ⟨-, hMax, hn, hle, hBody⟩ := frameCut_eq_frame.mp hFrame
    rw [Buffer.length_contents] at hle
    rw [hParsed]
    refine ⟨hn ▸ hle, by rw [Buffer.contents_retrieve, hn], hBody, ?_, hMax⟩
    rw [hBody, length_slice (by rw [Buffer.length_contents]; omega)]
  · intro hNot
    cases hCut : reader.cutter.cut buf.contents with
    | more =>
      have hParsed : parsed = ⟨.kNeedMore, buf, header, body⟩ := parse_of_more hCut header body
      rw [hParsed]
    | broken =>
      have hParsed : parsed = ⟨.kProtocolError, buf, header, body⟩ :=
        parse_of_broken hCut header body
      rw [hParsed]
    | frame f n => exact absurd (result_ok_iff.mpr ⟨f, n, hCut⟩) hNot

/-- A header that declares five bytes, for a reader that was set to frames of twenty. -/
def oversizedHeader : Buffer :=
  (Buffer.new 0).append (encodeHeader { MessageHeader.zero with magic := kMagic, bodyLen := 5 })

theorem verdicts_final_oversized :
    kHeaderSize ≤ oversizedHeader.readableBytes ∧
      ((configured 64 [20]).parse oversizedHeader MessageHeader.zero []).result =
        .kProtocolError ∧
      ∀ longer : Buffer, oversizedHeader.contents <+: longer.contents →
        ((configured 64 [20]).parse longer MessageHeader.zero []).result ≠ .kOk := by
  have hLen : kHeaderSize ≤ oversizedHeader.readableBytes := by decide
  have hError : ((configured 64 [20]).parse oversizedHeader MessageHeader.zero []).result =
      .kProtocolError := by decide
  exact ⟨hLen, hError,
    (verdicts_final 64 [20] oversizedHeader MessageHeader.zero [] hLen).2.1.mp hError⟩

end FrameReader

end ReactorNet.Rpc
