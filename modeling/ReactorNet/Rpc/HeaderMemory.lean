import ReactorNet.Rpc.FrameReader

/-!
# ReactorNet — the frame header in memory

`encodeHeader` and `decodeHeader` of `rpc/src/protocol.cpp` work on `char *`: each byte is
written at an offset that stands in the code, through a cast to a signed `char`, and read
back through a cast to an unsigned byte. Here they are with these offsets and casts, over
the memory that the pointers point at. The codec of `Protocol` says which bytes are written
and read (`encodeHeader_eq`, `decodeHeader_eq`).

Main result: `header_codec_exact`.
-/

namespace ReactorNet.Rpc

open Lib

namespace HeaderMemory

/-- The memory from a `char *` on. `char` is signed. -/
abbrev Chars := List Int8

/-- `putU16(out + offset, value)` -/
def putU16 (out : Chars) (offset : Nat) (value : UInt16) : Chars :=
  (out.set offset (value &&& 0xFF).toUInt8.toInt8).set (offset + 1)
    ((value >>> 8) &&& 0xFF).toUInt8.toInt8

/-- `putU32(out + offset, value)` -/
def putU32 (out : Chars) (offset : Nat) (value : UInt32) : Chars :=
  (((out.set offset (value &&& 0xFF).toUInt8.toInt8).set (offset + 1)
    ((value >>> 8) &&& 0xFF).toUInt8.toInt8).set (offset + 2)
    ((value >>> 16) &&& 0xFF).toUInt8.toInt8).set (offset + 3)
    ((value >>> 24) &&& 0xFF).toUInt8.toInt8

/-- `static_cast<uint8_t>(in[i])`, for an index below the size that was checked. -/
def byteAt (s : Chars) (i : Nat) : UInt8 := (s.getD i 0).toUInt8

/-- `getU16(in + offset)` -/
def getU16 (s : Chars) (offset : Nat) : UInt16 :=
  (byteAt s offset).toUInt16 ||| ((byteAt s (offset + 1)).toUInt16 <<< 8)

/-- `getU32(in + offset)` -/
def getU32 (s : Chars) (offset : Nat) : UInt32 :=
  (byteAt s offset).toUInt32 ||| ((byteAt s (offset + 1)).toUInt32 <<< 8) |||
    ((byteAt s (offset + 2)).toUInt32 <<< 16) ||| ((byteAt s (offset + 3)).toUInt32 <<< 24)

/-- The memory behind `out` after `encodeHeader`. -/
def encodeHeader (header : MessageHeader) (out : Chars) : Chars :=
  let out := putU16 out 0 header.magic
  let out := out.set 2 header.version.toInt8
  let out := out.set 3 header.type.raw.toInt8
  let out := out.set 4 header.flags.toInt8
  let out := out.set 5 header.status.raw.toInt8
  let out := out.set 6 header.serializerId.toInt8
  -- reserved: senders write zero
  let out := out.set 7 0
  let out := putU32 out 8 header.requestId
  putU32 out 12 header.bodyLen

/-- What `decodeHeader` returns, and what is then behind `out`. Null pointers are `none`;
`in` points at the chars of the list, and their number is `len`. -/
def decodeHeader : Option Chars → Option MessageHeader → Bool × Option MessageHeader
  | some s, some out =>
    if s.length < kHeaderSize then (false, some out)
    else
      -- checked before anything is written to `out`
      let magic := getU16 s 0
      if magic ≠ kMagic then (false, some out)
      else
        let out := { out with magic := magic }
        let out := { out with version := byteAt s 2 }
        let out := { out with type := ⟨byteAt s 3⟩ }
        let out := { out with flags := byteAt s 4 }
        let out := { out with status := ⟨byteAt s 5⟩ }
        let out := { out with serializerId := byteAt s 6 }
        -- `in[7]` is ignored
        let out := { out with requestId := getU32 s 8 }
        let out := { out with bodyLen := getU32 s 12 }
        (true, some out)
  | _, out => (false, out)

/-! ## The casts -/

/-- The unsigned bytes of some chars. -/
def bytes (s : Chars) : Bytes := s.map Int8.toUInt8

/-- The chars of some bytes. -/
def chars (s : Bytes) : Chars := s.map UInt8.toInt8

@[simp] theorem bytes_chars (s : Bytes) : bytes (chars s) = s := by
  rw [bytes, chars, List.map_map, Function.comp_def]
  simp only [UInt8.toUInt8_toInt8, List.map_id']

@[simp] theorem chars_bytes (s : Chars) : chars (bytes s) = s := by
  rw [bytes, chars, List.map_map, Function.comp_def]
  simp only [Int8.toInt8_toUInt8, List.map_id']

@[simp] theorem length_bytes (s : Chars) : (bytes s).length = s.length := List.length_map ..

@[simp] theorem length_chars (s : Bytes) : (chars s).length = s.length := List.length_map ..

theorem bytes_append (s t : Chars) : bytes (s ++ t) = bytes s ++ bytes t := List.map_append

theorem byteAt_eq (s : Chars) (i : Nat) : byteAt s i = Rpc.byteAt (bytes s) i := by
  rw [byteAt, Rpc.byteAt, bytes, List.getD_eq_getElem?_getD, List.getD_eq_getElem?_getD,
    List.getElem?_map]
  cases s[i]? with
  | none => rfl
  | some c => rfl

theorem getU16_eq (s : Chars) (i : Nat) : getU16 s i = Rpc.getU16 (bytes s) i := by
  simp only [getU16, Rpc.getU16, byteAt_eq]

theorem getU32_eq (s : Chars) (i : Nat) : getU32 s i = Rpc.getU32 (bytes s) i := by
  simp only [getU32, Rpc.getU32, byteAt_eq]

/-! ## The codec in memory -/

/-- **Sixteen chars are written**, one for each byte of the header; what stands behind them
is left alone. -/
theorem encodeHeader_eq (header : MessageHeader) {out : Chars} (h : kHeaderSize ≤ out.length) :
    encodeHeader header out = chars (Rpc.encodeHeader header) ++ out.drop kHeaderSize := by
  -- the offsets in the code are those of the bytes, one after the other
  have hWrites : encodeHeader header out =
      ((chars (Rpc.encodeHeader header)).zipIdx 0).foldl (fun out e => out.set e.2 e.1) out := by
    have hReserved : (0 : UInt8).toInt8 = 0 := rfl
    simp only [encodeHeader, putU16, putU32, chars, Rpc.encodeHeader, Rpc.putU16, Rpc.putU32,
      List.cons_append, List.nil_append, List.map_cons, List.map_nil, List.zipIdx_cons,
      List.zipIdx_nil, List.foldl_cons, List.foldl_nil, hReserved]
  have hLen : (chars (Rpc.encodeHeader header)).length = kHeaderSize := by simp
  rw [hWrites, foldl_set_zipIdx (by omega), overwrite_eq (by omega), hLen, List.take_zero, List.nil_append,
    Nat.zero_add]

/-- **The decoder reads the bytes of the header**, and a rejected input leaves the caller's
value as it was. -/
theorem decodeHeader_eq (s : Chars) (prev : MessageHeader) :
    decodeHeader (some s) (some prev) =
      match Rpc.decodeHeader (bytes s) with
      | none => (false, some prev)
      | some header => (true, some header) := by
  simp only [decodeHeader, Rpc.decodeHeader, length_bytes, getU16_eq, getU32_eq, byteAt_eq]
  by_cases hLen : s.length < kHeaderSize
  · simp only [if_pos hLen]
  · by_cases hMagic : Rpc.getU16 (bytes s) 0 ≠ kMagic
    · simp only [if_neg hLen, if_pos hMagic]
    · simp only [if_neg hLen, if_neg hMagic]

theorem decodeHeader_fst_iff (s : Chars) (prev : MessageHeader) :
    (decodeHeader (some s) (some prev)).1 = true ↔ (Rpc.decodeHeader (bytes s)).isSome = true := by
  rw [decodeHeader_eq]
  cases Rpc.decodeHeader (bytes s) with
  | none => simp
  | some header => simp

/-- A char is the byte that it is cast from. -/
theorem byteAt_bytes_iff {s : Chars} {i : Nat} (hi : i < s.length) (b : UInt8) :
    Rpc.byteAt (bytes s) i = b ↔ s[i]? = some b.toInt8 := by
  rw [← byteAt_eq, byteAt, List.getD_eq_getElem?_getD, List.getElem?_eq_getElem hi,
    Option.getD_some, Option.some.injEq]
  constructor
  · rintro rfl
    exact (Int8.toInt8_toUInt8 _).symm
  · intro h
    rw [h, UInt8.toUInt8_toInt8]

theorem chars_set (s : Bytes) (i : Nat) (b : UInt8) :
    chars (s.set i b) = (chars s).set i b.toInt8 := List.map_set

/-- **The header codec is a bijection up to the reserved byte.** A header with the right
magic, all other fields arbitrary, is written into any sixteen chars and read back from them,
whatever stands behind them and whatever value the caller had. An input of at least sixteen
chars is accepted if it starts with `52 4E`, and the header that is returned is then written
as the first sixteen chars of the input, with a zero in place of the reserved one. -/
theorem header_codec_exact (prev : MessageHeader) (out : Chars) (hOut : out.length = kHeaderSize) :
    (∀ (header : MessageHeader) (rest : Chars), header.magic = 0x4E52 →
      decodeHeader (some (encodeHeader header out ++ rest)) (some prev) = (true, some header)) ∧
    (∀ s : Chars, kHeaderSize ≤ s.length →
      ((decodeHeader (some s) (some prev)).1 = true ↔
        s[0]? = some 0x52 ∧ s[1]? = some 0x4E) ∧
      ∀ header, decodeHeader (some s) (some prev) = (true, some header) →
        encodeHeader header out = (s.take kHeaderSize).set 7 0) := by
  have hWritten : ∀ header, encodeHeader header out = chars (Rpc.encodeHeader header) := by
    intro header
    rw [encodeHeader_eq header hOut.ge, ← hOut, List.drop_length, List.append_nil]
  refine ⟨fun header rest hMagic => ?_, fun s hLen => ⟨?_, fun header hDecoded => ?_⟩⟩
  · rw [decodeHeader_eq, hWritten, bytes_append, bytes_chars, decodeHeader_encodeHeader hMagic]
  · have h16 : 16 ≤ s.length := hLen
    rw [decodeHeader_fst_iff, decodeHeader_isSome_iff (by rw [length_bytes]; exact hLen),
      byteAt_bytes_iff (by omega), byteAt_bytes_iff (by omega)]
    rfl
  · -- the header that was returned is the one that the bytes give
    rw [decodeHeader_eq] at hDecoded
    cases hBytes : Rpc.decodeHeader (bytes s) with
    | none =>
      rw [hBytes] at hDecoded
      cases hDecoded
    | some header' =>
      rw [hBytes] at hDecoded
      obtain rfl : header' = header := by simpa using hDecoded
      have hTake : chars ((bytes s).take kHeaderSize) = s.take kHeaderSize := by
        rw [chars, List.map_take, ← chars, chars_bytes]
      rw [hWritten, encodeHeader_decodeHeader hBytes, chars_set, hTake]
      rfl

/-- A JSON request with undefined flags and something in the reserved byte. -/
def strangeRequest : Chars :=
  chars [0x52, 0x4E, 1, 1, 0xFC, 0, 1, 0xBB, 1, 0, 0, 0, 31, 0, 0, 0x80, 0x7B]

theorem header_codec_exact_strange :
    ∃ header, decodeHeader (some strangeRequest) (some MessageHeader.zero) = (true, some header) ∧
      header.flags = 0xFC ∧ header.bodyLen = 0x8000001F ∧
      encodeHeader header (List.replicate 16 0) = (strangeRequest.take kHeaderSize).set 7 0 ∧
      decodeHeader (some (encodeHeader header (List.replicate 16 0) ++ [0x7B])) (some header) =
        (true, some header) := by
  obtain ⟨header, hDecoded, hMagic, hFlags, hLen⟩ : ∃ header,
      decodeHeader (some strangeRequest) (some MessageHeader.zero) = (true, some header) ∧
        header.magic = 0x4E52 ∧ header.flags = 0xFC ∧ header.bodyLen = 0x8000001F :=
    ⟨_, rfl, rfl, rfl, rfl⟩
  obtain ⟨-, hRead⟩ := header_codec_exact MessageHeader.zero (List.replicate 16 0) rfl
  obtain ⟨hWritten, -⟩ := header_codec_exact header (List.replicate 16 0) rfl
  exact ⟨header, hDecoded, hFlags, hLen, (hRead strangeRequest (by decide)).2 header hDecoded,
    hWritten header [0x7B] hMagic⟩

end HeaderMemory

end ReactorNet.Rpc
