import ReactorNet.Rpc.Codec

/-!
# ReactorNet — the request envelope is a bijection

Two lengths of the peer stand inside a request body, and the decoder believes neither
before it has compared it with what is there. So it accepts exactly the bodies that the
encoder produces, and no two bodies mean the same request.

`decodeRequest` reads a byte that is not there as zero. `InBounds.decodeRequest` is the same
function over checked reads, where that is a fault; `inBounds_decodeRequest` says that no
read of it ever fails.

Main result: `request_codec_bijective`.
-/

namespace ReactorNet.Rpc

open Lib

namespace RawCodec

/-! ## Checked reads -/

namespace InBounds

/-- `in[offset]` and `in[offset + 1]`. -/
def getU16 (s : Bytes) (offset : Nat) : Except Fault UInt16 := do
  let low ← readAt s offset
  let high ← readAt s (offset + 1)
  return low.toUInt16 ||| (high.toUInt16 <<< 8)

def decodeRequest (s : Bytes) : Except Fault (Option Request) := do
  if s.length < 2 || kMaxBodyLen < s.length then return none
  let svcLen := (← getU16 s 0).toNat
  if svcLen = 0 then return none
  if s.length < 2 + svcLen + 2 then return none
  let methodOffset := 2 + svcLen
  let methodLen := (← getU16 s methodOffset).toNat
  if methodLen = 0 then return none
  if s.length < 4 + svcLen + methodLen then return none
  let service ← readRange s 2 svcLen
  let method ← readRange s (methodOffset + 2) methodLen
  let payload ← readRange s (4 + svcLen + methodLen) (s.length - (4 + svcLen + methodLen))
  return some ⟨service, method, payload⟩

end InBounds

variable {s : Bytes}

theorem inBounds_getU16 {offset : Nat} (h : offset + 2 ≤ s.length) :
    InBounds.getU16 s offset = .ok (getU16 s offset) := by
  simp only [InBounds.getU16, readAt_of_lt (show offset < s.length by omega),
    readAt_of_lt (show offset + 1 < s.length by omega)]
  simp [getU16, byteAt, bind, Except.bind, pure, Except.pure,
    show offset < s.length by omega, show offset + 1 < s.length by omega]

/-- **Every read of the decoder is inside the body.** -/
theorem inBounds_decodeRequest (s : Bytes) : InBounds.decodeRequest s = .ok (decodeRequest s) := by
  unfold InBounds.decodeRequest decodeRequest
  split
  · rfl
  rename_i hLen
  simp only [Bool.or_eq_true, decide_eq_true_eq, not_or, Nat.not_lt] at hLen
  rw [inBounds_getU16 (by omega)]
  simp only [bind, Except.bind]
  -- each length is read behind the check that it is there
  split
  · rfl
  split
  · rfl
  rw [inBounds_getU16 (by omega)]
  simp only
  split
  · rfl
  split
  · rfl
  rw [readRange_of_le (by omega), readRange_of_le (by omega), readRange_of_le (by omega)]
  rfl

/-! ## Decoding and encoding again -/

/-- The two bytes of a length are the encoding of that length. -/
theorem putU16_getU16 {i : Nat} (h : i + 2 ≤ s.length) : putU16 (getU16 s i) = slice s i 2 := by
  have hLow := (s[i]).toNat_lt
  have hHigh := (s[i + 1]).toNat_lt
  have hValue : (getU16 s i).toNat = s[i].toNat + s[i + 1].toNat * 2 ^ 8 := by
    rw [toNat_getU16]
    simp [byteAt, show i < s.length by omega, show i + 1 < s.length by omega]
  have hSlice : slice s i 2 = [s[i], s[i + 1]] := by
    rw [slice, List.drop_eq_getElem_cons (by omega), List.drop_eq_getElem_cons (by omega)]
    rfl
  rw [hSlice]
  show [_, _] = [_, _]
  congr 1
  · apply UInt8.toNat_inj.mp
    rw [toNat_low16, hValue]
    omega
  · congr 1
    apply UInt8.toNat_inj.mp
    rw [toNat_low16, toNat_shift16 _ 8 8 rfl, hValue]
    omega

/-- Everything a decoded body says about itself. -/
theorem decodeRequest_eq_some {r : Request} (h : decodeRequest s = some r) :
    s.length ≤ kMaxBodyLen ∧
      0 < (getU16 s 0).toNat ∧ 0 < (getU16 s (2 + (getU16 s 0).toNat)).toNat ∧
      4 + (getU16 s 0).toNat + (getU16 s (2 + (getU16 s 0).toNat)).toNat ≤ s.length ∧
      r.service = slice s 2 (getU16 s 0).toNat ∧
      r.method = slice s (2 + (getU16 s 0).toNat + 2) (getU16 s (2 + (getU16 s 0).toNat)).toNat ∧
      r.payload =
        s.drop (4 + (getU16 s 0).toNat + (getU16 s (2 + (getU16 s 0).toNat)).toNat) := by
  unfold decodeRequest at h
  split at h
  · cases h
  rename_i hLen
  simp only [Bool.or_eq_true, decide_eq_true_eq, not_or, Nat.not_lt] at hLen
  simp only at h
  split_ifs at h with hSvc hSvcFits hMethod hMethodFits
  cases h
  refine ⟨hLen.2, by omega, by omega, by omega, rfl, rfl, ?_⟩
  -- the payload is cut at its own length
  exact List.take_of_length_le (by rw [List.length_drop])

/-- **A body that is decoded is the encoding of what was decoded.** -/
theorem encodeRequest_decodeRequest {r : Request} (h : decodeRequest s = some r) :
    encodeRequest r = some s := by
  obtain ⟨hMax, hSvc, hMeth, hFits, hService, hMethod, hPayload⟩ := decodeRequest_eq_some h
  have hSvcLt := (getU16 s 0).toNat_lt
  have hMethLt := (getU16 s (2 + (getU16 s 0).toNat)).toNat_lt
  generalize hSvcLen : (getU16 s 0).toNat = svcLen at *
  generalize hMethLen : (getU16 s (2 + svcLen)).toNat = methodLen at *
  have hServiceLen : r.service.length = svcLen := by rw [hService, length_slice (by omega)]
  have hMethodLen : r.method.length = methodLen := by rw [hMethod, length_slice (by omega)]
  have hPayloadLen : r.payload.length = s.length - (4 + svcLen + methodLen) := by
    rw [hPayload, List.length_drop]
  refine encodeRequest_eq_some.mpr ⟨?_, ?_, by omega, ?_⟩
  · exact nameFits_iff.mpr ⟨by omega, by rw [kMaxNameLen]; omega⟩
  · exact nameFits_iff.mpr ⟨by omega, by rw [kMaxNameLen]; omega⟩
  · -- the body is its two lengths, its two names and the rest, in this order
    have hSvcPut : putU16 (UInt16.ofNat r.service.length) = slice s 0 2 := by
      rw [hServiceLen, ← hSvcLen, UInt16.ofNat_toNat, putU16_getU16 (by omega)]
    have hMethPut : putU16 (UInt16.ofNat r.method.length) = slice s (2 + svcLen) 2 := by
      rw [hMethodLen, ← hMethLen, UInt16.ofNat_toNat, putU16_getU16 (by omega)]
    have hCut : ∀ i n, i + n ≤ s.length → slice s i n ++ s.drop (i + n) = s.drop i := by
      intro i n hi
      have hAll := slice_append_drop s i n
      rwa [length_slice hi] at hAll
    rw [hSvcPut, hMethPut, hService, hMethod, hPayload]
    have h1 := hCut 0 2 (by omega)
    have h2 := hCut 2 svcLen (by omega)
    have h3 := hCut (2 + svcLen) 2 (by omega)
    have h4 := hCut (2 + svcLen + 2) methodLen (by omega)
    rw [show 4 + svcLen + methodLen = 2 + svcLen + 2 + methodLen by omega]
    simp only [List.append_assoc]
    rw [h4, h3, h2]
    simpa using h1.symm

/-- **The envelope codec is a bijection** between the requests with names of 1 to 65535 bytes
whose body fits the protocol's ceiling, and the bodies that are accepted. A request is encoded
if and only if it is one of these, and then decoding gives it back; a body is decoded if and
only if it is the encoding of some request, and then encoding gives it back, with every byte
read inside the body. -/
theorem request_codec_bijective (r : Request) (b : Bytes) :
    ((∃ body, encodeRequest r = some body) ↔
      (1 ≤ r.service.length ∧ r.service.length ≤ 65535) ∧
      (1 ≤ r.method.length ∧ r.method.length ≤ 65535) ∧
      2 + r.service.length + 2 + r.method.length + r.payload.length ≤ kMaxBodyLen) ∧
    (∀ body, encodeRequest r = some body → decodeRequest body = some r) ∧
    ((∃ decoded, decodeRequest b = some decoded) ↔
      ∃ request, encodeRequest request = some b) ∧
    (∀ decoded, decodeRequest b = some decoded → encodeRequest decoded = some b) ∧
    InBounds.decodeRequest b = .ok (decodeRequest b) := by
  refine ⟨?_, fun body h => decodeRequest_encodeRequest h, ?_,
    fun decoded h => encodeRequest_decodeRequest h, inBounds_decodeRequest b⟩
  · have hService : nameFits r.service = true ↔
        1 ≤ r.service.length ∧ r.service.length ≤ 65535 := nameFits_iff
    have hMethod : nameFits r.method = true ↔
        1 ≤ r.method.length ∧ r.method.length ≤ 65535 := nameFits_iff
    constructor
    · rintro ⟨body, h⟩
      obtain ⟨hs, hm, hMax, -⟩ := encodeRequest_eq_some.mp h
      exact ⟨hService.mp hs, hMethod.mp hm, hMax⟩
    · rintro ⟨hs, hm, hMax⟩
      exact ⟨_, encodeRequest_eq_some.mpr ⟨hService.mpr hs, hMethod.mpr hm, hMax, rfl⟩⟩
  · constructor
    · rintro ⟨decoded, h⟩
      exact ⟨decoded, encodeRequest_decodeRequest h⟩
    · rintro ⟨request, h⟩
      exact ⟨request, decodeRequest_encodeRequest h⟩

end RawCodec

end ReactorNet.Rpc
