import ReactorNet.Rpc.Protocol

/-!
# ReactorNet — the envelope codec

`RawCodec` of `rpc/src/raw_codec.cpp`. A request body names what to call, as two
strings behind 16-bit lengths, and carries the payload behind them; a response
body is the payload alone. Status and serializer id travel in the frame header.

Main result: `decodeRequest_encodeRequest` — the server reads back the request that the
client encoded.
-/

namespace ReactorNet.Rpc

open Lib

structure Request where
  service : Bytes
  method : Bytes
  payload : Bytes
  deriving DecidableEq, Repr

structure Response where
  status : StatusCode := .kOk
  payload : Bytes := []
  serializerId : UInt8 := kSerializerRaw
  deriving DecidableEq, Repr

namespace RawCodec

/-- `std::numeric_limits<uint16_t>::max()`. -/
def kMaxNameLen : Nat := 65535

def nameFits (name : Bytes) : Bool :=
  !name.isEmpty && decide (name.length ≤ kMaxNameLen)

def encodeRequest (request : Request) : Option Bytes :=
  if !nameFits request.service || !nameFits request.method then none
  else
    let bodyLen := 2 + request.service.length + 2 + request.method.length + request.payload.length
    if kMaxBodyLen < bodyLen then none
    else some (putU16 (UInt16.ofNat request.service.length) ++ request.service ++
      putU16 (UInt16.ofNat request.method.length) ++ request.method ++ request.payload)

def decodeRequest (s : Bytes) : Option Request :=
  if s.length < 2 || kMaxBodyLen < s.length then none
  else
    let svcLen := (getU16 s 0).toNat
    if svcLen = 0 then none
    -- a length is the peer's word: it has to fit before the bytes behind it are read
    else if s.length < 2 + svcLen + 2 then none
    else
      let methodOffset := 2 + svcLen
      let methodLen := (getU16 s methodOffset).toNat
      if methodLen = 0 then none
      else if s.length < 4 + svcLen + methodLen then none
      -- the envelope takes the whole body; whatever remains is payload
      else some
        { service := slice s 2 svcLen
          method := slice s (methodOffset + 2) methodLen
          payload := slice s (4 + svcLen + methodLen) (s.length - (4 + svcLen + methodLen)) }

def encodeResponse (response : Response) : Option Bytes :=
  if kMaxBodyLen < response.payload.length then none else some response.payload

/-- Only the payload is filled in; the status is the caller's, from the header. -/
def decodeResponse (s : Bytes) (response : Response) : Option Response :=
  if kMaxBodyLen < s.length then none else some { response with payload := s }

/-! ## What the codec accepts -/

theorem nameFits_iff {name : Bytes} :
    nameFits name = true ↔ 0 < name.length ∧ name.length ≤ kMaxNameLen := by
  simp [nameFits, List.length_pos_iff]

variable {r : Request} {body : Bytes}

/-- An encoded request, and what it took to encode it. -/
theorem encodeRequest_eq_some :
    encodeRequest r = some body ↔
      nameFits r.service = true ∧ nameFits r.method = true ∧
        2 + r.service.length + 2 + r.method.length + r.payload.length ≤ kMaxBodyLen ∧
        body = putU16 (UInt16.ofNat r.service.length) ++ r.service ++
          putU16 (UInt16.ofNat r.method.length) ++ r.method ++ r.payload := by
  unfold encodeRequest
  by_cases hs : nameFits r.service = true
  · by_cases hm : nameFits r.method = true
    · by_cases hb : kMaxBodyLen < 2 + r.service.length + 2 + r.method.length + r.payload.length
      · simp [hs, hm, hb]
      · simp [hs, hm, hb, eq_comm, Nat.le_of_not_lt hb]
    · simp [hm]
  · simp [hs]

theorem length_of_encodeRequest (h : encodeRequest r = some body) :
    body.length = 2 + r.service.length + 2 + r.method.length + r.payload.length := by
  obtain ⟨-, -, -, rfl⟩ := encodeRequest_eq_some.mp h
  simp only [List.length_append, length_putU16]

theorem toNat_ofNat_of_nameFits {name : Bytes} (h : nameFits name = true) :
    (UInt16.ofNat name.length).toNat = name.length := by
  have hle := (nameFits_iff.mp h).2
  rw [kMaxNameLen] at hle
  rw [UInt16.toNat_ofNat']
  omega

/-- **The server reads back the request the client encoded.** -/
theorem decodeRequest_encodeRequest (h : encodeRequest r = some body) :
    decodeRequest body = some r := by
  have hlen := length_of_encodeRequest h
  obtain ⟨hs, hm, hmax, hbody⟩ := encodeRequest_eq_some.mp h
  have hs0 := (nameFits_iff.mp hs).1
  have hm0 := (nameFits_iff.mp hm).1
  -- the body, cut at the two length prefixes
  have hcut1 : body = putU16 (UInt16.ofNat r.service.length) ++
      (r.service ++ (putU16 (UInt16.ofNat r.method.length) ++ (r.method ++ r.payload))) := by
    rw [hbody]; simp only [List.append_assoc]
  have hcut2 : body = (putU16 (UInt16.ofNat r.service.length) ++ r.service) ++
      (putU16 (UInt16.ofNat r.method.length) ++ (r.method ++ r.payload)) := by
    rw [hbody]; simp only [List.append_assoc]
  have hcut3 : body = (putU16 (UInt16.ofNat r.service.length) ++ r.service ++
      putU16 (UInt16.ofNat r.method.length)) ++ (r.method ++ r.payload) := by
    rw [hbody]; simp only [List.append_assoc]
  -- each length is read back where the body was cut in front of it
  have hsvc : (getU16 body 0).toNat = r.service.length := by
    rw [hcut1, getU16_putU16, toNat_ofNat_of_nameFits hs]
  have hmeth : (getU16 body (2 + r.service.length)).toNat = r.method.length := by
    rw [hcut2, getU16_append_right _ (by simp), List.length_append, length_putU16, Nat.sub_self,
      getU16_putU16, toNat_ofNat_of_nameFits hm]
  have hservice : slice body 2 r.service.length = r.service := by
    rw [hcut1, slice, List.drop_left' (by simp), List.take_left]
  have hmethod : slice body (2 + r.service.length + 2) r.method.length = r.method := by
    rw [hcut3, slice, List.drop_left' (by simp only [List.length_append, length_putU16]),
      List.take_left]
  have hpayload : slice body (4 + r.service.length + r.method.length)
      (body.length - (4 + r.service.length + r.method.length)) = r.payload := by
    rw [slice, List.take_of_length_le (by rw [List.length_drop]), hbody,
      List.drop_left' (by simp only [List.length_append, length_putU16]; omega)]
  -- every check of the decoder holds for these lengths
  unfold decodeRequest
  rw [if_neg (by simp; omega)]
  simp only [hsvc]
  rw [if_neg (by omega), if_neg (by omega), hmeth, if_neg (by omega), if_neg (by omega),
    hservice, hmethod, hpayload]

theorem encodeResponse_eq_some {r : Response} :
    encodeResponse r = some body ↔ r.payload.length ≤ kMaxBodyLen ∧ body = r.payload := by
  unfold encodeResponse
  split
  · simp only [reduceCtorEq, false_iff, not_and]
    intro h
    omega
  · simp only [Option.some.injEq]
    exact ⟨fun h => ⟨by omega, h.symm⟩, fun h => h.2.symm⟩

end RawCodec

end ReactorNet.Rpc
