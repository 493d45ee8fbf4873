import ReactorNet.Lib.Bytes

/-!
# ReactorNet — the frame header

The wire header of `rpc/protocol.h`: 16 bytes, little-endian, written and read
byte by byte. The enumerations have a fixed underlying type, and the decoder
casts bytes to them unchecked, so `MessageType` and `StatusCode` range over all
bytes and the enumerators are named values of them.

Main results:

* `decodeHeader_encodeHeader` — a header with the right magic survives the wire,
  whatever follows it.
* `decodeHeader_append` — the decoder looks at the first 16 bytes only.
* `encodeHeader_decodeHeader` — an accepted header is written back as it was read, but for
  the reserved byte.
-/

namespace ReactorNet.Rpc

/-- `enum class MessageType : uint8_t`. -/
structure MessageType where
  raw : UInt8
  deriving DecidableEq, Repr

namespace MessageType

def kRequest : MessageType := ⟨1⟩
def kResponse : MessageType := ⟨2⟩

end MessageType

/-- `enum class StatusCode : uint8_t`. -/
structure StatusCode where
  raw : UInt8
  deriving DecidableEq, Repr

namespace StatusCode

def kOk : StatusCode := ⟨0x00⟩
def kUnsupportedVersion : StatusCode := ⟨0x01⟩
def kUnsupportedMsgType : StatusCode := ⟨0x02⟩
def kUnsupportedFlag : StatusCode := ⟨0x03⟩
def kBadRequestId : StatusCode := ⟨0x04⟩
def kBodyTooLarge : StatusCode := ⟨0x05⟩
def kMalformedBody : StatusCode := ⟨0x06⟩
def kUnknownService : StatusCode := ⟨0x07⟩
def kUnknownMethod : StatusCode := ⟨0x08⟩
def kInternalError : StatusCode := ⟨0x09⟩
def kTimeout : StatusCode := ⟨0x0A⟩
def kConnectionClosed : StatusCode := ⟨0x0B⟩
def kBadRequest : StatusCode := ⟨0x0C⟩
def kUnsupportedSerializer : StatusCode := ⟨0x0D⟩

end StatusCode

structure MessageHeader where
  magic : UInt16
  version : UInt8
  type : MessageType
  flags : UInt8
  status : StatusCode
  serializerId : UInt8
  requestId : UInt32
  bodyLen : UInt32
  deriving DecidableEq, Repr

def kMagic : UInt16 := 0x4E52
def kVersion : UInt8 := 0x01
def kHeaderSize : Nat := 16
def kSerializerRaw : UInt8 := 0x00
def kSerializerJson : UInt8 := 0x01

/-- The protocol's ceiling for a body, 16 MiB. -/
def kMaxBodyLen : Nat := 16 * 1024 * 1024

/-! ## Little-endian integers -/

/-- `in[i]` for an index the caller has checked. -/
def byteAt (s : Bytes) (i : Nat) : UInt8 := s.getD i 0

def putU16 (value : UInt16) : Bytes :=
  [(value &&& 0xFF).toUInt8, ((value >>> 8) &&& 0xFF).toUInt8]

def putU32 (value : UInt32) : Bytes :=
  [(value &&& 0xFF).toUInt8, ((value >>> 8) &&& 0xFF).toUInt8,
    ((value >>> 16) &&& 0xFF).toUInt8, ((value >>> 24) &&& 0xFF).toUInt8]

def getU16 (s : Bytes) (offset : Nat) : UInt16 :=
  (byteAt s offset).toUInt16 ||| ((byteAt s (offset + 1)).toUInt16 <<< 8)

def getU32 (s : Bytes) (offset : Nat) : UInt32 :=
  (byteAt s offset).toUInt32 ||| ((byteAt s (offset + 1)).toUInt32 <<< 8) |||
    ((byteAt s (offset + 2)).toUInt32 <<< 16) ||| ((byteAt s (offset + 3)).toUInt32 <<< 24)

/-- Or-ing in a value shifted past the bits of the other is adding it. -/
theorem or_shiftLeft_mod {a b k w : Nat} (ha : a < 2 ^ k) (hb : b * 2 ^ k < 2 ^ w) :
    a ||| (b <<< k) % 2 ^ w = a + b * 2 ^ k := by
  rw [Nat.shiftLeft_eq, Nat.mod_eq_of_lt hb, ← Nat.shiftLeft_eq, Nat.or_comm,
    ← Nat.shiftLeft_add_eq_or_of_lt ha, Nat.shiftLeft_eq, Nat.add_comm]

theorem toNat_getU16 (s : Bytes) (offset : Nat) :
    (getU16 s offset).toNat =
      (byteAt s offset).toNat + (byteAt s (offset + 1)).toNat * 2 ^ 8 := by
  have h0 := (byteAt s offset).toNat_lt
  have h1 := (byteAt s (offset + 1)).toNat_lt
  simp only [getU16, UInt16.toNat_or, UInt16.toNat_shiftLeft, UInt8.toNat_toUInt16]
  -- the shift distance, out of its own modulus
  rw [show (8 : UInt16).toNat % 16 = 8 from rfl]
  exact or_shiftLeft_mod h0 (by omega)

theorem toNat_getU32 (s : Bytes) (offset : Nat) :
    (getU32 s offset).toNat =
      (byteAt s offset).toNat + (byteAt s (offset + 1)).toNat * 2 ^ 8 +
        (byteAt s (offset + 2)).toNat * 2 ^ 16 + (byteAt s (offset + 3)).toNat * 2 ^ 24 := by
  have h0 := (byteAt s offset).toNat_lt
  have h1 := (byteAt s (offset + 1)).toNat_lt
  have h2 := (byteAt s (offset + 2)).toNat_lt
  have h3 := (byteAt s (offset + 3)).toNat_lt
  simp only [getU32, UInt32.toNat_or, UInt32.toNat_shiftLeft, UInt8.toNat_toUInt32]
  -- the shift distances, out of their own modulus
  rw [show (8 : UInt32).toNat % 32 = 8 from rfl, show (16 : UInt32).toNat % 32 = 16 from rfl,
    show (24 : UInt32).toNat % 32 = 24 from rfl]
  -- the bytes come in one by one, each above the bits of those before it
  rw [or_shiftLeft_mod h0 (by omega)]
  rw [or_shiftLeft_mod (k := 16) (by omega) (by omega)]
  rw [or_shiftLeft_mod (k := 24) (by omega) (by omega)]

theorem toNat_low16 (v : UInt16) : (v &&& 0xFF).toUInt8.toNat = v.toNat % 2 ^ 8 := by
  rw [UInt16.toNat_toUInt8, UInt16.toNat_and, show (0xFF : UInt16).toNat = 2 ^ 8 - 1 from rfl,
    Nat.and_two_pow_sub_one_eq_mod, Nat.mod_mod]

theorem toNat_low32 (v : UInt32) : (v &&& 0xFF).toUInt8.toNat = v.toNat % 2 ^ 8 := by
  rw [UInt32.toNat_toUInt8, UInt32.toNat_and, show (0xFF : UInt32).toNat = 2 ^ 8 - 1 from rfl,
    Nat.and_two_pow_sub_one_eq_mod, Nat.mod_mod]

theorem toNat_shift16 (v k : UInt16) (n : Nat) (hk : k.toNat % 16 = n) :
    (v >>> k).toNat = v.toNat / 2 ^ n := by
  rw [UInt16.toNat_shiftRight, hk, Nat.shiftRight_eq_div_pow]

theorem toNat_shift32 (v k : UInt32) (n : Nat) (hk : k.toNat % 32 = n) :
    (v >>> k).toNat = v.toNat / 2 ^ n := by
  rw [UInt32.toNat_shiftRight, hk, Nat.shiftRight_eq_div_pow]

theorem getU16_putU16 (v : UInt16) (t : Bytes) : getU16 (putU16 v ++ t) 0 = v := by
  have hv := v.toNat_lt
  -- both sides as numbers: the bytes are the digits of `v` in base 256
  apply UInt16.toNat_inj.mp
  rw [toNat_getU16]
  show (v &&& 0xFF).toUInt8.toNat + (v >>> 8 &&& 0xFF).toUInt8.toNat * 2 ^ 8 = v.toNat
  rw [toNat_low16, toNat_low16, toNat_shift16 v 8 8 rfl]
  omega

theorem getU32_putU32 (v : UInt32) (t : Bytes) : getU32 (putU32 v ++ t) 0 = v := by
  have hv := v.toNat_lt
  apply UInt32.toNat_inj.mp
  rw [toNat_getU32]
  show (v &&& 0xFF).toUInt8.toNat + (v >>> 8 &&& 0xFF).toUInt8.toNat * 2 ^ 8 +
    (v >>> 16 &&& 0xFF).toUInt8.toNat * 2 ^ 16 + (v >>> 24 &&& 0xFF).toUInt8.toNat * 2 ^ 24 =
      v.toNat
  rw [toNat_low32, toNat_low32, toNat_low32, toNat_low32, toNat_shift32 v 8 8 rfl,
    toNat_shift32 v 16 16 rfl, toNat_shift32 v 24 24 rfl]
  omega

theorem putU16_getU16 (s : Bytes) (i : Nat) :
    putU16 (getU16 s i) = [byteAt s i, byteAt s (i + 1)] := by
  have h0 := (byteAt s i).toNat_lt
  have h1 := (byteAt s (i + 1)).toNat_lt
  have hLow : (getU16 s i &&& 0xFF).toUInt8 = byteAt s i := by
    apply UInt8.toNat_inj.mp
    rw [toNat_low16, toNat_getU16]
    omega
  have hHigh : (getU16 s i >>> 8 &&& 0xFF).toUInt8 = byteAt s (i + 1) := by
    apply UInt8.toNat_inj.mp
    rw [toNat_low16, toNat_shift16 _ 8 8 rfl, toNat_getU16]
    omega
  rw [putU16, hLow, hHigh]

theorem putU32_getU32 (s : Bytes) (i : Nat) :
    putU32 (getU32 s i) =
      [byteAt s i, byteAt s (i + 1), byteAt s (i + 2), byteAt s (i + 3)] := by
  have h0 := (byteAt s i).toNat_lt
  have h1 := (byteAt s (i + 1)).toNat_lt
  have h2 := (byteAt s (i + 2)).toNat_lt
  have h3 := (byteAt s (i + 3)).toNat_lt
  -- the digits in base 256 of a number that was put together from four of them
  have hDigit : ∀ (v : UInt32) (b : UInt8), v.toNat % 2 ^ 8 = b.toNat →
      (v &&& 0xFF).toUInt8 = b := by
    intro v b h
    apply UInt8.toNat_inj.mp
    rw [toNat_low32, h]
  rw [putU32]
  rw [hDigit (getU32 s i) (byteAt s i) (by rw [toNat_getU32]; omega),
    hDigit _ (byteAt s (i + 1)) (by rw [toNat_shift32 _ 8 8 rfl, toNat_getU32]; omega),
    hDigit _ (byteAt s (i + 2)) (by rw [toNat_shift32 _ 16 16 rfl, toNat_getU32]; omega),
    hDigit _ (byteAt s (i + 3)) (by rw [toNat_shift32 _ 24 24 rfl, toNat_getU32]; omega)]

@[simp] theorem length_putU16 (v : UInt16) : (putU16 v).length = 2 := rfl

variable {s : Bytes} {i : Nat} {h : MessageHeader}

theorem byteAt_append_left (t : Bytes) (h : i < s.length) : byteAt (s ++ t) i = byteAt s i := by
  simp only [byteAt, List.getD_eq_getElem?_getD, List.getElem?_append_left h]

theorem byteAt_append_right (t : Bytes) (h : s.length ≤ i) :
    byteAt (s ++ t) i = byteAt t (i - s.length) := by
  simp only [byteAt, List.getD_eq_getElem?_getD, List.getElem?_append_right h]

theorem getU16_append_left (t : Bytes) (h : i + 2 ≤ s.length) : getU16 (s ++ t) i = getU16 s i := by
  simp only [getU16]
  rw [byteAt_append_left t (by omega), byteAt_append_left t (by omega)]

theorem getU16_append_right (t : Bytes) (h : s.length ≤ i) :
    getU16 (s ++ t) i = getU16 t (i - s.length) := by
  simp only [getU16]
  rw [byteAt_append_right t h, byteAt_append_right t (by omega),
    show i + 1 - s.length = i - s.length + 1 by omega]

theorem getU32_append_left (t : Bytes) (h : i + 4 ≤ s.length) : getU32 (s ++ t) i = getU32 s i := by
  simp only [getU32]
  rw [byteAt_append_left t (by omega), byteAt_append_left t (by omega),
    byteAt_append_left t (by omega), byteAt_append_left t (by omega)]

/-! ## The header codec -/

/-- The 16 header bytes; the reserved byte is written as zero. -/
def encodeHeader (h : MessageHeader) : Bytes :=
  putU16 h.magic ++
    [h.version, h.type.raw, h.flags, h.status.raw, h.serializerId, 0] ++
    putU32 h.requestId ++ putU32 h.bodyLen

/-- The header at the front of the input. Size and magic are the only checks;
the reserved byte is skipped. -/
def decodeHeader (s : Bytes) : Option MessageHeader :=
  if s.length < kHeaderSize then none
  else
    let magic := getU16 s 0
    if magic ≠ kMagic then none
    else some
      { magic := magic
        -- bytes 2 to 6 one by one; byte 7 is reserved
        version := byteAt s 2
        type := ⟨byteAt s 3⟩
        flags := byteAt s 4
        status := ⟨byteAt s 5⟩
        serializerId := byteAt s 6
        requestId := getU32 s 8
        bodyLen := getU32 s 12 }

@[simp] theorem length_encodeHeader (h : MessageHeader) :
    (encodeHeader h).length = kHeaderSize := rfl

/-- **The decoder looks at the first 16 bytes only.** -/
theorem decodeHeader_append (t : Bytes) (h : kHeaderSize ≤ s.length) :
    decodeHeader (s ++ t) = decodeHeader s := by
  -- the two length checks agree, and every index read is below 16
  have hlen : ¬ s.length < kHeaderSize := by omega
  have hlen' : ¬ (s ++ t).length < kHeaderSize := by rw [List.length_append]; omega
  rw [kHeaderSize] at h
  simp only [decodeHeader, hlen, hlen', if_false]
  rw [getU16_append_left t (by omega), getU32_append_left t (by omega),
    getU32_append_left t (by omega), byteAt_append_left t (by omega),
    byteAt_append_left t (by omega), byteAt_append_left t (by omega),
    byteAt_append_left t (by omega), byteAt_append_left t (by omega)]

/-- **A header with the right magic survives the wire**, whatever follows it. -/
theorem decodeHeader_encodeHeader (hMagic : h.magic = kMagic) (t : Bytes) :
    decodeHeader (encodeHeader h ++ t) = some h := by
  have hlen : ¬ (encodeHeader h).length < kHeaderSize := by simp
  have h16 : getU16 (encodeHeader h) 0 = h.magic := by
    rw [encodeHeader, List.append_assoc, List.append_assoc]
    exact getU16_putU16 h.magic _
  have h32 : getU32 (encodeHeader h) 8 = h.requestId :=
    getU32_putU32 h.requestId (putU32 h.bodyLen)
  have h32' : getU32 (encodeHeader h) 12 = h.bodyLen := getU32_putU32 h.bodyLen []
  -- what follows does not matter; the fields are then read back one by one
  rw [decodeHeader_append t (by simp)]
  simp only [decodeHeader, hlen, if_false, h16, h32, h32', hMagic, ne_eq, not_true_eq_false]
  rw [← hMagic]
  rfl

theorem take_eq_map_byteAt {n : Nat} (h : n ≤ s.length) :
    s.take n = (List.range n).map (byteAt s) := by
  apply List.ext_getElem
  · simp [h]
  · intro i hi hi'
    have hLt : i < s.length := by
      rw [List.length_take] at hi
      omega
    rw [List.getElem_take, List.getElem_map, List.getElem_range, byteAt,
      List.getD_eq_getElem?_getD, List.getElem?_eq_getElem hLt, Option.getD_some]

theorem getU16_eq_kMagic_iff (s : Bytes) (i : Nat) :
    getU16 s i = kMagic ↔ byteAt s i = 0x52 ∧ byteAt s (i + 1) = 0x4E := by
  have h0 := (byteAt s i).toNat_lt
  have h1 := (byteAt s (i + 1)).toNat_lt
  rw [← UInt16.toNat_inj, ← UInt8.toNat_inj, ← UInt8.toNat_inj, toNat_getU16,
    show kMagic.toNat = 0x4E52 from rfl, show (0x52 : UInt8).toNat = 0x52 from rfl,
    show (0x4E : UInt8).toNat = 0x4E from rfl]
  omega

theorem decodeHeader_isSome_iff (h : kHeaderSize ≤ s.length) :
    (decodeHeader s).isSome = true ↔ byteAt s 0 = 0x52 ∧ byteAt s 1 = 0x4E := by
  rw [← getU16_eq_kMagic_iff s 0]
  have hLen : ¬ s.length < kHeaderSize := by omega
  by_cases hMagic : getU16 s 0 = kMagic
  · simp [decodeHeader, hLen, hMagic]
  · simp [decodeHeader, hLen, hMagic]

/-- **An accepted header is written back as it was read**, with a zero for the reserved
byte. -/
theorem encodeHeader_decodeHeader (hd : decodeHeader s = some h) :
    encodeHeader h = (s.take kHeaderSize).set 7 0 := by
  simp only [decodeHeader] at hd
  split_ifs at hd with hLen hMagic
  obtain rfl := Option.some.inj hd
  rw [take_eq_map_byteAt (by omega), encodeHeader, putU16_getU16, putU32_getU32, putU32_getU32]
  rfl

theorem le_length_of_decodeHeader (hd : decodeHeader s = some h) : kHeaderSize ≤ s.length := by
  by_contra hlt
  rw [decodeHeader, if_pos (by omega)] at hd
  simp at hd

end ReactorNet.Rpc
