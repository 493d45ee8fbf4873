import ReactorNet.Json.Canonical
import ReactorNet.Lib.StdString
import ReactorNet.Rpc.Codec

/-!
# ReactorNet — payload serializers

`Serializer` turns a value into the payload of a request or a response, and back. What a caller
relies on is part of the structure: a payload that was encoded is decoded to the value it was
encoded from, and is not longer than a body may be. `JsonSerializer` takes whatever the JSON
writer takes, and it keeps the contract because the parser reads back what the writer wrote.
-/

namespace ReactorNet.Rpc

open Lib Json

/-! ## The interface -/

/-- A serializer, with its contract. `none` stands for `return false`. -/
structure Serializer (Value : Type) where
  name : Bytes
  id : UInt8
  encode : Value → Option Bytes
  decode : Bytes → Option Value
  decode_encode : ∀ {value payload}, encode value = some payload → decode payload = some value
  length_encode_le : ∀ {value payload}, encode value = some payload → payload.length ≤ kMaxBodyLen
  length_decode_le : ∀ {value payload}, decode payload = some value → payload.length ≤ kMaxBodyLen

variable (lib : DoubleChars)

/-! ## JSON payloads -/

/-- `JsonParser::kDefaultMaxDepth`, and the writer's. -/
def kDefaultMaxDepth : Nat := 64

namespace JsonSerializer

variable (maxDepth : Nat)

def encode (value : JsonValue lib.Double) : Option Bytes :=
  match write lib maxDepth value with
  | none => none
  | some encoded => if kMaxBodyLen < encoded.length then none else some encoded

/-- The length is checked before the text is looked at. -/
def decode (payload : Bytes) : Option (JsonValue lib.Double) :=
  if kMaxBodyLen < payload.length then none else parse lib maxDepth payload

variable {lib maxDepth}

theorem encode_spec {value : JsonValue lib.Double} {payload : Bytes}
    (h : encode lib maxDepth value = some payload) :
    write lib maxDepth value = some payload ∧ payload.length ≤ kMaxBodyLen := by
  unfold encode at h
  split at h
  · cases h
  · split_ifs at h with hLen
    cases h
    exact ⟨‹_›, Nat.le_of_not_lt hLen⟩

theorem decode_eq_some {value : JsonValue lib.Double} {payload : Bytes} :
    decode lib maxDepth payload = some value ↔
      parse lib maxDepth payload = some value ∧ payload.length ≤ kMaxBodyLen := by
  unfold decode
  simp only [Option.ite_none_left_eq_some, Nat.not_lt, and_comm]

end JsonSerializer

open JsonSerializer in
def jsonSerializer (maxDepth : Nat) : Serializer (JsonValue lib.Double) where
  name := ascii "json"
  id := kSerializerJson
  encode := encode lib maxDepth
  decode := decode lib maxDepth
  decode_encode h := decode_eq_some.mpr ⟨parse_write (encode_spec h).1, (encode_spec h).2⟩
  length_encode_le h := (encode_spec h).2
  length_decode_le h := (decode_eq_some.mp h).2

end ReactorNet.Rpc
