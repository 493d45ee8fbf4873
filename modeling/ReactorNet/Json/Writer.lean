import ReactorNet.Json.Utf8
import ReactorNet.Json.Value

/-!
# ReactorNet — the JSON writer

`JsonWriter::write`. The functions return the text that the source appends, and `none`
stands for `return false`: the source builds the text in a buffer of its own and drops
it then, so a failed write leaves the caller's string as it was.

Main result:

* `writeValue_isSome_iff` — which values are written.
-/

namespace ReactorNet.Json

open ReactorNet.Lib

namespace Writer

/-! ## Strings and numbers -/

/-- `"0123456789abcdef"` -/
def kHex : Bytes :=
  [0x30, 0x31, 0x32, 0x33, 0x34, 0x35, 0x36, 0x37, 0x38, 0x39, 0x61, 0x62, 0x63, 0x64, 0x65, 0x66]

/-- What is written for one byte of a string. -/
def escapeByte (c : UInt8) : Bytes :=
  if c = 0x22 then [0x5C, 0x22]
  else if c = 0x5C then [0x5C, 0x5C]
  else if c = 0x08 then [0x5C, 0x62]
  else if c = 0x0C then [0x5C, 0x66]
  else if c = 0x0A then [0x5C, 0x6E]
  else if c = 0x0D then [0x5C, 0x72]
  else if c = 0x09 then [0x5C, 0x74]
  else if c < 0x20 then
    [0x5C, 0x75, 0x30, 0x30, kHex.getD (c.toNat >>> 4) 0, kHex.getD (c.toNat &&& 0x0F) 0]
  else [c]

def writeString (text : Bytes) : Option Bytes :=
  -- the whole string is checked before its first byte is written
  if isValidUtf8 text then some (0x22 :: (text.flatMap escapeByte ++ [0x22])) else none

/-- The size of the buffer that `std::to_chars` writes to. -/
def bufferSize : Nat := 64

def writeInteger (n : Int64) : Option Bytes :=
  if (toCharsInt n).length ≤ bufferSize then some (toCharsInt n) else none

/-- `find_first_of(".eE") != npos` -/
def hasFractionOrExponent (s : Bytes) : Bool := s.any fun c => c == 0x2E || c == 0x65 || c == 0x45

variable (lib : DoubleChars)

/-- A double without fraction and exponent gets `.0`, since `1` would be read as an integer. -/
def writeDouble (x : lib.Double) : Option Bytes :=
  -- JSON has no literal for the others
  if lib.isFinite x then
    if (lib.toChars x).length ≤ bufferSize then
      some (lib.toChars x ++ if hasFractionOrExponent (lib.toChars x) then [] else [0x2E, 0x30])
    else none
  else none

/-! ## Values -/

/-- The loop over the items of a container: a comma in front of all but the first. -/
def separated (isFirst : Bool) : List (Option Bytes) → Option Bytes
  | [] => some []
  | item :: items => do
    let s ← item
    let t ← separated false items
    return (if isFirst then s else 0x2C :: s) ++ t

mutual

/-- `depth` is the number of containers already entered. -/
def writeValue (maxDepth depth : Nat) : JsonValue lib.Double → Option Bytes
  | .null => some [0x6E, 0x75, 0x6C, 0x6C]
  | .bool true => some [0x74, 0x72, 0x75, 0x65]
  | .bool false => some [0x66, 0x61, 0x6C, 0x73, 0x65]
  | .integer n => writeInteger n
  | .number x => writeDouble lib x
  | .string s => writeString s
  | .array items =>
    -- entering this container must not exceed the limit
    if depth ≥ maxDepth then none
    else (separated true (writeItems maxDepth (depth + 1) items)).map fun s =>
      0x5B :: (s ++ [0x5D])
  | .object members =>
    if depth ≥ maxDepth then none
    else (separated true (writeMembers maxDepth (depth + 1) members)).map fun s =>
      0x7B :: (s ++ [0x7D])

def writeItems (maxDepth depth : Nat) : List (JsonValue lib.Double) → List (Option Bytes)
  | [] => []
  | v :: vs => writeValue maxDepth depth v :: writeItems maxDepth depth vs

def writeMembers (maxDepth depth : Nat) :
    List (Bytes × JsonValue lib.Double) → List (Option Bytes)
  | [] => []
  | (key, v) :: ms =>
    (do
      let s ← writeString key
      let t ← writeValue maxDepth depth v
      return s ++ 0x3A :: t) :: writeMembers maxDepth depth ms

end

end Writer

/-- `JsonWriter::write` -/
def write (lib : DoubleChars) (maxDepth : Nat) (value : JsonValue lib.Double) : Option Bytes :=
  Writer.writeValue lib maxDepth 0 value

namespace Writer

variable {lib : DoubleChars}

/-! ## What is written -/

/-- What is written for a member of an object. -/
def writeMember (lib : DoubleChars) (maxDepth depth : Nat) (m : Bytes × JsonValue lib.Double) :
    Option Bytes := do
  let s ← writeString m.1
  let t ← writeValue lib maxDepth depth m.2
  return s ++ 0x3A :: t

theorem writeItems_eq (maxDepth depth : Nat) (items : List (JsonValue lib.Double)) :
    writeItems lib maxDepth depth items = items.map (writeValue lib maxDepth depth) := by
  induction items with
  | nil => rw [writeItems, List.map_nil]
  | cons v vs ih => rw [writeItems, List.map_cons, ih]

theorem writeMembers_eq (maxDepth depth : Nat) (members : List (Bytes × JsonValue lib.Double)) :
    writeMembers lib maxDepth depth members = members.map (writeMember lib maxDepth depth) := by
  induction members with
  | nil => rw [writeMembers, List.map_nil]
  | cons m ms ih => rw [writeMembers, List.map_cons, ih, writeMember]

theorem separated_isSome_iff (isFirst : Bool) {items : List (Option Bytes)} :
    (separated isFirst items).isSome ↔ ∀ item ∈ items, item.isSome := by
  induction items generalizing isFirst with
  | nil => simp [separated]
  | cons item items ih =>
    rw [List.forall_mem_cons, ← ih false]
    cases item with
    | none => simp [separated]
    | some s => cases h : separated false items <;> simp [separated, h]

theorem writeMember_isSome_iff {maxDepth depth : Nat} {m : Bytes × JsonValue lib.Double} :
    (writeMember lib maxDepth depth m).isSome ↔
      IsUtf8 m.1 ∧ (writeValue lib maxDepth depth m.2).isSome := by
  rw [← isValidUtf8_iff]
  by_cases hKey : isValidUtf8 m.1 = true
  · cases hValue : writeValue lib maxDepth depth m.2 <;>
      simp [writeMember, writeString, hKey, hValue]
  · simp [writeMember, writeString, hKey]

theorem writeInteger_eq (n : Int64) : writeInteger n = some (toCharsInt n) := by
  have hLength := length_toCharsInt_le n
  rw [writeInteger, if_pos]
  exact hLength.trans (by decide)

theorem writeDouble_eq {x : lib.Double} (hx : lib.isFinite x = true) :
    writeDouble lib x = some (lib.toChars x ++
      if hasFractionOrExponent (lib.toChars x) then [] else [0x2E, 0x30]) := by
  have hLength : (lib.toChars x).length ≤ bufferSize := lib.toChars_length x hx
  rw [writeDouble, if_pos hx, if_pos hLength]

/-- The value has no more than `k` containers around each other, and a spelling in JSON. -/
def Writable (lib : DoubleChars) (k : Nat) (v : JsonValue lib.Double) : Prop :=
  v.nesting ≤ k ∧ (∀ s ∈ v.strings, IsUtf8 s) ∧ ∀ x ∈ v.doubles, lib.isFinite x = true

theorem writable_array {k : Nat} {items : List (JsonValue lib.Double)} :
    Writable lib (k + 1) (.array items) ↔ ∀ v ∈ items, Writable lib k v := by
  simp only [Writable, JsonValue.nesting, JsonValue.strings, JsonValue.doubles,
    Nat.add_le_add_iff_right, JsonValue.nestingItems_le_iff, JsonValue.forall_stringsItems,
    JsonValue.forall_doublesItems]
  constructor
  · rintro ⟨hNesting, hStrings, hDoubles⟩ v hv
    exact ⟨hNesting v hv, hStrings v hv, hDoubles v hv⟩
  · intro h
    exact ⟨fun v hv => (h v hv).1, fun v hv => (h v hv).2.1, fun v hv => (h v hv).2.2⟩

theorem writable_object {k : Nat} {members : List (Bytes × JsonValue lib.Double)} :
    Writable lib (k + 1) (.object members) ↔
      ∀ m ∈ members, IsUtf8 m.1 ∧ Writable lib k m.2 := by
  simp only [Writable, JsonValue.nesting, JsonValue.strings, JsonValue.doubles,
    Nat.add_le_add_iff_right, JsonValue.nestingMembers_le_iff, JsonValue.forall_stringsMembers,
    JsonValue.forall_doublesMembers]
  constructor
  · rintro ⟨hNesting, hStrings, hDoubles⟩ m hm
    exact ⟨(hStrings m hm).1, hNesting m hm, (hStrings m hm).2, hDoubles m hm⟩
  · intro h
    exact ⟨fun m hm => (h m hm).2.1, fun m hm => ⟨(h m hm).1, (h m hm).2.2.1⟩,
      fun m hm => (h m hm).2.2.2⟩

/-- **Which values are written**, by induction over the value: at each container one more
level is used up, and the items decide the rest. -/
theorem writeValue_isSome_iff (maxDepth : Nat) (v : JsonValue lib.Double) :
    ∀ depth ≤ maxDepth,
      ((writeValue lib maxDepth depth v).isSome ↔ Writable lib (maxDepth - depth) v) := by
  have hNotZero : ∀ n : Nat, ¬ n + 1 ≤ 0 := by omega
  induction v using JsonValue.induct with
  | null => simp [writeValue, Writable, JsonValue.nesting, JsonValue.strings, JsonValue.doubles]
  | bool b =>
    cases b <;>
      simp [writeValue, Writable, JsonValue.nesting, JsonValue.strings, JsonValue.doubles]
  | integer n =>
    simp [writeValue, writeInteger_eq, Writable, JsonValue.nesting, JsonValue.strings,
      JsonValue.doubles]
  | number x =>
    intro depth _
    by_cases hx : lib.isFinite x = true
    · simp [writeValue, writeDouble_eq hx, Writable, JsonValue.nesting, JsonValue.strings,
        JsonValue.doubles, hx]
    · simp [writeValue, writeDouble, Writable, JsonValue.nesting, JsonValue.strings,
        JsonValue.doubles, hx]
  | string s =>
    intro depth _
    have hUtf8 := isValidUtf8_iff s
    by_cases hs : isValidUtf8 s = true <;>
      simp_all [writeValue, writeString, Writable, JsonValue.nesting, JsonValue.strings,
        JsonValue.doubles]
  | array items ih =>
    intro depth hDepth
    rw [writeValue]
    by_cases hFull : depth ≥ maxDepth
    · -- no level is left, and the array itself needs one
      rw [if_pos hFull, Nat.sub_eq_zero_of_le hFull]
      exact iff_of_false (by simp) fun h => hNotZero _ h.1
    · rw [if_neg hFull, Option.isSome_map, separated_isSome_iff, writeItems_eq,
        List.forall_mem_map, show maxDepth - depth = maxDepth - (depth + 1) + 1 by omega,
        writable_array]
      exact forall₂_congr fun v hv => ih v hv (depth + 1) (by omega)
  | object members ih =>
    intro depth hDepth
    rw [writeValue]
    by_cases hFull : depth ≥ maxDepth
    · rw [if_pos hFull, Nat.sub_eq_zero_of_le hFull]
      exact iff_of_false (by simp) fun h => hNotZero _ h.1
    · rw [if_neg hFull, Option.isSome_map, separated_isSome_iff, writeMembers_eq,
        List.forall_mem_map, show maxDepth - depth = maxDepth - (depth + 1) + 1 by omega,
        writable_object]
      exact forall₂_congr fun m hm => by
        rw [writeMember_isSome_iff, ih m hm (depth + 1) (by omega)]

end Writer

end ReactorNet.Json
