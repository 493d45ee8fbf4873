import ReactorNet.Lib.Decimal
import ReactorNet.Lib.Utf8

/-!
# ReactorNet — JSON values and numbers

`JsonValue` is the payload model that the reader and the writer share. Numbers are
`int64_t` or `double`, and the two are kept apart. The conversions between numbers
and text are those of the C++ library: for `int64_t` they are modelled here, for
`double` they are a parameter, `DoubleChars`, that states what is relied on.
-/

namespace ReactorNet.Json

open ReactorNet.Lib

/-! ## Values -/

/-- `JsonValue`, over the type of doubles. An object keeps the order of its members,
and may repeat a key. -/
inductive JsonValue (Double : Type) where
  | null
  | bool (value : Bool)
  | integer (value : Int64)
  | number (value : Double)
  | string (value : Bytes)
  | array (items : List (JsonValue Double))
  | object (members : List (Bytes × JsonValue Double))

namespace JsonValue

variable {Double : Type}

/-- Induction over values: what holds of the items holds of the container. -/
theorem induct {P : JsonValue Double → Prop} (null : P .null) (bool : ∀ b, P (.bool b))
    (integer : ∀ n, P (.integer n)) (number : ∀ x, P (.number x)) (string : ∀ s, P (.string s))
    (array : ∀ items, (∀ v ∈ items, P v) → P (.array items))
    (object : ∀ members, (∀ m ∈ members, P m.2) → P (.object members)) (v : JsonValue Double) :
    P v := by
  -- the recursor has a motive for each of the nested types: lists of values, lists of members,
  -- members
  refine @JsonValue.rec Double P (fun items => ∀ v ∈ items, P v)
    (fun members => ∀ m ∈ members, P m.2) (fun m => P m.2)
    null bool integer number string array object ?_ ?_ ?_ ?_ ?_ v
  · intro v hv
    cases hv
  · intro v items hv hItems
    exact List.forall_mem_cons.mpr ⟨hv, hItems⟩
  · intro m hm
    cases hm
  · intro m members hm hMembers
    exact List.forall_mem_cons.mpr ⟨hm, hMembers⟩
  · intro _ v hv
    exact hv

mutual

/-- How deep the containers of a value are nested; a scalar has none. -/
def nesting : JsonValue Double → Nat
  | .array items => nestingItems items + 1
  | .object members => nestingMembers members + 1
  | _ => 0

def nestingItems : List (JsonValue Double) → Nat
  | [] => 0
  | v :: vs => max v.nesting (nestingItems vs)

def nestingMembers : List (Bytes × JsonValue Double) → Nat
  | [] => 0
  | (_, v) :: ms => max v.nesting (nestingMembers ms)

end

mutual

/-- All strings of a value, the keys of its objects included. -/
def strings : JsonValue Double → List Bytes
  | .string s => [s]
  | .array items => stringsItems items
  | .object members => stringsMembers members
  | _ => []

def stringsItems : List (JsonValue Double) → List Bytes
  | [] => []
  | v :: vs => v.strings ++ stringsItems vs

def stringsMembers : List (Bytes × JsonValue Double) → List Bytes
  | [] => []
  | (k, v) :: ms => k :: v.strings ++ stringsMembers ms

end

mutual

/-- All doubles of a value. -/
def doubles : JsonValue Double → List Double
  | .number x => [x]
  | .array items => doublesItems items
  | .object members => doublesMembers members
  | _ => []

def doublesItems : List (JsonValue Double) → List Double
  | [] => []
  | v :: vs => v.doubles ++ doublesItems vs

def doublesMembers : List (Bytes × JsonValue Double) → List Double
  | [] => []
  | (_, v) :: ms => v.doubles ++ doublesMembers ms

end

/-! A container and its items. -/

variable {items : List (JsonValue Double)} {members : List (Bytes × JsonValue Double)}

theorem nestingItems_le_iff {k : Nat} : nestingItems items ≤ k ↔ ∀ v ∈ items, v.nesting ≤ k := by
  induction items with
  | nil => simp [nestingItems]
  | cons v vs ih => rw [nestingItems, max_le_iff, List.forall_mem_cons, ih]

theorem nestingMembers_le_iff {k : Nat} :
    nestingMembers members ≤ k ↔ ∀ m ∈ members, m.2.nesting ≤ k := by
  induction members with
  | nil => simp [nestingMembers]
  | cons m ms ih => rw [nestingMembers, max_le_iff, List.forall_mem_cons, ih]

theorem forall_stringsItems {P : Bytes → Prop} :
    (∀ s ∈ stringsItems items, P s) ↔ ∀ v ∈ items, ∀ s ∈ v.strings, P s := by
  induction items with
  | nil => simp [stringsItems]
  | cons v vs ih => rw [stringsItems, List.forall_mem_append, List.forall_mem_cons, ih]

theorem forall_stringsMembers {P : Bytes → Prop} :
    (∀ s ∈ stringsMembers members, P s) ↔
      ∀ m ∈ members, P m.1 ∧ ∀ s ∈ m.2.strings, P s := by
  induction members with
  | nil => simp [stringsMembers]
  | cons m ms ih =>
    rw [stringsMembers, List.forall_mem_append, List.forall_mem_cons, List.forall_mem_cons, ih]

theorem forall_doublesItems {P : Double → Prop} :
    (∀ x ∈ doublesItems items, P x) ↔ ∀ v ∈ items, ∀ x ∈ v.doubles, P x := by
  induction items with
  | nil => simp [doublesItems]
  | cons v vs ih => rw [doublesItems, List.forall_mem_append, List.forall_mem_cons, ih]

theorem forall_doublesMembers {P : Double → Prop} :
    (∀ x ∈ doublesMembers members, P x) ↔ ∀ m ∈ members, ∀ x ∈ m.2.doubles, P x := by
  induction members with
  | nil => simp [doublesMembers]
  | cons m ms ih => rw [doublesMembers, List.forall_mem_append, List.forall_mem_cons, ih]

end JsonValue

/-! ## Number tokens -/

/-- `1*DIGIT` -/
def IsDigits (s : Bytes) : Prop := s ≠ [] ∧ ∀ b ∈ s, isDigit b = true

/-- `[ minus ]` -/
def IsMinus (s : Bytes) : Prop := s = [] ∨ s = [0x2D]

/-- `int = zero / ( digit1-9 *DIGIT )` -/
inductive IsInt : Bytes → Prop
  | zero : IsInt [0x30]
  | digits {d : UInt8} {s : Bytes} (hd : 0x31 ≤ d ∧ d ≤ 0x39)
      (hs : ∀ b ∈ s, isDigit b = true) : IsInt (d :: s)

/-- `[ frac ]`, with `frac = decimal-point 1*DIGIT` -/
inductive IsFrac : Bytes → Prop
  | none : IsFrac []
  | digits {s : Bytes} (hs : IsDigits s) : IsFrac (0x2E :: s)

/-- `[ exp ]`, with `exp = e [ minus / plus ] 1*DIGIT` -/
inductive IsExp : Bytes → Prop
  | none : IsExp []
  | digits {e : UInt8} {sign s : Bytes} (he : e = 0x65 ∨ e = 0x45)
      (hSign : sign = [] ∨ sign = [0x2B] ∨ sign = [0x2D]) (hs : IsDigits s) :
      IsExp (e :: (sign ++ s))

/-- `number = [ minus ] int [ frac ] [ exp ]` -/
def IsNumber (t : Bytes) : Prop :=
  ∃ m i f e, IsMinus m ∧ IsInt i ∧ IsFrac f ∧ IsExp e ∧ t = m ++ (i ++ (f ++ e))

/-- A number token without fraction and exponent, and the integer it stands for. -/
inductive IsInteger : Bytes → Int → Prop
  | nonneg {s : Bytes} (hs : IsInt s) : IsInteger s (decimalValue s)
  | neg {s : Bytes} (hs : IsInt s) : IsInteger (0x2D :: s) (-decimalValue s)

/-! ## `std::to_chars` and `std::from_chars` -/

/-- The result of `std::from_chars`: its error, or how many bytes were read and the value. -/
inductive FromChars (α : Type) where
  | invalidArgument
  | resultOutOfRange
  | ok (count : Nat) (value : α)
  deriving DecidableEq

/-- `std::to_chars` of an `int64_t`. -/
def toCharsInt (n : Int64) : Bytes :=
  if n.toInt < 0 then 0x2D :: decimal n.toInt.natAbs else decimal n.toInt.natAbs

theorem length_toCharsInt_le (n : Int64) : (toCharsInt n).length ≤ 20 := by
  have hLow := n.le_toInt
  have hHigh := n.toInt_lt
  have hDigits : (decimal n.toInt.natAbs).length ≤ 19 :=
    length_decimal_le (by decide) (by omega)
  rw [toCharsInt]
  split_ifs
  · -- nineteen digits and a sign
    rw [List.length_cons]
    omega
  · omega

/-- `std::from_chars` into an `int64_t`: an optional minus sign and the longest run of
digits. -/
def fromCharsInt (s : Bytes) : FromChars Int64 :=
  let sign := if s.head? = some 0x2D then 1 else 0
  let digits := (s.drop sign).takeWhile isDigit
  if digits = [] then .invalidArgument
  else
    -- the sign is part of the number, so the two ends of the range differ
    let n : Int := if sign = 0 then decimalValue digits else -decimalValue digits
    if -2 ^ 63 ≤ n ∧ n < 2 ^ 63 then .ok (sign + digits.length) (Int64.ofInt n)
    else .resultOutOfRange

/-- Doubles and their conversions, with what is relied on: a number token is read as a
whole, to a finite double or out of range; a finite double is written as a number token
that fits the writer's buffer and is read back as the same double; and a fraction
`.0` behind an integer token does not change the double. -/
structure DoubleChars where
  Double : Type
  isFinite : Double → Bool
  toChars : Double → Bytes
  fromChars : Bytes → FromChars Double
  fromChars_number : ∀ t, IsNumber t → fromChars t = .resultOutOfRange ∨
    ∃ x, fromChars t = .ok t.length x ∧ isFinite x = true
  toChars_number : ∀ x, isFinite x = true → IsNumber (toChars x)
  toChars_length : ∀ x, isFinite x = true → (toChars x).length ≤ 64
  fromChars_toChars : ∀ x, isFinite x = true → fromChars (toChars x) = .ok (toChars x).length x
  fromChars_point_zero : ∀ t n x, IsInteger t n → fromChars t = .ok t.length x →
    fromChars (t ++ [0x2E, 0x30]) = .ok (t.length + 2) x

end ReactorNet.Json
