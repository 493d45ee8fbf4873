import Mathlib.Data.List.TakeWhile
import ReactorNet.Lib.Decimal

/-!
# ReactorNet — strings of the C++ library

What `std::string`, `std::istringstream`, `std::stoi` and `std::snprintf` do with bytes, in
the "C" locale. A position of `npos` is `none`. The functions that may throw return the
exception.

* `nextToken_eq_some` — what `operator>>` extracts.
* `stoi_eq_ok` — which texts `std::stoi` converts, and to what.
-/

namespace ReactorNet.Lib

inductive StdException where
  | outOfRange
  | invalidArgument
  deriving DecidableEq, Repr

/-- A string literal. -/
def ascii (s : String) : Bytes := s.toList.map fun c => UInt8.ofNat c.toNat

/-! ## `std::string` -/

/-- `s.substr(pos, n)` -/
def substr (s : Bytes) (pos : Nat) (n : Option Nat) : Except StdException Bytes :=
  if pos ≤ s.length then
    .ok (match n with
      | some n => (s.drop pos).take n
      | none => s.drop pos)
  else .error .outOfRange

/-- `s.erase(pos, n)` -/
def erase (s : Bytes) (pos : Nat) (n : Option Nat) : Except StdException Bytes :=
  if pos ≤ s.length then
    .ok (s.take pos ++ match n with
      | some n => s.drop (pos + n)
      | none => [])
  else .error .outOfRange

/-- `s.find_first_not_of(chars)` -/
def findFirstNotOf (chars s : Bytes) : Option Nat := s.findIdx? fun c => !chars.elem c

/-- `s.find_last_not_of(chars)` -/
def findLastNotOf (chars s : Bytes) : Option Nat :=
  (findFirstNotOf chars s.reverse).map fun i => s.length - 1 - i

/-- The text that `s.c_str()` is for a function that reads up to the first NUL. -/
def cStr (s : Bytes) : Bytes := s.takeWhile (· != 0)

/-- What `std::snprintf` leaves in a buffer of this size, as a C string. -/
def snprintf (size : Nat) (text : Bytes) : Bytes := cStr (text.take (size - 1))

variable {s : Bytes}

theorem substr_of_le {pos : Nat} (h : pos ≤ s.length) (n : Option Nat) :
    ∃ t, substr s pos n = .ok t := ⟨_, if_pos h⟩

theorem erase_of_le {pos : Nat} (h : pos ≤ s.length) (n : Option Nat) :
    ∃ t, erase s pos n = .ok t := ⟨_, if_pos h⟩

theorem findLastNotOf_lt {chars : Bytes} {i : Nat} (h : findLastNotOf chars s = some i) :
    i < s.length := by
  obtain ⟨j, hj, rfl⟩ := Option.map_eq_some_iff.mp h
  have hLt := (List.findIdx?_eq_some_iff_getElem.mp hj).1
  rw [List.length_reverse] at hLt
  omega

theorem cStr_eq_self (h : 0 ∉ s) : cStr s = s := by
  refine List.takeWhile_eq_self_iff.mpr fun b hb => ?_
  have hne : b ≠ 0 := fun hb0 => h (hb0 ▸ hb)
  simpa using hne

theorem zero_notMem_cStr (s : Bytes) : 0 ∉ cStr s := fun h => by
  simpa using List.mem_takeWhile_imp h

theorem snprintf_eq_take {text : Bytes} (h : 0 ∉ text) (size : Nat) :
    snprintf size text = text.take (size - 1) :=
  cStr_eq_self fun hMem => h (List.mem_of_mem_take hMem)

/-- A text that fits is left as it is. -/
theorem snprintf_of_lt {text : Bytes} (h : 0 ∉ text) {size : Nat} (hFits : text.length < size) :
    snprintf size text = text := by
  rw [snprintf_eq_take h, List.take_of_length_le (by omega)]

/-- Lines that are cut to a length give the whole text exactly if none was longer. -/
theorem flatMap_take_eq_flatten {n : Nat} {lines : List Bytes} :
    lines.flatMap (List.take n) = lines.flatten ↔ ∀ line ∈ lines, line.length ≤ n := by
  have hLe : ∀ lines : List Bytes, (lines.flatMap (List.take n)).length ≤ lines.flatten.length := by
    intro lines
    rw [List.length_flatMap, List.length_flatten]
    exact List.sum_le_sum fun line _ => List.length_take_le' n line
  induction lines with
  | nil => simp
  | cons line lines ih =>
    rw [List.forall_mem_cons, List.flatMap_cons, List.flatten_cons]
    constructor
    · intro h
      -- neither part can be longer than what it is compared with
      have hLength := congrArg List.length h
      have hRest := hLe lines
      rw [List.length_append, List.length_append, List.length_take] at hLength
      have hShort : line.length ≤ n := by omega
      rw [List.take_of_length_le hShort] at h
      exact ⟨hShort, ih.mp (List.append_cancel_left h)⟩
    · rintro ⟨hShort, h⟩
      rw [ih.mpr h, List.take_of_length_le hShort]

/-! ## Characters -/

/-- `std::isspace` -/
def isSpace (b : UInt8) : Bool := b == 0x20 || (0x09 ≤ b && b ≤ 0x0D)

theorem isDigit_not_space {b : UInt8} (h : isDigit b = true) : isSpace b = false := by
  obtain ⟨hLow, hHigh⟩ := isDigit_iff.mp h
  have hSpace : b ≠ 0x20 := by
    rintro rfl
    revert hLow
    decide
  simp only [isSpace, Bool.or_eq_false_iff, beq_eq_false_iff_ne, ne_eq, hSpace, not_false_eq_true,
    true_and, Bool.and_eq_false_iff, decide_eq_false_iff_not, UInt8.le_iff_toNat_le]
  right
  show ¬ b.toNat ≤ 13
  omega

/-! ## `operator>>` -/

/-- The next token of a stream and what is left behind it; `none` sets `failbit`. -/
def nextToken (s : Bytes) : Option (Bytes × Bytes) :=
  match s.dropWhile isSpace with
  | [] => none
  | b :: rest =>
    some ((b :: rest).takeWhile fun c => !isSpace c, (b :: rest).dropWhile fun c => !isSpace c)

/-- A text starts with one of these characters, or it is empty. -/
def StartsWith (p : UInt8 → Bool) (s : Bytes) : Prop := ∀ b, s.head? = some b → p b = true

/-- The characters of a token and what follows are separated by the first that is not one. -/
theorem span_eq {p : UInt8 → Bool} {rest : Bytes} (hs : ∀ b ∈ s, p b = true)
    (hRest : StartsWith (fun b => !p b) rest) :
    (s ++ rest).takeWhile p = s ∧ (s ++ rest).dropWhile p = rest := by
  rw [List.takeWhile_append_of_pos hs, List.dropWhile_append_of_pos hs]
  cases rest with
  | nil => simp
  | cons b rest =>
    have hb : p b = false := by simpa using hRest b rfl
    simp [hb]

theorem startsWith_dropWhile (p : UInt8 → Bool) (s : Bytes) :
    StartsWith (fun b => !p b) (s.dropWhile p) := by
  intro b hb
  have hNot := List.head?_dropWhile_not p s
  rw [hb] at hNot
  simp [hNot]

/-- **What `operator>>` extracts**: the first run of characters that are no blanks. -/
theorem nextToken_eq_some {token rest : Bytes} :
    nextToken s = some (token, rest) ↔
      ∃ blanks, s = blanks ++ (token ++ rest) ∧ (∀ b ∈ blanks, isSpace b = true) ∧
        token ≠ [] ∧ (∀ b ∈ token, isSpace b = false) ∧ StartsWith isSpace rest := by
  constructor
  · intro h
    -- the blanks skipped, then the token up to the next blank
    have hSplit := List.takeWhile_append_dropWhile (p := isSpace) (l := s)
    have hStart := startsWith_dropWhile isSpace s
    rw [nextToken] at h
    split at h
    · cases h
    · rename_i b tail hTail
      rw [hTail] at hSplit hStart
      have hb : isSpace b = false := by simpa using hStart b rfl
      obtain ⟨rfl, rfl⟩ := Prod.mk.inj (Option.some.inj h)
      refine ⟨s.takeWhile isSpace, ?_, fun c hc => List.mem_takeWhile_imp hc, ?_, ?_, ?_⟩
      · rw [List.takeWhile_append_dropWhile]
        exact hSplit.symm
      · simp [hb]
      · intro c hc
        simpa using List.mem_takeWhile_imp hc
      · simpa [StartsWith] using startsWith_dropWhile (fun c => !isSpace c) (b :: tail)
  · rintro ⟨blanks, rfl, hBlanks, hToken, hChars, hRest⟩
    obtain ⟨b, token, rfl⟩ := List.exists_cons_of_ne_nil hToken
    have hFront : (blanks ++ ((b :: token) ++ rest)).dropWhile isSpace = b :: (token ++ rest) := by
      rw [List.dropWhile_append_of_pos hBlanks, List.cons_append,
        List.dropWhile_cons_of_neg (by simp [hChars b (List.mem_cons_self ..)])]
    have hSpan := span_eq (p := fun c => !isSpace c) (s := b :: token)
      (fun c hc => by simp [hChars c hc]) (show StartsWith _ rest by simpa [StartsWith] using hRest)
    rw [List.cons_append] at hSpan
    rw [nextToken, hFront]
    simp only [hSpan]

/-! ## `std::stoi` -/

/-- An optional sign, and what it does to a number. -/
inductive IsSign : Bytes → (Nat → Int) → Prop
  | none : IsSign [] fun n => n
  | plus : IsSign [0x2B] fun n => n
  | minus : IsSign [0x2D] fun n => -n

/-- The optional sign at the front, and what is left behind it. -/
def takeSign : Bytes → Bool × Bytes
  | 0x2D :: rest => (true, rest)
  | 0x2B :: rest => (false, rest)
  | s => (false, s)

/-- The number that a sign and digits stand for. -/
def signedValue (negative : Bool) (n : Nat) : Int := if negative then -n else n

/-- `std::stoi`, which is `std::strtol` in base ten with its two errors. -/
def stoi (s : Bytes) : Except StdException Int :=
  let signed := takeSign (s.dropWhile isSpace)
  let digits := signed.2.takeWhile isDigit
  if digits = [] then .error .invalidArgument
  else
    let n := signedValue signed.1 (decimalValue digits)
    if -2 ^ 31 ≤ n ∧ n < 2 ^ 31 then .ok n else .error .outOfRange

/-- Blanks, a sign and at least one digit stand at the front, and the number is an `int`. -/
def Converts (s : Bytes) (n : Int) : Prop :=
  ∃ blanks sign digits rest f, s = blanks ++ (sign ++ (digits ++ rest)) ∧
    (∀ b ∈ blanks, isSpace b = true) ∧ IsSign sign f ∧ digits ≠ [] ∧
    (∀ b ∈ digits, isDigit b = true) ∧ StartsWith (fun b => !isDigit b) rest ∧
    n = f (decimalValue digits) ∧ -2 ^ 31 ≤ n ∧ n < 2 ^ 31

theorem takeSign_spec (s : Bytes) :
    ∃ sign, IsSign sign (signedValue (takeSign s).1) ∧ s = sign ++ (takeSign s).2 := by
  unfold takeSign
  split
  · exact ⟨[0x2D], .minus, rfl⟩
  · exact ⟨[0x2B], .plus, rfl⟩
  · exact ⟨[], .none, rfl⟩

/-- A sign in front of digits is taken as one. -/
theorem takeSign_append {sign digits : Bytes} {f : Nat → Int} (hSign : IsSign sign f)
    (hNe : digits ≠ []) (hDigits : ∀ b ∈ digits, isDigit b = true) (rest : Bytes) :
    ∃ negative, takeSign (sign ++ (digits ++ rest)) = (negative, digits ++ rest) ∧
      signedValue negative = f := by
  cases hSign with
  | plus => exact ⟨false, rfl, rfl⟩
  | minus => exact ⟨true, rfl, rfl⟩
  | none =>
    refine ⟨false, ?_, rfl⟩
    -- a digit is neither of the two signs
    obtain ⟨d, digits, rfl⟩ := List.exists_cons_of_ne_nil hNe
    have hd := hDigits d (List.mem_cons_self ..)
    rw [List.nil_append, List.cons_append, takeSign]
    · rintro rest' ⟨⟩
      exact absurd hd (by decide)
    · rintro rest' ⟨⟩
      exact absurd hd (by decide)

theorem startsWith_sign {sign digits : Bytes} {f : Nat → Int} (hSign : IsSign sign f)
    (hNe : digits ≠ []) (hDigits : ∀ b ∈ digits, isDigit b = true) (rest : Bytes) :
    StartsWith (fun b => !isSpace b) (sign ++ (digits ++ rest)) := by
  intro b hb
  cases hSign with
  | plus =>
    cases hb
    decide
  | minus =>
    cases hb
    decide
  | none =>
    obtain ⟨d, digits, rfl⟩ := List.exists_cons_of_ne_nil hNe
    have hd := hDigits d (List.mem_cons_self ..)
    cases hb
    simp [isDigit_not_space hd]

/-- **Which texts `std::stoi` converts.** -/
theorem stoi_eq_ok {n : Int} : stoi s = .ok n ↔ Converts s n := by
  constructor
  · intro h
    obtain ⟨sign, hSign, hEq⟩ := takeSign_spec (s.dropWhile isSpace)
    have hDigits := List.takeWhile_append_dropWhile
      (p := isDigit) (l := (takeSign (s.dropWhile isSpace)).2)
    have hBlanks := List.takeWhile_append_dropWhile (p := isSpace) (l := s)
    simp only [stoi] at h
    split_ifs at h with hNone hRange
    obtain rfl := Except.ok.inj h
    refine ⟨s.takeWhile isSpace, sign, _, (takeSign (s.dropWhile isSpace)).2.dropWhile isDigit, _, ?_,
      fun b hb => List.mem_takeWhile_imp hb, hSign, hNone, fun b hb => List.mem_takeWhile_imp hb,
      startsWith_dropWhile isDigit _, rfl, hRange⟩
    rw [hDigits, ← hEq, hBlanks]
  · rintro ⟨blanks, sign, digits, rest, f, rfl, hBlanks, hSign, hNe, hDigits, hRest, rfl, hRange⟩
    obtain ⟨negative, hTake, rfl⟩ := takeSign_append hSign hNe hDigits rest
    have hFront := (span_eq hBlanks (startsWith_sign hSign hNe hDigits rest)).2
    have hRun := (span_eq hDigits hRest).1
    simp only [stoi, hFront, hTake, hRun]
    rw [if_neg hNe]
    exact if_pos hRange

end ReactorNet.Lib
