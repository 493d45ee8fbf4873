import Mathlib.Data.Nat.Digits.Lemmas
import ReactorNet.Lib.Bytes

/-!
# ReactorNet — decimal numerals

The numeral of a natural number in ASCII digits, without leading zeros, and the
number that a string of digits stands for. Reading a numeral gives its number
back (`decimalValue_decimal`).
-/

namespace ReactorNet.Lib

/-- The ASCII digits. -/
def isDigit (b : UInt8) : Bool := 0x30 ≤ b && b ≤ 0x39

variable {b : UInt8} {n : Nat}

theorem isDigit_iff : isDigit b = true ↔ 0x30 ≤ b.toNat ∧ b.toNat ≤ 0x39 := by
  simp [isDigit, UInt8.le_iff_toNat_le]

/-- The digit for a number below ten. -/
def digitByte (d : Nat) : UInt8 := UInt8.ofNat (0x30 + d)

theorem digitByte_toNat {d : Nat} (hd : d < 10) : (digitByte d).toNat = 0x30 + d := by
  rw [digitByte, UInt8.toNat_ofNat']
  omega

theorem isDigit_digitByte {d : Nat} (hd : d < 10) : isDigit (digitByte d) = true := by
  rw [isDigit_iff, digitByte_toNat hd]
  omega

/-- The numeral of a number, most significant digit first. -/
def decimal (n : Nat) : Bytes :=
  if n = 0 then [digitByte 0] else (Nat.digits 10 n).reverse.map digitByte

/-- The number that a string of digits stands for. -/
def decimalValue (s : Bytes) : Nat := s.foldl (fun n b => (b.toNat - 0x30) + 10 * n) 0

theorem decimalValue_decimal (n : Nat) : decimalValue (decimal n) = n := by
  by_cases hn : n = 0
  · subst hn
    rfl
  · rw [decimal, if_neg hn, decimalValue, List.map_reverse, List.foldl_reverse, List.foldr_map]
    -- read from its last digit on, the fold is Horner's rule of `Nat.ofDigits`
    have hFold : ∀ l : List Nat, (∀ d ∈ l, d < 10) →
        l.foldr (fun d n => ((digitByte d).toNat - 0x30) + 10 * n) 0 = Nat.ofDigits 10 l := by
      intro l hl
      induction l with
      | nil => rfl
      | cons d l ih =>
        rw [List.foldr_cons, ih fun d hd => hl d (List.mem_cons_of_mem _ hd), Nat.ofDigits_cons,
          digitByte_toNat (hl d (List.mem_cons_self ..)), Nat.add_sub_cancel_left]
    rw [hFold _ fun d hd => Nat.digits_lt_base (by decide) hd, Nat.ofDigits_digits]

theorem decimal_injective : Function.Injective decimal :=
  Function.LeftInverse.injective decimalValue_decimal

theorem isDigit_of_mem_decimal (hb : b ∈ decimal n) : isDigit b = true := by
  rw [decimal] at hb
  split_ifs at hb
  · rw [List.mem_singleton.mp hb]
    exact isDigit_digitByte (by decide)
  · obtain ⟨d, hd, rfl⟩ := List.mem_map.mp hb
    exact isDigit_digitByte (Nat.digits_lt_base (by decide) (List.mem_reverse.mp hd))

theorem notMem_decimal (hb : isDigit b = false) : b ∉ decimal n :=
  fun hMem => by simp [isDigit_of_mem_decimal hMem] at hb

/-- The numeral of a number other than zero starts with a digit other than zero. -/
theorem decimal_cons (hn : n ≠ 0) :
    ∃ b s, decimal n = b :: s ∧ 0x31 ≤ b.toNat ∧ b.toNat ≤ 0x39 := by
  have hNe : Nat.digits 10 n ≠ [] := Nat.digits_ne_nil_iff_ne_zero.mpr hn
  have hLast := Nat.getLast_digit_ne_zero 10 hn
  have hLt : (Nat.digits 10 n).getLast hNe < 10 :=
    Nat.digits_lt_base (by decide) (List.getLast_mem hNe)
  -- `Nat.digits` has the most significant digit last
  refine ⟨digitByte ((Nat.digits 10 n).getLast hNe),
    (Nat.digits 10 n).dropLast.reverse.map digitByte, ?_, ?_⟩
  · rw [decimal, if_neg hn, ← List.map_cons, ← List.reverse_concat,
      List.dropLast_append_getLast]
  · rw [digitByte_toNat hLt]
    omega

theorem length_decimal_le {k : Nat} (hk : 0 < k) (hn : n < 10 ^ k) : (decimal n).length ≤ k := by
  rw [decimal]
  split_ifs
  · exact hk
  · rw [List.length_map, List.length_reverse]
    exact (Nat.digits_length_le_iff (by decide) n).mpr hn

end ReactorNet.Lib
