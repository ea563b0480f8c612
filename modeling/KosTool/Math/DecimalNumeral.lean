import Mathlib.Data.Nat.Digits.Lemmas
import KosTool.Math.ByteWord

/-! # Decimal numerals

A text of the characters `0` to `9`, most significant first, without a leading zero, and the number that it denotes.
-/

namespace DecimalNumeral

open ByteWord

/-- The character of a digit. -/
def digitChar (digit : ℕ) : Byte := BitVec.ofNat 8 (0x30 + digit)

/-- What a text denotes, read from the left. -/
def value (text : List Byte) : ℕ := text.foldl (fun before c => 10 * before + (c.toNat - 0x30)) 0

/-- A text is the numeral of a number. -/
structure Numeral (text : List Byte) (n : ℕ) : Prop where
  nonempty : text ≠ []
  digits : ∀ c ∈ text, 0x30 ≤ c ∧ c ≤ 0x39
  leading : text.head? = some 0x30 → text = [0x30]
  denotes : value text = n

variable {n digit : ℕ}

theorem toNat_digitChar (small : digit < 10) : (digitChar digit).toNat = 0x30 + digit := by
  rw [digitChar, BitVec.toNat_ofNat]
  exact Nat.mod_eq_of_lt (by omega)

/-- The value of a text is that of its digits, least significant first. -/
theorem value_reverse_map {digits : List ℕ} (small : ∀ digit ∈ digits, digit < 10) :
    value (digits.map digitChar).reverse = Nat.ofDigits 10 digits := by
  rw [value, List.foldl_reverse, List.foldr_map, Nat.ofDigits_eq_foldr]
  induction digits with
  | nil => rfl
  | cons digit rest ih =>
    have here := toNat_digitChar (small digit List.mem_cons_self)
    rw [List.foldr_cons, List.foldr_cons, ih fun later inside => small later (List.mem_cons_of_mem _ inside), here]
    push_cast
    omega

theorem numeral_zero : Numeral [0x30] 0 where
  nonempty := List.cons_ne_nil _ _
  digits := by decide
  leading _ := rfl
  denotes := rfl

/-- The digits of a positive number, turned around, are its numeral. -/
theorem numeral_reverse_map (positive : n ≠ 0) : Numeral ((Nat.digits 10 n).map digitChar).reverse n where
  nonempty := by
    rw [Ne, List.reverse_eq_nil_iff, List.map_eq_nil_iff]
    exact Nat.digits_ne_nil_iff_ne_zero.mpr positive
  digits := by
    intro c inside
    obtain ⟨digit, among, rfl⟩ := List.mem_map.mp (List.mem_reverse.mp inside)
    have small := Nat.digits_lt_base (by decide : 1 < 10) among
    rw [BitVec.le_def, BitVec.le_def, toNat_digitChar small]
    change 0x30 ≤ 0x30 + digit ∧ 0x30 + digit ≤ 0x39
    omega
  leading := by
    intro zero
    have last := Nat.getLast_digit_ne_zero 10 positive
    have some_digits : Nat.digits 10 n ≠ [] := Nat.digits_ne_nil_iff_ne_zero.mpr positive
    have small := Nat.digits_lt_base (by decide : 1 < 10) (List.getLast_mem some_digits)
    rw [List.head?_reverse, List.getLast?_map, List.getLast?_eq_some_getLast some_digits, Option.map_some,
      Option.some.injEq] at zero
    have same := congrArg BitVec.toNat zero
    rw [toNat_digitChar small] at same
    change 0x30 + _ = 0x30 at same
    omega
  denotes := by
    rw [value_reverse_map fun digit inside => Nat.digits_lt_base (by decide) inside, Nat.ofDigits_digits]

end DecimalNumeral
