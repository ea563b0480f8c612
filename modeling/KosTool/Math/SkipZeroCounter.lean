import Mathlib.Data.BitVec

/-! # A 32-bit counter that skips zero

The values of a counter that starts at 1 and goes from `2 ^ 32 - 1` to 1. Values of close positions differ,
and the sign of their wrapped difference tells which position is the later one.
-/

namespace SkipZeroCounter

/-- The number of values the counter takes. -/
def period : ℕ := 2 ^ 32 - 1

/-- The value at the `n`th position, counted from 1. -/
def value (n : ℕ) : BitVec 32 := BitVec.ofNat 32 ((n - 1) % period + 1)

/-- How far apart positions may lie for their values to be compared by sign. -/
def window : ℕ := 2 ^ 31 - 2

theorem toNat_value (n : ℕ) : (value n).toNat = (n - 1) % period + 1 := by
  have bound := Nat.mod_lt (n - 1) (show 0 < period by decide)
  rw [value, BitVec.toNat_ofNat]
  exact Nat.mod_eq_of_lt (by simp only [period] at bound ⊢; omega)

/-- The value after a given one. -/
theorem value_succ {n : ℕ} (positive : 0 < n) :
    value (n + 1) = if value n + 1#32 = 0#32 then 1#32 else value n + 1#32 := by
  have here := toNat_value n
  have next := toNat_value (n + 1)
  simp only [period] at here next
  have zero : value n + 1#32 = 0#32 ↔ (value n).toNat = 2 ^ 32 - 1 := by
    constructor <;> intro same <;> bv_omega
  split <;> bv_omega

/-- Positions less than a period apart have different values. -/
theorem value_ne {m n : ℕ} (positive : 0 < m) (later : m < n) (near : n - m < period) : value m ≠ value n := by
  intro same
  have first := toNat_value m
  have second := toNat_value n
  rw [same] at first
  simp only [period] at first second near
  omega

/-- Within a window the counter wraps at most once. -/
theorem wraps_at_most_once {m n : ℕ} (notLater : m ≤ n) (near : n - m ≤ window) :
    (n - 1) / period = (m - 1) / period ∨ (n - 1) / period = (m - 1) / period + 1 := by
  simp only [window] at near
  simp only [period]
  omega

/-- The wrapped difference to an earlier position is positive. -/
theorem toInt_value_sub_pos {m n : ℕ} (positive : 0 < m) (later : m < n) (near : n - m ≤ window) :
    0 < (value n - value m).toInt := by
  have first := toNat_value m
  have second := toNat_value n
  have wraps := wraps_at_most_once (show m ≤ n by omega) near
  have lower := (value m).isLt
  have upper := (value n).isLt
  have quotient := Nat.div_add_mod (m - 1) period
  have quotient' := Nat.div_add_mod (n - 1) period
  simp only [period] at first second wraps quotient quotient'
  simp only [window] at near
  rw [BitVec.toInt_eq_toNat_cond, BitVec.toNat_sub]
  split <;> omega

/-- The wrapped difference to a position that is not earlier is not positive. -/
theorem toInt_value_sub_nonpos {m n : ℕ} (positive : 0 < m) (notLater : m ≤ n) (near : n - m ≤ window) :
    (value m - value n).toInt ≤ 0 := by
  have first := toNat_value m
  have second := toNat_value n
  have wraps := wraps_at_most_once (show m ≤ n by omega) near
  have lower := (value m).isLt
  have upper := (value n).isLt
  have quotient := Nat.div_add_mod (m - 1) period
  have quotient' := Nat.div_add_mod (n - 1) period
  simp only [period] at first second wraps quotient quotient'
  simp only [window] at near
  rw [BitVec.toInt_eq_toNat_cond, BitVec.toNat_sub]
  split <;> omega

end SkipZeroCounter
