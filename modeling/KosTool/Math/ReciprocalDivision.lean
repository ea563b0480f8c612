import Mathlib.Data.Nat.Init
import Mathlib.Tactic.Ring
import Mathlib.Tactic.Linarith

/-! # Division by a rounded-up fixed-point reciprocal

A divisor `d` is replaced by the reciprocal `⌈M / d⌉` of a scale `M`, and the quotient is read
off the high part of the product. The reciprocal is never too small, so the quotient never is
either; below the scale it is at most one too large. `mul_reciprocal_div` states exactly when.
-/

namespace ReciprocalDivision

/-- The reciprocal of `d` at scale `M`, rounded up. -/
def reciprocal (M d : ℕ) : ℕ := (M - 1) / d + 1

/-- How far the rounded reciprocal overshoots: `d * reciprocal M d = M + excess M d`. -/
def excess (M d : ℕ) : ℕ := reciprocal M d * d - M

variable {M d : ℕ}

theorem reciprocal_mul (scale : 0 < M) (divisor : 0 < d) :
    reciprocal M d * d = M + excess M d := by
  have split := Nat.div_add_mod (M - 1) d
  have rest := Nat.mod_lt (M - 1) divisor
  have large : M ≤ reciprocal M d * d := by
    rw [reciprocal, Nat.add_mul, Nat.one_mul, Nat.mul_comm]
    omega
  unfold excess
  omega

theorem excess_lt (scale : 0 < M) (divisor : 0 < d) : excess M d < d := by
  have split := Nat.div_add_mod (M - 1) d
  have total := reciprocal_mul scale divisor
  rw [reciprocal, Nat.add_mul, Nat.one_mul, Nat.mul_comm] at total
  omega

/-- A candidate quotient is reached exactly when the true product, scaled by `d`, reaches it. -/
theorem le_mul_reciprocal_div_iff (scale : 0 < M) (divisor : 0 < d) (n k : ℕ) :
    k ≤ n * reciprocal M d / M ↔ k * M * d ≤ n * M + n * excess M d := by
  have product : n * reciprocal M d * d = n * M + n * excess M d := by
    rw [Nat.mul_assoc, reciprocal_mul scale divisor, Nat.mul_add]
  rw [Nat.le_div_iff_mul_le scale, ← product]
  exact (Nat.mul_le_mul_right_iff divisor).symm

/-- The surplus that tips a quotient over: `n` overshoots when `n * excess` bridges the distance
from `n` to the next multiple of `d`. -/
def Overshoots (M d n : ℕ) : Prop := M * (d - n % d) ≤ n * excess M d

instance (M d n : ℕ) : Decidable (Overshoots M d n) := inferInstanceAs (Decidable (_ ≤ _))

/-- The reciprocal quotient is the floor, or one more exactly on the overshooting dividends. -/
theorem mul_reciprocal_div (divisor : 0 < d) {n : ℕ} (below : n < M) :
    n * reciprocal M d / M = n / d + if Overshoots M d n then 1 else 0 := by
  have scale : 0 < M := Nat.zero_lt_of_lt below
  have reached := le_mul_reciprocal_div_iff scale divisor n
  have split : d * (n / d) + n % d = n := Nat.div_add_mod n d
  have rest := Nat.mod_lt n divisor
  have surplus : n * excess M d < M * d := by
    calc n * excess M d ≤ n * d := Nat.mul_le_mul_left n (excess_lt scale divisor).le
      _ < M * d := Nat.mul_lt_mul_of_pos_right below divisor
  generalize n / d = a at split ⊢
  generalize n % d = b at split rest ⊢
  have floor : a ≤ n * reciprocal M d / M := by
    refine (reached a).mpr ?_
    calc a * M * d ≤ n * M := by rw [← split]; nlinarith [Nat.zero_le (b * M)]
      _ ≤ _ := Nat.le_add_right _ _
  have notTwo : ¬ a + 2 ≤ n * reciprocal M d / M := by
    rw [reached]
    rw [← split] at surplus ⊢
    nlinarith
  have one : a + 1 ≤ n * reciprocal M d / M ↔ M * (d - b) ≤ n * excess M d := by
    rw [reached]
    have gap : (a + 1) * M * d = (d * a + b) * M + M * (d - b) := by
      obtain ⟨c, rfl⟩ := Nat.exists_eq_add_of_lt rest
      rw [show b + c + 1 - b = c + 1 by omega]
      ring
    rw [gap, split]
    exact Nat.add_le_add_iff_left
  have meaning : Overshoots M d n ↔ M * (d - b) ≤ n * excess M d := by
    unfold Overshoots
    rw [← split, Nat.mul_add_mod, Nat.mod_eq_of_lt rest]
  split_ifs with overshoots
  · have := one.mpr (meaning.mp overshoots)
    omega
  · have : ¬ a + 1 ≤ n * reciprocal M d / M := fun h => overshoots (meaning.mpr (one.mp h))
    omega

/-- Exact multiples are divided exactly, as long as the surplus stays below one whole unit. -/
theorem mul_reciprocal_div_of_dvd (divisor : 0 < d) {k : ℕ} (below : k * d < M) :
    k * d * reciprocal M d / M = k := by
  have scale : 0 < M := Nat.zero_lt_of_lt below
  rw [mul_reciprocal_div divisor below, Nat.mul_div_cancel k divisor, if_neg, Nat.add_zero]
  unfold Overshoots
  rw [Nat.mul_mod_left, Nat.sub_zero, Nat.not_le]
  calc k * d * excess M d ≤ k * d * d := Nat.mul_le_mul_left _ (excess_lt scale divisor).le
    _ < M * d := Nat.mul_lt_mul_of_pos_right below divisor

end ReciprocalDivision
