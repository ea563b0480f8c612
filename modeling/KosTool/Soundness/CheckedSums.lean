import KosTool.Machine.Fallible
import KosTool.Model.Binary.Elf

/-! # Checked sums of 32 bits

A checked operation that has gone through has the result of the unbounded one.
-/

namespace KosTool.Elf2irx

open Fallible

theorem orDie_eq_ok {condition : Bool} {message : String} (through : orDie condition message = .ok ⟨⟩) :
    condition = true := by
  rw [orDie] at through
  split_ifs at through with holds
  exact holds

section Checked

variable {a b result : ℕ} {what : String}

theorem checkedAddU32_eq_ok (through : checkedAddU32 a b what = .ok result) : result = a + b := by
  rw [checkedAddU32] at through
  split_ifs at through
  exact (Except.ok.inj through).symm

theorem checkedMulU32_eq_ok (through : checkedMulU32 a b what = .ok result) : result = a * b := by
  rw [checkedMulU32] at through
  split_ifs at through
  exact (Except.ok.inj through).symm

/-- The multiple that an aligned value is rounded to is not below the value. -/
theorem le_rounded {alignment : Word} (valid : isPowerOfTwoU32 alignment = true) (a : ℕ) :
    a ≤ (a + (alignment.toNat - 1)) / alignment.toNat * alignment.toNat := by
  have positive : 0 < alignment.toNat := by
    rw [isPowerOfTwoU32, decide_eq_true_eq] at valid
    refine Nat.pos_of_ne_zero fun zero => valid.1 ?_
    exact BitVec.eq_of_toNat_eq zero
  have split := Nat.div_add_mod (a + (alignment.toNat - 1)) alignment.toNat
  have less := Nat.mod_lt (a + (alignment.toNat - 1)) positive
  rw [Nat.mul_comm] at split
  omega

/-- An aligned value is not below the value. -/
theorem le_of_checkedAlignU32 {alignment : Word} (through : checkedAlignU32 a alignment what = .ok result) :
    a ≤ result := by
  obtain ⟨⟨⟩, valid, through⟩ := bind_eq_ok.mp through
  obtain ⟨sum, added, through⟩ := bind_eq_ok.mp through
  cases pure_eq_ok.mp through
  cases checkedAddU32_eq_ok added
  exact le_rounded (orDie_eq_ok valid) a

/-- An aligned value is a multiple of the alignment. -/
theorem dvd_of_checkedAlignU32 {alignment : Word} (through : checkedAlignU32 a alignment what = .ok result) :
    alignment.toNat ∣ result := by
  obtain ⟨⟨⟩, -, through⟩ := bind_eq_ok.mp through
  obtain ⟨sum, -, through⟩ := bind_eq_ok.mp through
  cases pure_eq_ok.mp through
  exact Nat.dvd_mul_left _ _

end Checked

end KosTool.Elf2irx
