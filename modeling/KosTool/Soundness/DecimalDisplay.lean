import KosTool.Math.DecimalNumeral
import KosTool.Model.DivUtil

/-! # Decimal numerals on the screen

A quotient that came out too large leaves a character below `0`. That can only happen in the first round: from then on the
number is too small to overshoot.
-/

namespace KosTool.Client.Display

open ByteWord DivUtil ReciprocalDivision DecimalNumeral

variable {foo : Word}

/-- The numbers of which `UDIV_CONST` by ten is the quotient. -/
def Divides (n : ℕ) : Prop := n < 2 ^ 30 * (10 - n % 10)

instance (n : ℕ) : Decidable (Divides n) := inferInstanceAs (Decidable (_ < _))

theorem overshoots_ten_iff (n : ℕ) : Overshoots (2 ^ 32) 10 n ↔ ¬ Divides n := by
  have four : excess (2 ^ 32) 10 = 4 := by decide
  rw [Overshoots, Divides, four]
  omega

theorem toNat_udivConst_ten (foo : Word) : (udivConst foo 10#32).toNat = foo.toNat / 10 + if Divides foo.toNat then 0 else 1 := by
  have quotient := toNat_udivConst_eq foo (d := 10#32) (by decide)
  change _ = foo.toNat / 10 + if Overshoots (2 ^ 32) 10 foo.toNat then 1 else 0 at quotient
  rw [quotient]
  simp only [overshoots_ten_iff, ite_not]

/-- What is below `2 ^ 30` is divided right. -/
theorem divides_of_lt {n : ℕ} (small : n < 2 ^ 30) : Divides n := by
  have rest := Nat.mod_lt n (by decide : 0 < 10)
  rw [Divides]
  omega

/-- A round of a number that is divided right stores the character of its last digit. -/
theorem digit_of_divides (divides : Divides foo.toNat) :
    (0x30#32 + (foo - udivConst foo 10#32 * 10#32)).setWidth 8 = digitChar (foo.toNat % 10) := by
  have quotient := toNat_udivConst_ten foo
  rw [if_pos divides, Nat.add_zero] at quotient
  have below := foo.isLt
  apply BitVec.eq_of_toNat_eq
  rw [toNat_digitChar (Nat.mod_lt _ (by decide)), BitVec.toNat_setWidth, BitVec.toNat_add, BitVec.toNat_sub,
    BitVec.toNat_mul, quotient, BitVec.toNat_ofNat, BitVec.toNat_ofNat]
  omega

/-- A round of another number stores a character below `0`. -/
theorem digit_of_overshoots (overshoots : ¬ Divides foo.toNat) :
    (0x30#32 + (foo - udivConst foo 10#32 * 10#32)).setWidth 8 < (0x30 : Byte) := by
  have quotient := toNat_udivConst_ten foo
  rw [if_neg overshoots] at quotient
  rw [Divides] at overshoots
  have below := foo.isLt
  rw [BitVec.lt_def, BitVec.toNat_setWidth, BitVec.toNat_add, BitVec.toNat_sub, BitVec.toNat_mul, quotient,
    BitVec.toNat_ofNat, BitVec.toNat_ofNat]
  change _ < 0x30
  omega

/-- The rounds only add to `tmp`. -/
theorem takeDigits_append (tmp : List Byte) (foo : Word) : ∃ more, takeDigits tmp foo = tmp ++ more := by
  induction tmp, foo using takeDigits.induct with
  | case1 tmp =>
    rw [takeDigits, if_pos rfl]
    exact ⟨[], (List.append_nil _).symm⟩
  | case2 tmp foo positive q ih =>
    obtain ⟨more, added⟩ := ih
    rw [takeDigits, if_neg positive]
    exact ⟨_, by rw [added, List.append_assoc]⟩

/-- A number that is divided right leaves its digits. -/
theorem takeDigits_of_divides {tmp : List Byte} (divides : Divides foo.toNat) :
    takeDigits tmp foo = tmp ++ (Nat.digits 10 foo.toNat).map digitChar := by
  induction tmp, foo using takeDigits.induct with
  | case1 tmp =>
    rw [takeDigits, if_pos rfl]
    simp
  | case2 tmp foo positive q ih =>
    have nonzero : 0 < foo.toNat := Nat.pos_of_ne_zero fun zero => positive (BitVec.eq_of_toNat_eq zero)
    have quotient := toNat_udivConst_ten foo
    rw [if_pos divides, Nat.add_zero] at quotient
    have smaller : Divides (udivConst foo 10#32).toNat := by
      apply divides_of_lt
      have below := foo.isLt
      omega
    rw [takeDigits, if_neg positive]
    dsimp only
    rw [ih smaller, digit_of_divides divides, quotient, Nat.digits_def' (by decide) nonzero, List.map_cons,
      List.append_assoc, List.singleton_append]

/-- The text of a number is its numeral exactly where `UDIV_CONST` divides it by ten. -/
theorem uint_to_string_dec_numeral_iff (foo : Word) :
    (∃ text, uintToStringDec foo = text ++ [0] ∧ Numeral text foo.toNat) ↔ foo.toNat < 2 ^ 30 * (10 - foo.toNat % 10) := by
  by_cases zero : foo = 0
  · rw [zero, uintToStringDec, if_pos rfl]
    exact iff_of_true ⟨_, rfl, numeral_zero⟩ (by decide)
  have nonzero : foo.toNat ≠ 0 := fun none => zero (BitVec.eq_of_toNat_eq none)
  rw [uintToStringDec, if_neg zero]
  constructor
  · rintro ⟨text, written, numeral⟩
    rw [List.append_cancel_right_eq] at written
    by_contra overshoots
    -- the first character that the loop stores is the last one of the text
    obtain ⟨more, added⟩ := takeDigits_append
      [(0x30#32 + (foo - udivConst foo 10#32 * 10#32)).setWidth 8] (udivConst foo 10#32)
    rw [takeDigits, if_neg zero] at written
    dsimp only at written
    rw [List.nil_append, added] at written
    have inside : (0x30#32 + (foo - udivConst foo 10#32 * 10#32)).setWidth 8 ∈ text := by
      rw [← written, List.mem_reverse, List.singleton_append]
      exact List.mem_cons_self
    exact absurd (digit_of_overshoots overshoots) (BitVec.not_lt.mpr (numeral.digits _ inside).1)
  · intro divides
    refine ⟨_, rfl, ?_⟩
    rw [takeDigits_of_divides divides, List.nil_append]
    exact numeral_reverse_map nonzero

/-- `1073741829` is shown as `107374183/`. -/
theorem uint_to_string_dec_overshoots : ¬ ∀ foo, ∃ text, uintToStringDec foo = text ++ [0] ∧ Numeral text foo.toNat := by
  intro always
  obtain ⟨text, written, numeral⟩ := always 1073741829#32
  have shown : uintToStringDec 1073741829#32 = [0x31, 0x30, 0x37, 0x33, 0x37, 0x34, 0x31, 0x38, 0x33, 0x2F, 0] := by
    simp [uintToStringDec, takeDigits, udivConst, udivRecip]
  have same : text = [0x31, 0x30, 0x37, 0x33, 0x37, 0x34, 0x31, 0x38, 0x33, 0x2F] := by
    rw [shown] at written
    exact (List.append_cancel_right (written.symm.trans rfl)).trans rfl
  have digit := (numeral.digits 0x2F (by rw [same]; decide)).1
  revert digit
  decide

end KosTool.Client.Display
