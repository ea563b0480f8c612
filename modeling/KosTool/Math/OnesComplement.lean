import KosTool.Math.ByteOrder
import Mathlib.Data.Nat.ModEq
import Mathlib.Tactic.Ring
import Mathlib.Algebra.BigOperators.Group.List.Basic

/-! # One's-complement sums of 16-bit words

Adding with the carries folded back in is addition modulo 65535, with the two zeros told apart: a sum of words
folds to zero only if every word is zero. Reading the words of a byte string in the other byte order multiplies
their sum by 256, so whether a sum is right does not depend on the order it is read in.
-/

namespace OnesComplement

/-- A sum with all its carries folded in. -/
def fold (sum : ℕ) : ℕ := if sum = 0 then 0 else (sum - 1) % 65535 + 1

@[simp] theorem fold_zero : fold 0 = 0 := rfl

theorem fold_le (sum : ℕ) : fold sum ≤ 65535 := by
  unfold fold
  split <;> omega

theorem fold_eq_zero {sum : ℕ} : fold sum = 0 ↔ sum = 0 := by
  unfold fold
  split <;> omega

theorem fold_modEq (sum : ℕ) : fold sum ≡ sum [MOD 65535] := by
  unfold fold
  split
  · rename_i zero
    rw [zero]
  · unfold Nat.ModEq
    omega

theorem fold_of_le {sum : ℕ} (le : sum ≤ 65535) : fold sum = sum := by
  unfold fold
  split <;> omega

/-- One round of folding changes nothing of the result. -/
theorem fold_carry (sum : ℕ) : fold (sum / 65536 + sum % 65536) = fold sum := by
  unfold fold
  split <;> split <;> omega

/-- Sums that are both zero or both not fold to the same exactly if they are equal modulo 65535. -/
theorem fold_eq_fold {first second : ℕ} (zeros : first = 0 ↔ second = 0) :
    fold first = fold second ↔ first ≡ second [MOD 65535] := by
  constructor
  · intro same
    exact (fold_modEq first).symm.trans (same ▸ fold_modEq second)
  · intro equal
    unfold fold
    unfold Nat.ModEq at equal
    split <;> split <;> omega

/-- A sum is right if it folds to all ones. -/
def Valid (sum : ℕ) : Prop := fold sum = 65535

instance (sum : ℕ) : Decidable (Valid sum) := inferInstanceAs (Decidable (_ = _))

theorem valid_iff {sum : ℕ} : Valid sum ↔ sum ≠ 0 ∧ sum % 65535 = 0 := by
  unfold Valid fold
  split <;> omega

/-- A checksum that is the complement of the rest makes the sum right, and is no superfluous second zero. -/
theorem eq_complement_iff {rest field : ℕ} (inRange : field ≤ 65535) :
    field = 65535 - fold rest ↔ Valid (rest + field) ∧ ¬ (field = 65535 ∧ Valid rest) := by
  rw [valid_iff, valid_iff]
  unfold fold
  split <;> omega

/-- The words of a byte string as a machine of an order reads them; an odd byte is filled up with a zero. -/
def words (order : ByteOrder) : List Byte → List ℕ
  | first :: second :: rest =>
    (match order with
      | .little => second.toNat * 256 + first.toNat
      | .big => first.toNat * 256 + second.toNat) :: words order rest
  | [last] =>
    [match order with
      | .little => last.toNat
      | .big => last.toNat * 256]
  | [] => []

/-- The sum of the words. -/
def sum (order : ByteOrder) (bytes : List Byte) : ℕ := (words order bytes).sum

@[simp] theorem sum_nil (order : ByteOrder) : sum order [] = 0 := rfl

/-- Byte strings of even length add up. -/
theorem sum_append (order : ByteOrder) {first : List Byte} (even : first.length % 2 = 0) (second : List Byte) :
    sum order (first ++ second) = sum order first + sum order second := by
  induction first using words.induct with
  | case1 a b rest ih =>
    have rest_even : rest.length % 2 = 0 := by
      simp only [List.length_cons] at even
      omega
    have tail := ih rest_even
    simp only [sum, List.cons_append, words, List.sum_cons] at tail ⊢
    rw [tail, Nat.add_assoc]
  | case2 last => simp at even
  | case3 => simp

theorem sum_le (order : ByteOrder) (bytes : List Byte) : sum order bytes ≤ (bytes.length + 1) / 2 * 65535 := by
  induction bytes using words.induct with
  | case1 a b rest ih =>
    have ha := a.isLt
    have hb := b.isLt
    simp only [sum, words, List.sum_cons, List.length_cons] at ih ⊢
    cases order <;> simp only <;> omega
  | case2 last =>
    have hl := last.isLt
    simp only [sum, words, List.sum_cons, List.sum_nil, List.length_cons, List.length_nil]
    cases order <;> simp only <;> omega
  | case3 => simp

/-- The sum in the one order is 256 times that in the other. -/
theorem sum_little_modEq (bytes : List Byte) : sum .little bytes ≡ 256 * sum .big bytes [MOD 65535] := by
  induction bytes using words.induct with
  | case1 a b rest ih =>
    have head : b.toNat * 256 + a.toNat ≡ 256 * (a.toNat * 256 + b.toNat) [MOD 65535] := by
      unfold Nat.ModEq
      omega
    have both := head.add ih
    simp only [sum, words, List.sum_cons] at both ⊢
    rwa [Nat.mul_add]
  | case2 last =>
    simp only [sum, words, List.sum_cons, List.sum_nil, Nat.add_zero]
    unfold Nat.ModEq
    omega
  | case3 => rfl

theorem sum_eq_zero (order : ByteOrder) {bytes : List Byte} : sum order bytes = 0 ↔ ∀ byte ∈ bytes, byte = 0 := by
  induction bytes using words.induct with
  | case1 a b rest ih =>
    have za : a.toNat = 0 ↔ a = 0 := ⟨fun zero => BitVec.eq_of_toNat_eq zero, fun zero => zero ▸ rfl⟩
    have zb : b.toNat = 0 ↔ b = 0 := ⟨fun zero => BitVec.eq_of_toNat_eq zero, fun zero => zero ▸ rfl⟩
    simp only [sum, words, List.sum_cons, List.mem_cons, forall_eq_or_imp, Nat.add_eq_zero_iff] at ih ⊢
    rw [ih, ← za, ← zb, ← and_assoc]
    refine and_congr_left' ?_
    cases order <;> simp only <;> omega
  | case2 last =>
    have zl : last.toNat = 0 ↔ last = 0 := ⟨fun zero => BitVec.eq_of_toNat_eq zero, fun zero => zero ▸ rfl⟩
    simp only [sum, words, List.sum_cons, List.sum_nil, List.mem_cons, List.not_mem_nil, or_false, forall_eq]
    rw [← zl]
    cases order <;> simp only <;> omega
  | case3 => simp

/-- Whether a sum is right does not depend on the order it is read in. -/
theorem valid_sum (order : ByteOrder) (bytes : List Byte) : Valid (sum order bytes) ↔ Valid (sum .big bytes) := by
  cases order with
  | big => rfl
  | little =>
    have zeros : sum .little bytes = 0 ↔ sum .big bytes = 0 := by rw [sum_eq_zero, sum_eq_zero]
    have scaled := sum_little_modEq bytes
    rw [valid_iff, valid_iff, Ne, Ne, zeros]
    unfold Nat.ModEq at scaled
    omega

end OnesComplement
