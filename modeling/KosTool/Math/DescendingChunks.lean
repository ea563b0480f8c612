import Mathlib.Data.Fintype.Perm
import Mathlib.Data.List.NodupEquivFin
import Mathlib.Data.Nat.Size
import Mathlib.Tactic.Ring

/-! # Cutting a length into descending chunks

The loop `for(; chunk >= least; chunk >>= 1) while(remaining >= chunk)`: a length is cut into chunks, the
largest first, each half the one before, until less than the least one is left. Two loops whose bodies keep
a relation end in related states.
-/

namespace DescendingChunks

variable {S T : Type*}

/-- Where the loop ends: the offset reached, what remains, and the state. -/
def descend (least : ℕ) (body : ℕ → ℕ → S → S) (chunk offset remaining : ℕ) (state : S) : ℕ × ℕ × S :=
  if 0 < least ∧ least ≤ chunk then
    if chunk ≤ remaining then
      descend least body chunk (offset + chunk) (remaining - chunk) (body chunk offset state)
    else descend least body (chunk >>> 1) offset remaining state
  else (offset, remaining, state)
termination_by (chunk, remaining)
decreasing_by
  · exact Prod.Lex.right _ (by omega)
  · exact Prod.Lex.left _ _ (by rw [Nat.shiftRight_eq_div_pow]; omega)

section Unfold

variable {least chunk offset remaining : ℕ} {body : ℕ → ℕ → S → S} {state : S}

theorem descend_take (large : 0 < least ∧ least ≤ chunk) (fits : chunk ≤ remaining) :
    descend least body chunk offset remaining state =
      descend least body chunk (offset + chunk) (remaining - chunk) (body chunk offset state) := by
  rw [descend, if_pos large, if_pos fits]

theorem descend_halve (large : 0 < least ∧ least ≤ chunk) (beyond : ¬ chunk ≤ remaining) :
    descend least body chunk offset remaining state =
      descend least body (chunk >>> 1) offset remaining state := by
  rw [descend, if_pos large, if_neg beyond]

theorem descend_stop (small : ¬ (0 < least ∧ least ≤ chunk)) :
    descend least body chunk offset remaining state = (offset, remaining, state) := by
  rw [descend, if_neg small]

end Unfold

/-- The chunk is the least one doubled a number of times, at most a given one. -/
def IsDouble (least doublings chunk : ℕ) : Prop := ∃ k ≤ doublings, chunk = least * 2 ^ k

/-- Half a chunk is one again, unless it was the least. -/
theorem IsDouble.half {least doublings chunk : ℕ} (double : IsDouble least doublings chunk) (positive : 0 < least) :
    IsDouble least doublings (chunk >>> 1) ∨ chunk = least ∧ chunk >>> 1 < least := by
  obtain ⟨k, bound, rfl⟩ := double
  cases k with
  | zero =>
    right
    rw [Nat.shiftRight_eq_div_pow]
    omega
  | succ k =>
    left
    refine ⟨k, by omega, ?_⟩
    rw [Nat.shiftRight_eq_div_pow, pow_one, pow_succ, ← Nat.mul_assoc]
    exact Nat.mul_div_cancel _ (by decide)

/-- Both loops stop at one offset, with less than the least chunk left, in related states. -/
theorem descend_rel {least doublings : ℕ} (positive : 0 < least) {left : ℕ → ℕ → S → S} {right : ℕ → ℕ → T → T}
    {R : ℕ → S → T → Prop} (kept : ∀ chunk offset s t, IsDouble least doublings chunk → R offset s t →
      R (offset + chunk) (left chunk offset s) (right chunk offset t))
    (chunk offset remaining : ℕ) (s : S) (t : T)
    (double : IsDouble least doublings chunk ∨ chunk < least ∧ remaining < least) (related : R offset s t) :
    ∃ stop rest s' t', descend least left chunk offset remaining s = (stop, rest, s') ∧
      descend least right chunk offset remaining t = (stop, rest, t') ∧ stop + rest = offset + remaining ∧
        rest < least ∧ R stop s' t' := by
  induction chunk, offset, remaining, s using descend.induct least left generalizing t with
  | case1 chunk offset remaining s large fits ih =>
    have isDouble := double.resolve_right fun small => Nat.not_lt.mpr large.2 small.1
    rw [descend_take large fits, descend_take large fits]
    obtain ⟨stop, rest, s', t', first, second, total, small, after⟩ :=
      ih _ (Or.inl isDouble) (kept chunk offset s t isDouble related)
    exact ⟨stop, rest, s', t', first, second, by omega, small, after⟩
  | case2 chunk offset remaining s large beyond ih =>
    have isDouble := double.resolve_right fun small => Nat.not_lt.mpr large.2 small.1
    rw [descend_halve large beyond, descend_halve large beyond]
    refine ih t ?_ related
    rcases isDouble.half positive with half | ⟨rfl, small⟩
    · exact Or.inl half
    · exact Or.inr ⟨small, Nat.not_le.mp beyond⟩
  | case3 chunk offset remaining s small =>
    have beyond : ¬ IsDouble least doublings chunk := by
      rintro ⟨k, -, rfl⟩
      exact small ⟨positive, Nat.le_mul_of_pos_right _ (Nat.two_pow_pos k)⟩
    have rest := (double.resolve_left beyond).2
    rw [descend_stop small, descend_stop small]
    exact ⟨offset, remaining, s, t, rfl, rfl, rfl, rest, related⟩

end DescendingChunks

/-! # Emitting an array by swaps

From the last entry of an array down, an entry drawn among the ones not yet emitted is swapped into place and
emitted. Whatever the draws, what is emitted is a permutation of the array. A permutation of a range, given
as a list, is one of `Fin`.
-/

namespace SwapEmission

variable {α σ : Type*}

/-- The array with two entries exchanged. -/
def exchange (array : ℕ → α) (i x : ℕ) : ℕ → α :=
  Function.update (Function.update array i (array x)) x (array i)

theorem exchange_eq_swap (array : ℕ → α) (i x : ℕ) : exchange array i x = array ∘ Equiv.swap i x := by
  funext k
  simp only [exchange, Function.update_apply, Function.comp_apply, Equiv.swap_apply_def]
  split_ifs <;> simp_all

/-- The entries emitted from the first `n` of an array, in order, and the seed they leave. -/
def emitted (draw : σ → ℕ → ℕ × σ) : ℕ → (ℕ → α) → σ → List α × σ
  | 0, _, seed => ([], seed)
  | i + 1, array, seed =>
    let array := exchange array i (draw seed i).1
    let rest := emitted draw i array (draw seed i).2
    (array i :: rest.1, rest.2)

theorem perm_map_swap (array : ℕ → α) {n i x : ℕ} (first : i < n) (second : x < n) :
    ((List.range n).map (array ∘ Equiv.swap i x)).Perm ((List.range n).map array) := by
  have swapped : ((List.range n).map (Equiv.swap i x)).Perm (List.range n) := by
    rw [List.perm_ext_iff_of_nodup (List.nodup_range.map (Equiv.injective _)) List.nodup_range]
    intro k
    have inside : Equiv.swap i x k < n ↔ k < n := by
      rw [Equiv.swap_apply_def]
      split_ifs <;> omega
    rw [List.mem_range, ← inside, ← List.mem_range]
    constructor
    · intro among
      obtain ⟨j, within, rfl⟩ := List.mem_map.mp among
      rw [Equiv.swap_apply_self]
      exact within
    · intro within
      exact List.mem_map.mpr ⟨_, within, Equiv.swap_apply_self _ _ _⟩
  rw [← List.map_map]
  exact swapped.map array

/-- What is emitted is a permutation of the entries. -/
theorem emitted_perm (draw : σ → ℕ → ℕ × σ) (n : ℕ) (below : ∀ seed, ∀ i < n, (draw seed i).1 ≤ i) :
    ∀ (array : ℕ → α) (seed : σ), (emitted draw n array seed).1.Perm ((List.range n).map array) := by
  induction n with
  | zero =>
    intro array seed
    exact List.Perm.refl _
  | succ n ih =>
    intro array seed
    have rest := ih (fun seed i inside => below seed i (Nat.lt_succ_of_lt inside))
      (exchange array n (draw seed n).1) (draw seed n).2
    have drawn := below seed n (Nat.lt_succ_self n)
    have whole : ((List.range (n + 1)).map (exchange array n (draw seed n).1)).Perm ((List.range (n + 1)).map array) := by
      rw [exchange_eq_swap]
      exact perm_map_swap array (Nat.lt_succ_self n) (Nat.lt_succ_of_le drawn)
    rw [emitted]
    refine (rest.cons _).trans (List.Perm.trans ?_ whole)
    rw [List.range_succ, List.map_append, List.map_cons, List.map_nil]
    exact (List.perm_append_singleton _ _).symm

/-- A list that permutes a range, as a permutation. -/
noncomputable def permOfList {n : ℕ} (order : List ℕ) (permutes : order.Perm (List.range n)) : Equiv.Perm (Fin n) :=
  have size : order.length = n := permutes.length_eq.trans List.length_range
  Equiv.ofBijective
    (fun k => ⟨order.get ⟨k.val, by omega⟩, List.mem_range.mp (permutes.mem_iff.mp (List.get_mem _ _))⟩)
    (Finite.injective_iff_bijective.mp fun i j same =>
      Fin.ext (Fin.mk.inj_iff.mp ((permutes.nodup_iff.mpr List.nodup_range).get_inj_iff.mp (congrArg Fin.val same))))

end SwapEmission
