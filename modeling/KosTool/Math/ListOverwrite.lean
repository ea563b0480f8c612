import Mathlib.Data.List.TakeDrop
import Mathlib.Data.List.GetD

/-! # Overwriting a list in place

The entries of a new list replace those of an old one from the front, and the old length stays. This
is what remains of a table that is being refilled slot by slot while its old length is still in force.
-/

namespace ListOverwrite

variable {α : Type*}

/-- The old list with its front replaced by the new one, as far as it reaches. -/
def overwrite (new old : List α) : List α := new.take old.length ++ old.drop new.length

@[simp] theorem length_overwrite (new old : List α) : (overwrite new old).length = old.length := by
  simp only [overwrite, List.length_append, List.length_take, List.length_drop]
  omega

@[simp] theorem overwrite_nil (old : List α) : overwrite [] old = old := by
  simp only [overwrite, List.take_nil, List.length_nil, List.drop_zero, List.nil_append]

theorem getElem?_overwrite (new old : List α) (i : ℕ) :
    (overwrite new old)[i]? = if i < old.length then (if i < new.length then new[i]? else old[i]?) else none := by
  by_cases inside : i < old.length
  · rw [if_pos inside, overwrite, List.getElem?_append, List.length_take]
    split_ifs with front replaced replaced
    · rw [List.getElem?_take_of_lt inside]
    · omega
    · omega
    · rw [List.getElem?_drop]
      congr 1
      omega
  · rw [if_neg inside, List.getElem?_eq_none]
    rw [length_overwrite]
    omega

/-- One more entry of the new list overwrites one more slot. -/
theorem overwrite_concat (new old : List α) (entry : α) :
    overwrite (new ++ [entry]) old = (overwrite new old).set new.length entry := by
  apply List.ext_getElem?
  intro i
  rw [List.getElem?_set, getElem?_overwrite, getElem?_overwrite, length_overwrite, List.length_append,
    List.length_singleton, List.getElem?_append]
  by_cases inside : i < old.length
  · rcases Nat.lt_trichotomy i new.length with front | rfl | back
    · simp [inside, front, show i < new.length + 1 by omega, Nat.ne_of_gt front]
    · simp [inside]
    · simp [inside, show ¬ i < new.length + 1 by omega, show ¬ i < new.length by omega, Nat.ne_of_lt back]
  · simp [inside]
    intro same
    omega

end ListOverwrite
