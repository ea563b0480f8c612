import Mathlib.Data.List.Count
import Mathlib.Data.List.Flatten

/-! # Terminated strings in a row

Strings that each end with a terminator, stored one behind the other: reading a number of them off a list, which
fails where the list ends before the last terminator.
-/

namespace TerminatedStrings

variable {α : Type*} [DecidableEq α] (stop : α)

/-- The first string and what is behind its terminator. -/
def first : List α → Option (List α × List α)
  | [] => none
  | entry :: rest =>
    if entry = stop then some ([], rest) else (first rest).map fun found => (entry :: found.1, found.2)

/-- A number of strings, and what is behind the last. -/
def walk : ℕ → List α → Option (List (List α) × List α)
  | 0, list => some ([], list)
  | count + 1, list =>
    (first stop list).bind fun found => (walk count found.2).map fun others => (found.1 :: others.1, others.2)

/-- The strings with their terminators. -/
def joined (strings : List (List α)) : List α := strings.flatMap (· ++ [stop])

variable {stop}

theorem first_append {string : List α} (free : stop ∉ string) (rest : List α) :
    first stop (string ++ stop :: rest) = some (string, rest) := by
  induction string with
  | nil => exact if_pos rfl
  | cons entry string ih =>
    rw [List.mem_cons, not_or] at free
    rw [List.cons_append, first, if_neg (Ne.symm free.1), ih free.2]
    rfl

theorem first_eq_none {list : List α} (free : stop ∉ list) : first stop list = none := by
  induction list with
  | nil => rfl
  | cons entry list ih =>
    rw [List.mem_cons, not_or] at free
    rw [first, if_neg (Ne.symm free.1), ih free.2]
    rfl

/-- A list is free of the terminator or begins with a string. -/
theorem not_mem_or_eq_append (stop : α) (list : List α) :
    stop ∉ list ∨ ∃ string rest, stop ∉ string ∧ list = string ++ stop :: rest := by
  by_cases inside : stop ∈ list
  · obtain ⟨string, rest, parts, free⟩ := List.eq_append_cons_of_mem inside
    exact Or.inr ⟨string, rest, free, parts⟩
  · exact Or.inl inside

/-- What has been stored is read back. -/
theorem walk_joined {strings : List (List α)} (free : ∀ string ∈ strings, stop ∉ string) (rest : List α) :
    walk stop strings.length (joined stop strings ++ rest) = some (strings, rest) := by
  induction strings with
  | nil => rfl
  | cons string strings ih =>
    have head := free string List.mem_cons_self
    have tail := ih fun other inside => free other (List.mem_cons_of_mem string inside)
    rw [joined, List.flatMap_cons, List.append_assoc, List.append_assoc, List.singleton_append, List.length_cons, walk,
      first_append head, Option.bind_some, ← joined, tail]
    rfl

/-- A list holds as many strings as terminators. -/
theorem walk_isSome_iff (count : ℕ) (list : List α) : (walk stop count list).isSome ↔ count ≤ list.count stop := by
  induction count generalizing list with
  | zero => exact iff_of_true rfl (Nat.zero_le _)
  | succ count ih =>
    rcases not_mem_or_eq_append stop list with free | ⟨string, rest, free, rfl⟩
    · rw [walk, first_eq_none free, List.count_eq_zero_of_not_mem free]
      exact iff_of_false Bool.false_ne_true (Nat.not_succ_le_zero count)
    · rw [walk, first_append free, Option.bind_some, Option.isSome_map, ih, List.count_append,
        List.count_eq_zero_of_not_mem free, List.count_cons_self, Nat.zero_add, Nat.succ_le_succ_iff]

end TerminatedStrings
