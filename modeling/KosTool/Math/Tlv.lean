import Mathlib.Data.List.Basic

/-! # Options with a tag, a length and a value

A list of options in a row: an entry for padding, an entry that ends the list, and options of a tag, a length and as many
entries as that says. An option that the list is too short for ends it too.
-/

namespace Tlv

variable {α : Type*} [DecidableEq α] (pad stop : α) (size : α → ℕ)

/-- The options of a list with their values. -/
def read : List α → List (α × List α)
  | [] => []
  | tag :: rest =>
    if tag = pad then read rest
    else if tag = stop then []
    else match rest with
      | [] => []
      | length :: body =>
        if size length ≤ body.length then (tag, body.take (size length)) :: read (body.drop (size length)) else []
termination_by list => list.length
decreasing_by
  · exact Nat.lt_succ_self _
  · rw [List.length_drop, List.length_cons, List.length_cons]
    omega

/-- What is behind the first occurrence of a tag, whole or not. -/
def seek (tag : α) : List α → Option (List α)
  | [] => none
  | entry :: rest =>
    if entry = tag then some rest
    else if entry = pad then seek tag rest
    else if entry = stop then none
    else match rest with
      | [] => none
      | length :: body => seek tag (body.drop (size length))
termination_by list => list.length
decreasing_by
  · exact Nat.lt_succ_self _
  · rw [List.length_drop, List.length_cons, List.length_cons]
    omega

/-- The value of the first option with a tag that has as many entries. -/
def firstValue (tag : α) (count : ℕ) (list : List α) : Option (List α) :=
  ((read pad stop size list).find? fun option => option.1 = tag ∧ count ≤ option.2.length).map fun option => option.2.take count

variable {pad stop size} {tag : α} {list : List α}

section Equations

theorem read_pad (rest : List α) : read pad stop size (pad :: rest) = read pad stop size rest := by
  rw [read.eq_def]
  exact if_pos rfl

theorem read_stop (other : stop ≠ pad) (rest : List α) : read pad stop size (stop :: rest) = [] := by
  rw [read.eq_def]
  exact (if_neg other).trans (if_pos rfl)

theorem read_single {entry : α} (entryPad : entry ≠ pad) (entryStop : entry ≠ stop) : read pad stop size [entry] = [] := by
  rw [read.eq_def]
  exact (if_neg entryPad).trans (if_neg entryStop)

theorem read_option {entry : α} (entryPad : entry ≠ pad) (entryStop : entry ≠ stop) (length : α) (body : List α) :
    read pad stop size (entry :: length :: body) = if size length ≤ body.length then
      (entry, body.take (size length)) :: read pad stop size (body.drop (size length)) else [] := by
  rw [read.eq_def]
  exact (if_neg entryPad).trans (if_neg entryStop)

theorem seek_tag (rest : List α) : seek pad stop size tag (tag :: rest) = some rest := by
  rw [seek.eq_def]
  exact if_pos rfl

theorem seek_pad (different : pad ≠ tag) (rest : List α) :
    seek pad stop size tag (pad :: rest) = seek pad stop size tag rest := by
  rw [seek.eq_def]
  exact (if_neg different).trans (if_pos rfl)

theorem seek_stop (different : stop ≠ tag) (other : stop ≠ pad) (rest : List α) :
    seek pad stop size tag (stop :: rest) = none := by
  rw [seek.eq_def]
  exact (if_neg different).trans ((if_neg other).trans (if_pos rfl))

theorem seek_single {entry : α} (different : entry ≠ tag) (entryPad : entry ≠ pad) (entryStop : entry ≠ stop) :
    seek pad stop size tag [entry] = none := by
  rw [seek.eq_def]
  exact (if_neg different).trans ((if_neg entryPad).trans (if_neg entryStop))

theorem seek_option {entry : α} (different : entry ≠ tag) (entryPad : entry ≠ pad) (entryStop : entry ≠ stop) (length : α)
    (body : List α) : seek pad stop size tag (entry :: length :: body) = seek pad stop size tag (body.drop (size length)) := by
  rw [seek.eq_def]
  exact (if_neg different).trans ((if_neg entryPad).trans (if_neg entryStop))

end Equations

@[simp] theorem firstValue_nil (count : ℕ) : firstValue pad stop size tag count [] = none := by
  rw [firstValue, read]
  rfl

theorem firstValue_pad (count : ℕ) (rest : List α) :
    firstValue pad stop size tag count (pad :: rest) = firstValue pad stop size tag count rest := by
  rw [firstValue, read_pad, firstValue]

theorem firstValue_stop (other : stop ≠ pad) (count : ℕ) (rest : List α) :
    firstValue pad stop size tag count (stop :: rest) = none := by
  rw [firstValue, read_stop other]
  rfl

theorem firstValue_single {entry : α} (entryPad : entry ≠ pad) (entryStop : entry ≠ stop) (count : ℕ) :
    firstValue pad stop size tag count [entry] = none := by
  rw [firstValue, read_single entryPad entryStop]
  rfl

/-- An option that is not looked for is stepped over. -/
theorem firstValue_skip {entry length : α} (entryPad : entry ≠ pad) (entryStop : entry ≠ stop) (different : entry ≠ tag)
    (count : ℕ) (body : List α) : firstValue pad stop size tag count (entry :: length :: body) =
      firstValue pad stop size tag count (body.drop (size length)) := by
  rw [firstValue, read_option entryPad entryStop]
  split_ifs with whole
  · rw [List.find?_cons_of_neg (by simp [different]), firstValue]
  · rw [List.drop_eq_nil_of_le (by omega), firstValue_nil]
    rfl

/-- What the first option with the tag gives, if it is whole and long enough, and else what those behind it give. -/
theorem firstValue_tag (tagPad : tag ≠ pad) (tagStop : tag ≠ stop) (count : ℕ) (length : α) (body : List α) :
    firstValue pad stop size tag count (tag :: length :: body) =
      if size length ≤ body.length then
        if count ≤ size length then some (body.take count) else firstValue pad stop size tag count (body.drop (size length))
      else none := by
  rw [firstValue, read_option tagPad tagStop]
  split_ifs with whole long
  · rw [List.find?_cons_of_pos (by simp [whole, long]), Option.map_some, List.take_take, Nat.min_eq_left long]
  · rw [List.find?_cons_of_neg (by simp [whole]; omega), firstValue]
  · rfl

/-- A value of so many entries needs a list that is longer by two. -/
theorem firstValue_short {count : ℕ} (short : list.length < count + 2) : firstValue pad stop size tag count list = none := by
  induction list using read.induct pad stop size with
  | case1 => exact firstValue_nil count
  | case2 rest ih =>
    rw [List.length_cons] at short
    rw [firstValue_pad, ih (by omega)]
  | case3 rest other => exact firstValue_stop other count rest
  | case4 entry entryPad entryStop => exact firstValue_single entryPad entryStop count
  | case5 entry entryPad entryStop length body whole ih =>
    rw [List.length_cons, List.length_cons] at short
    have rest := ih (by rw [List.length_drop]; omega)
    by_cases same : entry = tag
    · subst same
      rw [firstValue_tag entryPad entryStop, if_pos whole, if_neg (by omega), rest]
    · rw [firstValue_skip entryPad entryStop same, rest]
  | case6 entry entryPad entryStop length body cut =>
    by_cases same : entry = tag
    · subst same
      rw [firstValue_tag entryPad entryStop, if_neg cut]
    · rw [firstValue_skip entryPad entryStop same, List.drop_eq_nil_of_le (by omega), firstValue_nil]

/-- The reading of a list goes on at the first occurrence of the tag. -/
theorem firstValue_of_seek (count : ℕ) (list : List α) : firstValue pad stop size tag count list =
    (seek pad stop size tag list).bind fun behind => firstValue pad stop size tag count (tag :: behind) := by
  induction list using seek.induct pad stop size tag with
  | case1 =>
    rw [seek, firstValue_nil]
    rfl
  | case2 rest =>
    rw [seek_tag]
    rfl
  | case3 rest different ih => rw [seek_pad different, firstValue_pad, ih]
  | case4 rest different other =>
    rw [seek_stop different other, firstValue_stop other]
    rfl
  | case5 entry different entryPad entryStop =>
    rw [seek_single different entryPad entryStop, firstValue_single entryPad entryStop]
    rfl
  | case6 entry different entryPad entryStop length body ih =>
    rw [firstValue_skip entryPad entryStop different, ih, seek_option different entryPad entryStop]

end Tlv
