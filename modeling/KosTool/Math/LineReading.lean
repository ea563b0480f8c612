import Mathlib.Data.List.TakeDrop

/-! # Reading a text by lines

A text in its lines, each with the entry that ends it, and in the pieces that a reader gets whose buffer has room for so many entries
only. A line that fits is a piece of its own; one that does not is cut, and the first of its pieces is its front.
-/

namespace LineReading

variable {α : Type*} [DecidableEq α] (newline : α)

/-- An entry in front of the first piece. -/
def consHead (c : α) : List (List α) → List (List α)
  | [] => [[c]]
  | piece :: rest => (c :: piece) :: rest

/-- The lines of a text. -/
def lines : List α → List (List α)
  | [] => []
  | c :: rest => if c = newline then [c] :: lines rest else consHead c (lines rest)

/-- The pieces of a text that a buffer has room for, where so much is left in the one that is being filled. -/
def pieces (room : ℕ) : ℕ → List α → List (List α)
  | _, [] => []
  | left, c :: rest =>
    if c = newline ∨ left ≤ 1 then [c] :: pieces room room rest else consHead c (pieces room (left - 1) rest)

variable {newline}

variable (newline) in
/-- The first piece of every line is its front. -/
theorem pieces_heads {room : ℕ} (positive : 0 < room) (left : ℕ) (some_left : 0 < left) (text : List α) :
    (lines newline text = [] ∧ pieces newline room left text = []) ∨
      ∃ line rest others, lines newline text = line :: rest ∧ pieces newline room left text = line.take left :: others ∧
        (rest.map (List.take room)).Sublist others := by
  induction text generalizing left with
  | nil => exact .inl ⟨rfl, rfl⟩
  | cons c text ih =>
    refine .inr ?_
    have full : ((lines newline text).map (List.take room)).Sublist (pieces newline room room text) := by
      obtain ⟨ended, empty⟩ | ⟨line, rest, others, split, cut, heads⟩ := ih room positive
      · rw [ended, empty]
        exact List.Sublist.slnil
      · rw [split, cut, List.map_cons]
        exact heads.cons_cons _
    rw [lines, pieces]
    by_cases ends : c = newline
    · rw [if_pos ends, if_pos (.inl ends)]
      refine ⟨[c], lines newline text, _, rfl, ?_, full⟩
      rw [List.take_of_length_le (by rw [List.length_singleton]; exact some_left)]
    · rw [if_neg ends]
      by_cases last : left ≤ 1
      · rw [if_pos (.inr last)]
        have one : left = 1 := by omega
        cases split : lines newline text with
        | nil => exact ⟨[c], [], _, rfl, by rw [one]; rfl, List.nil_sublist _⟩
        | cons line rest =>
          rw [split, List.map_cons] at full
          exact ⟨c :: line, rest, _, rfl, by rw [one]; rfl, (List.sublist_cons_self _ _).trans full⟩
      · rw [if_neg (not_or.mpr ⟨ends, last⟩)]
        obtain ⟨k, rfl⟩ : ∃ k, left = k + 1 := ⟨left - 1, by omega⟩
        rw [Nat.add_sub_cancel]
        obtain ⟨ended, empty⟩ | ⟨line, rest, others, split, cut, heads⟩ := ih k (by omega)
        · rw [ended, empty]
          refine ⟨[c], [], [], rfl, ?_, List.nil_sublist _⟩
          rw [List.take_of_length_le (by rw [List.length_singleton]; exact some_left)]
          rfl
        · rw [split, cut]
          exact ⟨c :: line, rest, others, rfl, rfl, heads⟩

/-- A step that takes a piece in one go as it does in two, in a scan over the lines, is one that scans the entries. -/
theorem foldl_lines {σ : Type*} {step : σ → List α → σ} (joins : ∀ s c piece, c ≠ newline →
    step (step s [c]) piece = step s (c :: piece)) (s : σ) (text : List α) :
    (lines newline text).foldl step s = text.foldl (fun s c => step s [c]) s := by
  induction text generalizing s with
  | nil => rfl
  | cons c text ih =>
    rw [lines, List.foldl_cons, ← ih]
    split_ifs with ends
    · rfl
    · cases lines newline text with
      | nil => rfl
      | cons piece rest => exact congrArg (rest.foldl step) (joins s c piece ends).symm

/-- A scan over the lines goes on behind a text as if that had been scanned first. -/
theorem foldl_lines_append {σ : Type*} {step : σ → List α → σ} (joins : ∀ s c piece, c ≠ newline →
    step (step s [c]) piece = step s (c :: piece)) (s : σ) (first second : List α) :
    (lines newline (first ++ second)).foldl step s = (lines newline second).foldl step ((lines newline first).foldl step s) := by
  rw [foldl_lines joins, foldl_lines joins, foldl_lines joins, List.foldl_append]

/-- Nothing of the text is lost in its lines. -/
theorem flatten_lines (text : List α) : (lines newline text).flatten = text := by
  induction text with
  | nil => rfl
  | cons c text ih =>
    rw [lines]
    split_ifs
    · rw [List.flatten_cons, ih]
      rfl
    · cases split : lines newline text with
      | nil =>
        rw [split] at ih
        rw [← ih]
        rfl
      | cons piece rest =>
        rw [split] at ih
        rw [← ih]
        rfl

/-- All lines but the last are ended. -/
def Ended (newline : α) : List (List α) → Prop
  | [] | [_] => True
  | line :: next :: rest => line.getLast? = some newline ∧ Ended newline (next :: rest)

theorem lines_ended (text : List α) : Ended newline (lines newline text) := by
  induction text with
  | nil => trivial
  | cons c text ih =>
    rw [lines]
    split_ifs with ends
    · cases split : lines newline text with
      | nil => trivial
      | cons next rest =>
        rw [split] at ih
        exact ⟨congrArg some ends, ih⟩
    · match split : lines newline text with
      | [] => trivial
      | [_] => trivial
      | line :: next :: rest =>
        rw [split] at ih
        refine ⟨?_, ih.2⟩
        rw [List.getLast?_cons, ih.1]
        rfl

/-- What the fronts of the lines give is among what the pieces give. -/
theorem filterMap_sublist {β : Type*} {room : ℕ} (positive : 0 < room) (text : List α) {f : List α → Option β}
    (front : ∀ line, f (line.take room) = f line) :
    ((lines newline text).filterMap f).Sublist ((pieces newline room room text).filterMap f) := by
  have same : ∀ list : List (List α), (list.map (List.take room)).filterMap f = list.filterMap f := fun list => by
    rw [List.filterMap_map]
    exact congrArg (List.filterMap · list) (funext front)
  obtain ⟨ended, empty⟩ | ⟨line, rest, others, split, cut, heads⟩ := pieces_heads newline positive room positive text
  · rw [ended]
    exact List.nil_sublist _
  · rw [split, cut, ← same]
    exact (heads.cons_cons _).filterMap f

variable (newline) in
theorem lines_cons (c : α) (text : List α) : ∃ front rest, lines newline (c :: text) = (c :: front) :: rest := by
  rw [lines]
  by_cases ends : c = newline
  · rw [if_pos ends]
    exact ⟨[], _, rfl⟩
  · rw [if_neg ends]
    cases lines newline text with
    | nil => exact ⟨[], [], rfl⟩
    | cons line rest => exact ⟨line, rest, rfl⟩

/-- The pieces of a text whose lines fit are its lines. -/
theorem pieces_eq_lines {room : ℕ} (left : ℕ) (text : List α) (first : ∀ line ∈ (lines newline text).head?, line.length ≤ left)
    (others : ∀ line ∈ (lines newline text).tail, line.length ≤ room) : pieces newline room left text = lines newline text := by
  induction text generalizing left with
  | nil => rfl
  | cons c text ih =>
    rw [pieces]
    rw [lines] at first others ⊢
    by_cases ends : c = newline
    · rw [if_pos ends] at others ⊢
      rw [if_pos (.inl ends), ih room (fun line member => others line (List.mem_of_mem_head? member))
        fun line member => others line (List.mem_of_mem_tail member)]
    · rw [if_neg ends] at first others ⊢
      cases text with
      | nil =>
        rw [pieces]
        split <;> rfl
      | cons next text =>
        obtain ⟨front, rest, split⟩ := lines_cons newline next text
        rw [split] at first others ih ⊢
        have long := first _ rfl
        rw [List.length_cons, List.length_cons] at long
        rw [if_neg (not_or.mpr ⟨ends, by omega⟩), ih (left - 1) (fun line member => ?_) others]
        cases Option.some.inj member
        rw [List.length_cons]
        omega

end LineReading
