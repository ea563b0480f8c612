import Mathlib.Data.BitVec
import Mathlib.Data.List.Range
import Mathlib.Data.Nat.ModEq
import Mathlib.Logic.Function.Basic

/-! # Rings of cells

A queue in a table of `size` cells is what stands in `count` cells from a start on, wrapping at the end of the
table. An entry is put into the cell behind the last one and taken from the first.
-/

namespace RingWindow

variable {α : Type*} {size : ℕ} {cells : ℕ → α} {start count : ℕ}

/-- The entries of `count` cells from a cell on. -/
def window (size : ℕ) (cells : ℕ → α) (start count : ℕ) : List α :=
  (List.range count).map fun offset => cells ((start + offset) % size)

@[simp] theorem length_window : (window size cells start count).length = count := by
  rw [window, List.length_map, List.length_range]

@[simp] theorem window_zero : window size cells start 0 = [] := rfl

/-- The start is a cell of the table. -/
theorem window_mod : window size cells (start % size) count = window size cells start count := by
  rw [window, window]
  apply List.map_congr_left
  intro offset inside
  rw [Nat.mod_add_mod]

/-- Only the cells of the window matter. -/
theorem window_congr {other : ℕ → α}
    (same : ∀ offset < count, other ((start + offset) % size) = cells ((start + offset) % size)) :
    window size other start count = window size cells start count :=
  List.map_congr_left fun offset inside => same offset (List.mem_range.mp inside)

/-- The first entry is taken. -/
theorem window_succ : window size cells start (count + 1) =
    cells (start % size) :: window size cells (start + 1) count := by
  rw [window, window, List.range_succ_eq_map, List.map_cons, List.map_map, Nat.add_zero]
  congr 1
  apply List.map_congr_left
  intro offset inside
  rw [Function.comp_apply, Nat.succ_eq_add_one, Nat.add_assoc, Nat.add_comm 1 offset]

/-- The window reaches one cell further. -/
theorem window_concat : window size cells start (count + 1) =
    window size cells start count ++ [cells ((start + count) % size)] := by
  rw [window, window, List.range_succ, List.map_append, List.map_singleton]

/-- Two cells of one turn are the same only at the same offset. -/
theorem cell_injective {first second : ℕ} (left : first < size) (right : second < size)
    (same : (start + first) % size = (start + second) % size) : first = second := by
  have congruent : Nat.ModEq size first second := Nat.ModEq.add_left_cancel' start same
  exact Nat.ModEq.eq_of_lt_of_lt congruent left right

/-- A free cell is written, and the entries stay. -/
theorem window_update (room : count < size) (entry : α) :
    window size (Function.update cells ((start + count) % size) entry) start count = window size cells start count := by
  rw [window, window]
  apply List.map_congr_left
  intro offset inside
  have below := List.mem_range.mp inside
  apply Function.update_of_ne
  intro same
  exact Nat.ne_of_lt below (cell_injective (Nat.lt_trans below room) room same)

/-- An entry is put behind the last one. -/
theorem window_push (room : count < size) (entry : α) :
    window size (Function.update cells ((start + count) % size) entry) start (count + 1) =
      window size cells start count ++ [entry] := by
  rw [window_concat, window_update room, Function.update_self]

end RingWindow

/-! # Turns of a ring

The entries of a ring of `size` cells are numbered as they are put in, and entry `j` goes into cell `j % size`. A cell
is in its turn `j / size`; how many turns it has had says which entry it holds, as long as that entry is live.
-/

namespace RingTurns

variable {size first count j cell : ℕ}

/-- How many of the first `count` entries went into a cell. -/
def turns (size count cell : ℕ) : ℕ := (count + (size - 1 - cell)) / size

/-- Nothing has gone into a cell. -/
theorem turns_zero (inside : cell < size) : turns size 0 cell = 0 := by
  rw [turns, Nat.zero_add]
  apply Nat.div_eq_of_lt
  omega

/-- The next entry goes into one cell. -/
theorem turns_succ (inside : cell < size) :
    turns size (count + 1) cell = turns size count cell + if cell = count % size then 1 else 0 := by
  have turn : count = size * (count / size) + count % size := (Nat.div_add_mod count size).symm
  have rest : count % size < size := Nat.mod_lt _ (by omega)
  have left (extra : ℕ) : turns size (count + extra) cell = count / size + (count % size + extra + (size - 1 - cell)) / size := by
    have regroup : count + extra + (size - 1 - cell) = count % size + extra + (size - 1 - cell) + size * (count / size) := by
      omega
    rw [turns, regroup, Nat.add_mul_div_left _ _ (by omega), Nat.add_comm]
  have here := left 0
  rw [Nat.add_zero] at here
  rw [left 1, here, Nat.add_assoc (count / size)]
  congr 1
  rcases Nat.lt_trichotomy cell (count % size) with below | same | above
  · rw [if_neg (by omega), Nat.div_eq_of_lt_le (k := 1) (by omega) (by omega), Nat.div_eq_of_lt_le (k := 1) (by omega) (by omega)]
  · rw [if_pos same, Nat.div_eq_of_lt_le (k := 1) (by omega) (by omega), Nat.div_eq_of_lt (by omega)]
  · rw [if_neg (by omega), Nat.div_eq_of_lt (by omega), Nat.div_eq_of_lt (by omega)]

/-- The entry of the last turn of a cell. -/
theorem turns_of_live (before : j < count) (live : count ≤ j + size) : turns size count (j % size) = j / size + 1 := by
  have turn : j = size * (j / size) + j % size := (Nat.div_add_mod j size).symm
  have rest : j % size < size := Nat.mod_lt _ (by omega)
  rw [turns]
  apply Nat.div_eq_of_lt_le
  · rw [Nat.add_mul, Nat.one_mul, Nat.mul_comm]
    omega
  · rw [Nat.add_mul, Nat.add_mul, Nat.one_mul, Nat.mul_comm]
    omega

/-- The cell of the next entry holds none of the live ones. -/
theorem cell_ne (live : first ≤ j) (before : j < count) (room : count < first + size) : j % size ≠ count % size := by
  intro same
  have offset : first + (j - first) = j := by omega
  have reach : first + (count - first) = count := by omega
  rw [← offset, ← reach] at same
  have equal := RingWindow.cell_injective (by omega) (by omega) same
  omega

end RingTurns

/-! # Rings with free-running counters

A queue in a table whose size divides 2^32, with two 32-bit counters that are never reduced: `head` counts the
entries put in and `tail` those taken out, and their difference is what is in the queue.
-/

/-- The cells and the counters. -/
structure CounterRing (α : Type*) where
  cells : ℕ → α
  head : BitVec 32
  tail : BitVec 32

namespace CounterRing

open RingWindow

variable {α : Type*} {size : ℕ} {ring : CounterRing α}

/-- How many entries are in the queue. -/
def used (ring : CounterRing α) : ℕ := (ring.head - ring.tail).toNat

/-- The entries, the first one first. -/
def contents (size : ℕ) (ring : CounterRing α) : List α := window size ring.cells ring.tail.toNat ring.used

/-- An entry is put in. -/
def push (size : ℕ) (ring : CounterRing α) (entry : α) : CounterRing α where
  cells := Function.update ring.cells (ring.head.toNat % size) entry
  head := ring.head + 1
  tail := ring.tail

/-- The entry that is taken out next. -/
def front (size : ℕ) (ring : CounterRing α) : α := ring.cells (ring.tail.toNat % size)

/-- An entry is taken out. -/
def pop (ring : CounterRing α) : CounterRing α where
  cells := ring.cells
  head := ring.head
  tail := ring.tail + 1

@[simp] theorem length_contents : (ring.contents size).length = ring.used := length_window

/-- The queue is empty when the counters meet. -/
theorem used_eq_zero_iff : ring.used = 0 ↔ ring.head = ring.tail := by
  have head := ring.head.isLt
  have tail := ring.tail.isLt
  constructor
  · intro empty
    apply BitVec.eq_of_toNat_eq
    rw [used, BitVec.toNat_sub] at empty
    omega
  · intro same
    rw [used, same, BitVec.sub_self]
    rfl

/-- The ring is empty when the counters meet. -/
theorem contents_of_meet (meet : ring.head = ring.tail) : ring.contents size = [] := by
  rw [contents, used_eq_zero_iff.mpr meet, window_zero]

theorem head_toNat (ring : CounterRing α) : ring.head.toNat = (ring.tail.toNat + ring.used) % 2 ^ 32 := by
  have head := ring.head.isLt
  have tail := ring.tail.isLt
  rw [used, BitVec.toNat_sub]
  omega

/-- One entry more is in the queue. -/
theorem used_push (room : ring.used + 1 < 2 ^ 32) (entry : α) : (ring.push size entry).used = ring.used + 1 := by
  have head := ring.head_toNat
  have step : (ring.head + 1 - ring.tail).toNat = ring.used + 1 := by
    rw [BitVec.toNat_sub, BitVec.toNat_add, show (1 : BitVec 32).toNat = 1 from rfl, head]
    have tail := ring.tail.isLt
    omega
  exact step

/-- One entry fewer is in the queue. -/
theorem used_pop (some : 0 < ring.used) : ring.pop.used + 1 = ring.used := by
  have head := ring.head_toNat
  have bound : ring.used < 2 ^ 32 := (ring.head - ring.tail).isLt
  have step : (ring.head - (ring.tail + 1)).toNat + 1 = ring.used := by
    rw [BitVec.toNat_sub, BitVec.toNat_add, show (1 : BitVec 32).toNat = 1 from rfl, head]
    have tail := ring.tail.isLt
    omega
  exact step

/-- An entry is put behind the last one. -/
theorem contents_push (divides : size ∣ 2 ^ 32) (short : size < 2 ^ 32) (room : ring.used < size) (entry : α) :
    (ring.push size entry).contents size = ring.contents size ++ [entry] := by
  have cell : ring.head.toNat % size = (ring.tail.toNat + ring.used) % size := by
    rw [head_toNat, Nat.mod_mod_of_dvd _ divides]
  have pushed := @window_push α size ring.cells ring.tail.toNat ring.used room entry
  rw [← cell] at pushed
  rw [contents, used_push (Nat.lt_of_le_of_lt room short)]
  exact pushed

/-- The first entry is taken out. -/
theorem contents_pop (divides : size ∣ 2 ^ 32) (some : 0 < ring.used) :
    ring.contents size = ring.front size :: ring.pop.contents size := by
  have start : ring.pop.tail.toNat % size = (ring.tail.toNat + 1) % size := by
    rw [pop, BitVec.toNat_add, show (1 : BitVec 32).toNat = 1 from rfl, Nat.mod_mod_of_dvd _ divides]
  have rest : window size ring.cells (ring.tail.toNat + 1) ring.pop.used = ring.pop.contents size := by
    rw [contents, ← window_mod, ← start, window_mod]
    rfl
  rw [contents, ← used_pop some, window_succ, rest]
  rfl

end CounterRing
