import KosTool.Math.ByteWord
import Mathlib.Data.List.Nodup
import Mathlib.Data.List.Perm.Basic
import Mathlib.Data.List.ReduceOption

/-! # Tables of slots

A table is a list of slots, each free or held by an entry. What a table holds is `List.reduceOption` of it, up to the
order: filling a free slot adds an entry to that, freeing a slot takes one away.
-/

namespace SlotTable

variable {Entry : Type*} {table : List (Option Entry)} {slot : ℕ} {entry : Entry}

/-- The slots before one, the slot, and the slots after it. -/
theorem eq_append_cons {value : Option Entry} (holds : table[slot]? = some value) :
    table = table.take slot ++ value :: table.drop (slot + 1) := by
  obtain ⟨inside, rfl⟩ := List.getElem?_eq_some_iff.mp holds
  rw [List.getElem_cons_drop, List.take_append_drop]

theorem set_eq_append_cons {value : Option Entry} (holds : table[slot]? = some value) (other : Option Entry) :
    table.set slot other = table.take slot ++ other :: table.drop (slot + 1) := by
  obtain ⟨inside, -⟩ := List.getElem?_eq_some_iff.mp holds
  exact List.set_eq_take_cons_drop other inside

/-- A free slot that is filled adds its entry. -/
theorem fill (free : table[slot]? = some none) (entry : Entry) :
    (table.set slot (some entry)).reduceOption.Perm (entry :: table.reduceOption) := by
  have same : table.reduceOption = (table.take slot ++ none :: table.drop (slot + 1)).reduceOption :=
    congrArg _ (eq_append_cons free)
  rw [same, set_eq_append_cons free, List.reduceOption_append, List.reduceOption_append,
    List.reduceOption_cons_of_some, List.reduceOption_cons_of_none]
  exact List.perm_middle

/-- A slot that is freed takes its entry away. -/
theorem clear (held : table[slot]? = some (some entry)) :
    table.reduceOption.Perm (entry :: (table.set slot none).reduceOption) := by
  have same : table.reduceOption = (table.take slot ++ some entry :: table.drop (slot + 1)).reduceOption :=
    congrArg _ (eq_append_cons held)
  rw [same, set_eq_append_cons held, List.reduceOption_append, List.reduceOption_append,
    List.reduceOption_cons_of_some, List.reduceOption_cons_of_none]
  exact List.perm_middle

/-- A slot that was free already can be freed again. -/
theorem clear_free (free : table[slot]? = some none) : table.set slot none = table := by
  obtain ⟨inside, empty⟩ := List.getElem?_eq_some_iff.mp free
  rw [← empty, List.set_getElem_self]

/-- An entry is in a table exactly if a slot holds it. -/
theorem mem_iff : entry ∈ table.reduceOption ↔ ∃ slot : ℕ, table[slot]? = some (some entry) := by
  rw [List.reduceOption_mem_iff, List.mem_iff_getElem?]

/-- In a table without repetitions every entry is held by exactly one slot. -/
theorem exists_unique_slot (once : table.reduceOption.Nodup) (member : entry ∈ table.reduceOption) :
    ∃! slot : ℕ, table[slot]? = some (some entry) := by
  obtain ⟨slot, held⟩ := mem_iff.mp member
  refine ⟨slot, held, fun other also => ?_⟩
  by_contra apart
  have gone := (List.nodup_cons.mp ((clear held).nodup_iff.mp once)).1
  refine gone (mem_iff.mpr ⟨other, ?_⟩)
  rw [List.getElem?_set_ne (Ne.symm apart)]
  exact also

end SlotTable

/-! # A table of bits in bytes, the most significant bit first -/

namespace BitTable

open ByteWord

/-- The mask of an entry in its byte. -/
def mask (i : ℕ) : Byte := 0x80#8 >>> (i % 8)

/-- Whether the bit of an entry is set. -/
def bit (table : List Byte) (i : ℕ) : Bool := table.getD (i / 8) 0 &&& mask i ≠ 0

/-- The byte of an entry with its bit cleared. -/
def cleared (table : List Byte) (i : ℕ) : Byte := table.getD (i / 8) 0 &&& ~~~(mask i)

variable {table other : List Byte} {i j : ℕ}

/-- The masks of a byte have no bit in common. -/
theorem mask_apart : ∀ i < 8, ∀ j < 8, ~~~(mask i) &&& mask j = if i = j then 0 else mask j := by
  decide

/-- Clearing the bit of an entry leaves the other bits of its byte. -/
theorem cleared_and_mask (same : i / 8 = j / 8) :
    cleared table i &&& mask j = if i = j then 0 else table.getD (j / 8) 0 &&& mask j := by
  have masks := mask_apart (i % 8) (Nat.mod_lt _ (by decide)) (j % 8) (Nat.mod_lt _ (by decide))
  have entry (k : ℕ) : mask (k % 8) = mask k := by rw [mask, mask, Nat.mod_mod]
  have equal : i % 8 = j % 8 ↔ i = j := by omega
  rw [entry, entry] at masks
  simp only [equal] at masks
  rw [cleared, same, BitVec.and_assoc, masks]
  split_ifs
  · exact BitVec.and_zero
  · rfl

/-- A table that differs in a byte with one bit cleared has the bits but that one. -/
theorem bit_of_cleared (there : other.getD (i / 8) 0 = cleared table i)
    (elsewhere : ∀ k, k ≠ i / 8 → other.getD k 0 = table.getD k 0) : bit other j = (bit table j && decide (j ≠ i)) := by
  rw [bit, bit]
  by_cases same : i / 8 = j / 8
  · rw [← same, there, cleared_and_mask same, same]
    by_cases here : i = j
    · simp [here]
    · simp [here, Ne.symm here]
  · rw [elsewhere _ (Ne.symm same)]
    have other_entry : j ≠ i := fun equal => same (by rw [equal])
    simp [other_entry]

end BitTable
