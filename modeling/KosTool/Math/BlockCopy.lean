import KosTool.Math.ByteWord

/-! # Copying blocks from one buffer into another

A list of `memcpy`s is run in order. Where no two of them write the same byte, every byte a copy writes is
the one it read, and every byte none of them writes is as before.
-/

namespace BlockCopy

open ByteWord

/-- A `memcpy` between two buffers: the offsets it writes to and reads from, and its length. -/
structure Memcpy where
  dst : ℕ
  src : ℕ
  count : ℕ
deriving DecidableEq

/-- The copies run in order. -/
def runAll (input : Buffer) (copies : List Memcpy) (out : Buffer) : Buffer :=
  copies.foldl (fun out copy => storeAt out copy.dst (slice input copy.src copy.count)) out

/-- The copies write no byte in common. -/
def Apart (first second : Memcpy) : Prop :=
  first.dst + first.count ≤ second.dst ∨ second.dst + second.count ≤ first.dst

/-- The copy reads and writes inside buffers of a size. -/
def Inside (size : ℕ) (copy : Memcpy) : Prop := copy.dst + copy.count ≤ size ∧ copy.src + copy.count ≤ size

variable {input out : Buffer} {copies : List Memcpy} {copy : Memcpy}

/-- A byte that no copy writes stays. -/
theorem runAll_outside {i : ℕ} (outside : ∀ copy ∈ copies, i < copy.dst ∨ copy.dst + copy.count ≤ i) :
    runAll input copies out i = out i := by
  induction copies generalizing out with
  | nil => rfl
  | cons copy rest ih =>
    have here := outside copy List.mem_cons_self
    calc runAll input (copy :: rest) out i
      _ = storeAt out copy.dst (slice input copy.src copy.count) i :=
        ih fun other among => outside other (List.mem_cons_of_mem _ among)
      _ = out i := by
        rw [storeAt_slice, if_neg]
        omega

/-- A byte that a copy writes is the one it read, if no other copy writes it. -/
theorem runAll_inside (apart : copies.Pairwise Apart) (among : copy ∈ copies) {j : ℕ} (inside : j < copy.count) :
    runAll input copies out (copy.dst + j) = input (copy.src + j) := by
  induction copies generalizing out with
  | nil => cases among
  | cons first rest ih =>
    rw [List.pairwise_cons] at apart
    rcases List.mem_cons.mp among with rfl | later
    · have untouched : ∀ other ∈ rest, copy.dst + j < other.dst ∨ other.dst + other.count ≤ copy.dst + j := by
        intro other member
        have separate := apart.1 other member
        unfold Apart at separate
        omega
      calc runAll input (copy :: rest) out (copy.dst + j)
        _ = storeAt out copy.dst (slice input copy.src copy.count) (copy.dst + j) := runAll_outside untouched
        _ = input (copy.src + j) := by
          rw [storeAt_slice, if_pos ⟨Nat.le_add_right _ _, Nat.add_lt_add_left inside _⟩, Nat.add_sub_cancel_left]
    · exact ih apart.2 later

theorem storeAt_nil (buffer : Buffer) (offset : ℕ) : storeAt buffer offset [] = buffer := by
  funext i
  exact storeAt_outside _ (by rw [List.length_nil]; omega)

theorem slice_one (buffer : Buffer) (offset : ℕ) : slice buffer offset 1 = [buffer offset] := by
  rw [slice_succ]
  rfl

/-- The bytes of a word that is loaded are those of the buffer. -/
theorem be32_readBe32_slice (buffer : Buffer) (offset : ℕ) : be32 (readBe32 buffer offset) = slice buffer offset 4 := by
  rw [be32_readBe32, slice_succ, slice_succ, slice_succ, slice_succ]
  rfl

/-- A block is copied inside one buffer, piece by piece and its front first. The pieces still to come are read before
they are written. -/
theorem storeAt_slice_extend (buffer : Buffer) {dst src done more : ℕ} (apart : dst ≤ src ∨ src + done + more ≤ dst) :
    storeAt (storeAt buffer dst (slice buffer src done)) (dst + done)
        (slice (storeAt buffer dst (slice buffer src done)) (src + done) more) =
      storeAt buffer dst (slice buffer src (done + more)) := by
  have unread : slice (storeAt buffer dst (slice buffer src done)) (src + done) more = slice buffer (src + done) more :=
    slice_congr fun i inside => by
      rw [storeAt_slice, if_neg]
      omega
  funext i
  rw [unread, storeAt_slice, storeAt_slice, storeAt_slice]
  by_cases new : dst + done ≤ i ∧ i < dst + done + more
  · rw [if_pos new, if_pos (by omega)]
    congr 1
    omega
  · rw [if_neg new]
    by_cases before : dst ≤ i ∧ i < dst + done
    · rw [if_pos before, if_pos (by omega)]
    · rw [if_neg before, if_neg (by omega)]

end BlockCopy
