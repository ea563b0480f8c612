import Mathlib.Data.BitVec
import Mathlib.Data.List.GetD

/-! # Bytes, 32-bit words and byte buffers

Words travel most significant byte first. A receive buffer is a function of the offset, so that
reading past a datagram yields whatever the buffer held before; `overlay` is what a receive does
to it. Memory is a function of the 32-bit address and `copyIn` is `memcpy` into it, wrapping at
the top of the address space as pointer arithmetic does.
-/

abbrev Byte := BitVec 8
abbrev Word := BitVec 32

/-- Offsets into a buffer that is never exhausted. -/
abbrev Buffer := ℕ → Byte

namespace ByteWord

/-- The four bytes of a word, most significant first. -/
def be32 (word : Word) : List Byte :=
  [word.extractLsb' 24 8, word.extractLsb' 16 8, word.extractLsb' 8 8, word.extractLsb' 0 8]

/-- The word of four bytes, most significant first. -/
def ofBe32 (b0 b1 b2 b3 : Byte) : Word := b0 ++ b1 ++ b2 ++ b3

@[simp] theorem length_be32 (word : Word) : (be32 word).length = 4 := rfl

theorem ofBe32_extract (word : Word) :
    ofBe32 (word.extractLsb' 24 8) (word.extractLsb' 16 8) (word.extractLsb' 8 8)
      (word.extractLsb' 0 8) = word := by
  apply BitVec.eq_of_getLsbD_eq
  intro i bound
  simp only [ofBe32, BitVec.getLsbD_append, BitVec.getLsbD_extractLsb']
  by_cases first : i < 8
  · simp [first]
  by_cases second : i < 16
  · simp [first, show i - 8 < 8 by omega, show 8 + (i - 8) = i by omega]
  by_cases third : i < 24
  · simp [first, show ¬ i - 8 < 8 by omega, show i - 8 - 8 < 8 by omega,
      show 16 + (i - 8 - 8) = i by omega]
  · simp [first, show ¬ i - 8 < 8 by omega, show ¬ i - 8 - 8 < 8 by omega,
      show i - 8 - 8 - 8 < 8 by omega, show 24 + (i - 8 - 8 - 8) = i by omega]

/-- Four bytes survive the way through a word. -/
theorem be32_ofBe32 (b0 b1 b2 b3 : Byte) : be32 (ofBe32 b0 b1 b2 b3) = [b0, b1, b2, b3] := by
  have zeroth : (b0 ++ b1 ++ b2 ++ b3).extractLsb' 24 8 = b0 := by
    rw [BitVec.extractLsb'_append_eq_of_le (by decide), BitVec.extractLsb'_append_eq_of_le (by decide),
      BitVec.extractLsb'_append_eq_of_le (by decide), BitVec.extractLsb'_eq_self]
  have first : (b0 ++ b1 ++ b2 ++ b3).extractLsb' 16 8 = b1 := by
    rw [BitVec.extractLsb'_append_eq_of_le (by decide), BitVec.extractLsb'_append_eq_of_le (by decide),
      BitVec.extractLsb'_append_eq_of_add_le (by decide), BitVec.extractLsb'_eq_self]
  have second : (b0 ++ b1 ++ b2 ++ b3).extractLsb' 8 8 = b2 := by
    rw [BitVec.extractLsb'_append_eq_of_le (by decide), BitVec.extractLsb'_append_eq_of_add_le (by decide),
      BitVec.extractLsb'_eq_self]
  have third : (b0 ++ b1 ++ b2 ++ b3).extractLsb' 0 8 = b3 := by
    rw [BitVec.extractLsb'_append_eq_of_add_le (by decide), BitVec.extractLsb'_eq_self]
  rw [be32, ofBe32]
  exact congr (congrArg _ zeroth)
    (congr (congrArg _ first) (congr (congrArg _ second) (congrArg (fun byte => [byte]) third)))

/-- The word at an offset of a buffer. -/
def readBe32 (buffer : Buffer) (offset : ℕ) : Word :=
  ofBe32 (buffer offset) (buffer (offset + 1)) (buffer (offset + 2)) (buffer (offset + 3))

/-- The bytes of the word at an offset are those of the buffer. -/
theorem be32_readBe32 (buffer : Buffer) (offset : ℕ) :
    be32 (readBe32 buffer offset) =
      [buffer offset, buffer (offset + 1), buffer (offset + 2), buffer (offset + 3)] := be32_ofBe32 _ _ _ _

/-- The first byte of the word at an offset. -/
theorem extract_readBe32 (buffer : Buffer) (offset : ℕ) :
    (readBe32 buffer offset).extractLsb' 24 8 = buffer offset :=
  (List.cons.inj (be32_readBe32 buffer offset)).1

theorem readBe32_congr {first second : Buffer} {offset : ℕ}
    (same : ∀ i < 4, first (offset + i) = second (offset + i)) :
    readBe32 first offset = readBe32 second offset := by
  have zeroth := same 0 (by decide)
  rw [Nat.add_zero] at zeroth
  rw [readBe32, readBe32, zeroth, same 1 (by decide), same 2 (by decide), same 3 (by decide)]

/-- A buffer after a datagram has been received into it: the tail keeps its old bytes. -/
def overlay (datagram : List Byte) (old : Buffer) : Buffer := fun i => datagram.getD i (old i)

theorem overlay_of_lt {datagram : List Byte} {i : ℕ} (inside : i < datagram.length) (old : Buffer) :
    overlay datagram old i = datagram[i] := by
  simp only [overlay, List.getD_eq_getElem?_getD, List.getElem?_eq_getElem inside, Option.getD_some]

theorem overlay_of_le {datagram : List Byte} {i : ℕ} (outside : datagram.length ≤ i) (old : Buffer) :
    overlay datagram old i = old i := by
  simp only [overlay, List.getD_eq_getElem?_getD, List.getElem?_eq_none outside, Option.getD_none]

theorem overlay_append_left {first second : List Byte} {i : ℕ} (inside : i < first.length)
    (old : Buffer) : overlay (first ++ second) old i = first[i] := by
  rw [overlay_of_lt (by rw [List.length_append]; omega), List.getElem_append_left inside]

theorem overlay_append_right (first : List Byte) {second : List Byte} {i : ℕ} (inside : i < second.length)
    (old : Buffer) : overlay (first ++ second) old (first.length + i) = second[i] := by
  rw [overlay_of_lt (by rw [List.length_append]; omega), List.getElem_append_right (by omega)]
  simp only [Nat.add_sub_cancel_left]

/-- A word written into a datagram is read back, wherever it stands. -/
theorem readBe32_overlay (before after : List Byte) (word : Word) (old : Buffer) :
    readBe32 (overlay (before ++ be32 word ++ after) old) before.length = word := by
  have byteAt (i : ℕ) (bound : i < (be32 word).length) :
      overlay (before ++ be32 word ++ after) old (before.length + i) = (be32 word)[i] := by
    rw [length_be32] at bound
    rw [overlay_append_left (by simp only [List.length_append, length_be32]; omega),
      List.getElem_append_right (by omega)]
    simp only [Nat.add_sub_cancel_left]
  have zeroth := byteAt 0 (by simp)
  rw [Nat.add_zero] at zeroth
  rw [readBe32, zeroth, byteAt 1 (by simp), byteAt 2 (by simp), byteAt 3 (by simp)]
  exact ofBe32_extract word

/-- A block of bytes stored at an offset of a buffer. -/
def storeAt (buffer : Buffer) (offset : ℕ) (bytes : List Byte) : Buffer :=
  fun i => if offset ≤ i then bytes.getD (i - offset) (buffer i) else buffer i

theorem storeAt_outside (buffer : Buffer) {offset i : ℕ} {bytes : List Byte}
    (outside : i < offset ∨ offset + bytes.length ≤ i) : storeAt buffer offset bytes i = buffer i := by
  unfold storeAt
  split
  · exact List.getD_eq_default _ _ (by omega)
  · rfl

theorem storeAt_add (buffer : Buffer) (offset : ℕ) (bytes : List Byte) (i : ℕ) :
    storeAt buffer offset bytes (offset + i) = overlay bytes (fun j => buffer (offset + j)) i := by
  simp only [storeAt, overlay, Nat.le_add_right, if_true, Nat.add_sub_cancel_left]

theorem readBe32_storeAt (buffer : Buffer) (offset : ℕ) (bytes : List Byte) (i : ℕ) :
    readBe32 (storeAt buffer offset bytes) (offset + i) =
      readBe32 (overlay bytes fun j => buffer (offset + j)) i := by
  simp only [readBe32, Nat.add_assoc, storeAt_add]

/-- A stored word is read back. -/
theorem readBe32_storeAt_self (buffer : Buffer) (offset : ℕ) (word : Word) :
    readBe32 (storeAt buffer offset (be32 word)) offset = word := by
  have read := readBe32_overlay [] [] word fun j => buffer (offset + j)
  rw [List.nil_append, List.append_nil, List.length_nil, ← readBe32_storeAt, Nat.add_zero] at read
  exact read

/-- A store changes no word that is apart from it. -/
theorem readBe32_storeAt_apart (buffer : Buffer) {offset start : ℕ} {bytes : List Byte}
    (apart : start + 4 ≤ offset ∨ offset + bytes.length ≤ start) :
    readBe32 (storeAt buffer offset bytes) start = readBe32 buffer start :=
  readBe32_congr fun i inside => storeAt_outside buffer (by omega)

/-- A block of bytes read out of a buffer. -/
def slice (buffer : Buffer) (offset count : ℕ) : List Byte :=
  (List.range count).map fun i => buffer (offset + i)

@[simp] theorem length_slice (buffer : Buffer) (offset count : ℕ) :
    (slice buffer offset count).length = count := by
  simp only [slice, List.length_map, List.length_range]

@[simp] theorem getElem_slice (buffer : Buffer) (offset count i : ℕ)
    (bound : i < (slice buffer offset count).length) :
    (slice buffer offset count)[i] = buffer (offset + i) := by
  simp only [slice, List.getElem_map, List.getElem_range]

theorem slice_succ (buffer : Buffer) (offset count : ℕ) :
    slice buffer offset (count + 1) = buffer offset :: slice buffer (offset + 1) count := by
  apply List.ext_getElem
  · simp only [length_slice, List.length_cons]
  · intro i left right
    cases i with
    | zero => simp only [getElem_slice, List.getElem_cons_zero, Nat.add_zero]
    | succ i =>
      simp only [getElem_slice, List.getElem_cons_succ]
      exact congrArg buffer (by omega)

theorem slice_add (buffer : Buffer) (offset first second : ℕ) :
    slice buffer offset (first + second) = slice buffer offset first ++ slice buffer (offset + first) second := by
  induction first generalizing offset with
  | zero => simp only [Nat.zero_add, Nat.add_zero, slice, List.range_zero, List.map_nil, List.nil_append]
  | succ first ih =>
    rw [Nat.add_right_comm, slice_succ, slice_succ, ih, List.cons_append, Nat.add_assoc, Nat.add_comm 1 first]

theorem slice_congr {first second : Buffer} {offset start count : ℕ}
    (same : ∀ i < count, first (offset + i) = second (start + i)) :
    slice first offset count = slice second start count := by
  apply List.ext_getElem
  · simp only [length_slice]
  · intro i left right
    rw [getElem_slice, getElem_slice]
    exact same i (by simpa using left)

/-- A word is known by its four bytes. -/
theorem readBe32_of_slice {buffer : Buffer} {offset : ℕ} {word : Word} (same : slice buffer offset 4 = be32 word) :
    readBe32 buffer offset = word := by
  rw [slice_succ, slice_succ, slice_succ, slice_succ] at same
  obtain ⟨zeroth, same⟩ := List.cons.inj same
  obtain ⟨first, same⟩ := List.cons.inj same
  obtain ⟨second, same⟩ := List.cons.inj same
  obtain ⟨third, -⟩ := List.cons.inj same
  rw [readBe32, zeroth, first, second, third]
  exact ofBe32_extract word

/-- A part of a received datagram is read back, wherever it stands. -/
theorem slice_overlay (before part after : List Byte) (old : Buffer) :
    slice (overlay (before ++ part ++ after) old) before.length part.length = part := by
  apply List.ext_getElem
  · rw [length_slice]
  · intro i left right
    rw [getElem_slice, overlay_append_left (by rw [List.length_append]; omega),
      List.getElem_append_right (Nat.le_add_right _ _)]
    simp only [Nat.add_sub_cancel_left]

/-- A slice inside a slice. -/
theorem slice_slice (buffer : Buffer) (offset : ℕ) {start count total : ℕ} (inside : start + count ≤ total) :
    slice buffer (offset + start) count = ((slice buffer offset total).drop start).take count := by
  apply List.ext_getElem
  · rw [length_slice, List.length_take, List.length_drop, length_slice]
    omega
  · intro i left right
    rw [getElem_slice, List.getElem_take, List.getElem_drop, getElem_slice, Nat.add_assoc]

theorem getD_slice (buffer : Buffer) (offset : ℕ) {i total : ℕ} (inside : i < total) (default : Byte) :
    (slice buffer offset total).getD i default = buffer (offset + i) := by
  rw [List.getD_eq_getElem _ _ (by rw [length_slice]; exact inside), getElem_slice]

/-- A part of a received datagram is replaced. -/
theorem storeAt_overlay (before part after : List Byte) {other : List Byte} (same : other.length = part.length)
    (old : Buffer) : storeAt (overlay (before ++ part ++ after) old) before.length other =
      overlay (before ++ other ++ after) old := by
  funext i
  simp only [storeAt, overlay, List.getD_eq_getElem?_getD]
  split
  · rename_i above
    by_cases inside : i - before.length < other.length
    · rw [List.getElem?_eq_getElem inside, Option.getD_some, List.append_assoc,
        List.getElem?_append_right above, List.getElem?_append_left inside, List.getElem?_eq_getElem inside,
        Option.getD_some]
    · rw [List.getElem?_eq_none (Nat.not_lt.mp inside), Option.getD_none, List.append_assoc, List.append_assoc,
        List.getElem?_append_right above, List.getElem?_append_right above,
        List.getElem?_append_right (Nat.not_lt.mp inside), List.getElem?_append_right (by omega), same]
  · rename_i below
    rw [List.append_assoc, List.append_assoc, List.getElem?_append_left (Nat.not_le.mp below),
      List.getElem?_append_left (Nat.not_le.mp below)]

/-- `memcpy` from one buffer into another. -/
theorem storeAt_slice (buffer source : Buffer) (offset start count i : ℕ) :
    storeAt buffer offset (slice source start count) i =
      if offset ≤ i ∧ i < offset + count then source (start + (i - offset)) else buffer i := by
  unfold storeAt
  by_cases above : offset ≤ i
  · rw [if_pos above]
    by_cases below : i < offset + count
    · have inside : i - offset < (slice source start count).length := by
        rw [length_slice]
        omega
      rw [if_pos ⟨above, below⟩, List.getD_eq_getElem _ _ inside, getElem_slice]
    · have outside : (slice source start count).length ≤ i - offset := by
        rw [length_slice]
        omega
      rw [if_neg fun within => below within.2, List.getD_eq_default _ _ outside]
  · rw [if_neg above, if_neg fun within => above within.1]

end ByteWord

/-- Byte memory over the 32-bit address space. -/
abbrev Memory := Word → Byte

namespace Memory

/-- `memcpy(address, source, count)`: the byte `i` above the address comes from `source i`. -/
def copyIn (memory : Memory) (address : Word) (count : ℕ) (source : Buffer) : Memory :=
  fun query => if (query - address).toNat < count then source (query - address).toNat else memory query

theorem copyIn_inside {memory : Memory} {address : Word} {count : ℕ} {source : Buffer} {query : Word}
    (inside : (query - address).toNat < count) :
    copyIn memory address count source query = source (query - address).toNat := if_pos inside

theorem copyIn_outside {memory : Memory} {address : Word} {count : ℕ} {source : Buffer} {query : Word}
    (outside : count ≤ (query - address).toNat) :
    copyIn memory address count source query = memory query := if_neg (Nat.not_lt.mpr outside)

/-- A block of bytes read out of memory. -/
def copyOut (memory : Memory) (address : Word) (count : ℕ) : List Byte :=
  (List.range count).map fun i => memory (address + BitVec.ofNat 32 i)

@[simp] theorem length_copyOut (memory : Memory) (address : Word) (count : ℕ) :
    (copyOut memory address count).length = count := by
  simp only [copyOut, List.length_map, List.length_range]

@[simp] theorem getElem_copyOut (memory : Memory) (address : Word) (count i : ℕ)
    (bound : i < (copyOut memory address count).length) :
    (copyOut memory address count)[i] = memory (address + BitVec.ofNat 32 i) := by
  simp only [copyOut, List.getElem_map, List.getElem_range]

@[simp] theorem copyIn_zero (memory : Memory) (address : Word) (source : Buffer) :
    copyIn memory address 0 source = memory := by
  funext query
  exact copyIn_outside (Nat.zero_le _)

end Memory
