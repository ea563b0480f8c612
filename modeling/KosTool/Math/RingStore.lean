import KosTool.Math.ByteWord
import Mathlib.Data.Nat.ModEq

/-! # Arcs of a ring

Consecutive places of a ring, counted from one place on. Two arcs share no place exactly if the second starts behind the
first and ends before it comes round to where the first starts.
-/

namespace RingArcs

variable {modulus first count second length : ℕ}

/-- How far a place is ahead of another, going forward. -/
def ahead (modulus first second : ℕ) : ℕ := (first + (modulus - second % modulus)) % modulus

/-- No place of one arc is a place of the other. -/
def Apart (modulus first count second length : ℕ) : Prop :=
  ∀ i < count, ∀ j < length, (first + i) % modulus ≠ (second + j) % modulus

theorem ahead_lt (some : 0 < modulus) : ahead modulus first second < modulus := Nat.mod_lt _ some

theorem add_ahead (some : 0 < modulus) : second + ahead modulus first second ≡ first [MOD modulus] := by
  have below := Nat.mod_lt second some
  have whole : second % modulus + (first + (modulus - second % modulus)) = first + modulus := by omega
  calc second + ahead modulus first second
    _ ≡ second % modulus + (first + (modulus - second % modulus)) [MOD modulus] :=
        (Nat.mod_modEq second modulus).symm.add (Nat.mod_modEq _ modulus)
    _ = first + modulus := whole
    _ ≡ first [MOD modulus] := Nat.add_mod_right first modulus

/-- Two places are the same if they are equally far ahead of the second arc's start. -/
theorem place_eq_iff (some : 0 < modulus) (i j : ℕ) :
    (first + i) % modulus = (second + j) % modulus ↔ (ahead modulus first second + i) % modulus = j % modulus := by
  have start : second + (ahead modulus first second + i) ≡ first + i [MOD modulus] := by
    rw [← Nat.add_assoc]
    exact (add_ahead some).add_right i
  constructor
  · intro same
    exact (start.trans same).add_left_cancel'
  · intro same
    exact start.symm.trans (Nat.ModEq.add_left second same)

theorem apart_iff (some : 0 < length) (fits : length ≤ modulus) : Apart modulus first count second length ↔
    count = 0 ∨ (length ≤ ahead modulus first second ∧ ahead modulus first second + count ≤ modulus) := by
  have ring : 0 < modulus := Nat.lt_of_lt_of_le some fits
  have below : ahead modulus first second < modulus := ahead_lt ring
  constructor
  · intro apart
    by_cases empty : count = 0
    · exact .inl empty
    · refine .inr ⟨?_, ?_⟩
      · by_contra inside
        refine apart 0 (Nat.pos_of_ne_zero empty) (ahead modulus first second) (by omega) ?_
        rw [place_eq_iff ring, Nat.add_zero]
      · by_contra round
        refine apart (modulus - ahead modulus first second) (by omega) 0 some ?_
        rw [place_eq_iff ring, Nat.add_sub_cancel' (Nat.le_of_lt below), Nat.mod_self, Nat.zero_mod]
  · rintro (rfl | ⟨behind, ends⟩) i inside j inside' same
    · exact Nat.not_lt_zero i inside
    · rw [place_eq_iff ring, Nat.mod_eq_of_lt (by omega), Nat.mod_eq_of_lt (by omega)] at same
      omega

end RingArcs

/-! # A buffer that is read and written round

Bytes are put down from a place on and go on at the start of the buffer behind its end; they are read in the same way.
-/

namespace RingStore

open ByteWord RingArcs

variable {modulus start i : ℕ}

/-- The buffer as it is read from a place on. -/
def around (modulus : ℕ) (memory : Buffer) (start : ℕ) : Buffer := fun i => memory ((start + i) % modulus)

/-- Bytes are put down from a place on. -/
def put (modulus : ℕ) (memory : Buffer) (start : ℕ) (bytes : List Byte) : Buffer :=
  fun place => bytes.getD (ahead modulus place start) (memory place)

theorem ahead_place (inside : i < modulus) : ahead modulus ((start + i) % modulus) start = i := by
  have some : 0 < modulus := Nat.lt_of_le_of_lt (Nat.zero_le i) inside
  have far : start + ahead modulus ((start + i) % modulus) start ≡ start + i [MOD modulus] :=
    (add_ahead some).trans (Nat.mod_modEq _ _)
  have same := Nat.ModEq.add_left_cancel' start far
  rw [Nat.ModEq, Nat.mod_eq_of_lt (ahead_lt some), Nat.mod_eq_of_lt inside] at same
  exact same

/-- The places from the start on hold the bytes, and behind them what they held before. -/
theorem around_put (memory : Buffer) (bytes : List Byte) (inside : i < modulus) :
    around modulus (put modulus memory start bytes) start i = bytes.getD i (around modulus memory start i) := by
  rw [around, put, ahead_place inside]
  rfl

theorem around_add (memory : Buffer) (first second : ℕ) :
    around modulus memory (first + second) i = around modulus memory first (second + i) := by
  rw [around, around, Nat.add_assoc]

theorem around_mod (memory : Buffer) : around modulus memory (start % modulus) = around modulus memory start := by
  funext i
  rw [around, around, Nat.mod_add_mod]

theorem put_mod (memory : Buffer) (bytes : List Byte) :
    put modulus memory (start % modulus) bytes = put modulus memory start bytes := by
  funext place
  rw [put, put, ahead, ahead, Nat.mod_mod]

/-- What is put down behind `room` places leaves these as they are, if it does not come round. -/
theorem around_put_apart (memory : Buffer) (bytes : List Byte) {room : ℕ} (inside : i < room)
    (fits : room + bytes.length ≤ modulus) :
    around modulus (put modulus memory (start + room) bytes) start i = around modulus memory start i := by
  have back : around modulus (put modulus memory (start + room) bytes) start i =
      around modulus (put modulus memory (start + room) bytes) (start + room) (modulus - room + i) := by
    rw [around, around, show start + room + (modulus - room + i) = start + i + modulus by omega, Nat.add_mod_right]
  have here : around modulus memory (start + room) (modulus - room + i) = around modulus memory start i := by
    rw [around, around, show start + room + (modulus - room + i) = start + i + modulus by omega, Nat.add_mod_right]
  rw [back, around_put memory bytes (by omega), List.getD_eq_default _ _ (by omega), here]

/-- What is put down: some bytes, and how many places are taken for them. -/
structure Item where
  bytes : List Byte
  size : ℕ
  fits : bytes.length ≤ size

/-- How many places some items take. -/
def taken (items : List Item) : ℕ := (items.map Item.size).sum

@[simp] theorem taken_nil : taken [] = 0 := rfl

@[simp] theorem taken_cons (item : Item) (rest : List Item) : taken (item :: rest) = item.size + taken rest := by
  simp [taken]

@[simp] theorem taken_append (first second : List Item) : taken (first ++ second) = taken first + taken second := by
  simp [taken]

/-- Items are in the buffer one behind the other. -/
def Laid (modulus : ℕ) (memory : Buffer) : ℕ → List Item → Prop
  | _, [] => True
  | start, item :: rest =>
    slice (around modulus memory start) 0 item.bytes.length = item.bytes ∧ Laid modulus memory (start + item.size) rest

section Laid

variable {memory : Buffer} {items : List Item} {room : ℕ} {bytes : List Byte}

/-- What is put down is read back. -/
theorem slice_put (fits : bytes.length ≤ modulus) :
    slice (around modulus (put modulus memory start bytes) start) 0 bytes.length = bytes := by
  apply List.ext_getElem
  · rw [length_slice]
  · intro i left right
    rw [getElem_slice, Nat.zero_add, around_put memory _ (by omega), List.getD_eq_getElem _ _ right]

/-- What is put down behind the items leaves them as they are. -/
theorem Laid.put_apart (laid : Laid modulus memory start items) (inside : taken items ≤ room)
    (fits : room + bytes.length ≤ modulus) : Laid modulus (put modulus memory (start + room) bytes) start items := by
  induction items generalizing start room with
  | nil => trivial
  | cons item rest ih =>
    obtain ⟨here, behind⟩ := laid
    rw [taken_cons] at inside
    have short := item.fits
    constructor
    · refine Eq.trans (slice_congr fun i below => ?_) here
      rw [Nat.zero_add]
      exact around_put_apart memory bytes (by omega) fits
    · have below : taken rest ≤ room - item.size := by omega
      have later := ih behind below (by omega)
      rwa [Nat.add_assoc, Nat.add_sub_cancel' (by omega)] at later

/-- An item more is put down behind the items. -/
theorem Laid.concat (laid : Laid modulus memory start items) {item : Item}
    (holds : slice (around modulus memory (start + taken items)) 0 item.bytes.length = item.bytes) :
    Laid modulus memory start (items ++ [item]) := by
  induction items generalizing start with
  | nil => exact ⟨holds, trivial⟩
  | cons first rest ih =>
    obtain ⟨here, behind⟩ := laid
    rw [taken_cons, ← Nat.add_assoc] at holds
    exact ⟨here, ih behind holds⟩

/-- The next item behind those that are there, if there is room for its bytes. -/
theorem Laid.put_behind (laid : Laid modulus memory start items) {item : Item} (fits : taken items + item.size ≤ modulus) :
    Laid modulus (put modulus memory (start + taken items) item.bytes) start (items ++ [item]) := by
  have short := item.fits
  exact (laid.put_apart le_rfl (by omega)).concat (slice_put (by omega))

/-- Places that are the same in the buffer are the same to what is laid there. -/
theorem Laid.of_mod_eq {other : ℕ} (laid : Laid modulus memory start items) (same : start % modulus = other % modulus) :
    Laid modulus memory other items := by
  induction items generalizing start other with
  | nil => trivial
  | cons item rest ih =>
    obtain ⟨here, behind⟩ := laid
    refine ⟨?_, ih behind ?_⟩
    · rw [← around_mod, ← same, around_mod]
      exact here
    · rw [Nat.add_mod, same, ← Nat.add_mod]

end Laid

end RingStore
