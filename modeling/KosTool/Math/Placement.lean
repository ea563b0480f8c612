import KosTool.Math.Extents
import KosTool.Math.WordPatch

/-! # Pieces that are written over a buffer

Pieces of which no two share a place are all found in the buffer once the last one is written, and everything outside
them is as it was.
-/

namespace Placement

open ByteWord WordPatch

/-- Bytes for an offset. -/
structure Piece where
  off : ℕ
  bytes : List Byte

/-- The places of a piece. -/
def Piece.extent (piece : Piece) : Extent := ⟨piece.off, piece.bytes.length⟩

/-- The pieces are written in their order. -/
def place (pieces : List Piece) (buffer : Buffer) : Buffer :=
  pieces.foldl (fun buffer piece => storeAt buffer piece.off piece.bytes) buffer

section Place

variable {pieces : List Piece} {piece : Piece}

theorem place_outside {i : ℕ} (outside : ∀ piece ∈ pieces, ¬piece.extent.Holds i) (buffer : Buffer) :
    place pieces buffer i = buffer i := by
  induction pieces generalizing buffer with
  | nil => rfl
  | cons piece rest ih =>
    refine (ih (fun other member => outside other (List.mem_cons_of_mem _ member)) _).trans (storeAt_outside buffer ?_)
    have own := outside piece List.mem_cons_self
    rw [Extent.Holds, not_and_or, not_le, not_lt] at own
    exact own

/-- Pieces that follow one another share no place. -/
theorem clear_of_fills {low high : ℕ} (fills : Extent.Fills low high (pieces.map Piece.extent)) :
    pieces.Pairwise fun first second => first.extent.Clear second.extent :=
  (List.pairwise_map.mp fills.ordered).imp fun before => .inl before

/-- Stored bytes are read back. -/
theorem slice_storeAt (buffer : Buffer) (offset : ℕ) (bytes : List Byte) :
    slice (storeAt buffer offset bytes) offset bytes.length = bytes := by
  apply List.ext_getElem
  · rw [length_slice]
  · intro i inside inside'
    rw [getElem_slice, storeAt_add, overlay_of_lt inside']

/-- A piece is found where it was written. -/
theorem slice_place (apart : pieces.Pairwise fun first second => first.extent.Clear second.extent)
    (member : piece ∈ pieces) (buffer : Buffer) :
    slice (place pieces buffer) piece.off piece.bytes.length = piece.bytes := by
  induction pieces generalizing buffer with
  | nil => nomatch member
  | cons first rest ih =>
    obtain ⟨clear, others⟩ := List.pairwise_cons.mp apart
    rcases List.mem_cons.mp member with rfl | later
    · refine Eq.trans ?_ (slice_storeAt buffer piece.off piece.bytes)
      apply List.ext_getElem
      · rw [length_slice, length_slice]
      · intro i inside _
        rw [length_slice] at inside
        rw [getElem_slice, getElem_slice]
        change place rest (storeAt buffer piece.off piece.bytes) (piece.off + i) = _
        refine place_outside (fun other member => ?_) _
        exact (clear other member).apart ⟨Nat.le_add_right _ _, Nat.add_lt_add_left inside _⟩
    · exact ih others later _

/-- Pieces change what they are written over alike. -/
theorem place_congr {first second : Buffer} {i : ℕ} (same : first i = second i) : place pieces first i = place pieces second i := by
  induction pieces generalizing first second with
  | nil => exact same
  | cons piece rest ih =>
    refine ih ?_
    unfold storeAt
    dsimp only
    split
    · rcases Nat.lt_or_ge (i - piece.off) piece.bytes.length with inside | outside
      · rw [List.getD_eq_getElem _ _ inside, List.getD_eq_getElem _ _ inside]
      · rw [List.getD_eq_default _ _ outside, List.getD_eq_default _ _ outside]
        exact same
    · exact same

theorem place_append (pieces others : List Piece) (buffer : Buffer) :
    place (pieces ++ others) buffer = place others (place pieces buffer) := List.foldl_append

/-- Groups of pieces are written one after the other. -/
theorem place_flatMap {α : Type} (group : α → List Piece) (values : List α) (buffer : Buffer) :
    place (values.flatMap group) buffer = values.foldl (fun buffer value => place (group value) buffer) buffer := by
  induction values generalizing buffer with
  | nil => rfl
  | cons value rest ih => rw [List.flatMap_cons, place_append, ih, List.foldl_cons]

/-- A piece is found although it was written more than once, if the other pieces share no place with it. -/
theorem slice_place_of_same (member : piece ∈ pieces)
    (others : ∀ other ∈ pieces, other = piece ∨ ∀ i, piece.extent.Holds i → ¬other.extent.Holds i) (buffer : Buffer) :
    slice (place pieces buffer) piece.off piece.bytes.length = piece.bytes := by
  suffices found : ∀ buffer, piece ∈ pieces ∨ slice buffer piece.off piece.bytes.length = piece.bytes →
      slice (place pieces buffer) piece.off piece.bytes.length = piece.bytes from found buffer (.inl member)
  clear member
  induction pieces with
  | nil => exact fun buffer found => found.elim nofun id
  | cons first rest ih =>
    intro buffer found
    have later := ih (fun other inside => others other (List.mem_cons_of_mem _ inside)) (storeAt buffer first.off first.bytes)
    rcases others first List.mem_cons_self with rfl | apart
    · exact later (.inr (slice_storeAt _ _ _))
    · rcases found with member | there
      · rcases List.mem_cons.mp member with rfl | member
        · exact later (.inr (slice_storeAt _ _ _))
        · exact later (.inl member)
      · refine later (.inr (Eq.trans (slice_congr fun i inside => storeAt_outside buffer ?_) there))
        have outside := apart (piece.off + i) ⟨Nat.le_add_right _ _, Nat.add_lt_add_left inside _⟩
        rw [Extent.Holds, not_and_or, not_le, not_lt] at outside
        exact outside

/-- A word is read from where it was written. -/
theorem rd32_place (apart : pieces.Pairwise fun first second => first.extent.Clear second.extent) {offset : ℕ} {word : Word}
    (member : ⟨offset, le32 word⟩ ∈ pieces) (buffer : Buffer) : rd32 (place pieces buffer) offset = word :=
  rd32_of_slice (slice_place apart member buffer)

end Place

end Placement
