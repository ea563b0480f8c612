import KosTool.Math.RingStore
import KosTool.Model.SerialBlocks

/-! # The work memory of a serial download

The comparison of `serial_recv_data` is one of addresses. The work memory that is asked for is clear of the range exactly if
the comparison sees an overlap, or the memory that the range names does not touch it.
-/

namespace KosTool.Host

open RingArcs

/-- How much memory the addresses of a segment name. -/
abbrev physicalSize : ℕ := 2 ^ 29

/-- The console is asked to use no work memory, or some that shares no byte of memory with the range. -/
def DownloadRequest.Clear (request : DownloadRequest) : Prop :=
  request.wrkmemAddr = 0 ∨ ∀ i < request.size.toNat, ∀ j < lzoWrkmemSize.toNat,
    physical (request.srcAddr + BitVec.ofNat 32 i) ≠ physical (request.wrkmemAddr + BitVec.ofNat 32 j)

/-- The comparison sees an overlap. -/
def SeesOverlap (wrkmemAddr srcAddr size : Word) : Prop := srcAddr < wrkmemAddr + lzoWrkmemSize ∧ wrkmemAddr < srcAddr + size

/-- The range is empty, or, counted from where the work memory starts, it starts behind the work memory and ends before the
memory comes round. -/
def PhysicallyApart (wrkmemAddr srcAddr size : Word) : Prop :=
  size = 0 ∨ (lzoWrkmemSize.toNat ≤ ahead physicalSize srcAddr.toNat wrkmemAddr.toNat ∧
    ahead physicalSize srcAddr.toNat wrkmemAddr.toNat + size.toNat ≤ physicalSize)

theorem toNat_physical (addr : Word) (i : ℕ) :
    (physical (addr + BitVec.ofNat 32 i)).toNat = (addr.toNat + i) % physicalSize := by
  have mask : (0x1fffffff : Word).toNat = 2 ^ 29 - 1 := rfl
  rw [physical, BitVec.toNat_and, mask, Nat.and_two_pow_sub_one_eq_mod, BitVec.toNat_add, BitVec.toNat_ofNat, Nat.add_mod_mod,
    Nat.mod_mod_of_dvd _ (by decide : 2 ^ 29 ∣ 2 ^ 32)]

/-- Addresses that name no common byte are arcs that are apart. -/
theorem physical_apart_iff (wrkmemAddr srcAddr size : Word) :
    (∀ i < size.toNat, ∀ j < lzoWrkmemSize.toNat,
      physical (srcAddr + BitVec.ofNat 32 i) ≠ physical (wrkmemAddr + BitVec.ofNat 32 j)) ↔
    PhysicallyApart wrkmemAddr srcAddr size := by
  have places (i j : ℕ) : physical (srcAddr + BitVec.ofNat 32 i) = physical (wrkmemAddr + BitVec.ofNat 32 j) ↔
      (srcAddr.toNat + i) % physicalSize = (wrkmemAddr.toNat + j) % physicalSize := by
    rw [← BitVec.toNat_inj, toNat_physical, toNat_physical]
  have empty : size.toNat = 0 ↔ size = 0 := by
    rw [← BitVec.toNat_inj]
    rfl
  simp only [ne_eq, places]
  rw [PhysicallyApart, ← empty]
  exact apart_iff (by decide) (by decide)

/-- The work memory is clear exactly if there is none, the comparison sees that the range meets it, or the range does not. -/
theorem scratch_clear_iff (consoleType : ConsoleType) (srcAddr size : Word) :
    (serialRecvData consoleType srcAddr size).Clear ↔ lzoWrkmemAddr consoleType = 0 ∨
      SeesOverlap (lzoWrkmemAddr consoleType) srcAddr size ∨ PhysicallyApart (lzoWrkmemAddr consoleType) srcAddr size := by
  rw [DownloadRequest.Clear, serialRecvData, SeesOverlap]
  dsimp only
  by_cases sees : srcAddr < lzoWrkmemAddr consoleType + lzoWrkmemSize ∧ lzoWrkmemAddr consoleType < srcAddr + size
  · rw [if_pos sees]
    exact iff_of_true (.inl rfl) (.inr (.inl sees))
  · rw [if_neg sees, physical_apart_iff, or_iff_right sees]

/-- The work memory of the Dreamcast, read through the segment that is not cached. -/
theorem scratch_overlaps_uncached : ¬(serialRecvData .dc 0xacff0000 0x1000).Clear := by
  rintro (none | apart)
  · exact absurd none (by decide)
  · exact apart 0 (by decide) 0 (by decide) (by decide)

end KosTool.Host
