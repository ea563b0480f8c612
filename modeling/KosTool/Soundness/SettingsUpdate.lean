import KosTool.Model.Dreamcast.Flashrom

/-! # The date update stays in its slot

The slots are numbered from the block behind the magic one, but as many are tried as the partition has blocks: the last two lie
on the bitmap and behind the partition. Where the first unused slot lies before the bitmap, the update touches one byte of the
bitmap and that slot, and the scan then finds the settings that it found before, or those with the new date.
-/

namespace KosTool.Dreamcast

open ByteWord BitTable

section Definitions

variable (bios : FlashBios) (flash : Buffer)

/-- The scan takes a slot for one with settings. -/
def IsSettings (part : Partition) (bitmap : List Byte) (slot : ℕ) : Prop :=
  bit bitmap slot = false ∧ bios.reads (part.slotPos slot) = true ∧ isSyscfg (readSlot flash part slot) = true

/-- The newest block of settings that the scan finds. -/
def FlashBios.newest : Option (List Byte) :=
  bios.info.bind fun part => (bios.bitmap flash part).bind fun bitmap =>
    (scanSyscfg bios flash part bitmap (part.numBlocks - 1)).map (readSlot flash part)

/-- The block of a slot lies before the bitmap. -/
def Partition.Fits (part : Partition) (slot : ℕ) : Prop := part.slotPos slot + flashromBlockSize ≤ part.bitmapPos

instance (part : Partition) (slot : ℕ) : Decidable (part.Fits slot) := inferInstanceAs (Decidable (_ ≤ _))

/-- All writes go to one unused slot: they clear its bit in a byte of the bitmap, or fill its block, which lies between the magic
block and the bitmap. -/
def Confined (writes : List FlashStore) : Prop :=
  writes = [] ∨ ∃ part bitmap slot, bios.info = some part ∧ bios.bitmap flash part = some bitmap ∧
    slot < part.numBlocks ∧ bit bitmap slot = true ∧ ∀ write ∈ writes,
      (write.pos = part.bitmapPos + slot / 8 ∧ write.pos < part.start + part.size ∧ write.data = [cleared bitmap slot]) ∨
      (write.pos = part.slotPos slot ∧ write.data.length = flashromBlockSize ∧
        part.start + flashromBlockSize ≤ write.pos ∧ write.pos + flashromBlockSize ≤ part.bitmapPos)

/-- Nothing changes but where it is written. -/
def Touches (after : Buffer) (writes : List FlashStore) : Prop :=
  ∀ a, after a ≠ flash a → ∃ write ∈ writes, write.pos ≤ a ∧ a < write.pos + write.data.length

/-- The newest settings are the ones from before, or those with the new date. -/
def Kept (after : Buffer) (aicaTime : Word) : Prop :=
  bios.newest after = bios.newest flash ∨
    ∃ old, bios.newest flash = some old ∧ bios.newest after = some (redate old aicaTime)

/-- The flash with the bit of a slot cleared, and its bitmap. -/
def clearBit (part : Partition) (bitmap : List Byte) (slot : ℕ) : Buffer :=
  Function.update flash (part.bitmapPos + slot / 8) (cleared bitmap slot)
def clearedBitmap (bitmap : List Byte) (slot : ℕ) : List Byte := bitmap.set (slot / 8) (cleared bitmap slot)

/-- The bitmap, with or without the bit of the first unused slot, is not itself taken for settings, and neither is what lies
behind it. -/
def Regular : Prop := ∀ part bitmap, bios.info = some part → bios.bitmap flash part = some bitmap →
  ∀ other < part.numBlocks, ¬part.Fits other → ¬IsSettings bios flash part bitmap other ∧
    ∀ slot, freeSlot part bitmap = some slot →
      ¬IsSettings bios (clearBit flash part bitmap slot) part (clearedBitmap bitmap slot) other

/-- What the writes leave in the block of the slot: its old bytes, and the new ones that have been programmed. -/
def leftover (part : Partition) (slot : ℕ) (block : List Byte) (marking storing : FlashWrite) : List Byte :=
  (List.range flashromBlockSize).map fun k =>
    if 0 ≤ marking.rc ∧ storing.programmed k = true then bios.program (flash (part.slotPos slot + k)) (block.getD k 0)
    else flash (part.slotPos slot + k)

/-- If the update comes to its writes, the slot lies before the bitmap once its bit is cleared, and what is left in it does not
pass for newer settings that are neither the old ones nor those with the new date. -/
def Safe (aicaTime : Word) (marking storing : FlashWrite) : Prop := ∀ part bitmap found slot,
  bios.info = some part → bios.bitmap flash part = some bitmap →
  scanSyscfg bios flash part bitmap (part.numBlocks - 1) = some found → freeSlot part bitmap = some slot →
  (0 ≤ marking.rc → part.Fits slot) ∧
    (part.Fits slot → found < slot → marking.programmed 0 = true → bios.reads (part.slotPos slot) = true →
      isSyscfg (leftover bios flash part slot (redate (readSlot flash part found) aicaTime) marking storing) = true →
      leftover bios flash part slot (redate (readSlot flash part found) aicaTime) marking storing ∈
        [readSlot flash part found, redate (readSlot flash part found) aicaTime])

end Definitions

section Scan

variable {bios : FlashBios} {flash : Buffer} {part : Partition} {bitmap : List Byte} {slot last : ℕ}

theorem scanSyscfg_succ : scanSyscfg bios flash part bitmap (last + 1) = some slot ↔
    (IsSettings bios flash part bitmap (last + 1) ∧ slot = last + 1) ∨
      (¬IsSettings bios flash part bitmap (last + 1) ∧ scanSyscfg bios flash part bitmap last = some slot) := by
  rw [scanSyscfg, IsSettings]
  split_ifs with used reads settings
  · simp [used]
  · simp [reads]
  · simp [settings]
  · simp [used, reads, settings, eq_comm]

/-- The scan finds the last slot with settings. -/
theorem scanSyscfg_eq_some_iff : scanSyscfg bios flash part bitmap last = some slot ↔
    (1 ≤ slot ∧ slot ≤ last) ∧ IsSettings bios flash part bitmap slot ∧
      ∀ later, slot < later → later ≤ last → ¬IsSettings bios flash part bitmap later := by
  induction last with
  | zero =>
    rw [scanSyscfg]
    constructor
    · rintro ⟨⟩
    · rintro ⟨range, -⟩
      omega
  | succ last ih =>
    rw [scanSyscfg_succ, ih]
    constructor
    · rintro (⟨here, rfl⟩ | ⟨not_here, range, settings, later⟩)
      · exact ⟨⟨by omega, le_rfl⟩, here, fun later above below => by omega⟩
      · refine ⟨⟨range.1, by omega⟩, settings, fun other above below => ?_⟩
        rcases Nat.eq_or_lt_of_le below with rfl | inside
        · exact not_here
        · exact later other above (by omega)
    · rintro ⟨range, settings, later⟩
      by_cases here : slot = last + 1
      · left
        exact ⟨here ▸ settings, here⟩
      · right
        exact ⟨later _ (by omega) le_rfl, ⟨range.1, by omega⟩, settings, fun other above below => later other above (by omega)⟩

theorem freeSlot_spec (free : freeSlot part bitmap = some slot) : 1 ≤ slot ∧ slot < part.numBlocks ∧ bit bitmap slot = true := by
  have inside := List.mem_of_find?_eq_some free
  rw [List.mem_range'] at inside
  obtain ⟨i, range, rfl⟩ := inside
  exact ⟨by omega, by omega, List.find?_some free⟩

/-- A partition whose bitmap is read has 2 to 512 blocks, and a bitmap of 64 bytes at its end. -/
theorem bitmap_spec (bits : bios.bitmap flash part = some bitmap) : 128 ≤ part.size ∧ part.numBlocks ≤ 512 ∧ part.bmcnt = 64 ∧
    bios.reads part.bitmapPos = true ∧ bitmap = slice flash part.bitmapPos 64 := by
  rw [FlashBios.bitmap] at bits
  split_ifs at bits with small large reads
  cases bits
  change ¬part.size < 128 at small
  change ¬64 < part.bmcnt at large
  have bmcnt : part.bmcnt = (part.numBlocks + 511) / 512 * 512 / 8 := rfl
  have blocks : part.numBlocks = part.size / 64 := rfl
  have exact : part.bmcnt = 64 := by omega
  rw [exact]
  exact ⟨by omega, by omega, rfl, Bool.eq_true_of_not_eq_false reads, rfl⟩

end Scan

section After

variable {bios : FlashBios} {flash after : Buffer} {part : Partition} {bitmap later left : List Byte} {found slot : ℕ}
  {aicaTime : Word}

/-- What the scan finds behind an update that changes the settings of one slot only, one that is above the old settings if its
block passes for settings. -/
theorem kept_iff (info : bios.info = some part) (bits : bios.bitmap flash part = some bitmap)
    (bits' : bios.bitmap after part = some later)
    (scan : scanSyscfg bios flash part bitmap (part.numBlocks - 1) = some found)
    (free : 1 ≤ slot ∧ slot < part.numBlocks ∧ bit bitmap slot = true)
    (others : ∀ other < part.numBlocks, other ≠ slot →
      (IsSettings bios after part later other ↔ IsSettings bios flash part bitmap other) ∧
      (IsSettings bios flash part bitmap other → readSlot after part other = readSlot flash part other))
    {passes : Prop} (there : IsSettings bios after part later slot ↔ passes) (here : passes → readSlot after part slot = left) :
    Kept bios flash after aicaTime ↔
      (passes → found < slot → left ∈ [readSlot flash part found, redate (readSlot flash part found) aicaTime]) := by
  obtain ⟨⟨first, last⟩, settings, newer⟩ := scanSyscfg_eq_some_iff.mp scan
  have apart : found ≠ slot := by
    rintro rfl
    exact Bool.false_ne_true (settings.1.symm.trans free.2.2)
  have before : bios.newest flash = some (readSlot flash part found) := by
    rw [FlashBios.newest, info, Option.bind_some, bits, Option.bind_some, scan, Option.map_some]
  by_cases above : passes ∧ found < slot
  · have rescan : scanSyscfg bios after part later (part.numBlocks - 1) = some slot := by
      refine scanSyscfg_eq_some_iff.mpr ⟨⟨free.1, by omega⟩, there.mpr above.1, fun other above' below => ?_⟩
      rw [(others other (by omega) (by omega)).1]
      exact newer other (by omega) below
    have now : bios.newest after = some left := by
      rw [FlashBios.newest, info, Option.bind_some, bits', Option.bind_some, rescan, Option.map_some, here above.1]
    rw [Kept, before, now, List.mem_pair]
    simp only [Option.some.injEq, exists_eq_left']
    exact ⟨fun kept _ _ => kept, fun kept => kept above.1 above.2⟩
  · have rescan : scanSyscfg bios after part later (part.numBlocks - 1) = some found := by
      refine scanSyscfg_eq_some_iff.mpr ⟨⟨first, last⟩, (others found (by omega) apart).1.mpr settings, fun other above' below => ?_⟩
      by_cases same : other = slot
      · rw [same, there]
        exact fun passing => above ⟨passing, same ▸ above'⟩
      · rw [(others other (by omega) same).1]
        exact newer other above' below
    have now : bios.newest after = bios.newest flash := by
      rw [before, FlashBios.newest, info, Option.bind_some, bits', Option.bind_some, rescan, Option.map_some,
        (others found (by omega) apart).2 settings]
    exact iff_of_true (Or.inl now) fun passing greater => absurd ⟨passing, greater⟩ above

end After

section Writes

variable {bios : FlashBios} {flash : Buffer} {part : Partition} {bitmap : List Byte} {slot other : ℕ} {aicaTime : Word}
  {marking storing : FlashWrite}

theorem write_outside {pos : ℕ} {data : List Byte} {done : FlashWrite} {a : ℕ} (outside : ¬(pos ≤ a ∧ a < pos + data.length)) :
    bios.write flash pos data done a = flash a := by
  rw [FlashBios.write, if_neg fun inside => outside ⟨inside.1, inside.2.1⟩]

/-- The byte of a slot lies in the bitmap. -/
theorem mark_inside (bits : bios.bitmap flash part = some bitmap) (range : slot < part.numBlocks) :
    part.bitmapPos + slot / 8 < part.start + part.size ∧ slot / 8 < 64 ∧ part.bitmapPos + 64 = part.start + part.size := by
  obtain ⟨size, blocks, bmcnt, -⟩ := bitmap_spec bits
  have pos : part.bitmapPos = part.start + part.size - part.bmcnt := rfl
  omega

/-- The marking write clears the bit of the slot, or does nothing. -/
theorem write_mark (bits : bios.bitmap flash part = some bitmap) (range : slot < part.numBlocks) :
    bios.write flash (part.mark bitmap slot).pos (part.mark bitmap slot).data marking =
      if marking.programmed 0 = true then clearBit flash part bitmap slot else flash := by
  obtain ⟨-, -, -, -, bitmap_eq⟩ := bitmap_spec bits
  obtain ⟨-, inside, -⟩ := mark_inside bits range
  have byte : flash (part.bitmapPos + slot / 8) = bitmap.getD (slot / 8) 0 := by
    rw [bitmap_eq, getD_slice _ _ inside]
  funext a
  rw [FlashBios.write, Partition.mark]
  simp only [List.length_singleton]
  by_cases here : a = part.bitmapPos + slot / 8
  · subst here
    simp only [le_refl, Nat.lt_succ_self, true_and, Nat.sub_self, List.getD_cons_zero, byte]
    split_ifs
    · rw [clearBit, Function.update_self, cleared, bios.clears]
    · rw [byte]
  · rw [if_neg (by omega)]
    split_ifs
    · rw [clearBit, Function.update_of_ne here]
    · rfl

/-- The flash with a bit cleared has a bitmap with that bit cleared. -/
theorem bitmap_clearBit (bits : bios.bitmap flash part = some bitmap) (range : slot < part.numBlocks) :
    bios.bitmap (clearBit flash part bitmap slot) part = some (clearedBitmap bitmap slot) := by
  obtain ⟨size, -, bmcnt, reads, bitmap_eq⟩ := bitmap_spec bits
  obtain ⟨-, inside, -⟩ := mark_inside bits range
  rw [FlashBios.bitmap, if_neg (by change ¬_ < 128; omega), if_neg (by rw [bmcnt]; decide), if_neg (by rw [reads]; decide), bmcnt,
    clearedBitmap, Option.some.injEq]
  apply List.ext_getElem
  · rw [length_slice, List.length_set, bitmap_eq, length_slice]
  · intro k left right
    rw [getElem_slice, List.getElem_set, clearBit]
    split_ifs with here
    · rw [here, Function.update_self]
    · rw [Function.update_of_ne (by omega)]
      simp only [bitmap_eq, getElem_slice]

/-- Only the bit of the slot is cleared. -/
theorem bit_clearedBitmap (bits : bios.bitmap flash part = some bitmap) (range : slot < part.numBlocks) :
    bit (clearedBitmap bitmap slot) other = (bit bitmap other && decide (other ≠ slot)) := by
  obtain ⟨-, -, -, -, bitmap_eq⟩ := bitmap_spec bits
  obtain ⟨-, inside, -⟩ := mark_inside bits range
  have length : bitmap.length = 64 := by rw [bitmap_eq, length_slice]
  apply bit_of_cleared
  · rw [clearedBitmap, List.getD_eq_getElem?_getD, List.getElem?_set_self (by omega), Option.getD_some]
  · intro k elsewhere
    rw [clearedBitmap, List.getD_eq_getElem?_getD, List.getElem?_set_ne (Ne.symm elsewhere), List.getD_eq_getElem?_getD]

/-- The block of a slot before the bitmap is not changed with it. -/
theorem readSlot_clearBit (fits : part.Fits other) :
    readSlot (clearBit flash part bitmap slot) part other = readSlot flash part other := by
  rw [Partition.Fits] at fits
  apply slice_congr
  intro i inside
  rw [clearBit, Function.update_of_ne (by omega)]

/-- The blocks of two slots are apart. -/
theorem slotPos_apart (differ : other ≠ slot) :
    part.slotPos other + 64 ≤ part.slotPos slot ∨ part.slotPos slot + 64 ≤ part.slotPos other := by
  change part.start + (other + 1) * 64 + 64 ≤ part.start + (slot + 1) * 64 ∨
    part.start + (slot + 1) * 64 + 64 ≤ part.start + (other + 1) * 64
  omega

theorem length_redate (block : List Byte) (aicaTime : Word) : (redate block aicaTime).length = block.length := by
  simp only [redate, List.length_set]

/-- A write of the block of a slot changes no other slot. -/
theorem readSlot_write {block : List Byte} (full : block.length = 64) (differ : other ≠ slot) :
    readSlot (bios.write flash (part.slotPos slot) block storing) part other = readSlot flash part other := by
  have apart := @slotPos_apart part slot other differ
  apply slice_congr
  intro i inside
  apply write_outside
  rw [full]
  change i < 64 at inside
  omega

/-- A write of a block before the bitmap leaves the bitmap. -/
theorem bitmap_write {block : List Byte} (full : block.length = 64) (bits : bios.bitmap flash part = some bitmap)
    (fits : part.Fits slot) : bios.bitmap (bios.write flash (part.slotPos slot) block storing) part = some bitmap := by
  obtain ⟨size, -, bmcnt, reads, bitmap_eq⟩ := bitmap_spec bits
  change part.slotPos slot + 64 ≤ part.bitmapPos at fits
  rw [FlashBios.bitmap, if_neg (by change ¬_ < 128; omega), if_neg (by rw [bmcnt]; decide), if_neg (by rw [reads]; decide), bmcnt,
    bitmap_eq, Option.some.injEq]
  apply slice_congr
  intro i inside
  apply write_outside
  rw [full]
  omega

/-- What the writes leave in the slot. -/
theorem readSlot_stored {block : List Byte} (fits : part.Fits slot) (full : block.length = 64) (marked : 0 ≤ marking.rc) :
    readSlot (bios.write (clearBit flash part bitmap slot) (part.slotPos slot) block storing) part slot =
      leftover bios flash part slot block marking storing := by
  change part.slotPos slot + 64 ≤ part.bitmapPos at fits
  apply List.map_congr_left
  intro k inside
  rw [List.mem_range] at inside
  change k < 64 at inside
  have stale : clearBit flash part bitmap slot (part.slotPos slot + k) = flash (part.slotPos slot + k) := by
    rw [clearBit, Function.update_of_ne (by omega)]
  rw [FlashBios.write, stale, full, Nat.add_sub_cancel_left]
  by_cases programmed : storing.programmed k = true
  · rw [if_pos ⟨by omega, by omega, programmed⟩, if_pos ⟨marked, programmed⟩]
  · rw [if_neg fun inside => programmed inside.2.2, if_neg fun inside => programmed inside.2]

theorem leftover_stale {block : List Byte} (refused : marking.rc < 0) :
    leftover bios flash part slot block marking storing = readSlot flash part slot := by
  rw [leftover, readSlot, slice]
  apply List.map_congr_left
  intro k _
  rw [if_neg fun marked => absurd marked.1 (by omega)]

end Writes

section Update

variable {bios : FlashBios} {flash : Buffer} {part : Partition} {bitmap : List Byte} {found slot : ℕ} {aicaTime : Word}
  {marking storing : FlashWrite}

/-- An update that comes to its writes. -/
theorem updateFlashromSyscfg_eq (info : bios.info = some part) (bits : bios.bitmap flash part = some bitmap)
    (scan : scanSyscfg bios flash part bitmap (part.numBlocks - 1) = some found) (free : freeSlot part bitmap = some slot) :
    updateFlashromSyscfg bios flash aicaTime marking storing =
      if marking.rc < 0 then
        (if marking.programmed 0 = true then clearBit flash part bitmap slot else flash, [part.mark bitmap slot])
      else (bios.write (clearBit flash part bitmap slot) (part.slotPos slot) (redate (readSlot flash part found) aicaTime) storing,
        [part.mark bitmap slot, part.store slot (redate (readSlot flash part found) aicaTime)]) := by
  have range := (freeSlot_spec free).2.1
  rw [updateFlashromSyscfg, info]
  simp only [bits, scan, free, write_mark bits range]
  split_ifs with refused cleared cleared
  · rfl
  · rfl
  · rfl
  · exact absurd (marking.done (by omega) 0) cleared

/-- An update that does not come to its writes leaves the flash. -/
theorem updateFlashromSyscfg_of_none (idle : ∀ part bitmap found slot, bios.info = some part →
    bios.bitmap flash part = some bitmap → scanSyscfg bios flash part bitmap (part.numBlocks - 1) = some found →
    freeSlot part bitmap ≠ some slot) : updateFlashromSyscfg bios flash aicaTime marking storing = (flash, []) := by
  rw [updateFlashromSyscfg]
  cases info : bios.info with
  | none => rfl
  | some part =>
    dsimp only
    cases bits : bios.bitmap flash part with
    | none => rfl
    | some bitmap =>
      dsimp only
      cases scan : scanSyscfg bios flash part bitmap (part.numBlocks - 1) with
      | none => rfl
      | some found =>
        dsimp only
        cases free : freeSlot part bitmap with
        | none => rfl
        | some slot => exact absurd free (idle part bitmap found slot info bits scan)

/-- The writes are confined exactly if a block that is written fits. -/
theorem confined_iff (info : bios.info = some part) (bits : bios.bitmap flash part = some bitmap)
    (scan : scanSyscfg bios flash part bitmap (part.numBlocks - 1) = some found) (free : freeSlot part bitmap = some slot) :
    Confined bios flash (updateFlashromSyscfg bios flash aicaTime marking storing).2 ↔ (0 ≤ marking.rc → part.Fits slot) := by
  obtain ⟨first, range, unused⟩ := freeSlot_spec free
  obtain ⟨-, -, -, -, bitmap_eq⟩ := bitmap_spec bits
  have full : (redate (readSlot flash part found) aicaTime).length = 64 := by rw [length_redate, readSlot, length_slice]
  have inside := (mark_inside bits range).1
  rw [updateFlashromSyscfg_eq info bits scan free]
  by_cases refused : marking.rc < 0
  · rw [if_pos refused]
    refine iff_of_true (Or.inr ⟨part, bitmap, slot, info, bits, range, unused, fun write among => ?_⟩)
      fun marked => absurd refused (by omega)
    rw [List.mem_singleton.mp among]
    exact Or.inl ⟨rfl, inside, rfl⟩
  · rw [if_neg refused]
    have marked : 0 ≤ marking.rc := by omega
    constructor
    · rintro (nothing | ⟨part', bitmap', slot', info', bits', -, -, all⟩) -
      · cases nothing
      · rw [info, Option.some.injEq] at info'
        subst info'
        rcases all _ (List.mem_cons_of_mem _ List.mem_cons_self) with ⟨-, -, one⟩ | ⟨-, -, -, fits⟩
        · have length := congrArg List.length one
          change (redate (readSlot flash part found) aicaTime).length = 1 at length
          omega
        · exact fits
    · intro fits
      refine Or.inr ⟨part, bitmap, slot, info, bits, range, unused, fun write among => ?_⟩
      rcases List.mem_pair.mp among with rfl | rfl
      · exact Or.inl ⟨rfl, inside, rfl⟩
      · refine Or.inr ⟨rfl, full, ?_, fits marked⟩
        change part.start + 64 ≤ part.start + (slot + 1) * 64
        omega

/-- Nothing changes but where it is written. -/
theorem touches_update : Touches flash (updateFlashromSyscfg bios flash aicaTime marking storing).1
    (updateFlashromSyscfg bios flash aicaTime marking storing).2 := by
  by_cases idle : ∀ part bitmap found slot, bios.info = some part → bios.bitmap flash part = some bitmap →
      scanSyscfg bios flash part bitmap (part.numBlocks - 1) = some found → freeSlot part bitmap ≠ some slot
  · rw [updateFlashromSyscfg_of_none idle]
    exact fun a changed => absurd rfl changed
  · push Not at idle
    obtain ⟨part, bitmap, found, slot, info, bits, scan, free⟩ := idle
    have cleared {a : ℕ} (changed : clearBit flash part bitmap slot a ≠ flash a) : a = part.bitmapPos + slot / 8 := by
      by_contra elsewhere
      exact changed (Function.update_of_ne elsewhere _ _)
    rw [updateFlashromSyscfg_eq info bits scan free]
    split_ifs with refused marks
    · intro a changed
      refine ⟨_, List.mem_singleton.mpr rfl, ?_⟩
      rw [cleared changed]
      exact ⟨le_rfl, Nat.lt_succ_self _⟩
    · exact fun a changed => absurd rfl changed
    · intro a changed
      by_cases stored : part.slotPos slot ≤ a ∧ a < part.slotPos slot + (redate (readSlot flash part found) aicaTime).length
      · exact ⟨_, List.mem_cons_of_mem _ List.mem_cons_self, stored⟩
      · dsimp only at changed
        rw [write_outside stored] at changed
        refine ⟨_, List.mem_cons_self, ?_⟩
        rw [cleared changed]
        exact ⟨le_rfl, Nat.lt_succ_self _⟩

/-- What the settings are behind an update that clears the bit of a slot. -/
theorem isSettings_clearBit (bits : bios.bitmap flash part = some bitmap) (range : slot < part.numBlocks) {other : ℕ}
    (differ : other ≠ slot) (fits : part.Fits other) :
    IsSettings bios (clearBit flash part bitmap slot) part (clearedBitmap bitmap slot) other ↔
      IsSettings bios flash part bitmap other := by
  rw [IsSettings, IsSettings, bit_clearedBitmap bits range, readSlot_clearBit fits, decide_eq_true differ, Bool.and_true]

/-- The update keeps the settings exactly if it is safe, where its block fits and the bitmap is not taken for settings. -/
theorem kept_update_iff (regular : Regular bios flash) (info : bios.info = some part) (bits : bios.bitmap flash part = some bitmap)
    (scan : scanSyscfg bios flash part bitmap (part.numBlocks - 1) = some found) (free : freeSlot part bitmap = some slot)
    (fits : 0 ≤ marking.rc → part.Fits slot) :
    Kept bios flash (updateFlashromSyscfg bios flash aicaTime marking storing).1 aicaTime ↔
      (part.Fits slot → found < slot → marking.programmed 0 = true → bios.reads (part.slotPos slot) = true →
        isSyscfg (leftover bios flash part slot (redate (readSlot flash part found) aicaTime) marking storing) = true →
        leftover bios flash part slot (redate (readSlot flash part found) aicaTime) marking storing ∈
          [readSlot flash part found, redate (readSlot flash part found) aicaTime]) := by
  have spec := freeSlot_spec free
  have range := spec.2.1
  have full : (redate (readSlot flash part found) aicaTime).length = 64 := by rw [length_redate, readSlot, length_slice]
  have gone : bit (clearedBitmap bitmap slot) slot = false := by
    rw [bit_clearedBitmap bits range, decide_eq_false (not_not_intro rfl), Bool.and_false]
  have irregular (other : ℕ) (below : other < part.numBlocks) (apart : ¬part.Fits other) :=
    regular part bitmap info bits other below apart
  have others_cleared (other : ℕ) (below : other < part.numBlocks) (differ : other ≠ slot) :
      (IsSettings bios (clearBit flash part bitmap slot) part (clearedBitmap bitmap slot) other ↔
        IsSettings bios flash part bitmap other) ∧
      (IsSettings bios flash part bitmap other →
        readSlot (clearBit flash part bitmap slot) part other = readSlot flash part other) := by
    by_cases inside : part.Fits other
    · exact ⟨isSettings_clearBit bits range differ inside, fun _ => readSlot_clearBit inside⟩
    · obtain ⟨before, behind⟩ := irregular other below inside
      exact ⟨iff_of_false (behind slot free) before, fun settings => absurd settings before⟩
  rw [updateFlashromSyscfg_eq info bits scan free]
  split_ifs with refused marks
  · -- the bit is cleared, and the block of the slot is the old one
    have keeps : Kept bios flash (clearBit flash part bitmap slot) aicaTime ↔ (part.Fits slot ∧
        bios.reads (part.slotPos slot) = true ∧ isSyscfg (readSlot flash part slot) = true → found < slot →
        readSlot flash part slot ∈ [readSlot flash part found, redate (readSlot flash part found) aicaTime]) := by
      apply kept_iff info bits (bitmap_clearBit bits range) scan spec
      · exact others_cleared
      · by_cases inside : part.Fits slot
        · rw [IsSettings, readSlot_clearBit inside]
          exact ⟨fun settings => ⟨inside, settings.2⟩, fun passing => ⟨gone, passing.2⟩⟩
        · exact iff_of_false ((irregular slot range inside).2 slot free) fun passing => inside passing.1
      · exact fun passing => readSlot_clearBit passing.1
    rw [leftover_stale refused]
    exact keeps.trans ⟨fun kept inside above _ reads settings => kept ⟨inside, reads, settings⟩ above,
      fun kept passing above => kept passing.1 above marks passing.2.1 passing.2.2⟩
  · exact iff_of_true (Or.inl rfl) fun _ _ cleared => absurd cleared marks
  · -- both writes have been begun
    have marked : 0 ≤ marking.rc := by omega
    have inside := fits marked
    dsimp only
    have keeps : Kept bios flash (bios.write (clearBit flash part bitmap slot) (part.slotPos slot)
        (redate (readSlot flash part found) aicaTime) storing) aicaTime ↔ (bios.reads (part.slotPos slot) = true ∧
          isSyscfg (leftover bios flash part slot (redate (readSlot flash part found) aicaTime) marking storing) = true →
        found < slot → leftover bios flash part slot (redate (readSlot flash part found) aicaTime) marking storing ∈
          [readSlot flash part found, redate (readSlot flash part found) aicaTime]) := by
      apply kept_iff info bits (bitmap_write full (bitmap_clearBit bits range) inside) scan spec
      · intro other below differ
        have same : IsSettings bios (bios.write (clearBit flash part bitmap slot) (part.slotPos slot)
            (redate (readSlot flash part found) aicaTime) storing) part (clearedBitmap bitmap slot) other ↔
            IsSettings bios (clearBit flash part bitmap slot) part (clearedBitmap bitmap slot) other := by
          rw [IsSettings, IsSettings, readSlot_write full differ]
        rw [same, readSlot_write full differ]
        exact others_cleared other below differ
      · rw [IsSettings, readSlot_stored inside full marked]
        exact ⟨fun settings => settings.2, fun passing => ⟨gone, passing⟩⟩
      · exact fun _ => readSlot_stored inside full marked
    exact keeps.trans ⟨fun kept _ above _ reads settings => kept ⟨reads, settings⟩ above,
      fun kept passing above => kept inside above (marking.done marked 0) passing.1 passing.2⟩

end Update

/-- The update stays in one unused slot and its bit and keeps the settings exactly if it is safe, in a flash whose bitmap is not
itself taken for settings. -/
theorem flash_update_safe_iff {bios : FlashBios} {flash : Buffer} (regular : Regular bios flash) (aicaTime : Word)
    (marking storing : FlashWrite) :
    (Confined bios flash (updateFlashromSyscfg bios flash aicaTime marking storing).2 ∧
      Touches flash (updateFlashromSyscfg bios flash aicaTime marking storing).1
        (updateFlashromSyscfg bios flash aicaTime marking storing).2 ∧
      Kept bios flash (updateFlashromSyscfg bios flash aicaTime marking storing).1 aicaTime) ↔
      Safe bios flash aicaTime marking storing := by
  by_cases idle : ∀ part bitmap found slot, bios.info = some part → bios.bitmap flash part = some bitmap →
      scanSyscfg bios flash part bitmap (part.numBlocks - 1) = some found → freeSlot part bitmap ≠ some slot
  · refine iff_of_true ?_ fun part bitmap found slot info bits scan free => absurd free (idle part bitmap found slot info bits scan)
    have touches := @touches_update bios flash aicaTime marking storing
    rw [updateFlashromSyscfg_of_none idle] at touches ⊢
    exact ⟨Or.inl rfl, touches, Or.inl rfl⟩
  · push Not at idle
    obtain ⟨part, bitmap, found, slot, info, bits, scan, free⟩ := idle
    constructor
    · rintro ⟨confined, -, kept⟩ part' bitmap' found' slot' info' bits' scan' free'
      rw [info, Option.some.injEq] at info'
      subst info'
      rw [bits, Option.some.injEq] at bits'
      subst bits'
      rw [scan, Option.some.injEq] at scan'
      rw [free, Option.some.injEq] at free'
      subst scan' free'
      have fits := (confined_iff info bits scan free).mp confined
      exact ⟨fits, (kept_update_iff regular info bits scan free fits).mp kept⟩
    · intro safe
      obtain ⟨fits, keeps⟩ := safe part bitmap found slot info bits scan free
      exact ⟨(confined_iff info bits scan free).mpr fits, touches_update,
        (kept_update_iff regular info bits scan free fits).mpr keeps⟩

/-- A flash whose programming clears bits. -/
def norBios (part : Partition) : FlashBios where
  info := some part
  reads _ := true
  program := (· &&& ·)
  clears stale mask := by rw [← BitVec.and_assoc, BitVec.and_self]

/-- A write that succeeds. -/
def fullWrite : FlashWrite where
  rc := 1
  programmed _ := true
  done _ _ := rfl

/-- Settings without anything in them in the slot of a block, a bitmap, and erased blocks elsewhere. -/
def settingsFlash (block bitmapPos : ℕ) (bitmap : ℕ → Byte) : Buffer := fun a =>
  if bitmapPos ≤ a then bitmap (a - bitmapPos)
  else if a / 64 = block then
    if a % 64 = 0 then 5 else if a % 64 = 62 then 0xA9 else if a % 64 = 63 then 0xB2 else 0
  else 0xFF

/-- In a partition of five blocks, slot 1 holds the settings and slot 2 is unused. -/
def smallFlash : Buffer := settingsFlash 2 256 fun i => if i = 0 then 0x3F else 0xFF

theorem flash_update_safe_small :
    Confined (norBios ⟨0, 320⟩) smallFlash (updateFlashromSyscfg (norBios ⟨0, 320⟩) smallFlash 0x12345678 fullWrite fullWrite).2 ∧
      Touches smallFlash (updateFlashromSyscfg (norBios ⟨0, 320⟩) smallFlash 0x12345678 fullWrite fullWrite).1
        (updateFlashromSyscfg (norBios ⟨0, 320⟩) smallFlash 0x12345678 fullWrite fullWrite).2 ∧
      Kept (norBios ⟨0, 320⟩) smallFlash
        (updateFlashromSyscfg (norBios ⟨0, 320⟩) smallFlash 0x12345678 fullWrite fullWrite).1 0x12345678 := by
  have read : (norBios ⟨0, 320⟩).bitmap smallFlash ⟨0, 320⟩ = some (0x3F :: List.replicate 63 0xFF) := by decide
  have free : freeSlot ⟨0, 320⟩ (0x3F :: List.replicate 63 0xFF) = some 2 := by decide
  have scan : scanSyscfg (norBios ⟨0, 320⟩) smallFlash ⟨0, 320⟩ (0x3F :: List.replicate 63 0xFF) 4 = some 1 := by decide +kernel
  refine (flash_update_safe_iff ?_ 0x12345678 fullWrite fullWrite).mpr ?_
  · rintro part bitmap ⟨⟩ bits
    rw [read, Option.some.injEq] at bits
    subst bits
    have unused : ∀ other < 5, ¬Partition.Fits ⟨0, 320⟩ other → bit (0x3F :: List.replicate 63 0xFF) other = true ∧
        bit (clearedBitmap (0x3F :: List.replicate 63 0xFF) 2) other = true := by decide
    intro other below apart
    obtain ⟨before, behind⟩ := unused other below apart
    refine ⟨fun settings => Bool.false_ne_true (settings.1.symm.trans before), fun slot free' => ?_⟩
    rw [free, Option.some.injEq] at free'
    subst free'
    exact fun settings => Bool.false_ne_true (settings.1.symm.trans behind)
  · rintro part bitmap found slot ⟨⟩ bits scan' free'
    rw [read, Option.some.injEq] at bits
    subst bits
    rw [free, Option.some.injEq] at free'
    subst free'
    change scanSyscfg (norBios ⟨0, 320⟩) smallFlash ⟨0, 320⟩ (0x3F :: List.replicate 63 0xFF) 4 = some found at scan'
    rw [scan, Option.some.injEq] at scan'
    subst scan'
    refine ⟨fun _ => by decide, fun _ _ _ _ _ => ?_⟩
    decide +kernel

/-- In a partition of 16 KB, the slots before the bitmap are used and the newest settings are in the last of them. -/
def fullFlash : Buffer := settingsFlash 254 16320 fun i => if i < 31 then 0 else if i = 31 then 0x03 else 0xFF

/-- The update of the full partition goes to the bitmap. -/
theorem flash_update_hits_bitmap : ¬∀ (bios : FlashBios) (flash : Buffer) (aicaTime : Word) (marking storing : FlashWrite),
    Confined bios flash (updateFlashromSyscfg bios flash aicaTime marking storing).2 ∧
      Touches flash (updateFlashromSyscfg bios flash aicaTime marking storing).1
        (updateFlashromSyscfg bios flash aicaTime marking storing).2 ∧
      Kept bios flash (updateFlashromSyscfg bios flash aicaTime marking storing).1 aicaTime := by
  intro safe
  have read : (norBios ⟨0, 16384⟩).bitmap fullFlash ⟨0, 16384⟩ =
      some (List.replicate 31 0 ++ 0x03 :: List.replicate 32 0xFF) := by decide
  have free : freeSlot ⟨0, 16384⟩ (List.replicate 31 0 ++ 0x03 :: List.replicate 32 0xFF) = some 254 := by decide +kernel
  have scan : scanSyscfg (norBios ⟨0, 16384⟩) fullFlash ⟨0, 16384⟩ (List.replicate 31 0 ++ 0x03 :: List.replicate 32 0xFF) 255 =
      some 253 := by decide +kernel
  have confined := (safe (norBios ⟨0, 16384⟩) fullFlash 0 fullWrite fullWrite).1
  rw [confined_iff rfl read scan free] at confined
  exact absurd (confined (by decide)) (by decide)

end KosTool.Dreamcast
