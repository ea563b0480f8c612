import KosTool.Model.Binary.IrxLayout
import KosTool.Soundness.CheckedSums

/-! # The sections and scratch words of the image do not overlap

The sections follow one another in the image. The scratch words go behind the last section of the file's part; the
sections of zero bytes from there on move behind them.
-/

namespace KosTool.Elf2irx

open Fallible

namespace Elf

variable {elf : Elf}

/-- A section that has a place in the image. -/
def inImage (elf : Elf) (i : ℕ) (s : Section) : Bool := elf.keep i s && s.alloc

/-- A placed section: it stands in the image from its address on. -/
def placed (elf : Elf) (sections : List (Section × ℕ)) (addrs : List ℕ) : List ((Section × ℕ) × ℕ) :=
  (sections.zip addrs).filter fun entry => elf.inImage entry.1.2 entry.1.1

/-- The end of a placed section. -/
def placedEnd (entry : (Section × ℕ) × ℕ) : ℕ := entry.2 + entry.1.1.size.toNat

/-- The sections in the order of their addresses, between two cursors. -/
structure Stacked (elf : Elf) (sections : List (Section × ℕ)) (before : Cursor) (addrs : List ℕ) (after : Cursor) :
    Prop where
  length : addrs.length = sections.length
  order : (elf.placed sections addrs).Pairwise fun first second => placedEnd first ≤ second.2
  above : ∀ entry ∈ elf.placed sections addrs, before.alloc ≤ entry.2
  below : ∀ entry ∈ elf.placed sections addrs, placedEnd entry ≤ after.alloc
  grows : before.alloc ≤ after.alloc
  filed : ∀ entry ∈ elf.placed sections addrs, entry.1.1.type ≠ .nobits → placedEnd entry ≤ after.fileTop
  fileTop : after.fileTop = before.fileTop ∨ ∃ entry ∈ elf.placed sections addrs, placedEnd entry = after.fileTop
  fileGrows : before.fileTop ≤ before.alloc → before.fileTop ≤ after.fileTop ∧ after.fileTop ≤ after.alloc

theorem placeSection_eq_ok {cursor next : Cursor} {s : Section} {addr : ℕ}
    (through : placeSection cursor s = .ok (addr, next)) : cursor.alloc ≤ addr ∧ next.alloc = addr + s.size.toNat ∧
      next.fileTop = if s.type = .nobits then cursor.fileTop else addr + s.size.toNat := by
  obtain ⟨aligned, align, through⟩ := bind_eq_ok.mp through
  obtain ⟨fileTop, file, through⟩ := bind_eq_ok.mp through
  obtain ⟨top, sum, through⟩ := bind_eq_ok.mp through
  cases pure_eq_ok.mp through
  cases checkedAddU32_eq_ok sum
  refine ⟨?_, rfl, ?_⟩
  · rw [alignedAddr] at align
    split_ifs at align
    · exact le_of_checkedAlignU32 align
    · exact le_of_eq (Except.ok.inj align)
    · exact le_of_checkedAlignU32 align
    · exact le_of_eq (Except.ok.inj align)
  · rw [fileTopBehind] at file
    split_ifs at file ⊢ with type
    · exact (Except.ok.inj file).symm
    · exact checkedAddU32_eq_ok file

theorem placeSections_stacked {sections : List (Section × ℕ)} {before after : Cursor} {addrs : List ℕ}
    (through : elf.placeSections sections before = .ok (addrs, after)) : elf.Stacked sections before addrs after := by
  induction sections generalizing before addrs after with
  | nil =>
    cases through
    exact ⟨rfl, .nil, nofun, nofun, le_rfl, nofun, .inl rfl, fun le => ⟨le_rfl, le⟩⟩
  | cons entry rest ih =>
    obtain ⟨s, i⟩ := entry
    rw [placeSections] at through
    split_ifs at through with inside
    · obtain ⟨⟨addr, next⟩, here, through⟩ := bind_eq_ok.mp through
      obtain ⟨⟨others, last⟩, tail, through⟩ := bind_eq_ok.mp through
      cases pure_eq_ok.mp through
      obtain ⟨low, alloc, file⟩ := placeSection_eq_ok here
      have stacked := ih tail
      have placed : elf.placed ((s, i) :: rest) (addr :: others) = ((s, i), addr) :: elf.placed rest others :=
        List.filter_cons_of_pos inside
      have ending : placedEnd ((s, i), addr) = next.alloc := alloc.symm
      refine ⟨congrArg (· + 1) stacked.length, ?_, ?_, ?_, ?_, ?_, ?_, ?_⟩
      · rw [placed]
        exact .cons (fun other member => ending.trans_le (stacked.above other member)) stacked.order
      · rw [placed]
        intro other member
        rcases List.mem_cons.mp member with rfl | later
        · exact low
        · exact le_trans (by omega) (stacked.above other later)
      · rw [placed]
        intro other member
        rcases List.mem_cons.mp member with rfl | later
        · exact ending.trans_le stacked.grows
        · exact stacked.below other later
      · exact le_trans (by omega) stacked.grows
      · rw [placed]
        intro other member bytes
        have fits : next.fileTop ≤ next.alloc → next.fileTop ≤ after.fileTop := fun le => (stacked.fileGrows le).1
        rcases List.mem_cons.mp member with rfl | later
        · have top : next.fileTop = next.alloc := (file.trans (if_neg bytes)).trans alloc.symm
          rw [ending, ← top]
          exact fits top.le
        · exact stacked.filed other later bytes
      · rw [placed]
        rcases stacked.fileTop with same | ⟨other, member, same⟩
        · split_ifs at file with type
          · exact .inl (same.trans file)
          · exact .inr ⟨_, List.mem_cons_self, (same.trans file).symm⟩
        · exact .inr ⟨other, List.mem_cons_of_mem _ member, same⟩
      · intro le
        have kept : before.fileTop ≤ next.fileTop ∧ next.fileTop ≤ next.alloc := by
          split_ifs at file <;> omega
        exact ⟨kept.1.trans (stacked.fileGrows kept.2).1, (stacked.fileGrows kept.2).2⟩
    · obtain ⟨⟨others, last⟩, tail, through⟩ := bind_eq_ok.mp through
      cases pure_eq_ok.mp through
      have stacked := ih tail
      have placed : elf.placed ((s, i) :: rest) (0 :: others) = elf.placed rest others :=
        List.filter_cons_of_neg inside
      obtain ⟨length, order, above, below, grows, filed, fileTop, fileGrows⟩ := stacked
      rw [← placed] at order above below filed fileTop
      exact ⟨congrArg (· + 1) length, order, above, below, grows, filed, fileTop, fileGrows⟩

/-- What a section does to the cursors. -/
theorem exists_of_placeSection {cursor next : Cursor} {s : Section} {addr : ℕ} (through : placeSection cursor s = .ok (addr, next)) :
    alignedAddr cursor.alloc s = .ok addr ∧ next.memTop = next.alloc := by
  obtain ⟨aligned, align, through⟩ := bind_eq_ok.mp through
  obtain ⟨fileTop, -, through⟩ := bind_eq_ok.mp through
  obtain ⟨top, -, through⟩ := bind_eq_ok.mp through
  cases pure_eq_ok.mp through
  exact ⟨align, rfl⟩

/-- What holds of no sections, and of one more before others, holds of the pass over all of them. -/
theorem placeSections_induct {motive : Cursor → List ((Section × ℕ) × ℕ) → Cursor → Prop}
    (none : ∀ cursor, motive cursor [] cursor)
    (more : ∀ (s : Section) (i addr : ℕ) before next rest after, placeSection before s = .ok (addr, next) →
      motive next rest after → motive before (((s, i), addr) :: rest) after)
    {sections : List (Section × ℕ)} {before after : Cursor} {addrs : List ℕ}
    (through : elf.placeSections sections before = .ok (addrs, after)) :
    motive before (elf.placed sections addrs) after := by
  induction sections generalizing before addrs after with
  | nil =>
    cases through
    exact none before
  | cons entry rest ih =>
    obtain ⟨s, i⟩ := entry
    rw [placeSections] at through
    split_ifs at through with inside
    · obtain ⟨⟨addr, next⟩, here, through⟩ := bind_eq_ok.mp through
      obtain ⟨⟨others, last⟩, tail, through⟩ := bind_eq_ok.mp through
      cases pure_eq_ok.mp through
      have placed : elf.placed ((s, i) :: rest) (addr :: others) = ((s, i), addr) :: elf.placed rest others :=
        List.filter_cons_of_pos inside
      rw [placed]
      exact more s i addr before next _ after here (ih tail)
    · obtain ⟨⟨others, last⟩, tail, through⟩ := bind_eq_ok.mp through
      cases pure_eq_ok.mp through
      have placed : elf.placed ((s, i) :: rest) (0 :: others) = elf.placed rest others :=
        List.filter_cons_of_neg inside
      rw [placed]
      exact ih tail

/-- The memory ends with the last section. -/
theorem memTop_eq {sections : List (Section × ℕ)} {before after : Cursor} {addrs : List ℕ}
    (through : elf.placeSections sections before = .ok (addrs, after)) : before.memTop = before.alloc → after.memTop = after.alloc := by
  apply placeSections_induct (motive := fun before _ after => before.memTop = before.alloc → after.memTop = after.alloc)
    _ _ through
  · exact fun _ same => same
  intro s i addr before next rest after here ih _
  exact ih (exists_of_placeSection here).2

/-- A section without a place in the image has the address 0. -/
theorem placeSections_zero {sections : List (Section × ℕ)} {before after : Cursor} {addrs : List ℕ}
    (through : elf.placeSections sections before = .ok (addrs, after)) {k i : ℕ} {s : Section}
    (at_k : sections[k]? = some (s, i)) (outside : ¬elf.inImage i s) : addrs[k]? = some 0 := by
  induction sections generalizing before addrs after k with
  | nil => nomatch at_k
  | cons entry rest ih =>
    obtain ⟨t, j⟩ := entry
    rw [placeSections] at through
    split_ifs at through with inside
    · obtain ⟨⟨addr, next⟩, -, through⟩ := bind_eq_ok.mp through
      obtain ⟨⟨others, last⟩, tail, through⟩ := bind_eq_ok.mp through
      cases pure_eq_ok.mp through
      cases k with
      | zero =>
        cases at_k
        exact absurd inside outside
      | succ k => exact ih tail at_k
    · obtain ⟨⟨others, last⟩, tail, through⟩ := bind_eq_ok.mp through
      cases pure_eq_ok.mp through
      cases k with
      | zero => rfl
      | succ k => exact ih tail at_k

/-- Two placed sections follow one another. -/
theorem Stacked.either {sections : List (Section × ℕ)} {before after : Cursor} {addrs : List ℕ}
    (stacked : elf.Stacked sections before addrs after) {first second : (Section × ℕ) × ℕ}
    (member : first ∈ elf.placed sections addrs) (member' : second ∈ elf.placed sections addrs)
    (other : first ≠ second) : placedEnd first ≤ second.2 ∨ placedEnd second ≤ first.2 := by
  obtain ⟨a, inside, rfl⟩ := List.getElem_of_mem member
  obtain ⟨b, inside', rfl⟩ := List.getElem_of_mem member'
  have order := List.pairwise_iff_getElem.mp stacked.order
  rcases Nat.lt_trichotomy a b with less | rfl | greater
  · exact .inl (order a b inside inside' less)
  · exact absurd rfl other
  · exact .inr (order b a inside' inside greater)

/-- A section ends before the file's part does, or it starts behind it. -/
theorem Stacked.low_or_high {sections : List (Section × ℕ)} {cursor : Cursor} {addrs : List ℕ}
    (stacked : elf.Stacked sections ⟨0, 0, 0⟩ addrs cursor) {entry : (Section × ℕ) × ℕ}
    (member : entry ∈ elf.placed sections addrs) (below : entry.2 < cursor.fileTop) :
    placedEnd entry ≤ cursor.fileTop := by
  rcases stacked.fileTop with empty | ⟨last, member', top⟩
  · rw [empty] at below
    nomatch below
  · rcases eq_or_ne entry last with rfl | other
    · exact top.le
    · have ends : last.2 ≤ placedEnd last := Nat.le_add_right _ _
      rcases stacked.either member member' other with order | order <;> omega

end Elf

/-- The byte at an address belongs to a section. -/
def Layout.Inside (layout : Layout) (i : ℕ) (s : Section) (y : ℕ) : Prop :=
  layout.addr i ≤ y ∧ y < layout.addr i + s.size.toNat

/-- The sections of the image and the scratch words are apart from one another, and those with bytes are in the file's
part. -/
structure Layout.Fits (elf : Elf) (layout : Layout) : Prop where
  length : layout.outAddr.length = elf.sections.length
  apart : ∀ s i s' i', (s, i) ∈ elf.sections.zipIdx → (s', i') ∈ elf.sections.zipIdx → elf.inImage i s →
    elf.inImage i' s' → i ≠ i' → ∀ y, layout.Inside i s y → ¬layout.Inside i' s' y
  padlo : ∀ s i, (s, i) ∈ elf.sections.zipIdx → elf.inImage i s → ∀ g < elf.strays.length + elf.extraLos.length,
    ∀ y, layout.Inside i s y → y < layout.padloAddr + g * 4 ∨ layout.padloAddr + g * 4 + 4 ≤ y
  filed : ∀ s i, (s, i) ∈ elf.sections.zipIdx → elf.inImage i s → s.type ≠ .nobits →
    layout.addr i + s.size.toNat ≤ layout.filesz
  padFiled : ∀ g < elf.strays.length + elf.extraLos.length, layout.padloAddr + g * 4 + 4 ≤ layout.filesz

/-- Where a section ends up: below the file's end, or moved on from there. -/
theorem Elf.shiftNobits_eq_ok {elf : Elf} {fileTop shift i addr moved : ℕ} {s : Section} (inside : elf.inImage i s)
    (through : elf.shiftNobits fileTop shift s i addr = .ok moved) :
    moved = if s.type = .nobits ∧ fileTop ≤ addr then addr + shift else addr := by
  rw [shiftNobits] at through
  have kept : (elf.keep i s && s.alloc) = true := inside
  rw [kept, Bool.true_and] at through
  have same : (s.type == .nobits && decide (fileTop ≤ addr)) = true ↔ s.type = .nobits ∧ fileTop ≤ addr := by
    rw [Bool.and_eq_true, beq_iff_eq, decide_eq_true_eq]
  by_cases moves : s.type = .nobits ∧ fileTop ≤ addr
  · rw [if_pos (same.mpr moves)] at through
    rw [if_pos moves]
    exact checkedAddU32_eq_ok through
  · rw [if_neg fun test => moves (same.mp test)] at through
    rw [if_neg moves]
    exact (Except.ok.inj through).symm

/-- A section without a place in the image does not move. -/
theorem Elf.shiftNobits_of_outside {elf : Elf} {fileTop shift i addr moved : ℕ} {s : Section} (outside : ¬elf.inImage i s)
    (through : elf.shiftNobits fileTop shift s i addr = .ok moved) : moved = addr := by
  have unkept : (elf.keep i s && s.alloc) = false := Bool.eq_false_iff.mpr outside
  rw [shiftNobits, unkept, Bool.false_and, Bool.false_and] at through
  exact (Except.ok.inj through).symm

section Moved

variable {elf : Elf} {layout : Layout} {cursor : Cursor} {outAddr : List ℕ} {shift : ℕ}

theorem Elf.Stacked.exists_placed (stacked : elf.Stacked elf.sections.zipIdx ⟨0, 0, 0⟩ outAddr cursor) {s : Section}
    {i : ℕ} (member : (s, i) ∈ elf.sections.zipIdx) (inside : elf.inImage i s) :
    ∃ x, outAddr[i]? = some x ∧ ((s, i), x) ∈ elf.placed elf.sections.zipIdx outAddr := by
  have at_i := List.mem_zipIdx_iff_getElem?.mp member
  have bound := (List.getElem?_eq_some_iff.mp at_i).1
  rw [← List.length_zipIdx, ← stacked.length] at bound
  refine ⟨outAddr[i], List.getElem?_eq_getElem bound, List.mem_filter.mpr ⟨List.mem_iff_getElem?.mpr ⟨i, ?_⟩, inside⟩⟩
  rw [List.getElem?_zip_eq_some, List.getElem?_zipIdx, at_i, Option.map_some, Nat.zero_add]
  exact ⟨rfl, List.getElem?_eq_getElem bound⟩

/-- Sections that follow one another still fit when those behind the file's part have made room for the scratch
words. -/
theorem Elf.Stacked.fits (stacked : elf.Stacked elf.sections.zipIdx ⟨0, 0, 0⟩ outAddr cursor)
    (length : layout.outAddr.length = elf.sections.length)
    (moved : ∀ s i x, (s, i) ∈ elf.sections.zipIdx → elf.inImage i s → outAddr[i]? = some x →
      layout.addr i = if s.type = .nobits ∧ cursor.fileTop ≤ x then x + shift else x)
    (top : cursor.fileTop ≤ layout.filesz)
    (room : ∀ g < elf.strays.length + elf.extraLos.length, cursor.fileTop ≤ layout.padloAddr ∧
      layout.padloAddr + g * 4 + 4 ≤ cursor.fileTop + shift ∧ layout.padloAddr + g * 4 + 4 ≤ layout.filesz) :
    layout.Fits elf := by
  have where_ (s : Section) (i : ℕ) (member : (s, i) ∈ elf.sections.zipIdx) (inside : elf.inImage i s) :
      ∃ x, ((s, i), x) ∈ elf.placed elf.sections.zipIdx outAddr ∧
        (layout.addr i = x ∧ x + s.size.toNat ≤ cursor.fileTop ∨
          s.type = .nobits ∧ layout.addr i = x + shift ∧ cursor.fileTop ≤ x) := by
    obtain ⟨x, at_i, here⟩ := stacked.exists_placed member inside
    refine ⟨x, here, ?_⟩
    have address := moved s i x member inside at_i
    by_cases moves : s.type = .nobits ∧ cursor.fileTop ≤ x
    · exact .inr ⟨moves.1, address.trans (if_pos moves), moves.2⟩
    · refine .inl ⟨address.trans (if_neg moves), ?_⟩
      by_cases zeros : s.type = .nobits
      · exact stacked.low_or_high here (Nat.not_le.mp fun high => moves ⟨zeros, high⟩)
      · exact stacked.filed _ here zeros
  refine ⟨length, ?_, ?_, ?_, fun g inside => (room g inside).2.2⟩
  · intro s i s' i' member member' inside inside' other y ⟨from_s, to_s⟩ ⟨from_s', to_s'⟩
    obtain ⟨x, here, place⟩ := where_ s i member inside
    obtain ⟨x', here', place'⟩ := where_ s' i' member' inside'
    have order := stacked.either here here' fun same => other (congrArg (fun entry => entry.1.2) same)
    simp only [placedEnd] at order
    omega
  · intro s i member inside g below y ⟨from_s, to_s⟩
    obtain ⟨x, -, place⟩ := where_ s i member inside
    have fits := room g below
    omega
  · intro s i member inside bytes
    obtain ⟨x, -, ⟨address, ends⟩ | ⟨zeros, -⟩⟩ := where_ s i member inside
    · omega
    · exact absurd zeros bytes

end Moved

/-- What the layout makes of the addresses of the pass over the sections: those behind the file's part move on by a shift
that makes room for the scratch words. -/
structure Computed (elf : Elf) (layout : Layout) (outAddr : List ℕ) (cursor : Cursor) (shift : ℕ) : Prop where
  pass : elf.placeSections elf.sections.zipIdx ⟨0, 0, 0⟩ = .ok (outAddr, cursor)
  length : layout.outAddr.length = elf.sections.length
  moved : ∀ s i x, (s, i) ∈ elf.sections.zipIdx → elf.inImage i s → outAddr[i]? = some x →
    layout.addr i = if s.type = .nobits ∧ cursor.fileTop ≤ x then x + shift else x
  top : cursor.fileTop ≤ layout.filesz
  none : elf.strays.length + elf.extraLos.length = 0 → shift = 0
  aligned : 4 ∣ layout.padloAddr
  room : 0 < elf.strays.length + elf.extraLos.length → cursor.fileTop ≤ layout.padloAddr ∧
    layout.padloAddr + (elf.strays.length + elf.extraLos.length) * 4 = cursor.fileTop + shift ∧
    cursor.fileTop + shift ≤ layout.filesz
  memory : (if cursor.memTop < cursor.fileTop + shift then cursor.fileTop + shift else cursor.memTop + shift) ≤
    layout.memsz

/-- The same for a number of scratch words of any tables, with the sections that have no place. -/
structure ComputedFor (elf : Elf) (layout : Layout) (words : ℕ) (outAddr : List ℕ) (cursor : Cursor) (shift : ℕ) :
    Prop where
  pass : elf.placeSections elf.sections.zipIdx ⟨0, 0, 0⟩ = .ok (outAddr, cursor)
  length : layout.outAddr.length = elf.sections.length
  moved : ∀ s i x, (s, i) ∈ elf.sections.zipIdx → elf.inImage i s → outAddr[i]? = some x →
    layout.addr i = if s.type = .nobits ∧ cursor.fileTop ≤ x then x + shift else x
  outside : ∀ s i, (s, i) ∈ elf.sections.zipIdx → ¬elf.inImage i s → layout.addr i = 0
  top : cursor.fileTop ≤ layout.filesz
  none : words = 0 → shift = 0
  aligned : 4 ∣ layout.padloAddr
  room : 0 < words → cursor.fileTop ≤ layout.padloAddr ∧ layout.padloAddr + words * 4 = cursor.fileTop + shift ∧
    cursor.fileTop + shift ≤ layout.filesz
  memory : (if cursor.memTop < cursor.fileTop + shift then cursor.fileTop + shift else cursor.memTop + shift) ≤
    layout.memsz

theorem exists_computedFor {elf : Elf} {layout : Layout} {strayCount extraLoCount : ℕ}
    (through : elf.layoutFor strayCount extraLoCount = .ok layout) :
    ∃ outAddr cursor shift, ComputedFor elf layout (strayCount + extraLoCount) outAddr cursor shift := by
  obtain ⟨⟨outAddr, cursor⟩, sections, through⟩ := bind_eq_ok.mp through
  obtain ⟨words, count, through⟩ := bind_eq_ok.mp through
  have counted := checkedAddU32_eq_ok count
  have length : outAddr.length = elf.sections.length :=
    (Elf.placeSections_stacked sections).length.trans List.length_zipIdx
  have unplaced (s : Section) (i : ℕ) (member : (s, i) ∈ elf.sections.zipIdx) (outside : ¬elf.inImage i s) :
      outAddr[i]? = Option.some 0 := by
    apply Elf.placeSections_zero sections _ outside
    rw [List.getElem?_zipIdx, List.mem_zipIdx_iff_getElem?.mp member, Option.map_some, Nat.zero_add]
  dsimp only at through
  split_ifs at through with some
  · obtain ⟨padloSize, size, through⟩ := bind_eq_ok.mp through
    obtain ⟨padloAddr, align, through⟩ := bind_eq_ok.mp through
    obtain ⟨padloEnd, ends, through⟩ := bind_eq_ok.mp through
    obtain ⟨outAddr', shifts, through⟩ := bind_eq_ok.mp through
    obtain ⟨memTop, memory, through⟩ := bind_eq_ok.mp through
    obtain ⟨filesz, file, through⟩ := bind_eq_ok.mp through
    obtain ⟨memsz, mem, through⟩ := bind_eq_ok.mp through
    cases pure_eq_ok.mp through
    have shifted := forall₂_of_mapM shifts
    have above := le_of_checkedAlignU32 align
    have inFile := le_of_checkedAlignU32 file
    cases checkedMulU32_eq_ok size
    cases checkedAddU32_eq_ok ends
    have length' : outAddr'.length = elf.sections.length := by
      rw [← shifted.length_eq, List.length_zip, List.length_zipIdx, length, Nat.min_self]
    have ends : cursor.fileTop + (padloAddr + words * 4 - cursor.fileTop) = padloAddr + words * 4 := by omega
    have address (s : Section) (i x : ℕ) (member : (s, i) ∈ elf.sections.zipIdx) (at_i : outAddr[i]? = Option.some x) :
        elf.shiftNobits cursor.fileTop (padloAddr + words * 4 - cursor.fileTop) s i x = .ok (outAddr'.getD i 0) := by
      have at_i' := List.mem_zipIdx_iff_getElem?.mp member
      have bound : i < outAddr'.length := length' ▸ (List.getElem?_eq_some_iff.mp at_i').1
      obtain ⟨⟨⟨s', i'⟩, x'⟩, here, moved⟩ := getElem?_of_forall₂ shifted (List.getElem?_eq_getElem bound)
      obtain ⟨here, here'⟩ := List.getElem?_zip_eq_some.mp here
      rw [List.getElem?_zipIdx, at_i', Option.map_some, Nat.zero_add] at here
      cases here
      cases at_i.symm.trans here'
      rw [List.getD_eq_getElem _ _ bound]
      exact moved
    refine ⟨outAddr, cursor, padloAddr + words * 4 - cursor.fileTop, sections, length', ?_, ?_, le_trans (by omega) inFile,
      fun none => by omega, dvd_of_checkedAlignU32 align, fun _ => ⟨above, by rw [ends, counted], ends.trans_le inFile⟩,
      ?_⟩
    · intro s i x member inside at_i
      exact Elf.shiftNobits_eq_ok inside (address s i x member at_i)
    · intro s i member outside
      exact Elf.shiftNobits_of_outside outside (address s i 0 member (unplaced s i member outside))
    · have upper := le_of_checkedAlignU32 mem
      rw [Elf.memTopBehind] at memory
      rw [ends]
      split_ifs at memory ⊢
      · exact (Except.ok.inj memory).trans_le upper
      · exact (checkedAddU32_eq_ok memory).symm.trans_le upper
  · obtain ⟨filesz, file, through⟩ := bind_eq_ok.mp through
    obtain ⟨memsz, mem, through⟩ := bind_eq_ok.mp through
    cases pure_eq_ok.mp through
    refine ⟨outAddr, cursor, 0, sections, length, ?_, ?_, le_of_checkedAlignU32 file, fun _ => rfl, Nat.dvd_zero 4,
      fun positive => absurd positive (by omega), ?_⟩
    · intro s i x member inside at_i
      rw [Layout.addr, List.getD_eq_getElem?_getD, at_i, Option.getD_some, Nat.add_zero, ite_self]
    · intro s i member outside
      rw [Layout.addr, List.getD_eq_getElem?_getD, unplaced s i member outside, Option.getD_some]
    · have upper := le_of_checkedAlignU32 mem
      have grows := (Elf.placeSections_stacked sections).fileGrows le_rfl
      have same := Elf.memTop_eq sections rfl
      dsimp only
      split_ifs <;> omega

theorem exists_computed {elf : Elf} {layout : Layout} (through : elf.computeLayout = .ok layout) :
    ∃ outAddr cursor shift, Computed elf layout outAddr cursor shift := by
  obtain ⟨outAddr, cursor, shift, computed⟩ := exists_computedFor (elf.computeLayout_eq.symm.trans through)
  exact ⟨outAddr, cursor, shift, computed.pass, computed.length, computed.moved, computed.top, computed.none,
    computed.aligned, computed.room, computed.memory⟩

/-- The sections with bytes and the scratch words are in the file's part, and what has no place has the address 0. -/
structure Layout.Filed (elf : Elf) (layout : Layout) (words : ℕ) : Prop where
  filed : ∀ s i, (s, i) ∈ elf.sections.zipIdx → elf.inImage i s → s.type ≠ .nobits →
    layout.addr i + s.size.toNat ≤ layout.filesz
  padlo : 0 < words → layout.padloAddr + words * 4 ≤ layout.filesz
  outside : ∀ s i, (s, i) ∈ elf.sections.zipIdx → ¬elf.inImage i s → layout.addr i = 0

theorem filed_of_layoutFor {elf : Elf} {layout : Layout} {strayCount extraLoCount : ℕ}
    (through : elf.layoutFor strayCount extraLoCount = .ok layout) : layout.Filed elf (strayCount + extraLoCount) := by
  obtain ⟨outAddr, cursor, shift, computed⟩ := exists_computedFor through
  have stacked := Elf.placeSections_stacked computed.pass
  refine ⟨fun s i member inside bytes => ?_, fun some => ?_, computed.outside⟩
  · obtain ⟨x, at_i, here⟩ := stacked.exists_placed member inside
    have address := computed.moved s i x member inside at_i
    rw [if_neg fun moves => bytes moves.1] at address
    rw [address]
    exact (stacked.filed _ here bytes).trans computed.top
  · obtain ⟨-, ends, inFile⟩ := computed.room some
    exact ends.trans_le inFile

/-- The layout that is computed fits. -/
theorem Elf.fits_of_computeLayout {elf : Elf} {layout : Layout} (through : elf.computeLayout = .ok layout) :
    layout.Fits elf := by
  obtain ⟨outAddr, cursor, shift, computed⟩ := exists_computed through
  apply (placeSections_stacked computed.pass).fits computed.length computed.moved computed.top
  intro g below
  obtain ⟨above, ends, inFile⟩ := computed.room (by omega)
  refine ⟨above, ?_, ?_⟩ <;> omega

end KosTool.Elf2irx
