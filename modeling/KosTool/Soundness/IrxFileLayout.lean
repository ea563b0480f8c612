import KosTool.Model.Binary.IrxFile
import KosTool.Soundness.ImageLayout
import Mathlib.Data.List.MinMax
import Mathlib.Order.Nat

/-! # The parts of an IRX file do not overlap

The sections of the image stand at multiples of their alignments, inside the memory, unless they are moved behind the
scratch words. A section that is moved keeps its alignment if the room made is a multiple of it. In the file, each part
starts where the one before it ends or behind that.
-/

namespace KosTool.Elf2irx

open ByteWord WordPatch Fallible Extent

section Checked

variable {a result : ℕ} {what : String}

/-- A running total is the sum. -/
theorem checkedSumU32_eq_ok {sizes : List ℕ} (through : checkedSumU32 a sizes what = .ok result) :
    result = a + sizes.sum := by
  induction sizes generalizing a with
  | nil =>
    cases through
    rfl
  | cons size rest ih =>
    obtain ⟨next, added, through⟩ := bind_eq_ok.mp through
    cases checkedAddU32_eq_ok added
    rw [ih through, List.sum_cons, Nat.add_assoc]

end Checked

section Image

variable {elf : Elf} {s : Section} {i : ℕ}

/-- The section stands at a multiple of its alignment. -/
def Section.AlignedAt (s : Section) (addr : ℕ) : Prop := s.addralign ≠ 0 → s.addralign.toNat ∣ addr

theorem alignedAt_of_alignedAddr {alloc addr : ℕ} (through : alignedAddr alloc s = .ok addr) : s.AlignedAt addr := by
  intro some
  rw [alignedAddr, if_neg some] at through
  split_ifs at through with above
  · exact dvd_of_checkedAlignU32 through
  · -- An alignment that is neither 0 nor above 1 is 1.
    have one : s.addralign.toNat = 1 := by
      rw [BitVec.lt_def] at above
      have positive : s.addralign.toNat ≠ 0 := fun zero => some (BitVec.eq_of_toNat_eq zero)
      change ¬1 < s.addralign.toNat at above
      omega
    rw [one]
    exact one_dvd _

variable {sections : List (Section × ℕ)} {before after : Cursor} {addrs : List ℕ}

/-- The pass over the sections aligns each of them. -/
theorem placed_aligned (through : elf.placeSections sections before = .ok (addrs, after)) :
    ∀ entry ∈ elf.placed sections addrs, entry.1.1.AlignedAt entry.2 := by
  apply Elf.placeSections_induct (motive := fun _ placed _ => ∀ entry ∈ placed, entry.1.1.AlignedAt entry.2) _ _ through
  · exact fun _ => nofun
  intro s i addr before next rest after here ih entry member
  rcases List.mem_cons.mp member with rfl | later
  · exact alignedAt_of_alignedAddr (Elf.exists_of_placeSection here).1
  · exact ih entry later

/-- The file's part ends with a section that has bytes, if there is one. -/
theorem fileTop_eq (through : elf.placeSections sections before = .ok (addrs, after)) : after.fileTop = before.fileTop ∨
    ∃ entry ∈ elf.placed sections addrs, entry.1.1.type ≠ .nobits ∧ Elf.placedEnd entry = after.fileTop := by
  apply Elf.placeSections_induct (motive := fun before placed after => after.fileTop = before.fileTop ∨
    ∃ entry ∈ placed, entry.1.1.type ≠ .nobits ∧ Elf.placedEnd entry = after.fileTop) _ _ through
  · exact fun _ => .inl rfl
  intro s i addr before next rest after here ih
  obtain ⟨-, -, file⟩ := Elf.placeSection_eq_ok here
  rcases ih with same | ⟨other, member, bytes, ends⟩
  · rcases eq_or_ne s.type .nobits with zeros | bytes
    · rw [if_pos zeros] at file
      exact .inl (same.trans file)
    · rw [if_neg bytes] at file
      exact .inr ⟨_, List.mem_cons_self, bytes, (same.trans file).symm⟩
  · exact .inr ⟨other, List.mem_cons_of_mem _ member, bytes, ends⟩

variable {layout : Layout} {outAddr : List ℕ} {cursor : Cursor} {shift : ℕ}

namespace Layout

/-- The end of the scratch words. -/
def padloEnd (layout : Layout) (elf : Elf) : ℕ := layout.padloAddr + (elf.strays.length + elf.extraLos.length) * 4

/-- The ends of the sections that have bytes. -/
def fileEnds (layout : Layout) (elf : Elf) : List ℕ :=
  (elf.sections.zipIdx.filter fun (s, i) => elf.inImage i s && s.type != .nobits).map fun (s, i) =>
    layout.addr i + s.size.toNat

/-- The end of the last section that has bytes. -/
def fileEnd (layout : Layout) (elf : Elf) : ℕ := (layout.fileEnds elf).foldr max 0

/-- The room that the scratch words take, with what aligns them. -/
def room (layout : Layout) (elf : Elf) : ℕ := layout.padloEnd elf - layout.fileEnd elf

/-- A section of zero bytes that makes room for the scratch words. -/
def Moved (layout : Layout) (elf : Elf) (i : ℕ) (s : Section) : Prop :=
  s.type = .nobits ∧ 0 < elf.strays.length + elf.extraLos.length ∧ layout.padloEnd elf ≤ layout.addr i

/-- What the layout sees to. Nothing is said of the alignment and the end of a section that is moved, unless the room is
a multiple of its alignment, and the sections of zero bytes take at least the room. -/
structure Sound (layout : Layout) (elf : Elf) : Prop where
  fits : layout.Fits elf
  aligned : ∀ s i, (s, i) ∈ elf.sections.zipIdx → elf.inImage i s → ¬layout.Moved elf i s → s.AlignedAt (layout.addr i)
  padloAligned : 4 ∣ layout.padloAddr
  memory : ∀ s i, (s, i) ∈ elf.sections.zipIdx → elf.inImage i s → ¬layout.Moved elf i s →
    layout.addr i + s.size.toNat ≤ layout.memsz
  padloMemory : 0 < elf.strays.length + elf.extraLos.length → layout.padloEnd elf ≤ layout.memsz
  zeros : ∀ s i, (s, i) ∈ elf.sections.zipIdx → elf.inImage i s → s.type = .nobits →
    layout.addr i + s.size.toNat ≤ layout.fileEnd elf ∨ layout.fileEnd elf ≤ layout.addr i ∧
      (0 < elf.strays.length + elf.extraLos.length → layout.padloEnd elf ≤ layout.addr i)
  movedAligned : ∀ s i, (s, i) ∈ elf.sections.zipIdx → elf.inImage i s → layout.Moved elf i s →
    s.AlignedAt (layout.room elf) → s.AlignedAt (layout.addr i)
  movedMemory : ∀ s i t j, (s, i) ∈ elf.sections.zipIdx → elf.inImage i s → layout.Moved elf i s →
    (t, j) ∈ elf.sections.zipIdx → elf.inImage j t → layout.padloEnd elf + layout.room elf ≤ layout.addr j + t.size.toNat →
    layout.addr i + s.size.toNat ≤ layout.memsz

end Layout

namespace Computed

/-- Where a section of the image ends up. -/
theorem place (computed : Computed elf layout outAddr cursor shift) (member : (s, i) ∈ elf.sections.zipIdx)
    (inside : elf.inImage i s) : ∃ x, ((s, i), x) ∈ elf.placed elf.sections.zipIdx outAddr ∧
      (layout.addr i = x ∧ x + s.size.toNat ≤ cursor.fileTop ∨
        s.type = .nobits ∧ layout.addr i = x + shift ∧ cursor.fileTop ≤ x) := by
  have stacked := Elf.placeSections_stacked computed.pass
  obtain ⟨x, at_i, here⟩ := stacked.exists_placed member inside
  refine ⟨x, here, ?_⟩
  have address := computed.moved s i x member inside at_i
  split_ifs at address with moves
  · exact .inr ⟨moves.1, address, moves.2⟩
  · refine .inl ⟨address, ?_⟩
    rcases eq_or_ne s.type .nobits with zeros | bytes
    · exact stacked.low_or_high here (Nat.not_le.mp fun high => moves ⟨zeros, high⟩)
    · exact stacked.filed _ here bytes

theorem fileEnd_eq (computed : Computed elf layout outAddr cursor shift) : layout.fileEnd elf = cursor.fileTop := by
  apply Nat.le_antisymm
  · refine List.max_le_of_forall_le (layout.fileEnds elf) cursor.fileTop fun ending member => ?_
    obtain ⟨⟨s, i⟩, listed, rfl⟩ := List.mem_map.mp member
    obtain ⟨member, test⟩ := List.mem_filter.mp listed
    obtain ⟨inside, bytes⟩ := Bool.and_eq_true_iff.mp test
    obtain ⟨x, -, ⟨address, ends⟩ | ⟨zeros, -⟩⟩ := computed.place member inside
    · dsimp only
      rw [address]
      exact ends
    · exact absurd zeros (bne_iff_ne.mp bytes)
  · rcases fileTop_eq computed.pass with none | ⟨⟨⟨s, i⟩, x⟩, placed, bytes, ends⟩
    · exact none.trans_le (Nat.zero_le _)
    · obtain ⟨zipped, inside⟩ := List.mem_filter.mp placed
      have member := (List.of_mem_zip zipped).1
      obtain ⟨k, at_k⟩ := List.mem_iff_getElem?.mp zipped
      obtain ⟨at_s, at_x⟩ := List.getElem?_zip_eq_some.mp at_k
      rw [List.getElem?_zipIdx] at at_s
      obtain ⟨t, -, same⟩ := Option.map_eq_some_iff.mp at_s
      rw [Prod.mk.injEq, Nat.zero_add] at same
      obtain ⟨-, rfl⟩ := same
      have address := computed.moved s k x member inside at_x
      rw [if_neg fun test => bytes test.1] at address
      have listed : layout.addr k + s.size.toNat ∈ layout.fileEnds elf := by
        refine List.mem_map.mpr ⟨(s, k), List.mem_filter.mpr ⟨member, ?_⟩, rfl⟩
        exact Bool.and_eq_true_iff.mpr ⟨inside, bne_iff_ne.mpr bytes⟩
      refine List.le_max_of_le listed ?_
      rw [address]
      exact ends.ge

/-- The scratch words end where the sections that are moved may start. -/
theorem padloEnd_eq (computed : Computed elf layout outAddr cursor shift)
    (some : 0 < elf.strays.length + elf.extraLos.length) : layout.padloEnd elf = cursor.fileTop + shift :=
  (computed.room some).2.1

/-- A section that does not move has the address of the pass. -/
theorem place_of_not_moved (computed : Computed elf layout outAddr cursor shift)
    (member : (s, i) ∈ elf.sections.zipIdx) (inside : elf.inImage i s) (still : ¬layout.Moved elf i s) :
    ((s, i), layout.addr i) ∈ elf.placed elf.sections.zipIdx outAddr ∧
      (0 < elf.strays.length + elf.extraLos.length → layout.addr i + s.size.toNat ≤ cursor.fileTop) := by
  obtain ⟨x, here, ⟨rfl, ends⟩ | ⟨zeros, address, above⟩⟩ := computed.place member inside
  · exact ⟨here, fun _ => ends⟩
  · have none : elf.strays.length + elf.extraLos.length = 0 := by
      by_contra some
      have positive := Nat.pos_of_ne_zero some
      refine still ⟨zeros, positive, ?_⟩
      rw [computed.padloEnd_eq positive]
      omega
    have same : layout.addr i = x := by rw [address, computed.none none, Nat.add_zero]
    rw [same]
    exact ⟨here, fun some => absurd some (by omega)⟩

/-- A section that moves has the address of the pass and the shift. -/
theorem place_of_moved (computed : Computed elf layout outAddr cursor shift)
    (member : (s, i) ∈ elf.sections.zipIdx) (inside : elf.inImage i s) (moved : layout.Moved elf i s) :
    ∃ x, ((s, i), x) ∈ elf.placed elf.sections.zipIdx outAddr ∧ layout.addr i = x + shift := by
  obtain ⟨x, here, ⟨address, ends⟩ | ⟨-, address, -⟩⟩ := computed.place member inside
  · obtain ⟨-, some, above⟩ := moved
    obtain ⟨low, ends', -⟩ := computed.room some
    rw [Layout.padloEnd] at above
    omega
  · exact ⟨x, here, address⟩

/-- The layout of the image is sound. -/
theorem sound (computed : Computed elf layout outAddr cursor shift) : layout.Sound elf := by
  have stacked := Elf.placeSections_stacked computed.pass
  have aligned := placed_aligned computed.pass
  have memory := computed.memory
  have grows := (stacked.fileGrows le_rfl).2
  have memTop := Elf.memTop_eq computed.pass rfl
  have below {s : Section} {i x : ℕ} (here : ((s, i), x) ∈ elf.placed elf.sections.zipIdx outAddr) :
      x + s.size.toNat ≤ cursor.alloc := stacked.below _ here
  have fileEnd := computed.fileEnd_eq
  constructor
  · exact (stacked.fits computed.length computed.moved computed.top fun g below => by
      obtain ⟨above, ends, inFile⟩ := computed.room (by omega)
      refine ⟨above, ?_, ?_⟩ <;> omega)
  · intro s i member inside still
    exact aligned _ (computed.place_of_not_moved member inside still).1
  · exact computed.aligned
  · intro s i member inside still
    obtain ⟨here, low⟩ := computed.place_of_not_moved member inside still
    have fits := below here
    rcases Nat.eq_zero_or_pos (elf.strays.length + elf.extraLos.length) with none | some
    · rw [computed.none none] at memory
      split_ifs at memory <;> omega
    · have ends := low some
      split_ifs at memory <;> omega
  · intro some
    rw [computed.padloEnd_eq some]
    split_ifs at memory <;> omega
  · intro s i member inside zeros
    rw [fileEnd]
    obtain ⟨x, here, ⟨address, ends⟩ | ⟨-, address, above⟩⟩ := computed.place member inside
    · exact .inl (address ▸ ends)
    · refine .inr ⟨by omega, fun some => ?_⟩
      rw [computed.padloEnd_eq some]
      omega
  · intro s i member inside moved multiple
    obtain ⟨x, here, address⟩ := computed.place_of_moved member inside moved
    have room : layout.room elf = shift := by
      rw [Layout.room, fileEnd, computed.padloEnd_eq moved.2.1, Nat.add_sub_cancel_left]
    rw [room] at multiple
    intro some
    rw [address]
    exact Nat.dvd_add (aligned _ here some) (multiple some)
  · intro s i t j member inside moved member' inside' reaches
    obtain ⟨x, here, address⟩ := computed.place_of_moved member inside moved
    have some := moved.2.1
    obtain ⟨low, ends, -⟩ := computed.room some
    have room : layout.room elf = shift := by
      rw [Layout.room, fileEnd, computed.padloEnd_eq moved.2.1, Nat.add_sub_cancel_left]
    rw [room, computed.padloEnd_eq moved.2.1] at reaches
    have fits := below here
    obtain ⟨y, here', ⟨address', ends'⟩ | ⟨-, address', -⟩⟩ := computed.place member' inside'
    · omega
    · have fits' := below here'
      split_ifs at memory <;> omega

end Computed

end Image

section File

variable {elf : Elf} {layout : Layout} {file : FileLayout} {iopmodOff allocOff cur : ℕ} {kept : List OutSection}
  {offsets : List ℕ}

/-- The sizes of the relocation tables that are emitted. -/
def emittedSizes (elf : Elf) (kept : List OutSection) : List ℕ :=
  (kept.filter fun out => out.idx ≠ elf.iopmodIdx ∧ out.sec.type = .rel).map (·.outSize)

/-- The emitted tables follow one another. -/
theorem tables_eq_stack (through : outOffsets elf layout iopmodOff allocOff kept cur = .ok offsets) :
    ((kept.zip offsets).filter fun (out, _) => out.idx ≠ elf.iopmodIdx ∧ out.sec.type = .rel).map
      (fun (out, offset) => (⟨offset, out.outSize⟩ : Extent)) = stack cur (emittedSizes elf kept) := by
  induction kept generalizing cur offsets with
  | nil => rfl
  | cons out rest ih =>
    obtain ⟨⟨offset, next⟩, here, through⟩ := bind_eq_ok.mp through
    obtain ⟨others, tail, through⟩ := bind_eq_ok.mp through
    cases pure_eq_ok.mp through
    have others := ih tail
    rw [outOffsetOf] at here
    rw [emittedSizes, List.zip_cons_cons, List.filter_cons, List.filter_cons]
    split_ifs at here with module program zeros table
    · cases here
      simp only [module, ne_eq, not_true_eq_false, false_and, decide_false, Bool.false_eq_true, if_false]
      exact others
    · obtain ⟨sum, -, here⟩ := bind_eq_ok.mp here
      cases pure_eq_ok.mp here
      simp only [program.1, reduceCtorEq, and_false, decide_false, Bool.false_eq_true, if_false]
      exact others
    · obtain ⟨sum, -, here⟩ := bind_eq_ok.mp here
      cases pure_eq_ok.mp here
      simp only [zeros, reduceCtorEq, and_false, decide_false, Bool.false_eq_true, if_false]
      exact others
    · obtain ⟨sum, added, here⟩ := bind_eq_ok.mp here
      cases pure_eq_ok.mp here
      cases checkedAddU32_eq_ok added
      simp only [module, table, ne_eq, not_false_eq_true, and_self, decide_true, if_true, List.map_cons, stack]
      exact congrArg _ others
    · cases here
      simp only [table, and_false, decide_false, Bool.false_eq_true, if_false]
      exact others

/-- The room that is reckoned for the tables is enough. -/
theorem emittedSizes_sum_le (elf : Elf) (kept : List OutSection) : (emittedSizes elf kept).sum ≤ (tableSizes kept).sum := by
  induction kept with
  | nil => exact le_rfl
  | cons out rest ih =>
    rw [emittedSizes, tableSizes, List.filter_cons, List.filter_cons]
    by_cases table : out.sec.type = .rel
    · simp only [table, decide_true, if_true, List.map_cons, List.sum_cons, and_true]
      split_ifs
      · rw [List.map_cons, List.sum_cons]
        exact Nat.add_le_add_left ih _
      · exact ih.trans (Nat.le_add_left _ _)
    · simp only [table, decide_false, Bool.false_eq_true, if_false, and_false]
      exact ih

/-- How the parts of the file follow from one another. -/
structure FileLayout.Chained (file : FileLayout) (elf : Elf) (layout : Layout) (padlo : Bool) (kept : List OutSection) :
    Prop where
  sections : file.sections = kept
  phoff : file.phoff = 52
  iopmodOff : file.iopmodOff = 116
  payload : 116 + elf.iopmodSize ≤ file.allocOff
  names : file.shstrtabOff = file.allocOff + layout.filesz
  shstrSize : file.shstrSize = 1 + ((Elf.outNames padlo kept).map fun name => name.length + 1).sum
  shnum : file.shnum = kept.length + (if padlo then 1 else 0) + 4
  headers : file.shstrtabOff + file.shstrSize ≤ file.shoff
  relocbase : file.relocbase = file.shoff + file.shnum * 40
  symbols : file.relocbase + (tableSizes kept).sum ≤ file.symtabOff
  strings : file.strtabOff = file.symtabOff + 16
  ending : file.totalSize = file.strtabOff + 1
  offsets : outOffsets elf layout file.iopmodOff file.allocOff kept file.relocbase = .ok file.outOffset
  padloOffset : padlo = true → file.padloOffset = file.allocOff + layout.padloAddr

theorem chained_of_fileLayoutFor {padlo : Bool} (through : elf.fileLayoutFor layout padlo kept = .ok file) :
    file.Chained elf layout padlo kept := by
  obtain ⟨shstrSize, sizes, through⟩ := bind_eq_ok.mp through
  obtain ⟨iopmodOff, module, through⟩ := bind_eq_ok.mp through
  obtain ⟨iopmodEnd, moduleEnd, through⟩ := bind_eq_ok.mp through
  obtain ⟨allocOff, payload, through⟩ := bind_eq_ok.mp through
  obtain ⟨shstrtabOff, names, through⟩ := bind_eq_ok.mp through
  obtain ⟨count, some, through⟩ := bind_eq_ok.mp through
  obtain ⟨shnum, more, through⟩ := bind_eq_ok.mp through
  obtain ⟨⟨⟩, -, through⟩ := bind_eq_ok.mp through
  obtain ⟨namesEnd, namesStop, through⟩ := bind_eq_ok.mp through
  obtain ⟨shoff, headersAt, through⟩ := bind_eq_ok.mp through
  obtain ⟨headers, headersSize, through⟩ := bind_eq_ok.mp through
  obtain ⟨relocbase, tablesAt, through⟩ := bind_eq_ok.mp through
  obtain ⟨relocTotal, total, through⟩ := bind_eq_ok.mp through
  obtain ⟨relocEnd, tablesEnd, through⟩ := bind_eq_ok.mp through
  obtain ⟨symtabOff, symbols, through⟩ := bind_eq_ok.mp through
  obtain ⟨strtabOff, strings, through⟩ := bind_eq_ok.mp through
  obtain ⟨totalSize, ending, through⟩ := bind_eq_ok.mp through
  obtain ⟨outOffset, offsets, through⟩ := bind_eq_ok.mp through
  obtain ⟨padloOffset, padloAt, through⟩ := bind_eq_ok.mp through
  cases pure_eq_ok.mp through
  cases checkedAddU32_eq_ok module
  cases checkedAddU32_eq_ok moduleEnd
  cases checkedAddU32_eq_ok namesStop
  cases checkedMulU32_eq_ok headersSize
  cases checkedAddU32_eq_ok tablesEnd
  cases checkedSumU32_eq_ok total
  cases checkedAddU32_eq_ok some
  have symbolsAbove := le_of_checkedAlignU32 symbols
  rw [Nat.zero_add] at symbolsAbove
  refine ⟨rfl, rfl, rfl, le_of_checkedAlignU32 payload, checkedAddU32_eq_ok names, checkedSumU32_eq_ok sizes,
    checkedAddU32_eq_ok more, le_of_checkedAlignU32 headersAt, checkedAddU32_eq_ok tablesAt, symbolsAbove,
    checkedAddU32_eq_ok strings, checkedAddU32_eq_ok ending, offsets, fun padlo => ?_⟩
  rw [Elf.padloOffsetFor, if_pos padlo] at padloAt
  exact checkedAddU32_eq_ok padloAt

theorem exists_chained (through : computeFileLayout elf layout = .ok file) :
    ∃ kept, file.Chained elf layout elf.hasPadlo kept := by
  rw [Elf.computeFileLayout_eq] at through
  obtain ⟨kept, -, through⟩ := bind_eq_ok.mp through
  exact ⟨kept, chained_of_fileLayoutFor through⟩

/-- The parts of the file stand in their order, inside the file. -/
theorem FileLayout.Chained.parts_ordered {padlo : Bool} (chained : file.Chained elf layout padlo kept) :
    Ordered (file.parts elf layout) ∧ ∀ part ∈ file.parts elf layout, part.stop ≤ file.totalSize := by
  obtain ⟨sections, phoff, iopmodOff, payload, names, -, -, headers, relocbase, symbols, strings, ending, offsets, -⟩ :=
    chained
  have tables := tables_eq_stack offsets
  have room := emittedSizes_sum_le elf kept
  have low {table : Extent} (member : table ∈ stack file.relocbase (emittedSizes elf kept)) := start_le_of_mem_stack member
  have high {table : Extent} (member : table ∈ stack file.relocbase (emittedSizes elf kept)) := stop_le_of_mem_stack member
  rw [FileLayout.parts, FileLayout.tables, sections, tables]
  constructor
  · rw [Ordered, List.pairwise_append, List.pairwise_append]
    refine ⟨⟨ordered_of_chain ?_, stack_ordered _ _, ?_⟩, ordered_of_chain ?_, ?_⟩
    · simp only [List.isChain_cons_cons, List.isChain_singleton, and_true, Before, stop]
      omega
    · intro first front table member
      refine Nat.le_trans ?_ (low member)
      simp only [List.mem_cons, List.not_mem_nil, or_false] at front
      rcases front with rfl | rfl | rfl | rfl | rfl | rfl <;> dsimp only [stop] <;> omega
    · simp only [List.isChain_cons_cons, List.isChain_singleton, and_true, Before, stop]
      omega
    · intro first front last back
      have ends : first.stop ≤ file.symtabOff := by
        rcases List.mem_append.mp front with front | member
        · simp only [List.mem_cons, List.not_mem_nil, or_false] at front
          rcases front with rfl | rfl | rfl | rfl | rfl | rfl <;> dsimp only [stop] <;> omega
        · exact (high member).trans (by omega)
      refine ends.trans ?_
      simp only [List.mem_cons, List.not_mem_nil, or_false] at back
      rcases back with rfl | rfl <;> dsimp only <;> omega
  · intro part member
    rcases List.mem_append.mp member with front | back
    · rcases List.mem_append.mp front with front | table
      · simp only [List.mem_cons, List.not_mem_nil, or_false] at front
        rcases front with rfl | rfl | rfl | rfl | rfl | rfl <;> dsimp only [stop] <;> omega
      · exact (high table).trans (by omega)
    · simp only [List.mem_cons, List.not_mem_nil, or_false] at back
      rcases back with rfl | rfl <;> dsimp only [stop] <;> omega

/-- A section of zero bytes takes none of the file: its offset is the end of the payload. -/
theorem outOffset_of_nobits (through : outOffsets elf layout iopmodOff allocOff kept cur = .ok offsets) :
    ∀ entry ∈ kept.zip offsets, entry.1.idx ≠ elf.iopmodIdx → entry.1.sec.type = .nobits →
      entry.2 = allocOff + layout.filesz := by
  induction kept generalizing cur offsets with
  | nil => exact nofun
  | cons out rest ih =>
    obtain ⟨⟨offset, next⟩, here, through⟩ := bind_eq_ok.mp through
    obtain ⟨others, tail, through⟩ := bind_eq_ok.mp through
    cases pure_eq_ok.mp through
    intro entry member other zeros
    rcases List.mem_cons.mp member with rfl | later
    · have program : ¬(out.sec.type = .progbits ∧ out.sec.alloc) := fun both => by
        rw [zeros] at both
        nomatch both.1
      rw [outOffsetOf, if_neg other, if_neg program, if_pos zeros] at here
      obtain ⟨sum, added, here⟩ := bind_eq_ok.mp here
      cases pure_eq_ok.mp here
      exact checkedAddU32_eq_ok added
    · exact ih tail entry later other zeros

theorem FileLayout.Chained.zeros_take_nothing {padlo : Bool} (chained : file.Chained elf layout padlo kept) :
    ∀ entry ∈ file.sections.zip file.outOffset, entry.1.idx ≠ elf.iopmodIdx → entry.1.sec.type = .nobits →
      entry.2 = file.allocOff + layout.filesz := by
  rw [chained.sections]
  exact outOffset_of_nobits chained.offsets

end File

/-- The layout of an image and its file, but for what is moved. -/
theorem layout_sound {elf : Elf} {layout : Layout} {file : FileLayout} (computed : elf.computeLayout = .ok layout)
    (filed : computeFileLayout elf layout = .ok file) :
    layout.Sound elf ∧ Ordered (file.parts elf layout) ∧ (∀ part ∈ file.parts elf layout, part.stop ≤ file.totalSize) ∧
      ∀ entry ∈ file.sections.zip file.outOffset, entry.1.idx ≠ elf.iopmodIdx → entry.1.sec.type = .nobits →
        entry.2 = file.allocOff + layout.filesz := by
  obtain ⟨outAddr, cursor, shift, passes⟩ := exists_computed computed
  obtain ⟨kept, chained⟩ := exists_chained filed
  obtain ⟨ordered, inside⟩ := chained.parts_ordered
  exact ⟨passes.sound, ordered, inside, chained.zeros_take_nothing⟩

section Shown

/-- A section of the image of a size and an alignment. -/
def imageSection (type : SectionType) (size addralign : Word) : Section where
  name := ".part"
  type
  flags := 2
  size
  link := 0
  info := 0
  addralign
  entsize := 0
  contents _ := 0

/-- The relocations of a program whose two HI16 entries share a LO16. -/
def sharedRel : Section where
  name := ".rel.part"
  type := .rel
  flags := 0
  size := 24
  link := 0
  info := 1
  addralign := 4
  entsize := 8
  contents := overlay ([0, 0x105, 4, 0x105, 8, 0x106].flatMap le32) fun _ => 0

/-- An input of twelve bytes of program with these relocations, and other sections. -/
def sharedElf (others : List Section) : Elf where
  sections := [synthIopmod, imageSection .progbits 12 4, sharedRel] ++ others
  symbols := []
  iopmodIdx := 0
  symtabIdx := none

/-- A layout that goes through, with its file. -/
theorem exists_layout {elf : Elf} {addr memsz filesz : ℕ}
    (computed : (elf.computeLayout.toOption.bind fun layout => (computeFileLayout elf layout).toOption.map fun _ =>
      (layout.addr 3, layout.memsz, layout.filesz)) = some (addr, memsz, filesz)) :
    ∃ layout file, elf.computeLayout = .ok layout ∧ computeFileLayout elf layout = .ok file ∧ layout.addr 3 = addr ∧
      layout.memsz = memsz ∧ layout.filesz = filesz := by
  obtain ⟨layout, through, rest⟩ := Option.bind_eq_some_iff.mp computed
  obtain ⟨file, through', values⟩ := Option.map_eq_some_iff.mp rest
  rw [Prod.mk.injEq, Prod.mk.injEq] at values
  exact ⟨layout, file, eq_ok_of_toOption through, eq_ok_of_toOption through', values⟩

end Shown

/-- The layout of the program with a section of zero bytes behind it. -/
theorem layout_sound_shared : ∃ (layout : Layout) (file : FileLayout),
    (sharedElf [imageSection .nobits 16 4]).computeLayout = .ok layout ∧
    layout.Sound (sharedElf [imageSection .nobits 16 4]) ∧
    Ordered (file.parts (sharedElf [imageSection .nobits 16 4]) layout) := by
  obtain ⟨layout, file, computed, filed, -⟩ :=
    exists_layout (show ((sharedElf [imageSection .nobits 16 4]).computeLayout.toOption.bind fun layout =>
      (computeFileLayout (sharedElf [imageSection .nobits 16 4]) layout).toOption.map fun _ => (layout.addr 3, layout.memsz, layout.filesz)) =
        some (16, 32, 16) by decide +kernel)
  obtain ⟨sound, ordered, -⟩ := layout_sound computed filed
  exact ⟨layout, file, computed, sound, ordered⟩

/-- A section of zero bytes can lie in the payload, and one that is moved can lose its alignment or leave the memory. -/
theorem layout_moves_zeros :
    (¬∀ elf layout file, elf.computeLayout = .ok layout → computeFileLayout elf layout = .ok file → ∀ s i,
      (s, i) ∈ elf.sections.zipIdx → elf.inImage i s → s.type = .nobits → layout.filesz ≤ layout.addr i) ∧
    (¬∀ elf layout file, elf.computeLayout = .ok layout → computeFileLayout elf layout = .ok file → ∀ s i,
      (s, i) ∈ elf.sections.zipIdx → elf.inImage i s → s.AlignedAt (layout.addr i)) ∧
    ¬∀ elf layout file, elf.computeLayout = .ok layout → computeFileLayout elf layout = .ok file → ∀ s i,
      (s, i) ∈ elf.sections.zipIdx → elf.inImage i s → layout.addr i + s.size.toNat ≤ layout.memsz := by
  have listed (s : Section) (others : List Section) : (s, 3) ∈ (sharedElf (s :: others)).sections.zipIdx :=
    List.mem_zipIdx_iff_getElem?.mpr rfl
  refine ⟨fun all => ?_, fun all => ?_, fun all => ?_⟩
  · obtain ⟨layout, file, computed, filed, addr, memsz, filesz⟩ :=
      exists_layout (show ((sharedElf [imageSection .nobits 4 4, imageSection .progbits 4 4]).computeLayout.toOption.bind
        fun layout => (computeFileLayout (sharedElf _) layout).toOption.map fun _ =>
          (layout.addr 3, layout.memsz, layout.filesz)) = some (12, 24, 24) by decide +kernel)
    have behind := all _ layout file computed filed _ 3 (listed _ _) (by decide +kernel) rfl
    omega
  · obtain ⟨layout, file, computed, filed, addr, memsz, filesz⟩ :=
      exists_layout (show ((sharedElf [imageSection .nobits 1 8]).computeLayout.toOption.bind
        fun layout => (computeFileLayout (sharedElf _) layout).toOption.map fun _ =>
          (layout.addr 3, layout.memsz, layout.filesz)) = some (20, 24, 16) by decide +kernel)
    have aligned := all _ layout file computed filed _ 3 (listed _ _) (by decide +kernel) (by decide)
    rw [addr] at aligned
    revert aligned
    decide
  · obtain ⟨layout, file, computed, filed, addr, memsz, filesz⟩ :=
      exists_layout (show ((sharedElf [imageSection .nobits 2 1]).computeLayout.toOption.bind
        fun layout => (computeFileLayout (sharedElf _) layout).toOption.map fun _ =>
          (layout.addr 3, layout.memsz, layout.filesz)) = some (16, 16, 16) by decide +kernel)
    have inside := all _ layout file computed filed _ 3 (listed _ _) (by decide +kernel)
    rw [addr, memsz] at inside
    revert inside
    decide

end KosTool.Elf2irx
