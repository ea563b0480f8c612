import KosTool.Soundness.IrxWords

/-! # An IRX relocates like its ELF

The loader's rule on the emitted tables gives each word that the relocations name the value that the ABI has for the
symbols at the new addresses, with the pairs as they follow one another in the order of the offsets. All other bytes stay
those of the ELF.
-/

namespace KosTool.Elf2irx

open ByteWord WordPatch

section Spec

variable (elf : Elf) (irx : Irx)

/-- What the ABI has for the word of an entry, by the words of the input. A LO16 without a HI16 has no addend. -/
def Prescribed (symbol : Word) (input : Reloc → Word) (before : List Reloc) (entry : Reloc) (behind : List Reloc)
    (word : Word) : Prop :=
  match entry.type with
  | .mips16 => word = MipsAbi.r16 (input entry) symbol
  | .mips32 | .rel32 => word = MipsAbi.r32 (input entry) symbol
  | .mips26 => word = MipsAbi.r26 (input entry) symbol
  | .hi16 => ∀ lo, loBehind behind entry = some lo → word = MipsAbi.hi16 (input entry) (input lo) symbol
  | .lo16 => ∀ hi, hiBefore before entry = some hi → word = MipsAbi.lo16 (input hi) (input entry) symbol
  | _ => True

/-- The words that are not relocated: those relative to the global pointer, and a HI16 without a LO16. -/
def LeftAlone (entry : Reloc) (behind : List Reloc) : Prop :=
  entry.type = .gprel16 ∨ entry.type = .hi16 ∧ loBehind behind entry = none

/-- The loaded image at a base is that of the ELF, for an order of the entries: the words of the entries are what the ABI
has, where the target of a jump is one of a word, and what is left alone and all bytes that no entry is about are those of
the input. -/
structure Elf.Relocated (order : Section → List Reloc) (base : Word) : Prop where
  words : ∀ s i target before entry behind symbol, (s, i) ∈ elf.relSections → elf.target? s = some target →
    order s = before ++ entry :: behind → elf.symbolValue irx entry = some symbol →
    (entry.type = .mips26 → symbol.toNat % 4 + base.toNat % 4 < 4) →
    Prescribed (symbol + base) (inputWord target) before entry behind
      (rd32 (irx.loadcore base) (irx.addr s.info.toNat + entry.offset.toNat))
  idle : ∀ s i target before entry behind, (s, i) ∈ elf.relSections → elf.target? s = some target →
    order s = before ++ entry :: behind → LeftAlone entry behind →
    rd32 (irx.loadcore base) (irx.addr s.info.toNat + entry.offset.toNat) = inputWord target entry
  rest : ∀ t j y, (t, j) ∈ elf.sections.zipIdx → elf.inImage j t → j ≠ elf.iopmodIdx → y < t.size.toNat →
    (∀ s i entry, (s, i) ∈ elf.relSections → s.info.toNat = j → entry ∈ s.entries → entry.type ≠ .none →
      y < entry.offset.toNat ∨ entry.offset.toNat + 4 ≤ y) →
    irx.loadcore base (irx.addr j + y) = if t.type = .nobits then 0 else t.contents y

end Spec

namespace Conversion

variable {elf : Elf} {irx : Irx} {layout : Layout} {s target : Section} {i k : ℕ} {entry : Reloc}
  {before behind : List Reloc} {base : Word}

section Words

variable {symbol : Word}

/-- The words that have a value by the ABI get it. -/
theorem prescribed (conversion : Conversion elf irx layout) (kept : (s, i) ∈ elf.relSections)
    (known : elf.target? s = some target) (split : s.table = before ++ entry :: behind)
    (value : elf.symbolValue irx entry = some symbol)
    (aligned : entry.type = .mips26 → symbol.toNat % 4 + base.toNat % 4 < 4) :
    Prescribed (symbol + base) (inputWord target) before entry behind
      (rd32 (irx.loadcore base) (Elf.place layout s entry)) := by
  have at_k := Elf.getElem?_of_split split
  have loaded (typed : entry.type ≠ .none) := conversion.rd32_symbol kept known split typed value
  rw [staticWord] at loaded
  rw [Prescribed]
  cases type : entry.type with
  | none | gprel16 | other => exact trivial
  | mips16 =>
    dsimp only
    rw [conversion.rd32_alone kept at_k (.inl type) (by rw [Fix.patches, type]), loaded (by rw [type]; decide), type]
    dsimp only
    rw [addLow_addLow, r16_eq]
  | mips32 =>
    dsimp only
    rw [conversion.rd32_alone kept at_k (.inr (.inl type)) (by rw [Fix.patches, type]), loaded (by rw [type]; decide),
      type]
    dsimp only
    rw [MipsAbi.r32, BitVec.add_assoc, BitVec.add_comm]
  | rel32 =>
    dsimp only
    rw [conversion.rd32_alone kept at_k (.inr (.inr (.inl type))) (by rw [Fix.patches, type]),
      loaded (by rw [type]; decide), type]
    dsimp only
    rw [MipsAbi.r32, BitVec.add_assoc, BitVec.add_comm]
  | mips26 =>
    dsimp only
    rw [conversion.rd32_alone kept at_k (.inr (.inr (.inr type))) (by rw [Fix.patches, type]),
      loaded (by rw [type]; decide), type]
    dsimp only
    rw [addTarget_addTarget _ (aligned type), r26_eq]
  | hi16 =>
    intro lo found
    rw [conversion.rd32_hi16 kept known split type value found, hi16_eq]
  | lo16 =>
    intro hi found
    rw [conversion.rd32_lo16 kept known split type value found, lo16_eq]

/-- The words that are not relocated are those of the input. -/
theorem left_alone (conversion : Conversion elf irx layout) (kept : (s, i) ∈ elf.relSections)
    (known : elf.target? s = some target) (split : s.table = before ++ entry :: behind) (alone : LeftAlone entry behind) :
    rd32 (irx.loadcore base) (Elf.place layout s entry) = inputWord target entry := by
  have at_k := Elf.getElem?_of_split split
  rcases alone with type | ⟨type, unled⟩
  · have typed : entry.type ≠ .none := by rw [type]; decide
    rw [conversion.rd32_idle kept at_k typed (by rw [type]; decide), conversion.rd32_loaded kept known split typed,
      staticWord, type]
    intro fix fixed
    rw [Elf.fixAt, at_k, Option.bind_some, type] at fixed
    cases fixed
  · have typed : entry.type ≠ .none := by rw [type]; decide
    have next : nextLo s.table before.length = none := by
      cases next : nextLo s.table before.length with
      | none => rfl
      | some m =>
        obtain ⟨sym, -, -, is_lo, -⟩ := nextLo_eq_some_iff.mp next
        obtain ⟨lo, at_m, -⟩ := Elf.exists_reloc is_lo
        rw [nextLo_of_split split type, next, Option.bind_some, at_m] at unled
        cases unled
    rw [conversion.rd32_idle kept at_k typed (by rw [type]; decide), conversion.rd32_loaded kept known split typed,
      staticWord, type]
    · dsimp only
      rw [unled]
    · intro fix fixed
      rw [Elf.fixAt, at_k, Option.bind_some, type] at fixed
      dsimp only at fixed
      rw [next] at fixed
      cases fixed
      rfl

end Words

section Bytes

variable {t : Section} {j y : ℕ}

/-- A byte of a section that no entry is about is in none of the words of relocation. -/
theorem outside_of_untouched (conversion : Conversion elf irx layout) (member : (t, j) ∈ elf.sections.zipIdx)
    (inside : elf.inImage j t) (below : y < t.size.toNat)
    (untouched : ∀ s i entry, (s, i) ∈ elf.relSections → s.info.toNat = j → entry ∈ s.entries → entry.type ≠ .none →
      y < entry.offset.toNat ∨ entry.offset.toNat + 4 ≤ y)
    {spot : Elf.Spot} {p : ℕ} (here : elf.At layout spot p) : layout.addr j + y < p ∨ p + 4 ≤ layout.addr j + y := by
  have ready := conversion.ready
  have own : layout.Inside j t (layout.addr j + y) := ⟨Nat.le_add_right _ _, by omega⟩
  cases spot with
  | entry i k =>
    obtain ⟨s, entry, kept, at_k, typed, rfl⟩ := here
    rcases eq_or_ne s.info.toNat j with same | other
    · have listed := (sortRelocations_perm s.entries).mem_iff.mp (List.mem_iff_getElem?.mpr ⟨k, at_k⟩)
      have apart := untouched s i entry kept same listed typed
      rw [Elf.place, same]
      omega
    · obtain ⟨t', member', copied, bound⟩ := ready.inside kept at_k typed
      have apart := ready.fits.apart t' _ t j member' member (Elf.inImage_of_copied copied) inside other
        (layout.addr j + y)
      by_contra overlap
      rw [not_or, Elf.place] at overlap
      exact apart ⟨by omega, by omega⟩ own
  | padLo g =>
    obtain ⟨bound, rfl⟩ := here
    exact ready.fits.padlo t j member inside g (by omega) _ own
  | padHi g =>
    obtain ⟨bound, rfl⟩ := here
    rw [Nat.add_assoc, ← Nat.add_mul]
    exact ready.fits.padlo t j member inside _ (by omega) _ own

/-- The section of a byte of the image is one whose bytes are copied, or one of zero bytes. -/
theorem copied_or_nobits (conversion : Conversion elf irx layout) (member : (t, j) ∈ elf.sections.zipIdx)
    (inside : elf.inImage j t) (other : j ≠ elf.iopmodIdx) : elf.copied j t ∨ t.type = .nobits := by
  obtain ⟨keep, alloc⟩ := Bool.and_eq_true_iff.mp inside
  have marked := List.all_eq_true.mp (orDie_eq_ok conversion.marked) (t, j) member
  have index : (j == elf.iopmodIdx) = false := beq_eq_false_iff_ne.mpr other
  dsimp only at marked
  rw [index, alloc] at marked
  have info : t.type ≠ .reginfo := by
    intro same
    rw [Elf.keep, index, same] at keep
    nomatch keep
  rcases Bool.or_eq_true_iff.mp marked with either | zeros
  · rcases Bool.or_eq_true_iff.mp either with either | bytes
    · simp [info] at either
    · left
      rw [Elf.copied, keep, bytes, alloc, bne, index]
      rfl
  · exact .inr (beq_iff_eq.mp zeros)

/-- A byte that no entry is about is that of the input. -/
theorem untouched_byte (conversion : Conversion elf irx layout) (member : (t, j) ∈ elf.sections.zipIdx)
    (inside : elf.inImage j t) (other : j ≠ elf.iopmodIdx) (below : y < t.size.toNat)
    (untouched : ∀ s i entry, (s, i) ∈ elf.relSections → s.info.toNat = j → entry ∈ s.entries → entry.type ≠ .none →
      y < entry.offset.toNat ∨ entry.offset.toNat + 4 ≤ y) :
    irx.loadcore base (layout.addr j + y) = if t.type = .nobits then 0 else t.contents y := by
  have ready := conversion.ready
  have outside {spot : Elf.Spot} {p : ℕ} (here : elf.At layout spot p) :=
    conversion.outside_of_untouched member inside below untouched here
  have payload : irx.payload (layout.addr j + y) = elf.copySections layout (layout.addr j + y) := by
    rw [conversion.payload, Elf.initPadlo_eq, run_outside, run_outside]
    · intro patch listed
      obtain ⟨⟨s, i⟩, kept, own⟩ := List.mem_flatMap.mp listed
      obtain ⟨⟨entry, at_entry, typed, place⟩, -⟩ := staticPatches_reach own
      obtain ⟨k, at_k⟩ := List.mem_iff_getElem?.mp at_entry
      have here : elf.At layout (.entry i k) patch.place := ⟨s, entry, kept, at_k, typed, place⟩
      exact outside here
    · intro patch listed
      obtain ⟨⟨spot, here, -⟩, -⟩ := Elf.pad_reach listed
      exact outside here
  have loaded : irx.loaded (layout.addr j + y) = if t.type = .nobits then 0 else t.contents y := by
    rcases conversion.copied_or_nobits member inside other with copied | zeros
    · have bytes : t.type ≠ .nobits := by
        simp only [Elf.copied, Bool.and_eq_true, beq_iff_eq] at copied
        rw [copied.1.2]
        decide
      have top := ready.fits.filed t j member inside bytes
      have filed : layout.addr j + y < irx.filesz := by
        rw [conversion.filesz]
        omega
      rw [Irx.loaded, if_pos filed, if_neg bytes, payload, Elf.copySections_inside ready.fits member copied below]
    · rw [Irx.loaded, if_pos zeros, payload, Elf.copySections_outside, ite_self]
      intro t' j' member' copied' within
      rcases eq_or_ne j' j with rfl | apart
      · have at_j := List.mem_zipIdx_iff_getElem?.mp member
        have at_j' := List.mem_zipIdx_iff_getElem?.mp member'
        obtain rfl := Option.some.inj (at_j.symm.trans at_j')
        simp only [Elf.copied, Bool.and_eq_true, beq_iff_eq] at copied'
        rw [zeros] at copied'
        cases copied'.1.2
      · exact ready.fits.apart t' j' t j member' member (Elf.inImage_of_copied copied') inside apart _ within
          ⟨Nat.le_add_right _ _, by omega⟩
  rw [conversion.loadcore_eq, run_outside, loaded]
  intro patch listed
  obtain ⟨s, i, k, fix, spot, -, -, -, -, here⟩ := exists_of_mem_patches listed
  exact outside here

end Bytes

theorem addr_eq (conversion : Conversion elf irx layout) (j : ℕ) : irx.addr j = layout.addr j := by
  rw [Irx.addr, conversion.outAddr]
  rfl

end Conversion

section Shown

variable (words : List Word) (relocs : List (Word × Word)) (symbol : Symbol)

/-- A section of bytes, 0 behind them. -/
def shownSection (name : String) (type : SectionType) (flags link info entsize : Word) (bytes : List Byte) : Section where
  name
  type
  flags
  size := BitVec.ofNat 32 bytes.length
  link
  info
  addralign := 4
  entsize
  contents := overlay bytes fun _ => 0

/-- The relocations of the program. -/
def shownRel : Section :=
  shownSection ".rel.text" .rel 0 3 1 8 (relocs.flatMap fun (offset, info) => le32 offset ++ le32 info)

/-- An input of three words of program with relocations of them, all for the symbol 1. -/
def shownInput : Input where
  sections := [
    shownSection "" .null 0 0 0 0 [],
    shownSection ".text" .progbits 6 0 0 0 (words.flatMap le32),
    shownRel relocs,
    shownSection ".symtab" .symtab 0 0 0 16 []]
  symbols := [⟨"", 0, 0⟩, symbol]

/-- The input as it is parsed: the module information is made up. -/
def shownElf : Elf where
  sections := (shownInput words relocs symbol).sections ++ [synthIopmod]
  symbols := (shownInput words relocs symbol).symbols
  iopmodIdx := 4
  symtabIdx := some 3

theorem parse_shown :
    parseSectionHeaders (shownInput words relocs symbol) = .ok (shownElf words relocs symbol) := by
  have aligned : ((shownInput words relocs symbol).sections.all fun s =>
      s.addralign = 0 ∨ isPowerOfTwoU32 s.addralign) = true := by
    change ([4#32, 4#32, 4#32, 4#32].all fun addralign => addralign = 0 ∨ isPowerOfTwoU32 addralign) = true
    decide
  rw [parseSectionHeaders, aligned]
  rfl

theorem relSections_shown : (shownElf words relocs symbol).relSections = [(shownRel relocs, 2)] := by
  simp only [Elf.relSections, shownElf, shownInput, shownRel, shownSection, List.cons_append, List.nil_append,
    List.zipIdx_cons, List.zipIdx_nil, List.filter_cons, List.filter_nil]
  simp [Elf.keep, Elf.target?, synthIopmod, Section.alloc]

/-- A conversion that goes through. -/
theorem exists_irx {input : Input} (accepted : (elf2irx input).toOption.isSome = true) :
    ∃ irx, elf2irx input = .ok irx := by
  obtain ⟨irx, there⟩ := Option.isSome_iff_exists.mp accepted
  exact ⟨irx, Fallible.eq_ok_of_toOption there⟩

end Shown

/-- The loader makes of the image what the ABI has for the entries in the order of their offsets. -/
theorem irx_relocates {input : Input} {elf : Elf} {irx : Irx} (parsed : parseSectionHeaders input = .ok elf)
    (accepted : elf2irx input = .ok irx) (placed : elf.WellPlaced) (base : Word) :
    elf.Relocated irx Section.table base ∧
      ∀ s i, (s, i) ∈ elf.relSections → s.table.Perm s.entries ∧ Ascending s.table := by
  obtain ⟨layout, conversion⟩ := exists_conversion parsed accepted placed
  refine ⟨⟨?_, ?_, ?_⟩, fun s i _ => ⟨sortRelocations_perm s.entries, sortRelocations_ascending s.entries⟩⟩
  · intro s i target before entry behind symbol kept known split value aligned
    rw [conversion.addr_eq]
    exact conversion.prescribed kept known split value aligned
  · intro s i target before entry behind kept known split alone
    rw [conversion.addr_eq]
    exact conversion.left_alone kept known split alone
  · intro t j y member inside other below untouched
    rw [conversion.addr_eq]
    exact conversion.untouched_byte member inside other below untouched

/-- A HI16 with two LO16 entries, of which the first in the table is the second in the program. -/
def carryRelocs : List (Word × Word) := [(0, 0x105), (8, 0x106), (4, 0x106)]

/-- A program in which the low halves carry. -/
def carryInput : Input := shownInput [0, 0, 0x8000] carryRelocs ⟨"a", 0x8000, 1⟩

def carryElf : Elf := shownElf [0, 0, 0x8000] carryRelocs ⟨"a", 0x8000, 1⟩

theorem carry_kept {s : Section} {i : ℕ} (kept : (s, i) ∈ carryElf.relSections) : s = shownRel carryRelocs ∧ i = 2 := by
  rw [carryElf, relSections_shown, List.mem_singleton, Prod.mk.injEq] at kept
  exact kept

theorem carry_placed : carryElf.WellPlaced := by
  refine ⟨fun s i kept => ?_, by decide +kernel⟩
  obtain ⟨rfl, rfl⟩ := carry_kept kept
  exact ⟨_, rfl, by decide +kernel⟩

/-- The loader on a program in which the low halves carry. -/
theorem irx_relocates_carry : ∃ irx, elf2irx carryInput = .ok irx ∧ carryElf.Relocated irx Section.table 0x12344 := by
  obtain ⟨irx, accepted⟩ := exists_irx (show (elf2irx carryInput).toOption.isSome = true by decide +kernel)
  exact ⟨irx, accepted, (irx_relocates (parse_shown ..) accepted carry_placed 0x12344).1⟩

/-- Every symbol of a relocation has a section. -/
def Elf.Defined (elf : Elf) : Prop := ∀ s i entry symbol, (s, i) ∈ elf.relSections → entry ∈ s.entries →
  entry.type ≠ .none → elf.symbols[entry.sym]? = some symbol → symbol.shndx ≠ 0

/-- Every HI16 has a LO16 behind it in its table. -/
def Elf.Paired (elf : Elf) : Prop := ∀ s i before entry behind, (s, i) ∈ elf.relSections →
  s.entries = before ++ entry :: behind → entry.type = .hi16 → loBehind behind entry ≠ none

theorem carry_defined : carryElf.Defined := by
  intro s i entry symbol kept member typed known
  obtain ⟨rfl, rfl⟩ := carry_kept kept
  have one : ∀ entry ∈ (shownRel carryRelocs).entries, entry.sym = 1 := by decide +kernel
  rw [one entry member] at known
  cases known
  exact nofun

theorem carry_paired : carryElf.Paired := by
  intro s i before entry behind kept split type
  obtain ⟨rfl, rfl⟩ := carry_kept kept
  have entries : (shownRel carryRelocs).entries = [⟨0, .hi16, 1⟩, ⟨8, .lo16, 1⟩, ⟨4, .lo16, 1⟩] := by decide +kernel
  rw [entries] at split
  cases before with
  | nil =>
    obtain ⟨rfl, rfl⟩ := List.cons.inj split
    decide
  | cons first rest =>
    have member : entry ∈ rest ++ entry :: behind := List.mem_append_right _ List.mem_cons_self
    have low : ∀ entry ∈ [(⟨8, .lo16, 1⟩ : Reloc), ⟨4, .lo16, 1⟩], entry.type = .lo16 := by decide
    cases type.symm.trans (low entry ((List.cons.inj split).2 ▸ member))

/-- An undefined symbol and a HI16 without a LO16 are accepted, and the pairs are not those of the input's order. -/
theorem irx_not_rejected :
    (¬∀ input elf irx, parseSectionHeaders input = .ok elf → elf2irx input = .ok irx → elf.Defined) ∧
    (¬∀ input elf irx, parseSectionHeaders input = .ok elf → elf2irx input = .ok irx → elf.Paired) ∧
    ¬∀ input elf irx base, parseSectionHeaders input = .ok elf → elf2irx input = .ok irx → elf.Defined → elf.Paired →
      elf.Relocated irx Section.entries base := by
  refine ⟨fun all => ?_, fun all => ?_, fun all => ?_⟩
  · obtain ⟨irx, accepted⟩ :=
      exists_irx (show (elf2irx (shownInput [0] [(0, 0x102)] ⟨"u", 0, 0⟩)).toOption.isSome = true by decide +kernel)
    have listed := List.mem_singleton_self (shownRel [(0, 0x102)], 2)
    rw [← relSections_shown] at listed
    exact all _ _ irx (parse_shown ..) accepted _ _ ⟨0, .mips32, 1⟩ _ listed (by decide +kernel) nofun rfl rfl
  · obtain ⟨irx, accepted⟩ :=
      exists_irx (show (elf2irx (shownInput [0] [(0, 0x105)] ⟨"a", 0, 1⟩)).toOption.isSome = true by decide +kernel)
    have listed := List.mem_singleton_self (shownRel [(0, 0x105)], 2)
    rw [← relSections_shown] at listed
    exact all _ _ irx (parse_shown ..) accepted _ _ [] ⟨0, .hi16, 1⟩ [] listed (by decide +kernel) rfl rfl
  · obtain ⟨irx, accepted⟩ := exists_irx (show (elf2irx carryInput).toOption.isSome = true by decide +kernel)
    have computed : ((elf2irx carryInput).toOption.map fun irx => (irx.addr 1, rd32 (irx.loadcore 0) 0)) =
        some (0, 1#32) := by decide +kernel
    rw [accepted] at computed
    obtain ⟨addr, word⟩ := Prod.mk.inj (Option.some.inj computed)
    have listed := List.mem_singleton_self (shownRel carryRelocs, 2)
    rw [← relSections_shown] at listed
    have relocated := all carryInput carryElf irx 0 (parse_shown ..) accepted carry_defined carry_paired
    have entries : (shownRel carryRelocs).entries = [] ++ ⟨0, .hi16, 1⟩ :: [⟨8, .lo16, 1⟩, ⟨4, .lo16, 1⟩] := by
      decide +kernel
    have value : carryElf.symbolValue irx ⟨0, .hi16, 1⟩ = some 0x8000#32 := by
      have inside : (carryElf.sections[1]?.filter fun s => carryElf.inImage 1 s).isSome = true := by decide +kernel
      obtain ⟨text, known⟩ := Option.isSome_iff_exists.mp inside
      change ((carryElf.sections[1]?.filter fun s => carryElf.inImage 1 s).map fun _ =>
        BitVec.ofNat 32 (irx.addr 1) + 0x8000#32) = _
      rw [known, addr]
      rfl
    have prescribed := relocated.words _ _ _ _ _ _ _ listed rfl entries value nofun _ rfl
    change rd32 (irx.loadcore 0) (irx.addr 1 + 0) = _ at prescribed
    rw [addr, word] at prescribed
    revert prescribed
    decide +kernel

end KosTool.Elf2irx
