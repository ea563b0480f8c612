import KosTool.Model.Binary.IrxEmission
import KosTool.Soundness.EmittedLength
import KosTool.Soundness.InputReads
import KosTool.Soundness.PairedEntries
import Mathlib.Algebra.Order.BigOperators.Group.List
import Mathlib.Algebra.Order.Ring.Nat

/-! # The accesses of `elf2irx` to the file that it makes up

The layout has room for all that is emitted. A relocation is checked against its section, so that its word is in the file
if the section has bytes there. Register information is dropped, and sections of zero bytes have none: relocations for
words of these are patched, or read for a scratch word, at places that nothing has been checked against.
-/

namespace KosTool.Elf2irx

open ByteWord WordPatch Fallible Tracked Extent

namespace Prepared

/-- A relocation of the static pass: its section, its entry, and the LO16 of a HI16. -/
structure Site where
  target : ℕ
  entry : Reloc
  lo : Option Reloc

section Condition

variable (p : Prepared)

/-- The section has bytes in the image. -/
def hasBytes (i : ℕ) : Bool :=
  p.parsed.sections[i]?.any fun s => p.elf.inImage i s.toSection && s.type != .nobits

/-- The bytes at an offset of a section are in the output buffer. -/
def InOutput (target : ℕ) (offset : Word) (count : ℕ) : Prop := p.place target offset + count ≤ p.out.totalSize

def siteOf (target : ℕ) (table : List Reloc) (entry : Reloc) (k : ℕ) : Site :=
  ⟨target, entry, if entry.type = .hi16 then loBehind table entry k else none⟩

/-- The relocations of one table. -/
def sitesOf (s : FileSection) : List Site :=
  if p.patched s then
    (p.file.table s).zipIdx.flatMap fun (entry, k) =>
      if entry.type = .none then [] else [siteOf s.info.toNat (p.file.table s) entry k]
  else []

/-- The relocations of the static pass, in its order. -/
def sites : List Site := p.parsed.relSections.flatMap fun (s, _) => p.sitesOf s

/-- The symbol of the relocation has an address in the image. -/
def translates (site : Site) : Bool := (p.elf.relocationSymbolAddr p.layout site.entry).isOk

/-- The relocations that the static pass gets to: it dies at the first whose symbol has no address. -/
def reached : List Site := p.sites.takeWhile p.translates

/-- The words of the relocation are in the output buffer. -/
def SiteInOutput (site : Site) : Prop :=
  p.InOutput site.target site.entry.offset 4 ∧ ∀ lo, site.lo = some lo → p.InOutput site.target lo.offset 4

/-- The words that relocations are for in sections without bytes are in the output buffer: those that the static pass
gets to, and if it goes through, those that scratch words are made from. -/
structure PatchesInOutput : Prop where
  sites : ∀ site ∈ p.reached, p.hasBytes site.target = false → p.SiteInOutput site
  strays : p.reached = p.sites → ∀ stray ∈ p.strays, p.hasBytes stray.targetSecIdx = false →
    p.partnerPlace stray + 2 ≤ p.out.totalSize
  extraLos : p.reached = p.sites → ∀ extra ∈ p.extraLos, p.hasBytes extra.targetSecIdx = false →
    p.partnerPlace extra + 4 ≤ p.out.totalSize

end Condition

variable {p : Prepared}

section Room

theorem Sound.chained (sound : p.Sound) : p.out.Chained p.elf p.layout p.hasPadlo p.out.sections :=
  chained_of_fileLayoutFor sound.laid.out

theorem Sound.filed (sound : p.Sound) : p.layout.Filed p.elf (p.strays.length + p.extraLos.length) :=
  filed_of_layoutFor sound.laid.layout

theorem safe_touch {offset count : ℕ} (inside : offset + count ≤ p.out.totalSize) :
    Safe (p.touch offset count) fun _ => True := .touch inside

/-- Where the payload stands in the output buffer. -/
theorem Sound.payload (sound : p.Sound) : 116 ≤ p.out.allocOff ∧ p.out.allocOff + p.layout.filesz ≤ p.out.totalSize := by
  have chained := sound.chained
  have := chained.payload
  have := chained.names
  have := chained.headers
  have := chained.relocbase
  have := chained.symbols
  have := chained.strings
  have := chained.ending
  omega

/-- The bytes of a section that has some are in the output buffer. -/
theorem Sound.bytes (sound : p.Sound) {i : ℕ} {s : FileSection} (at_i : p.parsed.sections[i]? = some s)
    (inside : p.elf.inImage i s.toSection) (bytes : s.type ≠ .nobits) :
    p.out.allocOff + p.layout.addr i + s.size.toNat ≤ p.out.totalSize := by
  have filed := sound.filed.filed _ i (ElfFile.mem_elf at_i) inside bytes
  have payload := sound.payload
  omega

theorem safe_writeHeaders (sound : p.Sound) : Safe p.writeHeaders fun _ => True := by
  have payload := sound.payload
  have phoff := sound.chained.phoff
  refine (safe_touch (by omega)).bind fun _ _ => (safe_touch (by omega)).bind fun _ _ => safe_touch (by omega)

theorem safe_copySections (sound : p.Sound) : Safe p.copySections fun _ => True := by
  refine .loop fun (s, i) member => ?_
  have at_i : p.parsed.sections[i]? = some s := List.mem_zipIdx_iff_getElem?.mp member
  dsimp only
  split_ifs with copied
  · simp only [Elf.copied, Bool.and_eq_true, beq_iff_eq] at copied
    obtain ⟨⟨⟨kept, -⟩, program⟩, alloc⟩ := copied
    have bytes : s.type ≠ .nobits := by rw [program]; decide
    have source := sound.checked.sections s (List.mem_of_getElem? at_i) bytes
    refine (InputFile.safe_touch source).bind fun _ _ => safe_touch ?_
    exact sound.bytes at_i (Bool.and_eq_true_iff.mpr ⟨kept, alloc⟩) bytes
  · exact .pure trivial

theorem safe_copyIopmod (sound : p.Sound) : Safe p.copyIopmod fun _ => True := by
  obtain ⟨s, at_module, bytes⟩ := sound.checked.module
  have size : p.elf.iopmodSize = s.size.toNat := by
    rw [Elf.iopmodSize]
    have found : p.elf.sections[p.elf.iopmodIdx]? = some s.toSection :=
      (List.getElem?_map ..).trans (congrArg (Option.map _) at_module)
    rw [found]
    rfl
  have chained := sound.chained
  have room : p.out.iopmodOff + s.size.toNat ≤ p.out.totalSize := by
    have := chained.payload
    have := chained.iopmodOff
    have := sound.payload
    omega
  have source := sound.checked.sections s (List.mem_of_getElem? at_module) bytes
  rw [copyIopmod, at_module]
  dsimp only
  split_ifs with synth long
  · exact safe_touch room
  · have long : 8 ≤ s.size.toNat := long
    exact (InputFile.safe_touch source).bind fun _ _ => (safe_touch room).bind fun _ _ => safe_touch (by omega)
  · exact (InputFile.safe_touch source).bind fun _ _ => (safe_touch room).bind fun _ _ => .pure trivial

/-- The lengths of some names with their terminators. -/
def namesSize (names : List String) : ℕ := (names.map fun name => name.length + 1).sum

theorem safe_writeNames (sound : p.Sound) {cur : ℕ} {names : List String} (room : cur + namesSize names ≤ p.out.shstrSize) :
    Safe (p.writeNames cur names) fun ending => ending = cur + namesSize names := by
  induction names generalizing cur with
  | nil => exact .pure rfl
  | cons name rest ih =>
    have more : namesSize (name :: rest) = name.length + 1 + namesSize rest := rfl
    rw [more] at room
    have chained := sound.chained
    have inside : p.out.shstrtabOff + cur + (name.length + 1) ≤ p.out.totalSize := by
      have := chained.headers
      have := chained.relocbase
      have := chained.symbols
      have := chained.strings
      have := chained.ending
      omega
    rw [writeNames, List.foldlM_cons]
    refine ((safe_touch inside).bind fun _ _ => Safe.pure rfl).bind fun next same => ?_
    refine (ih (by omega)).mono fun ending reached => ?_
    omega

/-- The names are written in another order than they have been counted. -/
theorem namesSize_kept (p : Prepared) : namesSize p.keptNames = namesSize (p.out.sections.map (·.sec.name)) := by
  have perm : p.keptNames.Perm (p.out.sections.map (·.sec.name)) := by
    have parts := List.filter_append_perm (fun out : OutSection => decide (out.idx = p.parsed.iopmodIdx)) p.out.sections
    have same : (p.out.sections.filter fun out => decide (out.idx ≠ p.parsed.iopmodIdx)) =
        p.out.sections.filter fun out => !decide (out.idx = p.parsed.iopmodIdx) :=
      List.filter_congr fun out _ => decide_not
    rw [keptNames, same]
    exact parts.map _
  exact (perm.map _).sum_nat

theorem namesSize_append (first second : List String) : namesSize (first ++ second) = namesSize first + namesSize second := by
  rw [namesSize, List.map_append, List.sum_append]
  rfl

theorem safe_writeNameTable (sound : p.Sound) : Safe p.writeNameTable fun _ => True := by
  have chained := sound.chained
  have size : p.out.shstrSize = 1 + (namesSize p.keptNames + namesSize (if p.hasPadlo then [padloName] else []) +
      (namesSize [".shstrtab"] + namesSize [".symtab", ".strtab"])) := by
    rw [chained.shstrSize, namesSize_kept, ← namesSize_append, ← namesSize_append, ← namesSize_append]
    rfl
  have first : p.out.shstrtabOff + 1 ≤ p.out.totalSize := by
    have := chained.headers
    have := chained.relocbase
    have := chained.symbols
    have := chained.strings
    have := chained.ending
    omega
  refine (safe_touch first).bind fun _ _ => ?_
  have front : Safe (p.writeNames 1 (p.keptNames ++ (if p.hasPadlo then [padloName] else []) ++ [".shstrtab"])) _ :=
    safe_writeNames sound (by
      rw [namesSize_append, namesSize_append]
      omega)
  refine front.bind fun cur at_cur => safe_require.bind fun _ _ => ?_
  rw [namesSize_append, namesSize_append] at at_cur
  exact (safe_writeNames sound (by omega)).bind fun _ _ => safe_require.mono fun _ _ => trivial

theorem safe_writeSectionHeaders (sound : p.Sound) : Safe p.writeSectionHeaders fun _ => True := by
  have chained := sound.chained
  have shnum := chained.shnum
  have relocbase := chained.relocbase
  have symbols := chained.symbols
  have strings := chained.strings
  have ending := chained.ending
  have payload := sound.payload
  refine Safe.bind (Safe.loop fun k member => safe_touch ?_) fun _ _ => safe_touch (by omega)
  have below := List.mem_range.mp member
  omega

end Room

section Emitted

/-- The room of a relocation section that is kept. -/
theorem Sound.outSize (sound : p.Sound) {out : OutSection} (member : out ∈ p.out.sections) : ∃ s,
    p.parsed.sections[out.idx]? = some s ∧ out.sec = s.toSection ∧
      ElfFile.outputRelocationSize p.file p.strays p.extraLos out.idx s = .ok out.outSize := by
  obtain ⟨k, at_k⟩ := List.mem_iff_getElem?.mp member
  obtain ⟨⟨s, i⟩, at_k', through⟩ := getElem?_of_forall₂ (forall₂_of_mapM sound.laid.kept) at_k
  obtain ⟨outSize, size, through⟩ := bind_eq_ok.mp through
  cases pure_eq_ok.mp through
  have listed := (List.mem_filter.mp (List.mem_of_getElem? at_k')).1
  exact ⟨s, List.mem_zipIdx_iff_getElem?.mp listed, rfl, size⟩

/-- The offset of the module information, whatever its type. -/
theorem outOffset_of_module {elf : Elf} {layout : Layout} {iopmodOff allocOff cur : ℕ} {kept : List OutSection}
    {offsets : List ℕ} (through : outOffsets elf layout iopmodOff allocOff kept cur = .ok offsets) :
    ∀ entry ∈ kept.zip offsets, entry.1.idx = elf.iopmodIdx → entry.2 = iopmodOff := by
  induction kept generalizing cur offsets with
  | nil => exact nofun
  | cons out rest ih =>
    obtain ⟨⟨offset, next⟩, here, through⟩ := bind_eq_ok.mp through
    obtain ⟨others, tail, through⟩ := bind_eq_ok.mp through
    cases pure_eq_ok.mp through
    intro entry member same
    rcases List.mem_cons.mp member with rfl | later
    · rw [outOffsetOf, if_pos same] at here
      exact (congrArg Prod.fst (Except.ok.inj here)).symm
    · exact ih tail entry later same

/-- The room of a relocation section is in the output buffer. -/
theorem Sound.table (sound : p.Sound) {out : OutSection} {offset : ℕ} (member : (out, offset) ∈ p.out.sections.zip p.out.outOffset)
    (rel : out.sec.type = .rel) : offset + out.outSize ≤ p.out.totalSize := by
  have chained := sound.chained
  by_cases module : out.idx = p.elf.iopmodIdx
  · have same := outOffset_of_module chained.offsets (out, offset) member module
    have listed : out.outSize ∈ tableSizes p.out.sections :=
      List.mem_map.mpr ⟨out, List.mem_filter.mpr ⟨(List.of_mem_zip member).1, decide_eq_true rel⟩, rfl⟩
    have counted := List.le_sum_of_mem listed
    have := chained.iopmodOff
    have := sound.payload
    have := chained.names
    have := chained.headers
    have := chained.relocbase
    have := chained.symbols
    have := chained.strings
    have := chained.ending
    dsimp only at same
    omega
  · refine chained.parts_ordered.2 ⟨offset, out.outSize⟩ ?_
    refine List.mem_append_left _ (List.mem_append_right _ (List.mem_map.mpr ⟨(out, offset), ?_, rfl⟩))
    exact List.mem_filter.mpr ⟨member, decide_eq_true ⟨module, rel⟩⟩

/-- The entries that are emitted have been counted. -/
theorem length_emit_le (p : Prepared) {s : FileSection} {i outSize : ℕ} {name : String} {kept : List KeptRel} {used : List ℕ}
    (rel : s.type = .rel) (size : ElfFile.outputRelocationSize p.file p.strays p.extraLos i s = .ok outSize)
    (collected : p.keptRels s i (p.file.table s) = .ok kept) (pairs : Emission.pairAll kept name = .ok used) :
    (Emission.emit kept p.layout.padloAddr p.strays.length).length * 8 ≤ outSize := by
  have rels := forall₂_of_mapM collected
  have length : (Emission.emit kept p.layout.padloAddr p.strays.length).length ≤ _ :=
    Emission.length_emit_le fun c c' m => Emission.once_of_pairAll pairs
  have positions : (((p.file.table s).zipIdx.filter fun (entry, _) => relocationKeptForLoader entry.type).map
      Prod.snd).Nodup := by
    refine List.Nodup.sublist (List.filter_sublist.map Prod.snd) ?_
    rw [List.zipIdx_map_snd]
    exact List.nodup_range'
  have scratches := countP_kept_le rels positions
  have taken : kept.length = (p.file.table s).countP fun entry => relocationKeptForLoader entry.type := by
    rw [← rels.length_eq, ← List.countP_eq_length_filter]
    have whole := List.countP_map (p := fun entry : Reloc => relocationKeptForLoader entry.type) (f := Prod.fst)
      (l := (p.file.table s).zipIdx)
    rw [List.zipIdx_map_fst] at whole
    exact whole.symm
  rw [ElfFile.outputRelocationSize, if_neg (not_not.mpr rel)] at size
  obtain ⟨count, first, size⟩ := bind_eq_ok.mp size
  obtain ⟨total, second, size⟩ := bind_eq_ok.mp size
  cases checkedAddU32_eq_ok first
  cases checkedAddU32_eq_ok second
  cases checkedMulU32_eq_ok size
  omega

theorem safe_emitSection (sound : p.Sound) {out : OutSection} {offset : ℕ}
    (member : (out, offset) ∈ p.out.sections.zip p.out.outOffset) : Safe (p.emitSection out offset) fun _ => True := by
  obtain ⟨s, at_idx, sec, size⟩ := sound.outSize (List.of_mem_zip member).1
  rw [emitSection, at_idx]
  dsimp only
  split_ifs with rel
  · have room := sound.table member (by rw [sec]; exact rel)
    have source := sound.checked.sections s (List.mem_of_getElem? at_idx) (by rw [rel]; decide)
    refine (InputFile.safe_readTable source).bind fun table same => ?_
    subst same
    refine (Safe.ofExcept fun _ => id).bind fun kept collected => ?_
    refine (Safe.ofExcept fun _ => id).bind fun used pairs => ?_
    have length := length_emit_le p rel size collected pairs
    refine Safe.bind (Safe.loop fun k member => safe_touch ?_) fun _ _ => safe_require.mono fun _ _ => trivial
    have below := List.mem_range.mp member
    omega
  · exact .pure trivial

theorem safe_emitSections (sound : p.Sound) :
    Safe ((p.out.sections.zip p.out.outOffset).forM fun (out, offset) => p.emitSection out offset) fun _ => True :=
  .loop fun (_, _) member => safe_emitSection sound member

end Emitted

section Patched

variable {s : FileSection} {i : ℕ}

theorem readTable_result (file : InputFile) (s : FileSection) : (file.readTable s).result = .ok (file.table s) :=
  result_bind_eq_ok.mpr ⟨⟨⟩, result_forM fun _ _ => rfl, rfl⟩

/-- The accesses of one entry. -/
theorem inside_patch_iff (target : ℕ) (table : List Reloc) (entry : Reloc) (k : ℕ) :
    (p.patch target table entry k).Inside ↔ p.SiteInOutput (siteOf target table entry k) := by
  have word : (p.touch (p.place target entry.offset) 4).Inside ↔ p.InOutput target entry.offset 4 := inside_touch_iff
  have partner (lo : Reloc) : (p.touch (p.place target lo.offset) 4).Inside ↔ p.InOutput target lo.offset 4 :=
    inside_touch_iff
  have through (offset count : ℕ) : (p.touch offset count).result = .ok ⟨⟩ := rfl
  rw [patch, SiteInOutput, siteOf, inside_bind_iff, word]
  refine and_congr_right fun here => ?_
  simp only [through]
  cases type : entry.type with
  | hi16 =>
    rw [if_pos rfl]
    rcases behind : loBehind table entry k with _ | lo
    · simp [inside_pure]
    · simp only [inside_bind_iff, word, partner, here, through, Option.some.injEq]
      simp
  | mips16 | mips32 | rel32 | mips26 | lo16 => simp [word, here]
  | none | gprel16 | other => simp [inside_pure]

theorem patch_result (target : ℕ) (table : List Reloc) (entry : Reloc) (k : ℕ) :
    (p.patch target table entry k).result = .ok ⟨⟩ := by
  refine result_bind_eq_ok.mpr ⟨⟨⟩, rfl, ?_⟩
  cases entry.type with
  | hi16 => cases loBehind table entry k <;> rfl
  | _ => rfl

theorem applyRelocation_steps (target : ℕ) (table : List Reloc) (entry : Reloc) (k : ℕ) :
    Steps (p.applyRelocation target table entry k) p.translates p.SiteInOutput
      (if entry.type = .none then [] else [siteOf target table entry k]) := by
  rw [applyRelocation]
  split_ifs
  · exact .nil (inside_pure _) rfl
  · rcases symbol : p.elf.relocationSymbolAddr p.layout entry with message | addr
    · have stops : p.translates (siteOf target table entry k) = false := by
        rw [translates, siteOf, symbol]
        rfl
      refine .one ⟨fun goes => ?_, nofun⟩ (fun goes => ?_) fun _ => inside_ofExcept _
      · exact absurd (stops.symm.trans goes) Bool.false_ne_true
      · exact absurd (stops.symm.trans goes) Bool.false_ne_true
    · have goes : p.translates (siteOf target table entry k) = true := by
        rw [translates, siteOf, symbol]
        rfl
      refine .after (inside_ofExcept _) rfl (.one ?_ (fun _ => inside_patch_iff target table entry k) fun stops => ?_)
      · exact ⟨fun _ => patch_result target table entry k, fun _ => goes⟩
      · exact absurd (stops.symm.trans goes) Bool.false_ne_true

theorem apply_steps (sound : p.Sound) :
    Steps p.applyStaticRelocationAddends p.translates p.SiteInOutput p.sites := by
  refine .forM fun (s, i) member => ?_
  dsimp only
  rw [sitesOf]
  split_ifs with patched
  · refine .after (InputFile.safe_readTable (sound.checked.rel member)).inside (readTable_result p.file s) ?_
    exact .forM fun (entry, k) _ => applyRelocation_steps s.info.toNat (p.file.table s) entry k
  · exact .nil (inside_pure _) rfl

/-- A checked entry for a section that has bytes is for a word in the output buffer. -/
theorem Sound.word (sound : p.Sound) (member : (s, i) ∈ p.parsed.relSections) {entry : Reloc} (listed : entry ∈ p.file.table s)
    (some : entry.type ≠ .none) (bytes : p.hasBytes s.info.toNat = true) : p.InOutput s.info.toNat entry.offset 4 := by
  obtain ⟨target, at_target, inImage⟩ := (Option.any_eq_true _ _).mp bytes
  rw [Bool.and_eq_true, bne_iff_ne] at inImage
  obtain ⟨target', found, -, inside⟩ := sound.validated (s, i) member
  have same : p.elf.target? s.toSection = Option.some target.toSection :=
    (List.getElem?_map ..).trans (congrArg (Option.map _) at_target)
  cases same.symm.trans found
  have ends := inside entry listed some
  have room := sound.bytes at_target inImage.1 inImage.2
  rw [InOutput, place]
  change entry.offset.toNat + 4 ≤ target.size.toNat at ends
  omega

theorem Sound.site (sound : p.Sound) {site : Site} (member : site ∈ p.sites) (bytes : p.hasBytes site.target = true) :
    p.SiteInOutput site := by
  obtain ⟨⟨s, i⟩, kept, member⟩ := List.mem_flatMap.mp member
  have member : site ∈ p.sitesOf s := member
  rw [sitesOf] at member
  split_ifs at member with patched
  · obtain ⟨⟨entry, k⟩, at_k, member⟩ := List.mem_flatMap.mp member
    dsimp only at member
    split_ifs at member with none
    · nomatch member
    · cases List.mem_singleton.mp member
      refine ⟨sound.word kept (List.fst_mem_of_mem_zipIdx at_k) none bytes, fun lo behind => ?_⟩
      dsimp only [siteOf] at behind
      split_ifs at behind
      have test := List.find?_some behind
      rw [decide_eq_true_eq] at test
      refine sound.word kept (List.mem_of_mem_drop (List.mem_of_find?_eq_some behind)) ?_ bytes
      rw [test.1]
      decide
  · nomatch member

end Patched

section Padlo

/-- A scratch relocation's partner is an entry of a kept section. -/
theorem Sound.partner (sound : p.Sound) {partner : List Reloc → ℕ → Option ℕ}
    (found : ∀ table k m, partner table k = some m → ∃ entry, table[m]? = some entry ∧ entry.type ≠ .none)
    {scratch : Scratch} (member : scratch ∈ detectIn (p.parsed.tables p.file) partner)
    (bytes : p.hasBytes scratch.targetSecIdx = true) : p.partnerPlace scratch + 4 ≤ p.out.totalSize := by
  obtain ⟨⟨s, i, table⟩, listed, member⟩ := List.mem_flatMap.mp member
  obtain ⟨⟨s, i⟩, kept, same⟩ := List.mem_map.mp listed
  cases same
  obtain ⟨⟨k, m⟩, repeated, rfl⟩ := List.mem_map.mp member
  obtain ⟨-, paired, -⟩ := mem_repeats.mp repeated
  obtain ⟨entry, at_m, type⟩ := found _ k m paired
  have word := sound.word kept (List.mem_of_getElem? at_m) type bytes
  dsimp only [partnerPlace]
  rw [at_m]
  exact word

theorem exists_of_nextLo {table : List Reloc} {k m : ℕ} (next : nextLo table k = some m) :
    ∃ entry, table[m]? = some entry ∧ entry.type ≠ .none := by
  obtain ⟨sym, -, -, is_lo, -⟩ := nextLo_eq_some_iff.mp next
  obtain ⟨entry, at_m, type, -⟩ := entryMatches_iff.mp is_lo
  exact ⟨entry, at_m, by rw [type]; decide⟩

theorem exists_of_prevHi {table : List Reloc} {k m : ℕ} (prev : prevHi table k = some m) :
    ∃ entry, table[m]? = some entry ∧ entry.type ≠ .none := by
  obtain ⟨sym, -, -, is_hi, -⟩ := prevHi_eq_some_iff.mp prev
  obtain ⟨entry, at_m, type, -⟩ := entryMatches_iff.mp is_hi
  exact ⟨entry, at_m, by rw [type]; decide⟩

/-- The scratch words are in the payload. -/
theorem Sound.padlo (sound : p.Sound) {g : ℕ} (below : g < p.strays.length + p.extraLos.length) :
    p.out.padloOffset + g * 4 + 4 ≤ p.out.totalSize := by
  have some : 0 < p.strays.length + p.extraLos.length := by omega
  have offset := sound.chained.padloOffset (decide_eq_true some)
  have room := sound.filed.padlo some
  have payload := sound.payload
  omega

theorem padlo_steps (sound : p.Sound) : Steps p.initPadlo (fun _ => true)
    (fun step : Scratch × ℕ => p.partnerPlace step.1 + step.2 ≤ p.out.totalSize)
    (p.strays.zipIdx.flatMap (fun (stray, _) => [(stray, 2)]) ++ p.extraLos.zipIdx.flatMap fun (extra, _) => [(extra, 4)]) := by
  refine .bind (.forM fun (stray, i) member => ?_) (.forM fun (extra, i) member => ?_)
  · refine .one ⟨fun _ => rfl, fun _ => rfl⟩ (fun _ => ?_) nofun
    have bound := (List.getElem?_eq_some_iff.mp (List.mem_zipIdx_iff_getElem?.mp member)).1
    have word : (p.touch (p.out.padloOffset + i * 4) 4).Inside :=
      (safe_touch (sound.padlo (Nat.lt_add_right _ bound))).inside
    rw [inside_bind_iff]
    exact ⟨fun all => inside_touch_iff.mp all.1, fun here => ⟨inside_touch_iff.mpr here, fun _ _ => word⟩⟩
  · refine .one ⟨fun _ => rfl, fun _ => rfl⟩ (fun _ => ?_) nofun
    have bound := (List.getElem?_eq_some_iff.mp (List.mem_zipIdx_iff_getElem?.mp member)).1
    have room := sound.padlo (Nat.add_lt_add_left bound p.strays.length)
    have word : (p.touch (p.out.padloOffset + p.strays.length * 4 + i * 4) 4).Inside :=
      (safe_touch (by dsimp only at room ⊢; omega)).inside
    rw [inside_bind_iff]
    exact ⟨fun all => inside_touch_iff.mp all.1, fun here => ⟨inside_touch_iff.mpr here, fun _ _ => word⟩⟩

end Padlo

theorem initPadlo_inside_iff (sound : p.Sound) : p.initPadlo.Inside ↔
    (∀ stray ∈ p.strays, p.partnerPlace stray + 2 ≤ p.out.totalSize) ∧
      ∀ extra ∈ p.extraLos, p.partnerPlace extra + 4 ≤ p.out.totalSize := by
  have each (scratches : List Scratch) (count : ℕ) :
      (∀ step ∈ scratches.zipIdx.flatMap fun (scratch, _) => [(scratch, count)], p.partnerPlace step.1 + step.2 ≤ p.out.totalSize) ↔
        ∀ scratch ∈ scratches, p.partnerPlace scratch + count ≤ p.out.totalSize := by
    constructor
    · intro all scratch member
      obtain ⟨i, at_i⟩ := List.mem_iff_getElem?.mp member
      exact all (scratch, count) (List.mem_flatMap.mpr ⟨(scratch, i), List.mem_zipIdx_iff_getElem?.mpr at_i, List.mem_singleton_self _⟩)
    · intro all step member
      obtain ⟨⟨scratch, i⟩, listed, member⟩ := List.mem_flatMap.mp member
      cases List.mem_singleton.mp member
      exact all scratch (List.fst_mem_of_mem_zipIdx listed)
  rw [(padlo_steps sound).inside_iff_of_all fun _ => rfl, List.forall_mem_append, each, each]

/-- What comes behind the payload stays inside the buffers. -/
theorem safe_tail (sound : p.Sound) : Safe (p.copyIopmod >>= fun _ => p.writeNameTable >>= fun _ =>
    p.writeSectionHeaders >>= fun _ =>
      ((p.out.sections.zip p.out.outOffset).forM fun (out, outOffset) => p.emitSection out outOffset) >>= fun _ =>
        p.touch 0 p.out.totalSize) fun _ => True := by
  refine (safe_copyIopmod sound).bind fun _ _ => (safe_writeNameTable sound).bind fun _ _ => ?_
  refine (safe_writeSectionHeaders sound).bind fun _ _ => (safe_emitSections sound).bind fun _ _ => ?_
  exact safe_touch (Nat.zero_add _).le

theorem copySections_result (p : Prepared) : p.copySections.result = .ok ⟨⟩ := by
  refine result_forM fun (s, i) _ => ?_
  dsimp only
  split_ifs <;> rfl

/-- The emission stays inside the buffers exactly if the relocations for sections without bytes do. -/
theorem emitIrx_inside_iff (sound : p.Sound) : p.emitIrx.Inside ↔ p.PatchesInOutput := by
  have steps := apply_steps sound
  have words := initPadlo_inside_iff sound
  constructor
  · intro all
    have copied := (inside_bind_iff.mp all).2 ⟨⟩ rfl
    have patched := (inside_bind_iff.mp copied).2 ⟨⟩ (copySections_result p)
    obtain ⟨reached, rest⟩ := inside_bind_iff.mp patched
    have padlo (whole : p.reached = p.sites) : p.initPadlo.Inside :=
      (inside_bind_iff.mp (rest ⟨⟩ (steps.through.mpr (List.takeWhile_eq_self_iff.mp whole)))).1
    exact ⟨fun site member _ => steps.inside.mp reached site member,
      fun whole stray member _ => (words.mp (padlo whole)).1 stray member,
      fun whole extra member _ => (words.mp (padlo whole)).2 extra member⟩
  · intro patches
    refine inside_bind_iff.mpr ⟨(safe_writeHeaders sound).inside, fun _ _ => ?_⟩
    refine inside_bind_iff.mpr ⟨(safe_copySections sound).inside, fun _ _ => ?_⟩
    refine inside_bind_iff.mpr ⟨steps.inside.mpr fun site member => ?_, fun _ through => ?_⟩
    · rcases bytes : p.hasBytes site.target
      · exact patches.sites site member bytes
      · exact sound.site ((List.takeWhile_prefix _).subset member) bytes
    have whole : p.reached = p.sites := List.takeWhile_eq_self_iff.mpr (steps.through.mp through)
    refine inside_bind_iff.mpr ⟨words.mpr ⟨fun stray member => ?_, fun extra member => ?_⟩, fun _ _ => (safe_tail sound).inside⟩
    · rcases bytes : p.hasBytes stray.targetSecIdx
      · exact patches.strays whole stray member bytes
      · have inside := sound.partner (fun _ _ _ => exists_of_nextLo) (sound.strays ▸ member) bytes
        omega
    · rcases bytes : p.hasBytes extra.targetSecIdx
      · exact patches.extraLos whole extra member bytes
      · exact sound.partner (fun _ _ _ => exists_of_prevHi) (sound.extraLos ▸ member) bytes

end Prepared

/-- The tool stays inside its buffers exactly if the relocations for sections without bytes are for words of the output
file, for every file and every command line. -/
theorem elf2irx_accesses_inside_iff (files : String → Option (List Byte)) (argv : List String) : (main files argv).Inside ↔
    ∀ named contents p, options argv = .ok named → files named.inName = some contents → (prepare contents).result = .ok p →
      p.PatchesInOutput := by
  rw [main, inside_bind_iff]
  constructor
  · intro all named contents p parsed found prepared
    have rest := all.2 named parsed
    rw [found] at rest
    have sound := (prepare_safe contents).result p prepared
    exact (Prepared.emitIrx_inside_iff sound).mp ((inside_bind_iff.mp rest).2 p prepared)
  · intro patches
    refine ⟨inside_ofExcept _, fun named parsed => ?_⟩
    rcases found : files named.inName with _ | contents
    · exact inside_ofExcept _
    · refine inside_bind_iff.mpr ⟨(prepare_safe contents).inside, fun p prepared => ?_⟩
      have sound := (prepare_safe contents).result p prepared
      exact (Prepared.emitIrx_inside_iff sound).mpr (patches named contents p parsed found prepared)

section Shown

/-- The words of a section header: name, type, flags, address, offset, size, link, info, alignment and entry size. -/
def sectionHeader (name type flags offset size link info entsize : Word) : List Byte :=
  [name, type, flags, 0, offset, size, link, info, 0, entsize].flatMap le32

/-- A file of 320 bytes whose register information is the whole of it, with a relocation of its word at 316. -/
def reginfoFile : List Byte :=
  le32 0x464C457F ++ [1, 1, 1] ++ List.replicate 9 0 ++ [0x00080001, 1, 0, 0, 88, 0, 0x00000034, 0x00280000, 5].flatMap le32 ++
  [0, 0x2e, 0x69, 0x6f, 0x70, 0x6d, 0x6f, 0x64, 0, 0, 0, 0] ++ [0, 0, 0, 0, 316, 2].flatMap le32 ++
  sectionHeader 0 3 0 52 9 0 0 0 ++ sectionHeader 0 2 0 64 16 0 0 16 ++ sectionHeader 0 0x70000006 2 0 320 0 0 0 ++
  sectionHeader 0 9 0 80 8 1 2 8 ++ sectionHeader 1 0x70000080 0 0 0 0 0 0 ++ List.replicate 32 0

end Shown

/-- The word of the register information is read and written 15 bytes behind the end of the output buffer. -/
theorem elf2irx_accesses_outside : ¬∀ files argv, (main files argv).Inside := by
  intro all
  have outside : ((main (fun _ => some reginfoFile) ["in.elf", "out.irx"]).trace.all fun access => decide access.Inside) = false := by
    decide +kernel
  obtain ⟨access, member, test⟩ := List.all_eq_false.mp outside
  exact test (decide_eq_true (all _ _ access member))

end KosTool.Elf2irx
