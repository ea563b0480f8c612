import KosTool.Model.Binary.IrxPlan
import KosTool.Soundness.IrxFileLayout

/-! # The passes of `elf2irx` stay inside the input

Each pass reads the ranges that the parser has checked: the section headers, the bytes of the sections that have bytes,
and in them the strings, symbols and entries. The sort permutes entries inside the sections, so that it changes no range.
-/

namespace KosTool.Elf2irx

open ByteWord WordPatch Fallible Tracked

theorem safe_require {condition : Bool} {message : String} : Safe (require condition message) fun _ => condition = true :=
  .ofExcept fun ⟨⟩ through => orDie_eq_ok through

/-- A pass that dies accesses nothing. -/
theorem safe_die {α : Type} {post : α → Prop} (message : String) : Safe (.ofExcept (.error message) : Tool α) post :=
  .ofExcept nofun

theorem safe_discard {α : Type} {pass : Tool α} {post : α → Prop} (safe : Safe pass post) :
    Safe (discard pass) fun _ => True := by
  have same : discard pass = pass >>= fun _ => Pure.pure ⟨⟩ := by
    rw [Functor.discard, map_const]
    exact map_eq_pure_bind _ _
  rw [same]
  exact safe.bind fun _ _ => .pure trivial

namespace InputFile

variable {file : InputFile} {offset count : ℕ}

theorem safe_touch (inside : offset + count ≤ file.size) : Safe (file.touch offset count) fun _ => True := .touch inside

theorem safe_rd8 (inside : offset + 1 ≤ file.size) : Safe (file.rd8 offset) fun _ => True :=
  (safe_touch inside).bind fun _ _ => .pure trivial

theorem safe_rd16 (inside : offset + 2 ≤ file.size) : Safe (file.rd16 offset) fun _ => True :=
  (safe_touch inside).bind fun _ _ => .pure trivial

theorem safe_rd32 (inside : offset + 4 ≤ file.size) : Safe (file.rd32 offset) fun _ => True :=
  (safe_touch inside).bind fun _ _ => .pure trivial

theorem safe_load (inside : offset + count ≤ file.size) : Safe (file.load offset count) fun bytes => bytes.length = count :=
  (safe_touch inside).bind fun _ _ => .pure (length_slice _ _ _)

theorem safe_store {contents : List Byte} (inside : offset + contents.length ≤ file.size) :
    Safe (file.store offset contents) fun stored => stored.size = file.size :=
  (safe_touch inside).bind fun _ _ => .pure rfl

theorem safe_requireInputRange {size : ℕ} {what : String} :
    Safe (file.requireInputRange offset size what) fun _ => offset + size ≤ file.size := by
  refine safe_require.mono fun _ holds => ?_
  obtain ⟨low, room⟩ := of_decide_eq_true holds
  omega

theorem boundedStrlen_le (file : InputFile) (offset maxlen : ℕ) : file.boundedStrlen offset maxlen ≤ maxlen := by
  rw [boundedStrlen]
  cases found : (List.range maxlen).find? fun n => decide (file.bytes (offset + n) = 0) with
  | none => exact le_rfl
  | some n => exact (List.mem_range.mp (List.mem_of_find?_eq_some found)).le

/-- A string is read up to its end or that of its table. -/
theorem safe_inputStringLength {tableOffset tableSize stringOffset : Word} {what : String}
    (table : tableOffset.toNat + tableSize.toNat ≤ file.size) :
    Safe (file.inputStringLength tableOffset tableSize stringOffset what) fun length =>
      stringOffset.toNat + length < tableSize.toNat := by
  refine safe_require.bind fun _ starts => ?_
  have starts : stringOffset.toNat < tableSize.toNat := of_decide_eq_true starts
  have available : (tableSize - stringOffset).toNat = tableSize.toNat - stringOffset.toNat :=
    BitVec.toNat_sub_of_le (BitVec.le_def.mpr starts.le)
  have fits := file.boundedStrlen_le (tableOffset.toNat + stringOffset.toNat) (tableSize - stringOffset).toNat
  refine (safe_touch ?_).bind fun _ _ => safe_require.bind fun _ terminated => .pure ?_
  · have less := Nat.min_le_right (file.boundedStrlen (tableOffset.toNat + stringOffset.toNat) (tableSize - stringOffset).toNat + 1)
      (tableSize - stringOffset).toNat
    omega
  · have other := of_decide_eq_true terminated
    omega

end InputFile

section Parser

variable {file : InputFile}

/-- The bytes of a section that has some are in a file of a size. -/
def FileSection.Within (s : FileSection) (size : ℕ) : Prop := s.type ≠ .nobits → s.offset.toNat + s.size.toNat ≤ size

theorem safe_parseElfHeader (large : 52 ≤ file.size) : Safe (parseElfHeader file) fun header =>
    header.shoff.toNat + header.shnum * 40 ≤ file.size := by
  refine (InputFile.safe_rd32 (by omega)).bind fun magic _ => safe_require.bind fun _ _ => ?_
  refine (InputFile.safe_rd8 (by omega)).bind fun elfClass _ => safe_require.bind fun _ _ => ?_
  refine (InputFile.safe_rd8 (by omega)).bind fun data _ => safe_require.bind fun _ _ => ?_
  refine (InputFile.safe_rd8 (by omega)).bind fun version _ => safe_require.bind fun _ _ => ?_
  refine (InputFile.safe_rd16 (by omega)).bind fun type _ => ?_
  refine (InputFile.safe_rd16 (by omega)).bind fun machine _ => ?_
  refine (InputFile.safe_rd32 (by omega)).bind fun entry _ => ?_
  refine (InputFile.safe_rd32 (by omega)).bind fun phoff _ => ?_
  refine (InputFile.safe_rd32 (by omega)).bind fun shoff _ => ?_
  refine (InputFile.safe_rd32 (by omega)).bind fun flags _ => ?_
  refine (InputFile.safe_rd16 (by omega)).bind fun ehsize _ => ?_
  refine (InputFile.safe_rd16 (by omega)).bind fun shentsize _ => ?_
  refine (InputFile.safe_rd16 (by omega)).bind fun shnum _ => ?_
  refine (InputFile.safe_rd16 (by omega)).bind fun shstrndx _ => ?_
  refine safe_require.bind fun _ _ => safe_require.bind fun _ _ => safe_require.bind fun _ entries => ?_
  refine safe_require.bind fun _ _ => safe_require.bind fun _ _ => safe_require.bind fun _ _ => ?_
  refine InputFile.safe_requireInputRange.bind fun _ inside => .pure ?_
  rw [beq_iff_eq] at entries
  rwa [entries] at inside

theorem safe_requireData {type offset size : Word} : Safe (requireData file type offset size) fun _ =>
    SectionType.ofWord type ≠ .nobits → offset.toNat + size.toNat ≤ file.size := by
  rw [requireData]
  split_ifs with zeros
  · exact InputFile.safe_requireInputRange.mono fun _ inside _ => inside
  · exact .pure fun bytes => absurd bytes zeros

theorem safe_parseSectionHeader {header : ElfHeader} {i : ℕ} (table : header.shoff.toNat + header.shnum * 40 ≤ file.size)
    (inside : i < header.shnum) : Safe (parseSectionHeader file header i) fun s => s.Within file.size := by
  refine (InputFile.safe_rd32 (by omega)).bind fun shName _ => ?_
  refine (InputFile.safe_rd32 (by omega)).bind fun type _ => ?_
  refine (InputFile.safe_rd32 (by omega)).bind fun flags _ => ?_
  refine (InputFile.safe_rd32 (by omega)).bind fun addr _ => ?_
  refine (InputFile.safe_rd32 (by omega)).bind fun offset _ => ?_
  refine (InputFile.safe_rd32 (by omega)).bind fun size _ => ?_
  refine (InputFile.safe_rd32 (by omega)).bind fun link _ => ?_
  refine (InputFile.safe_rd32 (by omega)).bind fun info _ => ?_
  refine (InputFile.safe_rd32 (by omega)).bind fun addralign _ => ?_
  refine (InputFile.safe_rd32 (by omega)).bind fun entsize _ => ?_
  exact safe_require.bind fun _ _ => safe_requireData.bind fun _ within => .pure within

theorem safe_resolveName {shstr s : FileSection} {i : ℕ} (table : shstr.offset.toNat + shstr.size.toNat ≤ file.size)
    (within : s.Within file.size) : Safe (resolveName file shstr i s) fun named => named.Within file.size := by
  refine (InputFile.safe_inputStringLength table).bind fun n inside => safe_require.bind fun _ _ => ?_
  exact (InputFile.safe_load (by omega)).bind fun name _ => .pure within

/-- What the parser has found in a file of a size. -/
structure ElfFile.Checked (parsed : ElfFile) (size : ℕ) : Prop where
  sections : ∀ s ∈ parsed.sections, s.Within size
  module : ∃ s, parsed.sections[parsed.iopmodIdx]? = some s ∧ s.type ≠ .nobits
  symtab : ∀ k, parsed.symtabIdx = some k → ∃ s, parsed.sections[k]? = some s ∧ s.type = .symtab

theorem checked_of_findSections {size : ℕ} {entry : Word} {sections : List FileSection} {parsed : ElfFile}
    (large : 52 ≤ size) (within : ∀ s ∈ sections, s.Within size) (through : findSections entry sections = .ok parsed) :
    parsed.Checked size := by
  have symtab (k : ℕ) (head : ((List.range sections.length).filter fun i =>
      (sections[i]?.map (·.type)) == some .symtab).head? = some k) : ∃ s, sections[k]? = some s ∧ s.type = .symtab := by
    have member := (List.mem_filter.mp (List.mem_of_head? head)).2
    exact Option.map_eq_some_iff.mp (beq_iff_eq.mp member)
  obtain ⟨⟨⟩, -, through⟩ := bind_eq_ok.mp through
  rcases named : lastNamed (sections.map (·.toSection)) ".iopmod" with _ | i
  · rw [named] at through
    obtain ⟨⟨⟩, -, through⟩ := bind_eq_ok.mp through
    cases pure_eq_ok.mp through
    refine ⟨?_, ⟨synthSection, List.getElem?_concat_length, by decide⟩, fun k head => ?_⟩
    · intro s member
      rcases List.mem_append.mp member with member | member
      · exact within s member
      · cases List.mem_singleton.mp member
        intro _
        exact le_trans (by decide : 0 + 27 ≤ 52) large
    · obtain ⟨s, at_k, type⟩ := symtab k head
      have bound := (List.getElem?_eq_some_iff.mp at_k).1
      exact ⟨s, (List.getElem?_append_left bound).trans at_k, type⟩
  · rw [named] at through
    obtain ⟨⟨⟩, bytes, through⟩ := bind_eq_ok.mp through
    cases pure_eq_ok.mp through
    refine ⟨within, ?_, symtab⟩
    have inside : i < sections.length := by
      have member := List.mem_of_find?_eq_some named
      rw [List.length_map] at member
      exact List.mem_range.mp (List.mem_reverse.mp member)
    refine ⟨sections[i], List.getElem?_eq_getElem inside, fun zeros => ?_⟩
    have other := bne_iff_ne.mp (orDie_eq_ok bytes)
    rw [List.getElem?_eq_getElem inside, Option.map_some, zeros] at other
    exact other rfl

theorem safe_parseSectionHeadersAt {header : ElfHeader} (large : 52 ≤ file.size)
    (table : header.shoff.toNat + header.shnum * 40 ≤ file.size) :
    Safe (parseSectionHeadersAt file header) fun parsed => parsed.Checked file.size := by
  have headers : Safe ((List.range header.shnum).mapM (parseSectionHeader file header)) fun sections =>
      ∀ s ∈ sections, s.Within file.size :=
    .mapM fun i member => safe_parseSectionHeader table (List.mem_range.mp member)
  refine headers.bind fun sections within => ?_
  split
  · exact safe_die _
  · rename_i shstr at_shstr
    refine safe_require.bind fun _ strings => ?_
    have strings : shstr.type = .strtab := beq_iff_eq.mp strings
    have names := within shstr (List.mem_of_getElem? at_shstr) (by rw [strings]; decide)
    refine Safe.bind (Safe.mapM fun entry member => safe_resolveName names ?_) fun sections within =>
      .ofExcept fun parsed through => checked_of_findSections large within through
    exact within entry.1 (List.fst_mem_of_mem_zipIdx member)

theorem safe_parseSymbol {symtab strtab : FileSection} {i : ℕ} (symbols : symtab.offset.toNat + (i + 1) * 16 ≤ file.size)
    (strings : strtab.offset.toNat + strtab.size.toNat ≤ file.size) :
    Safe (parseSymbol file symtab strtab i) fun _ => True := by
  refine (InputFile.safe_rd32 (by omega)).bind fun stName _ => ?_
  refine (InputFile.safe_rd32 (by omega)).bind fun value _ => ?_
  refine (InputFile.safe_rd32 (by omega)).bind fun size _ => ?_
  refine (InputFile.safe_rd8 (by omega)).bind fun info _ => ?_
  refine (InputFile.safe_rd8 (by omega)).bind fun other _ => ?_
  refine (InputFile.safe_rd16 (by omega)).bind fun shndx _ => ?_
  refine (InputFile.safe_inputStringLength strings).bind fun fullLength inside => ?_
  have part := Nat.min_le_left fullLength 95
  exact (InputFile.safe_load (by omega)).bind fun name _ => .pure trivial

theorem ElfFile.safe_parseSymbols {parsed : ElfFile} (checked : parsed.Checked file.size) :
    Safe (parsed.parseSymbols file) fun parsed => parsed.Checked file.size := by
  rw [parseSymbols]
  split
  · exact .pure checked
  · rename_i symtab found
    obtain ⟨k, is_symtab, at_k⟩ := Option.bind_eq_some_iff.mp found
    refine safe_require.bind fun _ _ => ?_
    split
    · exact safe_die _
    · rename_i strtab at_link
      refine safe_require.bind fun _ strings => ?_
      have strings : strtab.type = .strtab := beq_iff_eq.mp strings
      have names := checked.sections strtab (List.mem_of_getElem? at_link) (by rw [strings]; decide)
      obtain ⟨_, at_k', type⟩ := checked.symtab k is_symtab
      cases at_k.symm.trans at_k'
      have table := checked.sections symtab (List.mem_of_getElem? at_k) (by rw [type]; decide)
      have symbols : Safe ((List.range (symtab.size.toNat / 16)).mapM (parseSymbol file symtab strtab)) fun symbols =>
          ∀ symbol ∈ symbols, True :=
        .mapM fun i member => safe_parseSymbol (by have below := List.mem_range.mp member; omega) names
      exact symbols.bind fun symbols _ => .pure ⟨checked.sections, checked.module, checked.symtab⟩

end Parser

section Tables

variable {file : InputFile} {base : ℕ}

theorem safe_moveUp {offJ : Word} {k : ℕ} (inside : base + (k + 1) * 8 ≤ file.size) :
    Safe (moveUp base offJ k file) fun (place, moved) => place ≤ k ∧ moved.size = file.size := by
  induction k generalizing file with
  | zero => exact .pure ⟨le_rfl, rfl⟩
  | succ k ih =>
    refine (InputFile.safe_rd32 (by omega)).bind fun offK _ => ?_
    split_ifs
    · exact .pure ⟨le_rfl, rfl⟩
    · refine (InputFile.safe_load (by omega)).bind fun entry length => ?_
      refine (InputFile.safe_store (by omega)).bind fun stored size => ?_
      refine (ih (by omega)).mono fun (place, moved) ⟨below, same⟩ => ⟨?_, ?_⟩
      · exact Nat.le_succ_of_le below
      · exact same.trans size

theorem safe_insertAt {j : ℕ} (inside : base + (j + 1) * 8 ≤ file.size) :
    Safe (insertAt base file j) fun sorted => sorted.size = file.size := by
  refine (InputFile.safe_load (by omega)).bind fun entry length => ?_
  refine (safe_moveUp inside).bind fun (k, moved) ⟨below, size⟩ => ?_
  exact (InputFile.safe_store (by omega)).mono fun stored same => same.trans size

theorem safe_sortSection {s : FileSection} (inside : s.offset.toNat + s.size.toNat ≤ file.size) :
    Safe (sortSection file s) fun sorted => sorted.size = file.size := by
  refine .foldlM rfl fun state same j member => ?_
  obtain ⟨low, high⟩ := List.mem_range'_1.mp member
  exact (safe_insertAt (by omega)).mono fun sorted size => size.trans same

variable {parsed : ElfFile} {s : FileSection} {i : ℕ}

/-- A kept relocation section is one of the sections. -/
theorem ElfFile.mem_relSections : (s, i) ∈ parsed.relSections ↔
    parsed.sections[i]? = some s ∧ parsed.elf.keep i s.toSection = true ∧ s.type = .rel := by
  rw [relSections, List.mem_filter, List.mem_zipIdx_iff_getElem?, Bool.and_eq_true, beq_iff_eq]

theorem ElfFile.Checked.rel (checked : parsed.Checked file.size) (member : (s, i) ∈ parsed.relSections) :
    s.offset.toNat + s.size.toNat ≤ file.size := by
  obtain ⟨at_i, -, type⟩ := mem_relSections.mp member
  exact checked.sections s (List.mem_of_getElem? at_i) (by rw [type]; decide)

theorem ElfFile.safe_sortRelocations (checked : parsed.Checked file.size) :
    Safe (parsed.sortRelocations file) fun sorted => sorted.size = file.size := by
  refine .foldlM rfl fun state same (s, i) member => ?_
  exact (safe_sortSection (same ▸ checked.rel member)).mono fun sorted size => size.trans same

/-- A pass over a table reads the section. -/
theorem InputFile.safe_readTable (inside : s.offset.toNat + s.size.toNat ≤ file.size) :
    Safe (file.readTable s) fun table => table = file.table s := by
  refine Safe.bind (Safe.loop fun k member => safe_touch ?_) fun _ _ => .pure rfl
  have below := List.mem_range.mp member
  omega

/-- The checked entries of a relocation section are for words of its section. -/
def ElfFile.Validated (parsed : ElfFile) (file : InputFile) (s : FileSection) : Prop :=
  ∃ target, parsed.elf.target? s.toSection = some target ∧ target.alloc = true ∧
    ∀ entry ∈ file.table s, entry.type ≠ .none → entry.offset.toNat + 4 ≤ target.size.toNat

/-- A checked entry is for a word of the section. -/
theorem Elf.inside_of_validateEntry {elf : Elf} {name : String} {target : Section} {k : ℕ} {entry : Reloc}
    (through : elf.validateEntry name target k entry = .ok ⟨⟩) (some : entry.type ≠ .none) :
    entry.offset.toNat + 4 ≤ target.size.toNat := by
  obtain ⟨⟨⟩, -, through⟩ := bind_eq_ok.mp through
  rw [if_neg some] at through
  obtain ⟨⟨⟩, patches, through⟩ := bind_eq_ok.mp through
  have patches := orDie_eq_ok patches
  rw [Bool.not_eq_true', Bool.or_eq_false_iff, decide_eq_false_iff_not, decide_eq_false_iff_not] at patches
  have low : entry.offset.toNat ≤ target.size.toNat := Nat.not_lt.mp patches.1
  have room : 4 ≤ (target.size - entry.offset).toNat := Nat.not_lt.mp patches.2
  rw [BitVec.toNat_sub_of_le (BitVec.le_def.mpr low)] at room
  omega

theorem ElfFile.safe_validateSection (inside : s.offset.toNat + s.size.toNat ≤ file.size) :
    Safe (parsed.validateSection file s) fun _ => parsed.Validated file s := by
  refine safe_require.bind fun _ _ => ?_
  split
  · exact safe_die _
  · rename_i target at_target
    refine safe_require.bind fun _ alloc => safe_require.bind fun _ _ => safe_require.bind fun _ _ => ?_
    refine (InputFile.safe_readTable inside).bind fun table same => .ofExcept fun ⟨⟩ through => ?_
    refine ⟨target, at_target, alloc, fun entry member => ?_⟩
    obtain ⟨k, at_k⟩ := List.mem_iff_getElem?.mp (same ▸ member)
    exact Elf.inside_of_validateEntry (forall_of_forM through (entry, k) (List.mem_zipIdx_iff_getElem?.mpr at_k))

theorem ElfFile.safe_validateRelocations (checked : parsed.Checked file.size) :
    Safe (parsed.validateRelocations file) fun _ => ∀ entry ∈ parsed.relSections, parsed.Validated file entry.1 :=
  .forM fun (_, _) member => safe_validateSection (checked.rel member)

end Tables

section Plan

variable {file : InputFile} {parsed : ElfFile} {strays extraLos : List Scratch} {layout : Layout}

theorem ElfFile.safe_readTables (checked : parsed.Checked file.size) :
    Safe (parsed.readTables file) fun tables => tables = parsed.tables file := by
  refine Safe.bind (Safe.loop fun entry member => ?_) fun _ _ => .pure rfl
  exact safe_discard (InputFile.safe_readTable (checked.rel member))

theorem ElfFile.safe_detect (checked : parsed.Checked file.size) :
    Safe (parsed.detectStrayHi16 file) (fun strays => strays = detectIn (parsed.tables file) nextLo) ∧
      Safe (parsed.detectExtraLo16 file) fun extraLos => extraLos = detectIn (parsed.tables file) prevHi :=
  ⟨(safe_readTables checked).bind fun _ same => .pure (congrArg _ same),
    (safe_readTables checked).bind fun _ same => .pure (congrArg _ same)⟩

/-- What the layout has been reckoned from. -/
structure Plan.Laid (plan : Plan) (parsed : ElfFile) (file : InputFile) (strays extraLos : List Scratch) : Prop where
  kept : parsed.outSections file strays extraLos = .ok plan.out.sections
  layout : parsed.elf.layoutFor strays.length extraLos.length = .ok plan.layout
  out : parsed.elf.fileLayoutFor plan.layout (0 < strays.length + extraLos.length) plan.out.sections = .ok plan.out

theorem ElfFile.safe_readGp (checked : parsed.Checked file.size) : Safe (parsed.readGp file) fun _ => True := by
  obtain ⟨module, at_module, bytes⟩ := checked.module
  have within := checked.sections module (List.mem_of_getElem? at_module) bytes
  rw [readGp, at_module]
  dsimp only
  split_ifs with long
  · have long := of_decide_eq_true (Bool.and_eq_true_iff.mp long).2
    have long : 12 ≤ module.size.toNat := long
    exact safe_discard (InputFile.safe_rd32 (by omega))
  · exact .pure trivial

theorem ElfFile.safe_computeLayout (checked : parsed.Checked file.size) :
    Safe (parsed.computeLayout file strays extraLos) fun plan => plan.Laid parsed file strays extraLos := by
  refine (safe_readTables checked).bind fun _ _ => ?_
  refine (Safe.ofExcept fun _ => id).bind fun kept sizes => ?_
  refine (Safe.ofExcept fun _ => id).bind fun layout image => ?_
  refine (Safe.ofExcept fun _ => id).bind fun out filed => ?_
  refine (Safe.ofExcept fun _ => id).bind fun entryOut _ => ?_
  refine (safe_readGp checked).bind fun _ _ => .pure ?_
  have same := (chained_of_fileLayoutFor filed).sections
  exact ⟨same ▸ sizes, image, same ▸ filed⟩

/-- The word of an entry whose end has not wrapped around is in the section. -/
theorem safe_addendAt {target : FileSection} {offset : Word} (within : target.Within file.size)
    (low : offset.toNat + 4 < 2 ^ 32) : Safe (ElfFile.addendAt file target offset) fun _ => True := by
  rw [ElfFile.addendAt]
  split_ifs with inside
  · have ends : (offset + 4#32).toNat ≤ target.size.toNat := inside.2
    rw [BitVec.toNat_add, BitVec.toNat_ofNat, Nat.mod_eq_of_lt (by decide : 4 < 2 ^ 32), Nat.mod_eq_of_lt low] at ends
    have bytes := within inside.1
    exact InputFile.safe_rd32 (by omega)
  · exact .pure trivial

theorem ElfFile.safe_resolveRelocationValue {rel : FileSection} {entry : Reloc} (checked : parsed.Checked file.size)
    (low : entry.offset.toNat + 4 < 2 ^ 32) : Safe (parsed.resolveRelocationValue file layout rel entry) fun _ => True := by
  rw [resolveRelocationValue]
  split
  · exact safe_die _
  · split
    · exact safe_die _
    · rename_i target at_info
      refine (safe_addendAt (checked.sections target (List.mem_of_getElem? at_info)) low).bind fun addend _ => ?_
      refine safe_require.bind fun _ _ => (Safe.ofExcept fun _ _ => trivial).bind fun symAddr _ => .pure trivial

theorem ElfFile.safe_gpOut (checked : parsed.Checked file.size) : Safe (parsed.gpOut file layout) fun _ => True := by
  have register : Safe (parsed.gpOfReginfo file layout) fun _ => True := by
    rw [gpOfReginfo]
    split
    · exact .pure trivial
    · rename_i s found
      have test := List.find?_some found
      rw [decide_eq_true_eq] at test
      have long : 24 ≤ s.size.toNat := test.2
      have within := checked.sections s (List.mem_of_find?_eq_some found) (by rw [test.1]; decide)
      refine (InputFile.safe_rd32 (by omega)).bind fun gpIn _ => ?_
      refine (Safe.ofExcept fun _ _ => trivial).bind fun translated _ => ?_
      split
      · exact .pure trivial
      · exact .ofExcept fun _ _ => trivial
  refine register.bind fun gp _ => ?_
  split_ifs
  · exact .ofExcept fun _ _ => trivial
  · exact .pure trivial

theorem ElfFile.safe_versionOf {irx : Symbol} (checked : parsed.Checked file.size) :
    Safe (parsed.versionOf file irx) fun _ => True := by
  rw [versionOf]
  split
  · exact safe_die _
  · rename_i irxSec at_shndx
    split_ifs with inside
    · have within := checked.sections irxSec (List.mem_of_getElem? at_shndx) inside.1
      exact InputFile.safe_rd32 (by omega)
    · exact .pure trivial

/-- The tables without their places list the same sections. -/
theorem ElfFile.mem_elf {s : FileSection} {i : ℕ} (at_i : parsed.sections[i]? = some s) :
    (s.toSection, i) ∈ parsed.elf.sections.zipIdx := by
  rw [List.mem_zipIdx_iff_getElem?]
  exact (List.getElem?_map ..).trans (congrArg (Option.map _) at_i)

/-- A symbol of a negative value is one of a section that has a place in the image. -/
theorem addr_ne_zero_of_symbolOutAddr {symbol : Symbol} {addr : Word} (through : layout.symbolOutAddr symbol = .ok addr)
    (negative : 2 ^ 31 ≤ symbol.value.toNat) : layout.addr symbol.shndx ≠ 0 := by
  rw [Layout.symbolOutAddr] at through
  rcases at_shndx : layout.outAddr[symbol.shndx]? with _ | outAddr
  · rw [at_shndx] at through
    nomatch through
  · rw [at_shndx] at through
    dsimp only at through
    rw [if_pos (by omega)] at through
    have magnitude : 0 < (-symbol.value).toNat := by
      have less := symbol.value.isLt
      rw [BitVec.toNat_neg]
      omega
    split_ifs at through with below
    rw [Layout.addr, List.getD_eq_getElem?_getD, at_shndx, Option.getD_some]
    omega

/-- An entry for the word that `_irx_id` stands for ends below the end of the address space. -/
theorem ElfFile.low_of_irx {irx : Symbol} {irxId : Word} {rel : FileSection} {entry : Reloc}
    (filed : layout.Filed parsed.elf (strays.length + extraLos.length))
    (validated : ∀ entry ∈ parsed.relSections, parsed.Validated file entry.1) (translated : layout.symbolOutAddr irx = .ok irxId)
    (within : irx.shndx < parsed.sections.length) (member : rel ∈ parsed.sections) (is_rel : rel.type = .rel)
    (info : rel.info.toNat = irx.shndx) (listed : entry ∈ file.table rel) (same : entry.offset = irx.value)
    (word : entry.type = .mips32) : entry.offset.toNat + 4 < 2 ^ 32 := by
  rcases Nat.lt_or_ge irx.value.toNat (2 ^ 31) with low | negative
  · rw [same]
    omega
  · have placed := addr_ne_zero_of_symbolOutAddr translated negative
    have at_shndx := List.getElem?_eq_getElem within
    have inImage : parsed.elf.inImage irx.shndx (parsed.sections[irx.shndx]).toSection := by
      by_contra outside
      exact placed (filed.outside _ _ (mem_elf at_shndx) outside)
    -- The section is in the image, so that its relocations are kept and have been checked.
    obtain ⟨i, at_i⟩ := List.mem_iff_getElem?.mp member
    have target : parsed.elf.target? rel.toSection = some (parsed.sections[irx.shndx]).toSection := by
      rw [Elf.target?, info]
      exact (List.getElem?_map ..).trans (congrArg (Option.map _) at_shndx)
    have kept : parsed.elf.keep i rel.toSection = true := by
      rw [Elf.keep, target, Option.any_some, (Bool.and_eq_true_iff.mp inImage).2, is_rel]
      simp
    obtain ⟨target', found, -, inside⟩ := validated (rel, i) (mem_relSections.mpr ⟨at_i, kept, is_rel⟩)
    have ends := inside entry listed (by rw [word]; decide)
    have less := target'.size.isLt
    omega

theorem ElfFile.safe_synthesizeIopmod {entryOut : Word} (checked : parsed.Checked file.size)
    (filed : layout.Filed parsed.elf (strays.length + extraLos.length))
    (validated : ∀ entry ∈ parsed.relSections, parsed.Validated file entry.1) :
    Safe (parsed.synthesizeIopmod file layout entryOut) fun _ => True := by
  rw [synthesizeIopmod]
  split_ifs
  · exact .pure trivial
  · split
    · exact safe_die _
    · rename_i irx found
      refine safe_require.bind fun _ within => (Safe.ofExcept fun _ => id).bind fun irxId translated => ?_
      refine (safe_gpOut checked).bind fun gp _ => (safe_versionOf checked).bind fun version _ => ?_
      have named : Safe (parsed.nameOf file layout irx) fun _ => True := by
        refine .foldlM trivial fun name _ rel member => ?_
        split_ifs with applies
        · obtain ⟨is_rel, info⟩ := applies
          have inside := checked.sections rel member (by rw [is_rel]; decide)
          refine (InputFile.safe_readTable inside).bind fun table same => ?_
          split
          · exact .pure trivial
          · rename_i entry hit
            have test := List.find?_some hit
            rw [decide_eq_true_eq] at test
            exact safe_resolveRelocationValue checked (low_of_irx filed validated translated (of_decide_eq_true within)
              member is_rel info (same ▸ List.mem_of_find?_eq_some hit) test.1 test.2)
        · exact .pure trivial
      refine named.bind fun name _ => safe_require.bind fun _ _ => ?_
      exact (Safe.ofExcept fun _ _ => trivial).bind fun (_, _) _ => .pure trivial

end Plan

/-- What is known when the emission starts. -/
structure Prepared.Sound (p : Prepared) : Prop where
  checked : p.parsed.Checked p.file.size
  validated : ∀ entry ∈ p.parsed.relSections, p.parsed.Validated p.file entry.1
  strays : p.strays = detectIn (p.parsed.tables p.file) nextLo
  extraLos : p.extraLos = detectIn (p.parsed.tables p.file) prevHi
  laid : p.plan.Laid p.parsed p.file p.strays p.extraLos

/-- The passes before the emission stay inside the input. -/
theorem prepare_safe (contents : List Byte) : Safe (prepare contents) Prepared.Sound := by
  have loaded : Safe (.ofExcept (loadInput contents) : Tool InputFile) fun file => 52 ≤ file.size := by
    refine .ofExcept fun file through => ?_
    obtain ⟨⟨⟩, large, through⟩ := bind_eq_ok.mp through
    obtain ⟨⟨⟩, -, through⟩ := bind_eq_ok.mp through
    cases pure_eq_ok.mp through
    exact of_decide_eq_true (orDie_eq_ok large)
  refine loaded.bind fun file large => (safe_parseElfHeader large).bind fun header table => ?_
  refine (safe_parseSectionHeadersAt large table).bind fun parsed checked => ?_
  refine (ElfFile.safe_parseSymbols checked).bind fun parsed checked => ?_
  refine (Safe.ofExcept fun _ _ => trivial).bind fun _ _ => ?_
  refine (ElfFile.safe_sortRelocations checked).bind fun sorted size => ?_
  have checked : parsed.Checked sorted.size := size ▸ checked
  refine (ElfFile.safe_validateRelocations checked).bind fun _ validated => ?_
  refine (ElfFile.safe_detect checked).1.bind fun strays detected => ?_
  refine (ElfFile.safe_detect checked).2.bind fun extraLos detected' => ?_
  refine (ElfFile.safe_computeLayout checked).bind fun plan laid => ?_
  have filed := filed_of_layoutFor laid.layout
  refine (ElfFile.safe_synthesizeIopmod checked filed validated).bind fun iopmod _ => .pure ?_
  exact ⟨checked, validated, detected, detected', laid⟩

end KosTool.Elf2irx
