import KosTool.Soundness.ImagePasses

/-! # The words of a loaded IRX

Each word that a relocation of the input names is patched by the static pass and then by at most one step of the loader.
What it is in the end is told by the words of the input and the values of the symbols.
-/

namespace KosTool.Elf2irx

open ByteWord WordPatch

section Spec

variable (elf : Elf) (irx : Irx)

/-- The address of a section in the image of an IRX. -/
def Irx.addr (i : ℕ) : ℕ := irx.outAddr.getD i 0

/-- The value of an entry's symbol where the image stands at 0. Only the sections of the image have an address. -/
def Elf.symbolValue (entry : Reloc) : Option Word :=
  elf.symbols[entry.sym]?.bind fun symbol =>
    (elf.sections[symbol.shndx]?.filter fun s => elf.inImage symbol.shndx s).map fun _ =>
      BitVec.ofNat 32 (irx.addr symbol.shndx) + symbol.value

/-- The HI16 of an entry among those before it. -/
def hiBefore (before : List Reloc) (entry : Reloc) : Option Reloc :=
  before.reverse.find? fun hi => hi.Matches .hi16 entry.sym

/-- The words of a target in the input. -/
def inputWord (target : Section) (entry : Reloc) : Word := rd32 target.contents entry.offset.toNat

end Spec

section Partners

variable {table before behind : List Reloc} {entry lo : Reloc}

/-- The LO16 behind a HI16 is the one at the position that the tool finds. -/
theorem nextLo_of_split (split : table = before ++ entry :: behind) (type : entry.type = .hi16) :
    loBehind behind entry = (nextLo table before.length).bind (table[·]?) := by
  have is_hi : entryMatches table .hi16 entry.sym before.length :=
    entryMatches_iff.mpr ⟨entry, Elf.getElem?_of_split split, type, rfl⟩
  have shifted (j : ℕ) : table[before.length + 1 + j]? = behind[j]? := by
    rw [split, List.getElem?_append_right (by omega), Nat.add_assoc, Nat.add_sub_cancel_left, Nat.add_comm 1,
      List.getElem?_cons_succ]
  cases next : nextLo table before.length with
  | none =>
    have absent := (nextLo_eq_none_iff is_hi).mp next
    refine List.find?_eq_none.mpr fun other member same => ?_
    obtain ⟨j, at_j⟩ := List.mem_iff_getElem?.mp member
    have here : entryMatches table .lo16 entry.sym (before.length + 1 + j) :=
      entryMatches_iff.mpr ⟨other, (shifted j).trans at_j, of_decide_eq_true same⟩
    rw [absent _ (by omega)] at here
    cases here
  | some m =>
    obtain ⟨sym, is_hi', above, is_lo, none⟩ := nextLo_eq_some_iff.mp next
    obtain ⟨rfl, -⟩ := sym_unique is_hi is_hi'
    obtain ⟨lo, at_m, matching⟩ := entryMatches_iff.mp is_lo
    obtain ⟨j, rfl⟩ := Nat.exists_eq_add_of_le (Nat.succ_le_of_lt above)
    have at_j := (shifted j).symm.trans at_m
    obtain ⟨bound, here⟩ := List.getElem?_eq_some_iff.mp at_j
    rw [Option.bind_some, at_m, loBehind, List.find?_eq_some_iff_getElem]
    refine ⟨decide_eq_true matching, j, bound, here, fun i less => ?_⟩
    rw [Bool.not_eq_true', decide_eq_false_iff_not]
    intro same
    have found : entryMatches table .lo16 entry.sym (before.length + 1 + i) :=
      entryMatches_iff.mpr ⟨behind[i], (shifted i).trans (List.getElem?_eq_getElem _), same⟩
    rw [none _ (by omega) (by omega)] at found
    cases found

/-- A LO16 with a HI16 before it is one that the tool finds a HI16 for. -/
theorem prevHi_of_split (split : table = before ++ entry :: behind) (type : entry.type = .lo16) {hi : Reloc}
    (found : hiBefore before entry = some hi) : prevHi table before.length ≠ none := by
  have is_lo : entryMatches table .lo16 entry.sym before.length :=
    entryMatches_iff.mpr ⟨entry, Elf.getElem?_of_split split, type, rfl⟩
  intro none
  have test := List.find?_some found
  obtain ⟨j, at_j⟩ := List.mem_iff_getElem?.mp (List.mem_reverse.mp (List.mem_of_find?_eq_some found))
  have below := (List.getElem?_eq_some_iff.mp at_j).1
  have here : entryMatches table .hi16 entry.sym j := by
    refine entryMatches_iff.mpr ⟨hi, ?_, of_decide_eq_true test⟩
    rw [split, List.getElem?_append_left below, at_j]
  rw [(prevHi_eq_none_iff is_lo).mp none j below] at here
  cases here

end Partners

/-- What a conversion that has gone through has done. -/
structure Conversion (elf : Elf) (irx : Irx) (layout : Layout) : Prop where
  ready : elf.Ready layout
  marked : elf.markSectionsToKeep = .ok ⟨⟩
  outAddr : irx.outAddr = layout.outAddr
  filesz : irx.filesz = layout.filesz
  payload : irx.payload = elf.initPadlo layout (run (elf.staticAll layout) (elf.copySections layout))
  values : ∀ s i entry, (s, i) ∈ elf.relSections → entry ∈ s.table → entry.type ≠ .none →
    elf.relocationSymbolAddr layout entry = .ok (valueOf (elf.relocationSymbolAddr layout) entry)
  tables : irx.tables = elf.relSections.map fun (s, i) => (elf.fixes layout s i).flatMap Fix.entries

theorem exists_conversion {input : Input} {elf : Elf} {irx : Irx} (parsed : parseSectionHeaders input = .ok elf)
    (accepted : elf2irx input = .ok irx) (placed : elf.WellPlaced) : ∃ layout, Conversion elf irx layout := by
  obtain ⟨elf', parsed', rest⟩ := Fallible.bind_eq_ok.mp accepted
  cases parsed.symm.trans parsed'
  obtain ⟨⟨⟩, marked, rest⟩ := Fallible.bind_eq_ok.mp rest
  obtain ⟨⟨⟩, valid, rest⟩ := Fallible.bind_eq_ok.mp rest
  obtain ⟨layout, computed, rest⟩ := Fallible.bind_eq_ok.mp rest
  obtain ⟨image, static, rest⟩ := Fallible.bind_eq_ok.mp rest
  obtain ⟨tables, emitted, rest⟩ := Fallible.bind_eq_ok.mp rest
  cases Fallible.pure_eq_ok.mp rest
  have ready : elf.Ready layout := ⟨placed, valid, Elf.fits_of_computeLayout computed⟩
  obtain ⟨rfl, values⟩ := ready.static_eq static
  refine ⟨layout, ready, marked, rfl, rfl, rfl, values, ?_⟩
  have related := Fallible.forall₂_of_mapM emitted
  apply List.ext_getElem?
  intro n
  cases at_n : tables[n]? with
  | none =>
    have outside := List.getElem?_eq_none_iff.mp at_n
    rw [← related.length_eq] at outside
    exact (List.getElem?_eq_none (by rwa [List.length_map])).symm
  | some table =>
    obtain ⟨⟨s, i⟩, at_n', out⟩ := Fallible.getElem?_of_forall₂ related at_n
    rw [List.getElem?_map, at_n', Option.map_some,
      Elf.emitRelocationSection_eq (List.mem_iff_getElem?.mpr ⟨n, at_n'⟩) out]

/-- The value of a symbol is its section's address and what the input has for it, even where that is negative. -/
theorem Layout.symbolOutAddr_eq_ok {layout : Layout} {symbol : Symbol} {result : Word}
    (through : layout.symbolOutAddr symbol = .ok result) :
    result = BitVec.ofNat 32 (layout.addr symbol.shndx) + symbol.value := by
  rw [symbolOutAddr] at through
  rw [addr, List.getD_eq_getElem?_getD]
  cases known : layout.outAddr[symbol.shndx]? with
  | none =>
    rw [known] at through
    cases through
  | some outAddr =>
    rw [known] at through
    dsimp only at through
    rw [Option.getD_some]
    have bound := symbol.value.isLt
    apply BitVec.eq_of_toNat_eq
    rw [BitVec.toNat_add, BitVec.toNat_ofNat]
    split_ifs at through with negative above
    · cases through
      rw [BitVec.toNat_neg] at above ⊢
      rw [BitVec.toNat_ofNat]
      omega
    · obtain ⟨sum, added, through⟩ := Fallible.bind_eq_ok.mp through
      cases Fallible.pure_eq_ok.mp through
      cases checkedAddU32_eq_ok added
      rw [BitVec.toNat_ofNat]
      omega

/-- The word of an entry behind the static pass, by the words of the input. -/
def staticWord (input : Reloc → Word) (value : Word) (entry : Reloc) (behind : List Reloc) : Word :=
  match entry.type with
  | .mips16 | .lo16 => addLow (input entry) value
  | .mips32 | .rel32 => input entry + value
  | .mips26 => addTarget (input entry) value
  | .hi16 =>
    match loBehind behind entry with
    | some lo => addHigh (input entry) (input lo) value
    | none => input entry
  | _ => input entry

namespace Conversion

variable {elf : Elf} {irx : Irx} {layout : Layout} {s target : Section} {i k : ℕ} {entry : Reloc}
  {before behind : List Reloc} {base : Word}

/-- The words of the entries are loaded as the static pass leaves them. -/
theorem rd32_behind (conversion : Conversion elf irx layout) (kept : (s, i) ∈ elf.relSections)
    (at_k : s.table[k]? = some entry) (typed : entry.type ≠ .none) : rd32 irx.loaded (Elf.place layout s entry) =
      rd32 (run (elf.staticAll layout) (elf.copySections layout)) (Elf.place layout s entry) := by
  have ready := conversion.ready
  obtain ⟨t, member, copied, bound⟩ := ready.inside kept at_k typed
  have bytes : t.type ≠ .nobits := by
    simp only [Elf.copied, Bool.and_eq_true, beq_iff_eq] at copied
    rw [copied.1.2]
    decide
  have top := ready.fits.filed t _ member (Elf.inImage_of_copied copied) bytes
  have filed : rd32 irx.loaded (Elf.place layout s entry) = rd32 irx.payload (Elf.place layout s entry) := by
    refine rd32_congr fun j less => if_pos ?_
    rw [Elf.place, conversion.filesz]
    omega
  rw [filed, conversion.payload, ready.rd32_initPadlo kept at_k typed]

/-- The words of the entries that are loaded, by the words of the input. -/
theorem rd32_loaded (conversion : Conversion elf irx layout) (kept : (s, i) ∈ elf.relSections)
    (known : elf.target? s = some target) (split : s.table = before ++ entry :: behind) (typed : entry.type ≠ .none) :
    rd32 irx.loaded (Elf.place layout s entry) =
      staticWord (inputWord target) (valueOf (elf.relocationSymbolAddr layout) entry) entry behind := by
  have ready := conversion.ready
  have at_k := Elf.getElem?_of_split split
  have word {other : Reloc} (member : other ∈ s.table) (typed : other.type ≠ .none) :
      rd32 (elf.copySections layout) (Elf.place layout s other) = inputWord target other := by
    obtain ⟨m, at_m⟩ := List.mem_iff_getElem?.mp member
    exact ready.rd32_copySections kept known at_m typed
  have own := word (List.mem_iff_getElem?.mpr ⟨_, at_k⟩) typed
  rw [conversion.rd32_behind kept at_k typed, ready.rd32_static kept split typed, staticPatch, staticWord]
  cases type : entry.type with
  | mips16 | lo16 => exact congrArg (addLow · _) own
  | mips32 | rel32 => exact congrArg (· + _) own
  | mips26 => exact congrArg (addTarget · _) own
  | none | gprel16 | other => exact own
  | hi16 =>
    cases found : loBehind behind entry with
    | none => exact own
    | some lo =>
      obtain ⟨member, is_lo, -⟩ := loBehind_eq_some found
      have inside : lo ∈ s.table := split ▸ List.mem_append_right _ (List.mem_cons_of_mem _ member)
      have other := word inside (by rw [is_lo]; decide)
      exact congrArg₂ (addHigh · · _) own other

/-- A symbol of the image has the value that the static pass adds. -/
theorem valueOf_eq (conversion : Conversion elf irx layout) (kept : (s, i) ∈ elf.relSections) (member : entry ∈ s.table)
    (typed : entry.type ≠ .none) {symbol : Word} (known : elf.symbolValue irx entry = some symbol) :
    valueOf (elf.relocationSymbolAddr layout) entry = symbol := by
  have through := conversion.values s i entry kept member typed
  obtain ⟨sym, at_sym, inside⟩ := Option.bind_eq_some_iff.mp known
  obtain ⟨_, -, rfl⟩ := Option.map_eq_some_iff.mp inside
  rw [Elf.relocationSymbolAddr, at_sym] at through
  dsimp only at through
  split_ifs at through
  rw [Layout.symbolOutAddr_eq_ok through, Irx.addr, conversion.outAddr]
  rfl

/-- The loader's patches. -/
theorem loadcore_eq (conversion : Conversion elf irx layout) :
    irx.loadcore base = run ((elf.allFixes layout).flatMap (Fix.patches base)) irx.loaded :=
  conversion.ready.loadcore_eq conversion.tables

/-- A word that a step patches holds what the patch computes. -/
theorem rd32_patched (conversion : Conversion elf irx layout) (kept : (s, i) ∈ elf.relSections) {fix : Fix}
    (fixed : elf.fixAt layout s i k = some fix) {patch : Patch} (member : patch ∈ fix.patches base) :
    rd32 (irx.loadcore base) patch.place = patch.word irx.loaded := by
  have ready := conversion.ready
  have inside : fix ∈ elf.allFixes layout := by
    refine List.mem_flatMap.mpr ⟨(s, i), kept, Elf.mem_fixes.mpr ⟨k, ?_, fixed⟩⟩
    obtain ⟨entry, at_k, -⟩ := Option.bind_eq_some_iff.mp fixed
    exact (List.getElem?_eq_some_iff.mp at_k).1
  rw [conversion.loadcore_eq]
  exact rd32_run (Fix.spare ready.proper ready.fixes_apart) (List.mem_flatMap.mpr ⟨fix, inside, member⟩) irx.loaded

/-- The place of a loader's patch is one of those that its step is about. -/
theorem exists_of_mem_patches {patch : Patch} (member : patch ∈ (elf.allFixes layout).flatMap (Fix.patches base)) :
    ∃ s i k fix spot, (s, i) ∈ elf.relSections ∧ elf.fixAt layout s i k = some fix ∧ patch ∈ fix.patches base ∧
      elf.Uses s i k spot ∧ elf.At layout spot patch.place := by
  obtain ⟨fix, listed, own⟩ := List.mem_flatMap.mp member
  obtain ⟨⟨s, i⟩, kept, inside⟩ := List.mem_flatMap.mp listed
  obtain ⟨k, -, fixed⟩ := Elf.mem_fixes.mp inside
  obtain ⟨spot, uses, here⟩ := Elf.fixAt_places kept fixed _ (Fix.reach own).1
  exact ⟨s, i, k, fix, spot, kept, fixed, own, uses, here⟩

/-- A word whose step patches nothing stays, unless it is that of a LO16. -/
theorem rd32_idle (conversion : Conversion elf irx layout) (kept : (s, i) ∈ elf.relSections)
    (at_k : s.table[k]? = some entry) (typed : entry.type ≠ .none) (other : entry.type ≠ .lo16)
    (idle : ∀ fix, elf.fixAt layout s i k = some fix → fix.patches base = []) :
    rd32 (irx.loadcore base) (Elf.place layout s entry) = rd32 irx.loaded (Elf.place layout s entry) := by
  rw [conversion.loadcore_eq]
  refine rd32_run_apart (fun patch member => ?_) irx.loaded
  obtain ⟨s', i', k', fix, spot, kept', fixed, own, uses, here⟩ := exists_of_mem_patches member
  have entry_at : elf.At layout (.entry i k) (Elf.place layout s entry) := ⟨s, entry, kept, at_k, typed, rfl⟩
  refine conversion.ready.apart here entry_at fun same => ?_
  subst same
  cases uses with
  | own =>
    cases Elf.relSections_unique kept kept'
    rw [idle fix fixed] at own
    nomatch own
  | partner next direct =>
    cases Elf.relSections_unique kept kept'
    obtain ⟨sym, -, -, is_lo, -⟩ := nextLo_eq_some_iff.mp next
    obtain ⟨lo, at_k', lo_type⟩ := Elf.exists_reloc is_lo
    cases at_k.symm.trans at_k'
    exact other lo_type

/-- The low half that the loader finds for a HI16 is that of its LO16, in place or in a scratch word. -/
theorem exists_pair (conversion : Conversion elf irx layout) (kept : (s, i) ∈ elf.relSections)
    (at_k : s.table[k]? = some entry) (type : entry.type = .hi16) {m : ℕ} {lo : Reloc}
    (next : nextLo s.table k = some m) (at_m : s.table[m]? = some lo) :
    ∃ second, elf.fixAt layout s i k = some (.pair (Elf.place layout s entry) second) ∧
      low (rd32 irx.loaded second) = low (rd32 irx.loaded (Elf.place layout s lo)) := by
  have ready := conversion.ready
  obtain ⟨sym, -, -, is_lo, -⟩ := nextLo_eq_some_iff.mp next
  obtain ⟨lo', at_m', lo_type⟩ := Elf.exists_reloc is_lo
  cases at_m.symm.trans at_m'
  rw [Elf.fixAt, at_k, Option.bind_some, type]
  dsimp only
  rw [next]
  cases index : scratchIdx elf.strays i k with
  | none =>
    dsimp only
    rw [at_m]
    exact ⟨_, rfl, rfl⟩
  | some g =>
    refine ⟨_, rfl, ?_⟩
    obtain ⟨m', repeated, recorded⟩ := scratchIdx_eq_some kept index
    cases next.symm.trans (mem_repeats.mp repeated).2.1
    have filed : rd32 irx.loaded (layout.padloAddr + g * 4) = rd32 irx.payload (layout.padloAddr + g * 4) := by
      have top := ready.fits.padFiled g (Nat.lt_add_right _ (Elf.lt_of_scratchIdx index))
      refine rd32_congr fun j less => if_pos ?_
      rw [conversion.filesz]
      omega
    have partner : Elf.partnerPlace layout ⟨i, k, (s.table[m]?.map (·.offset.toNat)).getD 0, s.info.toNat⟩ =
        Elf.place layout s lo := by
      rw [Elf.partnerPlace, at_m]
      rfl
    rw [filed, conversion.payload, ready.rd32_padLo recorded, partner,
      conversion.rd32_behind kept at_m (by rw [lo_type]; decide)]
    exact low_masked _

/-- A LO16 with a HI16 is patched by itself, in whichever step it stands. -/
theorem exists_own_lo (kept : (s, i) ∈ elf.relSections)
    (at_k : s.table[k]? = some entry) (type : entry.type = .lo16) (led : prevHi s.table k ≠ none) :
    ∃ k' fix, elf.fixAt layout s i k' = some fix ∧
      .own (Elf.place layout s entry) (addLow · base) ∈ fix.patches base := by
  have second (hi : ℕ) : Patch.own (Elf.place layout s entry) (addLow · base) ∈
      (Fix.pair hi (Elf.place layout s entry)).patches base := List.mem_cons_of_mem _ List.mem_cons_self
  cases index : scratchIdx elf.extraLos i k with
  | some g =>
    refine ⟨k, _, ?_, second (layout.padloAddr + elf.strays.length * 4 + g * 4)⟩
    rw [Elf.fixAt, at_k, Option.bind_some, type]
    dsimp only
    rw [index]
  | none =>
    obtain ⟨h, prev⟩ := Option.ne_none_iff_exists'.mp led
    have first (earlier : ℕ) (before : earlier < k) : prevHi s.table earlier ≠ some h := fun same =>
      (scratchIdx_eq_none_iff kept).mp index h
        (mem_repeats.mpr ⟨(List.getElem?_eq_some_iff.mp at_k).1, prev, earlier, before, same⟩)
    obtain ⟨f, next, alone⟩ := exists_first_nextLo (nextLo_of_first prev first)
    have direct : scratchIdx elf.strays i f = none := by
      refine (scratchIdx_eq_none_iff kept).mpr fun m repeated => ?_
      obtain ⟨-, next', earlier, before, same⟩ := mem_repeats.mp repeated
      exact alone earlier before (same.trans (next'.symm.trans next))
    obtain ⟨sym, is_hi, -⟩ := nextLo_eq_some_iff.mp next
    obtain ⟨hi, at_f, hi_type⟩ := Elf.exists_reloc is_hi
    refine ⟨f, _, ?_, second (Elf.place layout s hi)⟩
    rw [Elf.fixAt, at_f, Option.bind_some, hi_type]
    dsimp only
    rw [next, direct]
    dsimp only
    rw [at_k]
    rfl

/-- The step of an entry that the loader takes by itself. -/
theorem fixAt_alone (at_k : s.table[k]? = some entry)
    (simple : entry.type = .mips16 ∨ entry.type = .mips32 ∨ entry.type = .rel32 ∨ entry.type = .mips26) :
    elf.fixAt layout s i k = some (.alone ⟨Elf.place layout s entry, entry.type⟩) := by
  rw [Elf.fixAt, at_k, Option.bind_some]
  rcases simple with type | type | type | type <;> rw [type]

section Words

variable {symbol : Word}

/-- The word of an entry behind the static pass, with the value of its symbol. -/
theorem rd32_symbol (conversion : Conversion elf irx layout) (kept : (s, i) ∈ elf.relSections)
    (known : elf.target? s = some target) (split : s.table = before ++ entry :: behind) (typed : entry.type ≠ .none)
    (value : elf.symbolValue irx entry = some symbol) :
    rd32 irx.loaded (Elf.place layout s entry) = staticWord (inputWord target) symbol entry behind := by
  have member : entry ∈ s.table := List.mem_iff_getElem?.mpr ⟨_, Elf.getElem?_of_split split⟩
  rw [conversion.rd32_loaded kept known split typed, conversion.valueOf_eq kept member typed value]

/-- The word of an entry that the loader takes by itself. -/
theorem rd32_alone (conversion : Conversion elf irx layout) (kept : (s, i) ∈ elf.relSections)
    (at_k : s.table[k]? = some entry)
    (simple : entry.type = .mips16 ∨ entry.type = .mips32 ∨ entry.type = .rel32 ∨ entry.type = .mips26)
    {f : Word → Word} (patches : (Fix.alone ⟨Elf.place layout s entry, entry.type⟩).patches base =
      [.own (Elf.place layout s entry) f]) :
    rd32 (irx.loadcore base) (Elf.place layout s entry) = f (rd32 irx.loaded (Elf.place layout s entry)) := by
  have inside : Patch.own (Elf.place layout s entry) f ∈
      (Fix.alone ⟨Elf.place layout s entry, entry.type⟩).patches base := by
    rw [patches]
    exact List.mem_singleton_self _
  have patched := conversion.rd32_patched kept (fixAt_alone at_k simple) inside
  exact patched

/-- The word of a HI16 with its LO16. -/
theorem rd32_hi16 (conversion : Conversion elf irx layout) (kept : (s, i) ∈ elf.relSections)
    (known : elf.target? s = some target) (split : s.table = before ++ entry :: behind) (type : entry.type = .hi16)
    (value : elf.symbolValue irx entry = some symbol) {lo : Reloc} (found : loBehind behind entry = some lo) :
    rd32 (irx.loadcore base) (Elf.place layout s entry) =
      addHigh (inputWord target entry) (inputWord target lo) (symbol + base) := by
  have at_k := Elf.getElem?_of_split split
  have typed : entry.type ≠ .none := by rw [type]; decide
  obtain ⟨m, next, at_m⟩ := Option.bind_eq_some_iff.mp ((nextLo_of_split split type).symm.trans found)
  obtain ⟨second, fixed, half⟩ := conversion.exists_pair kept at_k type next at_m
  obtain ⟨-, is_lo, same⟩ := loBehind_eq_some found
  have lo_typed : lo.type ≠ .none := by rw [is_lo]; decide
  obtain ⟨before', behind', split'⟩ := List.append_of_mem (List.mem_iff_getElem?.mpr ⟨m, at_m⟩)
  have lo_value : elf.symbolValue irx lo = some symbol := by
    rw [Elf.symbolValue, same]
    exact value
  have lo_loaded : rd32 irx.loaded (Elf.place layout s lo) = addLow (inputWord target lo) symbol := by
    rw [conversion.rd32_symbol kept known split' lo_typed lo_value, staticWord, is_lo]
  have inside : Patch.beside (Elf.place layout s entry) second (addHigh · · base) ∈
      (Fix.pair (Elf.place layout s entry) second).patches base := List.mem_cons_self
  have patched := conversion.rd32_patched kept fixed inside
  change rd32 (irx.loadcore base) (Elf.place layout s entry) =
    addHigh (rd32 irx.loaded (Elf.place layout s entry)) (rd32 irx.loaded second) base at patched
  rw [lo_loaded] at half
  rw [patched, conversion.rd32_symbol kept known split typed value, staticWord, type]
  dsimp only
  rw [found]
  dsimp only
  rw [addHigh_addHigh _ _ half]

/-- The word of a LO16 with a HI16. -/
theorem rd32_lo16 (conversion : Conversion elf irx layout) (kept : (s, i) ∈ elf.relSections)
    (known : elf.target? s = some target) (split : s.table = before ++ entry :: behind) (type : entry.type = .lo16)
    (value : elf.symbolValue irx entry = some symbol) {hi : Reloc} (found : hiBefore before entry = some hi) :
    rd32 (irx.loadcore base) (Elf.place layout s entry) = addLow (inputWord target entry) (symbol + base) := by
  have typed : entry.type ≠ .none := by rw [type]; decide
  obtain ⟨k', fix, fixed, inside⟩ := exists_own_lo kept (Elf.getElem?_of_split split) type (prevHi_of_split split type found)
  have patched := conversion.rd32_patched kept fixed inside
  change rd32 (irx.loadcore base) (Elf.place layout s entry) = addLow (rd32 irx.loaded (Elf.place layout s entry)) base
    at patched
  rw [patched, conversion.rd32_symbol kept known split typed value, staticWord, type]
  dsimp only
  rw [addLow_addLow]

end Words

end Conversion

end KosTool.Elf2irx
