import KosTool.Model.Binary.Prx
import KosTool.Soundness.CheckedSums

/-! # A PRX has the relocations that move with the module

Of an accepted ELF, the table of each allocated section becomes the entries that have a type and a symbol in an allocated
section, in their order. The segment is that of the ELF, and no two parts of the file overlap.
-/

namespace KosTool.Elf2prx

open ByteWord WordPatch Fallible Extent
open Elf2irx (orDie checkedAddU32 checkedMulU32 checkedAlignU32 orDie_eq_ok checkedAddU32_eq_ok checkedMulU32_eq_ok
  le_of_checkedAlignU32)

section Entries

variable {elf : Elf} {entries : List Reloc} {entry : Reloc}

/-- The symbol is defined in an allocated section. -/
def Elf.defined (elf : Elf) (symbol : ℕ) : Bool :=
  elf.shndx symbol != shnUndef && elf.shndx symbol != shnAbs && elf.sections[elf.shndx symbol]?.any (·.alloc)

/-- The entry is one that moves with the module. -/
def Elf.moves (elf : Elf) (entry : Reloc) : Bool := entry.type != 0#32 && elf.defined entry.symbol

/-- The entry as the loader gets it: no section indices, and the offset as it was. -/
def Reloc.bytes (entry : Reloc) : List Byte := le32 entry.offset ++ le32 entry.type

/-- The entry is not dropped. -/
def Elf.taken (elf : Elf) (entry : Reloc) : Bool :=
  entry.type != 0#32 && (elf.shndx entry.symbol != shnAbs && elf.shndx entry.symbol != shnUndef)

/-- The converted table has the entries that are not dropped. -/
theorem convert_eq_ok {conv : List Byte} (through : elf.convert entries = .ok conv) :
    conv = (entries.filter elf.taken).flatMap Reloc.bytes := by
  induction entries generalizing conv with
  | nil =>
    cases through
    rfl
  | cons entry rest ih =>
    rw [Elf.convert] at through
    split_ifs at through with none still
    · have dropped : ¬elf.taken entry = true := by simp [Elf.taken, none]
      rw [List.filter_cons_of_neg dropped]
      exact ih through
    · obtain ⟨⟨⟩, -, through⟩ := bind_eq_ok.mp through
      have dropped : ¬elf.taken entry = true := by
        rcases still with absolute | undefined
        · simp [Elf.taken, absolute]
        · simp [Elf.taken, undefined]
      rw [List.filter_cons_of_neg dropped]
      exact ih through
    · obtain ⟨⟨⟩, -, through⟩ := bind_eq_ok.mp through
      obtain ⟨others, tail, through⟩ := bind_eq_ok.mp through
      cases pure_eq_ok.mp through
      rw [not_or] at still
      have kept : elf.taken entry = true := by simp [Elf.taken, none, still.1, still.2]
      rw [List.filter_cons_of_pos kept, List.flatMap_cons, ← ih tail]
      rfl

/-- An entry that the checks let pass for an allocated section has a symbol that does not move, or one that is defined in
an allocated section. -/
theorem taken_eq_moves {target : Sec} {k : ℕ} (through : elf.validateEntry target k entry = .ok ⟨⟩)
    (alloc : target.alloc) : elf.taken entry = elf.moves entry := by
  rw [Elf.validateEntry] at through
  split_ifs at through with none
  · simp [Elf.taken, Elf.moves, none]
  · obtain ⟨⟨⟩, -, through⟩ := bind_eq_ok.mp through
    obtain ⟨⟨⟩, -, through⟩ := bind_eq_ok.mp through
    obtain ⟨⟨⟩, valid, through⟩ := bind_eq_ok.mp through
    have index := orDie_eq_ok valid
    have memory := orDie_eq_ok through
    rw [alloc, Bool.true_and, Bool.not_eq_true', Elf.nonAllocated] at memory
    rw [Elf.taken, Elf.moves, Elf.defined, Bool.and_comm (elf.shndx entry.symbol != shnAbs)]
    rcases eq_or_ne (elf.shndx entry.symbol) shnUndef with undefined | other
    · simp [undefined]
    rcases eq_or_ne (elf.shndx entry.symbol) shnAbs with absolute | other'
    · simp [absolute]
    have bound : elf.shndx entry.symbol < elf.sections.length := by simpa [other, other'] using index
    rw [List.getElem?_eq_getElem bound, Option.any_some, Bool.not_eq_false'] at memory
    rw [List.getElem?_eq_getElem bound, Option.any_some, memory, Bool.and_true]

end Entries

section Tables

variable {elf : Elf} {relidx relidx' : List (ℕ × ℕ)} {rels : List (Sec × ℕ)} {s : Sec} {i : ℕ}

/-- The entries of a relocation section have passed their checks. -/
def Elf.Checked (elf : Elf) (s : Sec) : Prop :=
  ∃ target, elf.sections[s.info]? = some target ∧
    ∀ entry k, (entry, k) ∈ (elf.entries s).zipIdx → elf.validateEntry target k entry = .ok ⟨⟩

theorem validateSection_eq_ok (through : elf.validateSection relidx s i = .ok relidx') :
    relidx' = (s.info, i) :: relidx ∧ (∀ t r, (t, r) ∈ relidx → t ≠ s.info) ∧ elf.Checked s := by
  obtain ⟨⟨⟩, -, through⟩ := bind_eq_ok.mp through
  obtain ⟨⟨⟩, -, through⟩ := bind_eq_ok.mp through
  obtain ⟨⟨⟩, -, through⟩ := bind_eq_ok.mp through
  cases known : elf.sections[s.info]? with
  | none =>
    rw [known] at through
    cases through
  | some target =>
    rw [known] at through
    obtain ⟨⟨⟩, fresh, through⟩ := bind_eq_ok.mp through
    obtain ⟨⟨⟩, -, through⟩ := bind_eq_ok.mp through
    obtain ⟨⟨⟩, checked, through⟩ := bind_eq_ok.mp through
    cases pure_eq_ok.mp through
    refine ⟨rfl, fun t r member same => ?_, target, known, fun entry k member => ?_⟩
    · have absent := orDie_eq_ok fresh
      rw [Bool.not_eq_true', List.any_eq_false] at absent
      exact absent (t, r) member (beq_iff_eq.mpr same)
    · exact forall_of_forM checked (entry, k) member

/-- The checks note down each relocation section for its target, and no target has two. -/
theorem validate_foldlM (through : rels.foldlM (fun relidx (s, i) => elf.validateSection relidx s i) relidx =
    .ok relidx') :
    relidx' = (rels.map fun (s, i) => (s.info, i)).reverse ++ relidx ∧
      (rels.Pairwise fun first second => first.1.info ≠ second.1.info) ∧
      (∀ s i, (s, i) ∈ rels → ∀ t r, (t, r) ∈ relidx → t ≠ s.info) ∧ ∀ s i, (s, i) ∈ rels → elf.Checked s := by
  induction rels generalizing relidx with
  | nil =>
    cases pure_eq_ok.mp through
    exact ⟨rfl, .nil, nofun, nofun⟩
  | cons rel rest ih =>
    obtain ⟨s, i⟩ := rel
    rw [List.foldlM_cons] at through
    obtain ⟨between, head, through⟩ := bind_eq_ok.mp through
    obtain ⟨rfl, fresh, checked⟩ := validateSection_eq_ok head
    obtain ⟨same, apart, others, all⟩ := ih through
    refine ⟨?_, .cons ?_ apart, ?_, ?_⟩
    · rw [same, List.map_cons, List.reverse_cons, List.append_assoc, List.singleton_append]
    · rintro ⟨s', i'⟩ member
      exact others s' i' member s.info i List.mem_cons_self
    · intro s' i' member t r noted
      rcases List.mem_cons.mp member with same | later
      · cases same
        exact fresh t r noted
      · exact others s' i' later t r (List.mem_cons_of_mem _ noted)
    · intro s' i' member
      rcases List.mem_cons.mp member with same | later
      · cases same
        exact checked
      · exact all s' i' later

/-- The relocation sections with their indices. -/
def Elf.relSections (elf : Elf) : List (Sec × ℕ) := (elf.sections.zipIdx.drop 1).filter fun (s, _) => s.type = .rel

/-- The relocation section for a target. -/
def Elf.relFor (elf : Elf) (i : ℕ) : Option Sec := (elf.relSections.find? fun (s, _) => s.info = i).map Prod.fst

theorem getElem?_of_relSections (member : (s, i) ∈ elf.relSections) : elf.sections[i]? = some s :=
  List.mem_zipIdx_iff_getElem?.mp (List.mem_of_mem_drop (List.mem_filter.mp member).1)

/-- The section that is noted down for a target is the one for it. -/
theorem relidx_find (through : elf.validateRelocations = .ok relidx) (i : ℕ) :
    ((relidx.find? fun (t, _) => t == i).bind fun (_, r) => elf.sections[r]?) = elf.relFor i := by
  obtain ⟨same, apart, -, -⟩ := validate_foldlM through
  rw [List.append_nil] at same
  have noted {t r : ℕ} : (t, r) ∈ relidx ↔ ∃ s, (s, r) ∈ elf.relSections ∧ s.info = t := by
    rw [same, List.mem_reverse, List.mem_map]
    constructor
    · rintro ⟨⟨s, i⟩, member, equal⟩
      cases equal
      exact ⟨s, member, rfl⟩
    · rintro ⟨s, member, rfl⟩
      exact ⟨(s, r), member, rfl⟩
  rw [Elf.relFor]
  cases found : elf.relSections.find? fun (s, _) => s.info = i with
  | none =>
    have absent : relidx.find? (fun (t, _) => t == i) = none := by
      refine List.find?_eq_none.mpr fun pair member test => ?_
      obtain ⟨s, listed, info⟩ := noted.mp member
      have none := List.find?_eq_none.mp found (s, pair.2) listed
      exact none (decide_eq_true (info.trans (beq_iff_eq.mp test)))
    rw [absent]
    rfl
  | some rel =>
    obtain ⟨s, j⟩ := rel
    have listed := List.mem_of_find?_eq_some found
    have test := List.find?_some found
    have info : s.info = i := of_decide_eq_true test
    cases lookup : relidx.find? fun (t, _) => t == i with
    | none => exact absurd (beq_iff_eq.mpr info) (List.find?_eq_none.mp lookup (s.info, j) (noted.mpr ⟨s, listed, rfl⟩))
    | some pair =>
      obtain ⟨s', listed', info'⟩ := noted.mp (List.mem_of_find?_eq_some lookup)
      have test' := List.find?_some lookup
      have key : pair.1 = i := beq_iff_eq.mp test'
      have unique : (s', pair.2) = (s, j) := by
        by_contra other
        exact @List.Pairwise.forall _ _ _ ⟨fun _ _ => Ne.symm⟩ apart _ listed' _ listed other
          ((info'.trans key).trans info.symm)
      cases unique
      exact getElem?_of_relSections listed

end Tables

section Plan

variable {elf : Elf} {relidx : List (ℕ × ℕ)} {segOff nout : ℕ} {sections : List (Sec × ℕ)} {outs : List OutSec}
  {s : Sec} {i : ℕ}

/-- The table that the loader gets for a section. -/
def Elf.converted (elf : Elf) (i : ℕ) : List Byte :=
  (elf.relFor i).elim [] fun r => ((elf.entries r).filter elf.moves).flatMap Reloc.bytes

/-- The output section of a converted table, unless it is empty. -/
def tableSec (name conv : List Byte) (outidx : ℕ) : List OutSec :=
  if conv = [] then [] else [⟨name, .prxreloc, 0x40, 0, 0, conv.length, 0, outidx, 4, 8, some conv⟩]

theorem tableOut_eq_ok {r : Sec} {outidx : ℕ} {tables : List OutSec} (through : elf.tableOut r outidx = .ok tables) :
    tables = tableSec r.name (((elf.entries r).filter elf.taken).flatMap Reloc.bytes) outidx := by
  obtain ⟨conv, converted, through⟩ := bind_eq_ok.mp through
  cases convert_eq_ok converted
  rw [tableSec]
  simp only [List.isEmpty_iff] at through
  split_ifs at through ⊢
  · exact (pure_eq_ok.mp through).symm
  · exact (pure_eq_ok.mp through).symm

/-- The table behind an allocated section is the one of the entries that move. -/
theorem tablesOf_eq_ok (valid : elf.validateRelocations = .ok relidx) (known : elf.sections[i]? = some s)
    (alloc : s.alloc) {outidx : ℕ} {tables : List OutSec} (through : elf.tablesOf relidx i outidx = .ok tables) :
    ∃ name, tables = tableSec name (elf.converted i) outidx := by
  rw [Elf.tablesOf, relidx_find valid] at through
  rw [Elf.converted]
  cases rel : elf.relFor i with
  | none =>
    rw [rel] at through
    cases through
    exact ⟨[], rfl⟩
  | some r =>
    rw [rel] at through
    obtain ⟨⟨r', j⟩, found, rfl⟩ := Option.map_eq_some_iff.mp rel
    have test := List.find?_some found
    have info : r'.info = i := of_decide_eq_true test
    obtain ⟨target, targeted, checked⟩ := (validate_foldlM valid).2.2.2 r' j (List.mem_of_find?_eq_some found)
    rw [info] at targeted
    obtain rfl := Option.some.inj (known.symm.trans targeted)
    have same : (elf.entries r').filter elf.taken = (elf.entries r').filter elf.moves := by
      refine List.filter_congr fun entry member => ?_
      obtain ⟨k, at_k⟩ := List.mem_iff_getElem?.mp member
      exact taken_eq_moves (checked entry k (List.mem_zipIdx_iff_getElem?.mpr at_k)) alloc
    refine ⟨r'.name, ?_⟩
    rw [tableOut_eq_ok through, same]
    rfl

/-- An output is a section that is carried over, or a table for an index between two. -/
def Placed (low high : ℕ) (out : OutSec) : Prop :=
  out.info = 0 ∧ out.reloc = none ∨ low ≤ out.info ∧ out.info < high ∧ out.type = .prxreloc ∧
    ∃ conv, out.reloc = some conv ∧ out.size = conv.length

theorem Placed.mono {low low' high high' : ℕ} {out : OutSec} (placed : Placed low high out) (below : low' ≤ low)
    (above : high ≤ high') : Placed low' high' out := by
  rcases placed with carried | ⟨from_low, to_high, table⟩
  · exact .inl carried
  · exact .inr ⟨below.trans from_low, to_high.trans_le above, table⟩

/-- The outputs of one section: itself, and its table. -/
theorem planSection_eq_ok {here : List OutSec} (through : elf.planSection relidx segOff nout s i = .ok here) :
    ∃ off tables, elf.segmentOff s = .ok off ∧ elf.tablesOf relidx i nout = .ok tables ∧
      here = ⟨s.name, s.type, s.flags, s.addr, segOff + off, s.size, 0, 0, s.addralign, s.entsize, none⟩ :: tables := by
  obtain ⟨off, segment, through⟩ := bind_eq_ok.mp through
  obtain ⟨sum, added, through⟩ := bind_eq_ok.mp through
  obtain ⟨tables, table, through⟩ := bind_eq_ok.mp through
  cases pure_eq_ok.mp through
  cases checkedAddU32_eq_ok added
  exact ⟨off, tables, segment, table, rfl⟩

theorem planSection_placed {here : List OutSec} (through : elf.planSection relidx segOff nout s i = .ok here) :
    ∀ out ∈ here, Placed nout (nout + here.length) out := by
  obtain ⟨off, tables, -, table, rfl⟩ := planSection_eq_ok through
  intro out member
  rcases List.mem_cons.mp member with rfl | member
  · exact .inl ⟨rfl, rfl⟩
  · rw [Elf.tablesOf] at table
    split at table
    · cases table
      nomatch member
    · rw [tableOut_eq_ok table, tableSec] at member
      split_ifs at member
      · nomatch member
      · cases List.mem_singleton.mp member
        refine .inr ⟨le_rfl, ?_, rfl, _, rfl, rfl⟩
        exact Nat.lt_add_of_pos_right (Nat.succ_pos _)

theorem plan_placed (through : elf.plan relidx segOff sections nout = .ok outs) :
    ∀ out ∈ outs, Placed nout (nout + outs.length) out := by
  induction sections generalizing nout outs with
  | nil =>
    cases through
    exact nofun
  | cons head rest ih =>
    obtain ⟨s, i⟩ := head
    rw [Elf.plan] at through
    split_ifs at through
    · obtain ⟨here, first, through⟩ := bind_eq_ok.mp through
      obtain ⟨others, tail, through⟩ := bind_eq_ok.mp through
      cases pure_eq_ok.mp through
      intro out member
      rw [List.length_append, ← Nat.add_assoc]
      rcases List.mem_append.mp member with early | late
      · exact (planSection_placed first out early).mono le_rfl (Nat.le_add_right _ _)
      · exact (ih tail out late).mono (Nat.le_add_right _ _) le_rfl
    · exact ih through

/-- Where the outputs of an allocated section stand among all. -/
theorem plan_split (through : elf.plan relidx segOff sections nout = .ok outs) (member : (s, i) ∈ sections)
    (alloc : s.alloc) : ∃ before here behind, outs = before ++ here ++ behind ∧
      elf.planSection relidx segOff (nout + before.length) s i = .ok here ∧
      (∀ out ∈ before, Placed nout (nout + before.length) out) ∧
      ∀ out ∈ behind, Placed (nout + before.length + here.length) (nout + outs.length) out := by
  induction sections generalizing nout outs with
  | nil => nomatch member
  | cons head rest ih =>
    obtain ⟨s', i'⟩ := head
    rw [Elf.plan] at through
    rcases List.mem_cons.mp member with same | later
    · cases same
      rw [if_pos alloc] at through
      obtain ⟨here, first, through⟩ := bind_eq_ok.mp through
      obtain ⟨others, tail, through⟩ := bind_eq_ok.mp through
      cases pure_eq_ok.mp through
      refine ⟨[], here, others, rfl, first, nofun, fun out late => ?_⟩
      rw [List.length_append, ← Nat.add_assoc]
      exact plan_placed tail out late
    · split_ifs at through
      · obtain ⟨first, head, through⟩ := bind_eq_ok.mp through
        obtain ⟨others, tail, through⟩ := bind_eq_ok.mp through
        cases pure_eq_ok.mp through
        obtain ⟨before, here, behind, rfl, own, early, late⟩ := ih tail later
        refine ⟨first ++ before, here, behind, by simp only [List.append_assoc], ?_, ?_, ?_⟩
        · rw [List.length_append, ← Nat.add_assoc]
          exact own
        · intro out inside
          rw [List.length_append, ← Nat.add_assoc]
          rcases List.mem_append.mp inside with one | other
          · exact (planSection_placed head out one).mono le_rfl (Nat.le_add_right _ _)
          · exact (early out other).mono (Nat.le_add_right _ _) le_rfl
        · intro out inside
          have low : nout + (first ++ before).length = nout + first.length + before.length := by
            rw [List.length_append, Nat.add_assoc]
          have high : nout + (first ++ (before ++ here ++ behind)).length =
              nout + first.length + (before ++ here ++ behind).length := by rw [List.length_append, Nat.add_assoc]
          rw [low, high]
          exact late out inside
      · exact ih through later

end Plan

section Assembly

variable {o o' : List Byte}

theorem bufPut_eq_ok {d : List Byte} (through : bufPut o d = .ok o') : o' = o ++ d := by
  obtain ⟨sum, -, through⟩ := bind_eq_ok.mp through
  exact (pure_eq_ok.mp through).symm

theorem bufPad_eq_ok {alignment : Word} (through : bufPad o alignment = .ok o') : ∃ zeros, o' = o ++ zeros := by
  obtain ⟨want, -, through⟩ := bind_eq_ok.mp through
  exact ⟨_, (pure_eq_ok.mp through).symm⟩

/-- The output is where it was, or it is a table that stands at its offset behind a length. -/
def Settled (low : ℕ) (bytes : List Byte) (out placed : OutSec) : Prop :=
  out.reloc = none ∧ placed = out ∨ ∃ r, out.reloc = some r ∧ placed = { out with off := placed.off } ∧
    cut bytes ⟨placed.off, r.length⟩ = r ∧ low ≤ placed.off ∧ placed.off + r.length ≤ bytes.length

theorem Settled.append {low low' : ℕ} {out placed : OutSec} (settled : Settled low o out placed) (below : low' ≤ low)
    (more : List Byte) : Settled low' (o ++ more) out placed := by
  rcases settled with carried | ⟨r, table, same, bytes, above, inside⟩
  · exact .inl carried
  · refine .inr ⟨r, table, same, ?_, below.trans above, ?_⟩
    · have part : stop ⟨placed.off, r.length⟩ ≤ o.length := inside
      rw [cut_append part, bytes]
    · rw [List.length_append]
      omega

/-- The places of the converted tables. -/
def tableExtents (outs : List OutSec) : List Extent :=
  outs.filterMap fun out => out.reloc.map fun r => ⟨out.off, r.length⟩

/-- The tables are put one behind the other. -/
theorem putTables_eq_ok {outs placed : List OutSec} (through : putTables outs o = .ok (placed, o')) :
    (∃ suffix, o' = o ++ suffix) ∧ List.Forall₂ (Settled o.length o') outs placed ∧ Ordered (tableExtents placed) ∧
      ∀ extent ∈ tableExtents placed, o.length ≤ extent.start ∧ extent.stop ≤ o'.length := by
  induction outs generalizing o placed with
  | nil =>
    cases through
    exact ⟨⟨[], (List.append_nil _).symm⟩, .nil, .nil, nofun⟩
  | cons out rest ih =>
    rw [putTables] at through
    cases table : out.reloc with
    | none =>
      rw [table] at through
      obtain ⟨⟨others, last⟩, tail, through⟩ := bind_eq_ok.mp through
      cases pure_eq_ok.mp through
      obtain ⟨suffix, settled, ordered, inside⟩ := ih tail
      have extents : tableExtents (out :: others) = tableExtents others := by
        rw [tableExtents, List.filterMap_cons, table]
        rfl
      rw [extents]
      exact ⟨suffix, .cons (.inl ⟨table, rfl⟩) settled, ordered, inside⟩
    | some reloc =>
      rw [table] at through
      obtain ⟨padded, pad, through⟩ := bind_eq_ok.mp through
      obtain ⟨put, own, through⟩ := bind_eq_ok.mp through
      obtain ⟨⟨others, last⟩, tail, through⟩ := bind_eq_ok.mp through
      cases pure_eq_ok.mp through
      obtain ⟨zeros, rfl⟩ := bufPad_eq_ok pad
      cases bufPut_eq_ok own
      obtain ⟨⟨suffix, rfl⟩, settled, ordered, inside⟩ := ih tail
      have extents : tableExtents ({ out with off := (o ++ zeros).length, reloc := some reloc } :: others) =
          ⟨(o ++ zeros).length, reloc.length⟩ :: tableExtents others := rfl
      have below : o.length ≤ (o ++ zeros).length := by
        rw [List.length_append]
        exact Nat.le_add_right _ _
      have grown : (o ++ zeros ++ reloc).length = (o ++ zeros).length + reloc.length := List.length_append
      have total : (o ++ zeros).length + reloc.length ≤ (o ++ zeros ++ reloc ++ suffix).length := by
        simp only [List.length_append]
        exact Nat.le_add_right _ _
      rw [extents]
      refine ⟨⟨zeros ++ reloc ++ suffix, by simp only [List.append_assoc]⟩, .cons (.inr ⟨reloc, table, ?_, ?_, below, ?_⟩) ?_,
        .cons ?_ ordered, ?_⟩
      · rw [← table]
      · exact cut_middle _ _ _
      · exact total
      · refine settled.imp fun out placed settled => ?_
        have lower : o.length ≤ (o ++ zeros ++ reloc).length := below.trans (grown ▸ Nat.le_add_right _ _)
        have more := settled.append lower []
        rwa [List.append_nil] at more
      · intro extent member
        exact grown.symm.trans_le (inside extent member).1
      · intro extent member
        rcases List.mem_cons.mp member with rfl | later
        · exact ⟨below, total⟩
        · exact ⟨by have := (inside extent later).1; omega, (inside extent later).2⟩

@[simp] theorem length_headerBytes (out : OutSec) (nameOff : ℕ) : (headerBytes out nameOff).length = 40 := rfl

@[simp] theorem length_fileHeader (elf : Elf) (shoff nout shstrIdx : ℕ) :
    (fileHeader elf shoff nout shstrIdx).length = 52 := rfl

@[simp] theorem length_programHeader (elf : Elf) (segOff modinfoOff : ℕ) :
    (programHeader elf segOff modinfoOff).length = 32 := rfl

/-- Each output has a name. -/
theorem putNames_length {outs : List OutSec} {names all : List Byte} {offsets : List ℕ}
    (through : putNames outs names = .ok (offsets, all)) : offsets.length = outs.length := by
  induction outs generalizing names offsets with
  | nil =>
    cases through
    rfl
  | cons out rest ih =>
    obtain ⟨put, -, through⟩ := bind_eq_ok.mp through
    obtain ⟨⟨others, last⟩, tail, through⟩ := bind_eq_ok.mp through
    cases pure_eq_ok.mp through
    exact congrArg (· + 1) (ih tail)

theorem Settled.overwrite {low : ℕ} {out placed : OutSec} {front : List Byte} (settled : Settled low o out placed)
    (behind : front.length ≤ low) (short : front.length ≤ o.length) :
    Settled low (front ++ o.drop front.length) out placed := by
  have total : (front ++ o.drop front.length).length = o.length := by
    rw [List.length_append, List.length_drop]
    omega
  rcases settled with carried | ⟨r, table, same, bytes, above, inside⟩
  · exact .inl carried
  · refine .inr ⟨r, table, same, ?_, above, total ▸ inside⟩
    have start : front.length ≤ placed.off := behind.trans above
    rw [cut_overwrite front start, bytes]

/-- The parts of the file: the headers, the segment, the tables, the names and the section headers. -/
def Prx.parts (prx : Prx) (elf : Elf) : List Extent :=
  [⟨0, 52⟩, ⟨52, 32⟩, ⟨prx.segOff, elf.load.filesz⟩] ++ tableExtents prx.out ++
    [⟨prx.shstrtabOff, prx.shstrtabSize⟩, ⟨prx.shoff, prx.out.length * 40⟩]

/-- What the assembly makes of a plan. -/
structure Assembled (elf : Elf) (segOff : ℕ) (planned : List OutSec) (prx : Prx) : Prop where
  out : ∃ placed last, prx.out = nullOut :: placed ++ [last] ∧ last.type = .strtab ∧
    List.Forall₂ (Settled segOff prx.bytes) planned placed
  start : prx.segOff = segOff
  segment : cut prx.bytes ⟨segOff, elf.load.filesz⟩ = slice elf.e elf.load.offset elf.load.filesz
  headers : cut prx.bytes ⟨prx.shoff, prx.out.length * 40⟩ =
    (prx.out.zip prx.nameOffs).flatMap fun (out, nameOff) => headerBytes out nameOff
  ordered : Ordered (prx.parts elf)
  inside : ∀ part ∈ prx.parts elf, part.stop ≤ prx.bytes.length

theorem length_headers (outs : List OutSec) (nameOffs : List ℕ) (same : nameOffs.length = outs.length) :
    ((outs.zip nameOffs).flatMap fun (out, nameOff) => headerBytes out nameOff).length = outs.length * 40 := by
  rw [List.length_flatMap, List.map_congr_left fun pair _ => length_headerBytes pair.1 pair.2, List.map_const',
    List.sum_replicate_nat, List.length_zip, same, Nat.min_self]

section Parts

variable {elf : Elf} {segOff : ℕ} {planned placed : List OutSec} {last : OutSec} {nameOffs : List ℕ}
  {base suffix zeros names zeros' headers front more : List Byte}

/-- What is put behind a part, and what is written over the front, does not change it. -/
theorem cut_written {extent : Extent} (behind : front.length ≤ extent.start) (inside : extent.stop ≤ base.length) :
    cut (front ++ (base ++ more).drop front.length) extent = cut base extent :=
  (cut_overwrite front behind).trans (cut_append inside)

/-- The file of parts that follow one another. -/
theorem assembled_of_parts (frontLength : front.length = 84) (room : 84 ≤ segOff)
    (baseLength : base.length = segOff + elf.load.filesz)
    (baseCut : cut base ⟨segOff, elf.load.filesz⟩ = slice elf.e elf.load.offset elf.load.filesz)
    (settled : List.Forall₂ (Settled base.length (base ++ suffix)) planned placed)
    (ordered : Ordered (tableExtents placed))
    (inside : ∀ extent ∈ tableExtents placed, base.length ≤ extent.start ∧ extent.stop ≤ (base ++ suffix).length)
    (strtab : last.type = .strtab) (none : last.reloc = none) (count : nameOffs.length = placed.length + 2)
    (headersEq : headers =
      ((nullOut :: placed ++ [last]).zip nameOffs).flatMap fun (out, nameOff) => headerBytes out nameOff) :
    Assembled elf segOff planned
      { bytes := front ++ (base ++ suffix ++ zeros ++ names ++ zeros' ++ headers).drop front.length
        out := nullOut :: placed ++ [last]
        nameOffs
        segOff
        shstrtabOff := (base ++ suffix ++ zeros).length
        shstrtabSize := names.length
        shoff := (base ++ suffix ++ zeros ++ names ++ zeros').length } := by
  have headersLength : headers.length = (nullOut :: placed ++ [last]).length * 40 := by
    rw [headersEq]
    apply length_headers
    rw [count, List.length_append, List.length_cons, List.length_singleton]
  have total : (front ++ (base ++ suffix ++ zeros ++ names ++ zeros' ++ headers).drop front.length).length =
      base.length + suffix.length + zeros.length + names.length + zeros'.length + headers.length := by
    simp only [List.length_append, List.length_drop]
    omega
  have extents : tableExtents (nullOut :: placed ++ [last]) = tableExtents placed := by
    rw [tableExtents, List.filterMap_append, List.filterMap_cons, List.filterMap_cons, none]
    exact List.append_nil _
  have grown : (base ++ suffix).length = base.length + suffix.length := List.length_append
  constructor
  · refine ⟨placed, last, rfl, strtab, settled.imp fun out placed settled => ?_⟩
    have more := settled.append (show segOff ≤ base.length by omega) (zeros ++ names ++ zeros' ++ headers)
    have overrun := more.overwrite (frontLength.trans_le room) (by
      simp only [List.length_append]
      omega)
    simp only [List.append_assoc] at overrun ⊢
    exact overrun
  · rfl
  · rw [← baseCut]
    dsimp only
    rw [List.append_assoc, List.append_assoc, List.append_assoc, List.append_assoc]
    exact cut_written (by dsimp only; omega) (by dsimp only [stop]; omega)
  · have middle := cut_middle (base ++ suffix ++ zeros ++ names ++ zeros') headers []
    rw [List.append_nil, headersLength] at middle
    refine (cut_overwrite front ?_).trans (middle.trans headersEq)
    simp only [List.length_append]
    omega
  · rw [Prx.parts, extents, Ordered, List.pairwise_append, List.pairwise_append]
    refine ⟨⟨ordered_of_chain ?_, ordered, ?_⟩, ordered_of_chain ?_, ?_⟩
    · simp only [List.isChain_cons_cons, List.isChain_singleton, and_true, Before, stop]
      omega
    · intro first front table member
      have above := (inside table member).1
      refine Nat.le_trans ?_ above
      simp only [List.mem_cons, List.not_mem_nil, or_false] at front
      rcases front with rfl | rfl | rfl <;> dsimp only [stop] <;> omega
    · simp only [List.isChain_cons_cons, List.isChain_singleton, and_true, Before, stop, List.length_append]
      omega
    · intro first early part late
      have ends : first.stop ≤ base.length + suffix.length := by
        rcases List.mem_append.mp early with early | member
        · simp only [List.mem_cons, List.not_mem_nil, or_false] at early
          rcases early with rfl | rfl | rfl <;> dsimp only [stop] <;> omega
        · exact (inside first member).2.trans_eq grown
      refine ends.trans ?_
      simp only [List.mem_cons, List.not_mem_nil, or_false] at late
      rcases late with rfl | rfl <;> simp only [List.length_append] <;> omega
  · intro part member
    rw [Prx.parts, extents] at member
    rw [total]
    rcases List.mem_append.mp member with early | late
    · rcases List.mem_append.mp early with early | table
      · simp only [List.mem_cons, List.not_mem_nil, or_false] at early
        rcases early with rfl | rfl | rfl <;> dsimp only [stop] <;> omega
      · have ends := (inside part table).2
        omega
    · simp only [List.mem_cons, List.not_mem_nil, or_false] at late
      rcases late with rfl | rfl <;> simp only [stop, List.length_append] at headersLength ⊢ <;> omega

end Parts

theorem assemble_eq_ok {elf : Elf} {modinfo : Sec} {segOff : ℕ} {planned : List OutSec} {prx : Prx}
    (through : assemble elf modinfo segOff planned = .ok prx) (room : 84 ≤ segOff) : Assembled elf segOff planned prx := by
  obtain ⟨⟨⟩, -, through⟩ := bind_eq_ok.mp through
  obtain ⟨first, -, through⟩ := bind_eq_ok.mp through
  obtain ⟨⟨nameOffs, names⟩, named, through⟩ := bind_eq_ok.mp through
  obtain ⟨segment, put, through⟩ := bind_eq_ok.mp through
  obtain ⟨⟨placed, o⟩, tables, through⟩ := bind_eq_ok.mp through
  obtain ⟨padded, pad, through⟩ := bind_eq_ok.mp through
  obtain ⟨behind, putNames, through⟩ := bind_eq_ok.mp through
  obtain ⟨aligned, align, through⟩ := bind_eq_ok.mp through
  obtain ⟨headersSize, -, through⟩ := bind_eq_ok.mp through
  obtain ⟨sum, -, through⟩ := bind_eq_ok.mp through
  obtain ⟨modinfoOff, -, through⟩ := bind_eq_ok.mp through
  cases pure_eq_ok.mp through
  cases bufPut_eq_ok put
  obtain ⟨⟨suffix, rfl⟩, settled, ordered, inside⟩ := putTables_eq_ok tables
  obtain ⟨zeros, rfl⟩ := bufPad_eq_ok pad
  cases bufPut_eq_ok putNames
  obtain ⟨zeros', rfl⟩ := bufPad_eq_ok align
  have count := putNames_length named
  refine assembled_of_parts rfl room ?_ ?_ settled ordered inside rfl rfl ?_ rfl
  · rw [List.length_append, List.length_replicate, length_slice]
  · have middle := cut_middle (List.replicate segOff (0 : Byte)) (slice elf.e elf.load.offset elf.load.filesz) []
    rw [List.append_nil, List.length_replicate, length_slice] at middle
    exact middle
  · rw [List.length_cons, count, List.length_append, settled.length_eq]
    rfl

end Assembly

section Whole

variable {elf : Elf} {prx : Prx}

/-- The tables of the file that are for an output section, by its index, as the section headers have them. -/
def Prx.tablesFor (prx : Prx) (k : ℕ) : List (List Byte) :=
  (prx.out.filter fun out => out.type = .prxreloc ∧ out.info = k).map fun out => cut prx.bytes ⟨out.off, out.size⟩

/-- The output section that an allocated section is carried over to. -/
def Prx.Carries (prx : Prx) (elf : Elf) (s : Sec) (k : ℕ) : Prop :=
  ∃ out, prx.out[k]? = some out ∧ out.name = s.name ∧ out.type = s.type ∧ out.flags = s.flags ∧ out.addr = s.addr ∧
    out.size = s.size ∧ out.off = prx.segOff + (s.off - elf.load.offset)

/-- What the file has of the ELF. -/
structure Prx.Converts (prx : Prx) (elf : Elf) : Prop where
  tables : ∀ i s, 1 ≤ i → elf.sections[i]? = some s → s.alloc → ∃ k, 1 ≤ k ∧ prx.Carries elf s k ∧
    prx.tablesFor k = if elf.converted i = [] then [] else [elf.converted i]
  segment : cut prx.bytes ⟨prx.segOff, elf.load.filesz⟩ = slice elf.e elf.load.offset elf.load.filesz
  headers : cut prx.bytes ⟨prx.shoff, prx.out.length * 40⟩ =
    (prx.out.zip prx.nameOffs).flatMap fun (out, nameOff) => headerBytes out nameOff
  ordered : Ordered (prx.parts elf)
  inside : ∀ part ∈ prx.parts elf, part.stop ≤ prx.bytes.length
  memory : ∀ r j target entry, (r, j) ∈ elf.relSections → elf.sections[r.info]? = some target → target.alloc →
    entry ∈ elf.entries r → entry.type ≠ 0#32 → elf.nonAllocated (elf.shndx entry.symbol) = false
  absolute : elf.sections.length ≤ shnAbs → ∀ target k entry, elf.shndx entry.symbol = shnAbs →
    target.addr ≤ entry.offset.toNat → entry.offset.toNat - target.addr + 4 ≤ target.size → entry.symbol < elf.symcount →
    elf.validateEntry target k entry = .ok ⟨⟩

/-- The tables for an index are those of the plan. -/
theorem tables_of_settled {planned placed : List OutSec} {bytes : List Byte} {low high k : ℕ}
    (settled : List.Forall₂ (Settled low bytes) planned placed) (plan : ∀ out ∈ planned, Placed 1 high out) (some : k ≠ 0) :
    (placed.filter fun out => out.type = .prxreloc ∧ out.info = k).map (fun out => cut bytes ⟨out.off, out.size⟩) =
      (planned.filter fun out => out.info = k).map fun out => out.reloc.getD [] := by
  induction settled with
  | nil => rfl
  | @cons out placed outs others first rest ih =>
    have tail := ih fun other member => plan other (List.mem_cons_of_mem _ member)
    rcases plan out List.mem_cons_self with ⟨info, none⟩ | ⟨-, -, type, conv, table, size⟩
    · rcases first with ⟨-, same⟩ | ⟨r, table, -⟩
      · have other : ¬out.info = k := fun equal => some (equal.symm.trans info)
        rw [same, List.filter_cons_of_neg (by simp [other]), List.filter_cons_of_neg (by simp [other])]
        exact tail
      · rw [none] at table
        cases table
    · rcases first with ⟨none, -⟩ | ⟨r, table', same, bytes, -⟩
      · rw [table] at none
        cases none
      · cases table.symm.trans table'
        have type' : placed.type = .prxreloc := by rw [same]; exact type
        have size' : placed.size = conv.length := by rw [same]; exact size
        have info' : placed.info = out.info := by rw [same]
        rcases eq_or_ne out.info k with own | other
        · rw [List.filter_cons_of_pos (by simp [type', info', own]), List.filter_cons_of_pos (by simp [own]),
            List.map_cons, List.map_cons, tail, size', bytes, table]
          rfl
        · rw [List.filter_cons_of_neg (by simp [info', other]), List.filter_cons_of_neg (by simp [other])]
          exact tail

/-- Only the tables of a section itself are for it. -/
theorem filter_plan {before tables behind : List OutSec} {carried : OutSec} {name conv : List Byte} {k high : ℕ}
    (early : ∀ out ∈ before, Placed 1 k out) (none : carried.info = 0) (own : tables = tableSec name conv k)
    (late : ∀ out ∈ behind, Placed (k + 1) high out) (some : k ≠ 0) :
    ((before ++ carried :: tables ++ behind).filter fun out => out.info = k).map (fun out => out.reloc.getD []) =
      if conv = [] then [] else [conv] := by
  have front : before.filter (fun out => out.info = k) = [] := by
    refine List.filter_eq_nil_iff.mpr fun out member test => ?_
    have info : out.info = k := of_decide_eq_true test
    rcases early out member with ⟨zero, -⟩ | ⟨-, below, -⟩ <;> omega
  have rest : behind.filter (fun out => out.info = k) = [] := by
    refine List.filter_eq_nil_iff.mpr fun out member test => ?_
    have info : out.info = k := of_decide_eq_true test
    rcases late out member with ⟨zero, -⟩ | ⟨above, -⟩ <;> omega
  have other : ¬decide (carried.info = k) = true := by simp [none, some.symm]
  have skip : (carried :: tables).filter (fun out => decide (out.info = k)) =
      tables.filter fun out => decide (out.info = k) := List.filter_cons_of_neg other
  rw [List.filter_append, List.filter_append, front, rest, skip, List.nil_append, List.append_nil, own, tableSec]
  split_ifs with empty
  · rfl
  · simp

/-- The entries of a relocation section for memory have symbols in memory, or without a section. -/
theorem memory_of_validate {relidx : List (ℕ × ℕ)} (valid : elf.validateRelocations = .ok relidx) {r target : Sec} {j : ℕ}
    (listed : (r, j) ∈ elf.relSections) (known : elf.sections[r.info]? = some target) (alloc : target.alloc)
    {entry : Reloc} (member : entry ∈ elf.entries r) (typed : entry.type ≠ 0#32) :
    elf.nonAllocated (elf.shndx entry.symbol) = false := by
  obtain ⟨target', known', checked⟩ := (validate_foldlM valid).2.2.2 r j listed
  obtain rfl := Option.some.inj (known.symm.trans known')
  obtain ⟨k, at_k⟩ := List.mem_iff_getElem?.mp member
  have through := checked entry k (List.mem_zipIdx_iff_getElem?.mpr at_k)
  rw [Elf.validateEntry, if_neg typed] at through
  obtain ⟨⟨⟩, -, through⟩ := bind_eq_ok.mp through
  obtain ⟨⟨⟩, -, through⟩ := bind_eq_ok.mp through
  obtain ⟨⟨⟩, -, through⟩ := bind_eq_ok.mp through
  have inMemory := orDie_eq_ok through
  rwa [alloc, Bool.true_and, Bool.not_eq_true'] at inMemory

/-- The entry of an absolute symbol passes the checks. -/
theorem validateEntry_absolute {target : Sec} {k : ℕ} {entry : Reloc} (few : elf.sections.length ≤ shnAbs)
    (absolute : elf.shndx entry.symbol = shnAbs) (above : target.addr ≤ entry.offset.toNat)
    (inside : entry.offset.toNat - target.addr + 4 ≤ target.size) (known : entry.symbol < elf.symcount) :
    elf.validateEntry target k entry = .ok ⟨⟩ := by
  have nowhere : elf.nonAllocated shnAbs = false := by rw [Elf.nonAllocated, List.getElem?_eq_none few, Option.any_none]
  rw [Elf.validateEntry, absolute]
  split_ifs
  · rfl
  · simp [orDie, above, inside, known, nowhere, bind, Except.bind]

theorem segmentOff_eq_ok {s : Sec} {off : ℕ} (through : elf.segmentOff s = .ok off) : off = s.off - elf.load.offset := by
  obtain ⟨⟨⟩, -, through⟩ := bind_eq_ok.mp through
  obtain ⟨⟨⟩, -, through⟩ := bind_eq_ok.mp through
  obtain ⟨⟨⟩, -, through⟩ := bind_eq_ok.mp through
  obtain ⟨⟨⟩, -, through⟩ := bind_eq_ok.mp through
  obtain ⟨⟨⟩, -, through⟩ := bind_eq_ok.mp through
  exact (pure_eq_ok.mp through).symm

/-- An output of the plan has its place in the file. -/
theorem settled_at {planned placed : List OutSec} {bytes : List Byte} {low k : ℕ} {out : OutSec}
    (settled : List.Forall₂ (Settled low bytes) planned placed) (at_k : planned[k]? = some out) (none : out.reloc = none) :
    placed[k]? = some out := by
  induction settled generalizing k with
  | nil => nomatch at_k
  | @cons first placed outs others here rest ih =>
    cases k with
    | zero =>
      obtain rfl := Option.some.inj at_k
      rcases here with ⟨-, rfl⟩ | ⟨r, table, -⟩
      · rfl
      · rw [none] at table
        cases table
    | succ k => exact ih at_k

/-- What the file has of an allocated section. -/
theorem converts_section {relidx : List (ℕ × ℕ)} {segOff : ℕ} {planned : List OutSec} {s : Sec} {i : ℕ}
    (valid : elf.validateRelocations = .ok relidx)
    (through : elf.plan relidx segOff (elf.sections.zipIdx.drop 1) 1 = .ok planned)
    (assembled : Assembled elf segOff planned prx) (positive : 1 ≤ i) (known : elf.sections[i]? = some s)
    (alloc : s.alloc) : ∃ k, 1 ≤ k ∧ prx.Carries elf s k ∧
      prx.tablesFor k = if elf.converted i = [] then [] else [elf.converted i] := by
  have member : (s, i) ∈ elf.sections.zipIdx.drop 1 := by
    refine List.mem_iff_getElem?.mpr ⟨i - 1, ?_⟩
    rw [List.getElem?_drop, Nat.add_sub_cancel' positive, List.getElem?_zipIdx, known, Nat.zero_add]
    rfl
  obtain ⟨before, here, behind, rfl, own, early, late⟩ := plan_split through member alloc
  obtain ⟨off, tables, segment, table, rfl⟩ := planSection_eq_ok own
  cases segmentOff_eq_ok segment
  obtain ⟨name, converted⟩ := tablesOf_eq_ok valid known alloc table
  obtain ⟨placed, last, outs, strtab, settled⟩ := assembled.out
  refine ⟨1 + before.length, Nat.le_add_right _ _, ⟨⟨s.name, s.type, s.flags, s.addr,
    segOff + (s.off - elf.load.offset), s.size, 0, 0, s.addralign, s.entsize, none⟩, ?_, rfl, rfl, rfl, rfl, rfl, ?_⟩, ?_⟩
  · have at_k := settled_at settled (k := before.length) (by
      rw [List.append_assoc, List.getElem?_append_right le_rfl, Nat.sub_self]
      rfl) rfl
    rw [outs, List.cons_append, Nat.add_comm, List.getElem?_cons_succ, List.getElem?_append_left]
    · exact at_k
    · exact (List.getElem?_eq_some_iff.mp at_k).1
  · rw [assembled.start]
  · have ends : prx.tablesFor (1 + before.length) = (placed.filter fun out =>
        out.type = .prxreloc ∧ out.info = 1 + before.length).map fun out => cut prx.bytes ⟨out.off, out.size⟩ := by
      rw [Prx.tablesFor, outs, List.filter_append, List.filter_cons_of_neg (by simp [nullOut]), List.filter_cons_of_neg (by simp [strtab]), List.filter_nil,
        List.append_nil]
    rw [ends, tables_of_settled settled (plan_placed through) (by omega)]
    have above : ∀ out ∈ behind, Placed (1 + before.length + 1) _ out := fun out member =>
      (late out member).mono (Nat.add_le_add_left (Nat.le_add_left 1 _) _) le_rfl
    exact filter_plan early rfl converted above (by omega)

/-- An ELF with a relocated section of two words, whose second word refers to a symbol of a given section. -/
def relocatedElf (shndx : ℕ) : List Byte :=
  [0x7F, 0x45, 0x4C, 0x46, 1, 1, 1] ++ List.replicate 9 0 ++ le16 2 ++ le16 8 ++ leNat 1 ++ leNat 0 ++ leNat 52 ++
    leNat 240 ++ leNat 0 ++ le16 52 ++ le16 32 ++ le16 1 ++ le16 40 ++ le16 6 ++ le16 5 ++
  leNat 1 ++ leNat 84 ++ leNat 0 ++ leNat 0 ++ leNat 60 ++ leNat 60 ++ leNat 5 ++ leNat 1 ++
  List.replicate 60 0xAB ++
  leNat 0 ++ leNat 0x102 ++ leNat 4 ++ leNat 0x202 ++ leNat 4 ++ leNat 0x200 ++
  List.replicate 16 0 ++ (List.replicate 14 0 ++ le16 1) ++ (List.replicate 14 0 ++ le16 shndx) ++
  (0 :: modinfoSection ++ [0]) ++ [0] ++
  List.replicate 40 0 ++
  (leNat 0 ++ leNat 1 ++ leNat 6 ++ leNat 0 ++ leNat 84 ++ leNat 8 ++ leNat 0 ++ leNat 0 ++ leNat 4 ++ leNat 0) ++
  (leNat 1 ++ leNat 1 ++ leNat 2 ++ leNat 8 ++ leNat 92 ++ leNat 52 ++ leNat 0 ++ leNat 0 ++ leNat 4 ++ leNat 0) ++
  (leNat 0 ++ leNat 9 ++ leNat 0 ++ leNat 0 ++ leNat 144 ++ leNat 24 ++ leNat 4 ++ leNat 1 ++ leNat 4 ++ leNat 8) ++
  (leNat 0 ++ leNat 2 ++ leNat 0 ++ leNat 0 ++ leNat 168 ++ leNat 48 ++ leNat 5 ++ leNat 0 ++ leNat 4 ++ leNat 16) ++
  (leNat 0 ++ leNat 3 ++ leNat 0 ++ leNat 0 ++ leNat 216 ++ leNat 23 ++ leNat 0 ++ leNat 0 ++ leNat 1 ++ leNat 0)

def relocatedInput (shndx : ℕ) : Buffer := overlay (relocatedElf shndx) fun _ => 0

theorem parse_input {e : Buffer} {elen : ℕ} (through : parse e elen = .ok elf) : elf.e = e := by
  obtain ⟨⟨⟩, -, through⟩ := bind_eq_ok.mp through
  obtain ⟨load, -, through⟩ := bind_eq_ok.mp through
  obtain ⟨⟨⟩, -, through⟩ := bind_eq_ok.mp through
  obtain ⟨sections, -, through⟩ := bind_eq_ok.mp through
  split at through
  · cases through
  · obtain ⟨⟨⟩, -, through⟩ := bind_eq_ok.mp through
    cases pure_eq_ok.mp through
    rfl
  · cases through

/-- Of an accepted ELF, the file has the segment, and for each allocated section the entries that move with the module. -/
theorem prx_converts {e : Buffer} {elen : ℕ} (accepted : elf2prx e elen = .ok (elf, prx)) :
    parse e elen = .ok elf ∧ elf.e = e ∧ prx.Converts elf := by
  obtain ⟨elf', parsed, through⟩ := bind_eq_ok.mp accepted
  obtain ⟨relidx, valid, through⟩ := bind_eq_ok.mp through
  obtain ⟨modinfo, -, through⟩ := bind_eq_ok.mp through
  obtain ⟨header, sum, through⟩ := bind_eq_ok.mp through
  obtain ⟨segOff, aligned, through⟩ := bind_eq_ok.mp through
  obtain ⟨planned, plan, through⟩ := bind_eq_ok.mp through
  obtain ⟨prx', assembled, through⟩ := bind_eq_ok.mp through
  cases pure_eq_ok.mp through
  have room : 84 ≤ segOff := by
    cases checkedAddU32_eq_ok sum
    exact le_of_checkedAlignU32 aligned
  have parts := assemble_eq_ok assembled room
  refine ⟨parsed, parse_input parsed, ?_⟩
  constructor
  · intro i s positive known alloc
    exact converts_section valid plan parts positive known alloc
  · rw [parts.start]
    exact parts.segment
  · exact parts.headers
  · exact parts.ordered
  · exact parts.inside
  · intro r j target entry listed known alloc member typed
    exact memory_of_validate valid listed known alloc member typed
  · intro few target k entry absolute above inside known
    exact validateEntry_absolute few absolute above inside known

/-- The entry of an absolute symbol and that without a type are dropped. -/
theorem prx_converts_absolute : ∃ elf prx, elf2prx (relocatedInput shnAbs) 480 = .ok (elf, prx) ∧
    (parse (relocatedInput shnAbs) 480 = .ok elf ∧ elf.e = relocatedInput shnAbs ∧ prx.Converts elf) ∧
    prx.tablesFor 1 = [[0, 0, 0, 0, 2, 0, 0, 0]] := by
  have tables : (elf2prx (relocatedInput shnAbs) 480).toOption.map (fun out => out.2.tablesFor 1) =
      some [[0, 0, 0, 0, 2, 0, 0, 0]] := by decide +kernel
  obtain ⟨⟨elf, prx⟩, run, converted⟩ := Option.map_eq_some_iff.mp tables
  have accepted := eq_ok_of_toOption run
  exact ⟨elf, prx, accepted, prx_converts accepted, converted⟩

/-- An ELF is rejected for an entry whose symbol has no memory, where that of an absolute symbol is dropped. -/
theorem prx_rejects_non_allocated : (elf2prx (relocatedInput shnAbs) 480).toBool = true ∧
    (elf2prx (relocatedInput 4) 480).toBool = false := by decide +kernel

end Whole

end KosTool.Elf2prx
