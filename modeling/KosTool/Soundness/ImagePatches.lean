import KosTool.Machine.Fallible
import KosTool.Soundness.EmittedTable
import KosTool.Soundness.RelocatedWords

/-! # The passes over the image are patches in place

The static pass patches the place of each entry once. The scratch words are filled from the words of their partners. The
loader patches a place for each entry that it takes by itself, and two for each pair.
-/

namespace KosTool.Elf2irx

open WordPatch

section StaticPass

variable {place : Reloc → ℕ} {symAddr : Reloc → Except String Word} {value : Reloc → Word} {entry : Reloc}
  {behind table : List Reloc} {image result : Buffer}

/-- The LO16 of an entry among those behind it. -/
def loBehind (behind : List Reloc) (entry : Reloc) : Option Reloc := behind.find? fun lo => lo.Matches .lo16 entry.sym

theorem loBehind_eq_some {lo : Reloc} (found : loBehind behind entry = some lo) :
    lo ∈ behind ∧ lo.Matches .lo16 entry.sym := by
  rw [loBehind] at found
  have test := List.find?_some found
  exact ⟨List.mem_of_find?_eq_some found, of_decide_eq_true test⟩

/-- The patch of an entry, with the value of its symbol. -/
def staticPatch (place : Reloc → ℕ) (value : Word) (entry : Reloc) (behind : List Reloc) : Option Patch :=
  match entry.type with
  | .mips16 | .lo16 => some (.own (place entry) (addLow · value))
  | .mips32 | .rel32 => some (.own (place entry) (· + value))
  | .mips26 => some (.own (place entry) (addTarget · value))
  | .hi16 => (loBehind behind entry).map fun lo => .beside (place entry) (place lo) (addHigh · · value)
  | _ => none

theorem applyEntry_eq (place : Reloc → ℕ) (value : Word) (entry : Reloc) (behind : List Reloc) (image : Buffer) :
    applyEntry place value entry behind image = run (staticPatch place value entry behind).toList image := by
  rw [applyEntry, staticPatch]
  cases entry.type with
  | hi16 =>
    dsimp only
    rw [← loBehind]
    cases loBehind behind entry <;> rfl
  | _ => rfl

/-- The patches of a table. -/
def staticPatches (place : Reloc → ℕ) (value : Reloc → Word) : List Reloc → List Patch
  | [] => []
  | entry :: behind => (staticPatch place (value entry) entry behind).toList ++ staticPatches place value behind

/-- The value of a symbol that has one. -/
def valueOf (symAddr : Reloc → Except String Word) (entry : Reloc) : Word :=
  match symAddr entry with
  | .ok value => value
  | .error _ => 0

theorem staticPatch_none (value : Word) (typed : entry.type = .none) : staticPatch place value entry behind = none := by
  rw [staticPatch, typed]

/-- The static pass over a table that goes through, with a value for each symbol. -/
theorem applyTable_eq_ok (through : applyTable place symAddr table image = .ok result) :
    result = run (staticPatches place (valueOf symAddr) table) image ∧
      ∀ entry ∈ table, entry.type ≠ .none → symAddr entry = .ok (valueOf symAddr entry) := by
  induction table generalizing image with
  | nil =>
    cases through
    exact ⟨rfl, nofun⟩
  | cons entry behind ih =>
    rw [applyTable] at through
    rw [staticPatches, run_append]
    split_ifs at through with none
    · obtain ⟨same, all⟩ := ih through
      rw [staticPatch_none _ none]
      refine ⟨same, fun other member typed => ?_⟩
      rcases List.mem_cons.mp member with rfl | later
      · exact absurd none typed
      · exact all other later typed
    · obtain ⟨value, addr, through⟩ := Fallible.bind_eq_ok.mp through
      have own : valueOf symAddr entry = value := by rw [valueOf, addr]
      rw [applyEntry_eq] at through
      obtain ⟨same, all⟩ := ih through
      rw [own]
      refine ⟨same, fun other member typed => ?_⟩
      rcases List.mem_cons.mp member with rfl | later
      · rw [own]
        exact addr
      · exact all other later typed

/-- Where the patch of an entry writes and reads: its own place, and that of a LO16 behind it. -/
theorem staticPatch_reach {value : Word} {patch : Patch} (some : staticPatch place value entry behind = some patch) :
    entry.type ≠ .none ∧ patch.place = place entry ∧
      ∀ offset ∈ patch.reads, ∃ other ∈ entry :: behind, other.type ≠ .none ∧ offset = place other := by
  have alone {f : Word → Word} (typed : entry.type ≠ .none) (same : Patch.own (place entry) f = patch) :
      entry.type ≠ .none ∧ patch.place = place entry ∧
        ∀ offset ∈ patch.reads, ∃ other ∈ entry :: behind, other.type ≠ .none ∧ offset = place other := by
    subst same
    exact ⟨typed, rfl, fun offset read => ⟨entry, List.mem_cons_self, typed, List.mem_singleton.mp read⟩⟩
  rw [staticPatch] at some
  cases type : entry.type with
  | none | gprel16 | other =>
    rw [type] at some
    cases some
  | mips16 | lo16 | mips32 | rel32 | mips26 =>
    rw [type] at some
    exact type ▸ alone (by rw [type]; exact nofun) (Option.some.inj some)
  | hi16 =>
    rw [type] at some
    obtain ⟨lo, found, rfl⟩ := Option.map_eq_some_iff.mp some
    obtain ⟨member, is_lo, -⟩ := loBehind_eq_some found
    refine ⟨nofun, rfl, fun offset read => ?_⟩
    rcases List.mem_cons.mp read with rfl | read
    · exact ⟨entry, List.mem_cons_self, by rw [type]; exact nofun, rfl⟩
    · exact ⟨lo, List.mem_cons_of_mem _ member, by rw [is_lo]; exact nofun,
        List.mem_singleton.mp read⟩

/-- Where the patches of a table write and read. -/
theorem staticPatches_reach {patch : Patch} (member : patch ∈ staticPatches place value table) :
    (∃ entry ∈ table, entry.type ≠ .none ∧ patch.place = place entry) ∧
      ∀ offset ∈ patch.reads, ∃ entry ∈ table, entry.type ≠ .none ∧ offset = place entry := by
  induction table with
  | nil => nomatch member
  | cons entry behind ih =>
    rcases List.mem_append.mp member with head | tail
    · obtain ⟨typed, place_eq, reads⟩ := staticPatch_reach (Option.mem_toList.mp head)
      exact ⟨⟨entry, List.mem_cons_self, typed, place_eq⟩, reads⟩
    · obtain ⟨⟨other, inside, typed, place_eq⟩, reads⟩ := ih tail
      refine ⟨⟨other, List.mem_cons_of_mem _ inside, typed, place_eq⟩, fun offset read => ?_⟩
      obtain ⟨other, inside, rest⟩ := reads offset read
      exact ⟨other, List.mem_cons_of_mem _ inside, rest⟩

/-- Entries at places that are apart spare one another. -/
theorem staticPatches_spare (apart : table.Pairwise fun first second =>
    first.type ≠ .none → second.type ≠ .none → Apart (place first) (place second)) :
    (staticPatches place value table).Pairwise Patch.Spares := by
  induction table with
  | nil => exact .nil
  | cons entry behind ih =>
    obtain ⟨first, others⟩ := List.pairwise_cons.mp apart
    rw [staticPatches, List.pairwise_append]
    refine ⟨?_, ih others, fun patch head other tail => ?_⟩
    · cases staticPatch place (value entry) entry behind with
      | none => exact .nil
      | some patch => exact List.pairwise_singleton ..
    · obtain ⟨typed, place_eq, -⟩ := staticPatch_reach (Option.mem_toList.mp head)
      obtain ⟨⟨entry', inside, typed', place_eq'⟩, reads⟩ := staticPatches_reach tail
      refine ⟨?_, fun offset read => ?_⟩
      · rw [place_eq, place_eq']
        exact first entry' inside typed typed'
      · obtain ⟨entry', inside, typed', rfl⟩ := reads offset read
        rw [place_eq]
        exact first entry' inside typed typed'

/-- Each entry has its patch among those of the table. -/
theorem mem_staticPatches {before : List Reloc} {patch : Patch}
    (some : staticPatch place (value entry) entry behind = some patch) :
    patch ∈ staticPatches place value (before ++ entry :: behind) := by
  induction before with
  | nil => exact List.mem_append_left _ (Option.mem_toList.mpr some)
  | cons head rest ih => exact List.mem_append_right _ ih

/-- Each patch of a table is that of an entry. -/
theorem exists_of_mem_staticPatches {patch : Patch} (member : patch ∈ staticPatches place value table) :
    ∃ before entry behind, table = before ++ entry :: behind ∧
      staticPatch place (value entry) entry behind = some patch := by
  induction table with
  | nil => nomatch member
  | cons entry behind ih =>
    rcases List.mem_append.mp member with head | tail
    · exact ⟨[], entry, behind, rfl, Option.mem_toList.mp head⟩
    · obtain ⟨before, other, rest, rfl, found⟩ := ih tail
      exact ⟨entry :: before, other, rest, rfl, found⟩

end StaticPass

namespace Fix

/-- The patches of a step of the loader. -/
def patches (base : Word) : Fix → List Patch
  | alone entry =>
    match entry.type with
    | .mips16 => [.own entry.offset (addLow · base)]
    | .mips32 | .rel32 => [.own entry.offset (· + base)]
    | .mips26 => [.own entry.offset (addTarget · base)]
    | _ => []
  | pair hi lo => [.beside hi lo (addHigh · · base), .own lo (addLow · base)]

/-- The places that a step is about. -/
def places : Fix → List ℕ
  | alone entry => [entry.offset]
  | pair hi lo => [hi, lo]

/-- A step that the loader takes for what it is: a HI16 does not stand by itself, and a pair is of two words. -/
def Proper : Fix → Prop
  | alone entry => entry.type ≠ .hi16
  | pair hi lo => Apart hi lo

variable {base : Word}

theorem loadEntry_eq (base : Word) (entry : IrxReloc) (image : Buffer) :
    loadEntry base entry image = run ((alone entry).patches base) image := by
  rw [loadEntry, patches]
  cases entry.type <;> rfl

theorem loadPair_eq {hi lo : ℕ} (apart : Apart hi lo) (image : Buffer) :
    loadPair base ⟨hi, .hi16⟩ ⟨lo, .lo16⟩ image = run ((pair hi lo).patches base) image := by
  rw [patches, run_cons, run_cons, run_nil]
  change wr32 (wr32 image hi _) lo (setLow (rd32 image lo) _) = wr32 (wr32 image hi _) lo (addLow (rd32 _ lo) base)
  rw [setLow_pairAddend]
  exact congrArg (wr32 _ lo) (congrArg (addLow · base) (rd32_wr32_apart image _ apart).symm)

theorem loadTable_alone {entry : IrxReloc} (other : entry.type ≠ .hi16) (rest : List IrxReloc) (image : Buffer) :
    loadTable base (entry :: rest) image = loadTable base rest (loadEntry base entry image) := by
  cases rest with
  | nil => rfl
  | cons next rest => exact if_neg other

/-- The loader's run over the entries of proper steps. -/
theorem loadTable_entries {fixes : List Fix} (proper : ∀ fix ∈ fixes, fix.Proper) (image : Buffer) :
    loadTable base (fixes.flatMap entries) image = run (fixes.flatMap (patches base)) image := by
  induction fixes generalizing image with
  | nil => rfl
  | cons fix rest ih =>
    have tail := ih fun other member => proper other (List.mem_cons_of_mem _ member)
    have head := proper fix List.mem_cons_self
    rw [List.flatMap_cons, List.flatMap_cons, run_append]
    cases fix with
    | alone entry =>
      rw [entries, List.singleton_append, loadTable_alone head, tail, loadEntry_eq]
    | pair hi lo =>
      rw [← loadPair_eq head, ← tail]
      rfl

/-- The patches of a step write and read at its places only. -/
theorem reach {fix : Fix} {patch : Patch} (member : patch ∈ fix.patches base) :
    patch.place ∈ fix.places ∧ ∀ offset ∈ patch.reads, offset ∈ fix.places := by
  cases fix with
  | alone entry =>
    rw [patches] at member
    cases type : entry.type with
    | mips16 | mips32 | rel32 | mips26 =>
      rw [type] at member
      cases List.mem_singleton.mp member
      exact ⟨List.mem_singleton_self _, fun offset read => read⟩
    | none | hi16 | lo16 | gprel16 | other =>
      rw [type] at member
      nomatch member
  | pair hi lo =>
    rcases List.mem_cons.mp member with rfl | member
    · exact ⟨List.mem_cons_self, fun offset read => read⟩
    · cases List.mem_singleton.mp member
      exact ⟨List.mem_cons_of_mem _ List.mem_cons_self, fun offset read => List.mem_cons_of_mem _ read⟩

/-- Steps about places that are apart spare one another. -/
theorem spare {fixes : List Fix} (proper : ∀ fix ∈ fixes, fix.Proper)
    (apart : fixes.Pairwise fun first second => ∀ p ∈ first.places, ∀ q ∈ second.places, Apart p q) :
    (fixes.flatMap (patches base)).Pairwise Patch.Spares := by
  rw [List.pairwise_flatMap]
  refine ⟨fun fix member => ?_, apart.imp fun {first second} apart p head q tail => ?_⟩
  · have own := proper fix member
    cases fix with
    | alone entry =>
      rw [patches]
      cases entry.type <;> first | exact .nil | exact List.pairwise_singleton ..
    | pair hi lo =>
      refine List.pairwise_pair.mpr ⟨own, fun offset read => ?_⟩
      cases List.mem_singleton.mp read
      exact own
  · exact ⟨apart _ (reach head).1 _ (reach tail).1, fun offset read => apart _ (reach head).1 _ ((reach tail).2 offset read)⟩

end Fix

end KosTool.Elf2irx
