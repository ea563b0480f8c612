import KosTool.Soundness.EmittedSection
import KosTool.Soundness.ImageLayout
import KosTool.Soundness.ImagePatches
import Mathlib.Data.List.Pairwise

/-! # The words of the image that relocation is about

Each kept relocation has a word in a section, and each scratch relocation a scratch word. In a well-placed input no two
of these overlap, and no two steps of the loader are about one of them.
-/

namespace KosTool.Elf2irx

open WordPatch

namespace Elf

variable (elf : Elf)

/-- The target and the offset of every kept relocation that is one. -/
def places : List (ℕ × ℕ) := elf.relSections.flatMap fun (s, _) =>
  (s.table.filter fun entry => entry.type ≠ .none).map fun entry => (s.info.toNat, entry.offset.toNat)

/-- The kept relocations are for sections whose bytes are copied into the image, and no two are of words that
overlap. -/
structure WellPlaced : Prop where
  filed : ∀ s i, (s, i) ∈ elf.relSections → ∃ target, elf.target? s = some target ∧ elf.copied s.info.toNat target
  apart : elf.places.Pairwise fun first second => first.1 = second.1 → Apart first.2 second.2

variable {elf} {layout : Layout} {s s' : Section} {i i' k k' : ℕ} {entry : Reloc}

/-- What the checks of an entry establish: its word is inside the section, and its symbol has a section. -/
theorem validateEntry_eq_ok {name : String} {target : Section} (through : elf.validateEntry name target k entry = .ok ⟨⟩)
    (typed : entry.type ≠ .none) : entry.offset.toNat + 4 ≤ target.size.toNat ∧
      ∃ symbol, elf.symbols[entry.sym]? = some symbol ∧ symbol.shndx < elf.sections.length := by
  rw [validateEntry] at through
  obtain ⟨⟨⟩, -, through⟩ := Fallible.bind_eq_ok.mp through
  rw [if_neg typed] at through
  obtain ⟨⟨⟩, inside, through⟩ := Fallible.bind_eq_ok.mp through
  have range := orDie_eq_ok inside
  rw [Bool.not_eq_true', Bool.or_eq_false_iff, decide_eq_false_iff_not, decide_eq_false_iff_not, BitVec.not_lt,
    BitVec.not_lt, BitVec.le_def, BitVec.le_def] at range
  have less : (target.size - entry.offset).toNat = target.size.toNat - entry.offset.toNat :=
    BitVec.toNat_sub_of_le (BitVec.le_def.mpr range.1)
  have four : (4#32).toNat = 4 := rfl
  refine ⟨by omega, ?_⟩
  cases known : elf.symbols[entry.sym]? with
  | none =>
    rw [known] at through
    cases through
  | some symbol =>
    rw [known] at through
    exact ⟨symbol, rfl, of_decide_eq_true (orDie_eq_ok through)⟩

/-- What the checks of all kept entries establish. -/
theorem validated (through : elf.validateRelocations = .ok ⟨⟩) (kept : (s, i) ∈ elf.relSections) {target : Section}
    (known : elf.target? s = some target) (at_k : s.table[k]? = some entry) (typed : entry.type ≠ .none) :
    entry.offset.toNat + 4 ≤ target.size.toNat ∧
      ∃ symbol, elf.symbols[entry.sym]? = some symbol ∧ symbol.shndx < elf.sections.length := by
  have own : elf.validateSection s = .ok ⟨⟩ := Fallible.forall_of_forM through (s, i) kept
  rw [validateSection] at own
  obtain ⟨⟨⟩, -, own⟩ := Fallible.bind_eq_ok.mp own
  rw [known] at own
  obtain ⟨⟨⟩, -, own⟩ := Fallible.bind_eq_ok.mp own
  obtain ⟨⟨⟩, -, own⟩ := Fallible.bind_eq_ok.mp own
  obtain ⟨⟨⟩, -, own⟩ := Fallible.bind_eq_ok.mp own
  exact validateEntry_eq_ok (Fallible.forall_of_forM own (entry, k) (List.mem_zipIdx_iff_getElem?.mpr at_k)) typed

/-- What holds of two members of a list in their order holds of any two, if it is symmetric. -/
theorem forall_of_pairwise {α : Type} {R : α → α → Prop} {l : List α} (ordered : l.Pairwise R)
    (symm : ∀ a b, R a b → R b a) {a b : α} (left : a ∈ l) (right : b ∈ l) (other : a ≠ b) : R a b :=
  @List.Pairwise.forall α R l ⟨symm⟩ ordered a left b right other

/-- Two relocations of one target are of words that are apart. -/
theorem WellPlaced.apart_offsets (placed : elf.WellPlaced) {entry' : Reloc} (kept : (s, i) ∈ elf.relSections)
    (kept' : (s', i') ∈ elf.relSections) (at_k : s.table[k]? = some entry) (at_k' : s'.table[k']? = some entry')
    (typed : entry.type ≠ .none) (typed' : entry'.type ≠ .none) (other : (i, k) ≠ (i', k'))
    (target : s.info.toNat = s'.info.toNat) : Apart entry.offset.toNat entry'.offset.toNat := by
  have ordered := placed.apart
  rw [places, List.pairwise_flatMap] at ordered
  by_cases same : i = i'
  · subst same
    cases relSections_unique kept kept'
    have inside := ordered.1 (s, i) kept
    rw [List.pairwise_map, List.pairwise_filter] at inside
    have apart {a b : ℕ} {first second : Reloc} (at_a : s.table[a]? = some first) (at_b : s.table[b]? = some second)
        (type : first.type ≠ .none) (type' : second.type ≠ .none) (less : a < b) :
        Apart first.offset.toNat second.offset.toNat := by
      obtain ⟨bound, rfl⟩ := List.getElem?_eq_some_iff.mp at_a
      obtain ⟨bound', rfl⟩ := List.getElem?_eq_some_iff.mp at_b
      exact List.pairwise_iff_getElem.mp inside a b bound bound' less (decide_eq_true type) (decide_eq_true type') rfl
    rcases Nat.lt_trichotomy k k' with less | rfl | greater
    · exact apart at_k at_k' typed typed' less
    · exact absurd rfl other
    · exact (apart at_k' at_k typed' typed greater).symm
  · have member {t : Section} {l : ℕ} {value : Reloc} (at_l : t.table[l]? = some value) (type : value.type ≠ .none) :
        (t.info.toNat, value.offset.toNat) ∈
          (t.table.filter fun entry => entry.type ≠ .none).map fun entry => (t.info.toNat, entry.offset.toNat) :=
      List.mem_map.mpr ⟨value, List.mem_filter.mpr ⟨List.mem_iff_getElem?.mpr ⟨l, at_l⟩, decide_eq_true type⟩, rfl⟩
    exact forall_of_pairwise ordered.2
      (fun _ _ apart p first q second target => (apart q second p first target.symm).symm) kept kept'
      (fun equal => same (congrArg Prod.snd equal)) _ (member at_k typed) _ (member at_k' typed') target

/-- A word that relocation is about: of an entry of a kept table, or a scratch word. -/
inductive Spot where
  | entry (i k : ℕ)
  | padLo (g : ℕ)
  | padHi (g : ℕ)

/-- The word is at an address of the image. -/
def At (elf : Elf) (layout : Layout) : Spot → ℕ → Prop
  | .entry i k, p => ∃ s entry, (s, i) ∈ elf.relSections ∧ s.table[k]? = some entry ∧ entry.type ≠ .none ∧
      p = place layout s entry
  | .padLo g, p => g < elf.strays.length ∧ p = layout.padloAddr + g * 4
  | .padHi g, p => g < elf.extraLos.length ∧ p = layout.padloAddr + elf.strays.length * 4 + g * 4

/-- An input whose relocations are well placed, with a layout that fits. -/
structure Ready (elf : Elf) (layout : Layout) : Prop where
  placed : elf.WellPlaced
  valid : elf.validateRelocations = .ok ⟨⟩
  fits : layout.Fits elf

theorem inImage_of_copied (copied : elf.copied i s = true) : elf.inImage i s = true := by
  simp only [Elf.copied, Bool.and_eq_true] at copied
  exact Bool.and_eq_true_iff.mpr ⟨copied.1.1.1, copied.2⟩

/-- The word of an entry lies in its section. -/
theorem Ready.inside (ready : elf.Ready layout) (kept : (s, i) ∈ elf.relSections) (at_k : s.table[k]? = some entry)
    (typed : entry.type ≠ .none) : ∃ target, (target, s.info.toNat) ∈ elf.sections.zipIdx ∧
      elf.copied s.info.toNat target ∧ entry.offset.toNat + 4 ≤ target.size.toNat := by
  obtain ⟨target, known, copied⟩ := ready.placed.filed s i kept
  exact ⟨target, List.mem_zipIdx_iff_getElem?.mpr known, copied, (validated ready.valid kept known at_k typed).1⟩

/-- The words of two entries are apart. -/
theorem Ready.apart_entries (ready : elf.Ready layout) {entry' : Reloc} (kept : (s, i) ∈ elf.relSections)
    (kept' : (s', i') ∈ elf.relSections) (at_k : s.table[k]? = some entry) (at_k' : s'.table[k']? = some entry')
    (typed : entry.type ≠ .none) (typed' : entry'.type ≠ .none) (other : (i, k) ≠ (i', k')) :
    Apart (place layout s entry) (place layout s' entry') := by
  rw [place, place]
  by_cases target : s.info.toNat = s'.info.toNat
  · have apart := ready.placed.apart_offsets kept kept' at_k at_k' typed typed' other target
    rw [target]
    rcases apart with before | behind
    · exact .inl (by omega)
    · exact .inr (by omega)
  · obtain ⟨t, member, copied, bound⟩ := ready.inside kept at_k typed
    obtain ⟨t', member', copied', bound'⟩ := ready.inside kept' at_k' typed'
    have disjoint := ready.fits.apart t _ t' _ member member' (inImage_of_copied copied) (inImage_of_copied copied') target
    by_contra overlap
    rw [Apart, not_or] at overlap
    have left := disjoint (layout.addr s.info.toNat + entry.offset.toNat) ⟨Nat.le_add_right _ _, by omega⟩
    rw [Layout.Inside] at left
    rcases Nat.le_total (layout.addr s.info.toNat + entry.offset.toNat)
      (layout.addr s'.info.toNat + entry'.offset.toNat) with le | le
    · refine disjoint (layout.addr s'.info.toNat + entry'.offset.toNat) ⟨?_, ?_⟩ ⟨Nat.le_add_right _ _, ?_⟩ <;> omega
    · omega

/-- The word of an entry is apart from the scratch words. -/
theorem Ready.apart_pad (ready : elf.Ready layout) (kept : (s, i) ∈ elf.relSections) (at_k : s.table[k]? = some entry)
    (typed : entry.type ≠ .none) {g : ℕ} (bound : g < elf.strays.length + elf.extraLos.length) :
    Apart (place layout s entry) (layout.padloAddr + g * 4) := by
  obtain ⟨t, member, copied, inside⟩ := ready.inside kept at_k typed
  have outside := ready.fits.padlo t _ member (inImage_of_copied copied) g bound
  rw [place]
  have first := outside (layout.addr s.info.toNat + entry.offset.toNat) ⟨Nat.le_add_right _ _, by omega⟩
  rcases first with below | above
  · by_contra overlap
    rw [Apart, not_or] at overlap
    have second := outside (layout.padloAddr + g * 4) ⟨by omega, by omega⟩
    omega
  · exact .inr above

/-- Different words are apart. -/
theorem Ready.apart (ready : elf.Ready layout) {first second : Spot} {p q : ℕ} (left : elf.At layout first p)
    (right : elf.At layout second q) (other : first ≠ second) : Apart p q := by
  cases first with
  | entry i k =>
    obtain ⟨s, entry, kept, at_k, typed, rfl⟩ := left
    cases second with
    | entry i' k' =>
      obtain ⟨s', entry', kept', at_k', typed', rfl⟩ := right
      refine ready.apart_entries kept kept' at_k at_k' typed typed' fun same => other ?_
      rw [Prod.mk.injEq] at same
      rw [same.1, same.2]
    | padLo g =>
      obtain ⟨bound, rfl⟩ := right
      exact ready.apart_pad kept at_k typed (by omega)
    | padHi g =>
      obtain ⟨bound, rfl⟩ := right
      rw [Nat.add_assoc, ← Nat.add_mul]
      exact ready.apart_pad kept at_k typed (by omega)
  | padLo g =>
    obtain ⟨bound, rfl⟩ := left
    cases second with
    | entry i' k' =>
      obtain ⟨s', entry', kept', at_k', typed', rfl⟩ := right
      exact (ready.apart_pad kept' at_k' typed' (by omega)).symm
    | padLo g' =>
      obtain ⟨bound', rfl⟩ := right
      have apart : g ≠ g' := fun same => other (congrArg Spot.padLo same)
      rw [Apart]
      omega
    | padHi g' =>
      obtain ⟨bound', rfl⟩ := right
      rw [Apart]
      omega
  | padHi g =>
    obtain ⟨bound, rfl⟩ := left
    cases second with
    | entry i' k' =>
      obtain ⟨s', entry', kept', at_k', typed', rfl⟩ := right
      rw [Nat.add_assoc, ← Nat.add_mul]
      exact (ready.apart_pad kept' at_k' typed' (by omega)).symm
    | padLo g' =>
      obtain ⟨bound', rfl⟩ := right
      rw [Apart]
      omega
    | padHi g' =>
      obtain ⟨bound', rfl⟩ := right
      have apart : g ≠ g' := fun same => other (congrArg Spot.padHi same)
      rw [Apart]
      omega

/-- The words that the step for an entry is about. -/
inductive Uses (elf : Elf) (s : Section) (i k : ℕ) : Spot → Prop
  | own : Uses elf s i k (.entry i k)
  | partner {m : ℕ} (next : nextLo s.table k = some m) (direct : scratchIdx elf.strays i k = none) :
      Uses elf s i k (.entry i m)
  | stray {g : ℕ} (index : scratchIdx elf.strays i k = some g) : Uses elf s i k (.padLo g)
  | extra {g : ℕ} (index : scratchIdx elf.extraLos i k = some g) : Uses elf s i k (.padHi g)

theorem exists_reloc {type : RelType} {sym m : ℕ} (here : entryMatches s.table type sym m) :
    ∃ lo, s.table[m]? = some lo ∧ lo.type = type := by
  obtain ⟨lo, at_m, typed, -⟩ := entryMatches_iff.mp here
  exact ⟨lo, at_m, typed⟩

theorem lt_of_scratchIdx {scratches : List Scratch} {g : ℕ} (index : scratchIdx scratches i k = some g) :
    g < scratches.length := (List.findIdx?_eq_some_iff_getElem.mp index).1

/-- A step is about words at their addresses. -/
theorem fixAt_places (kept : (s, i) ∈ elf.relSections) {fix : Fix} (fixed : elf.fixAt layout s i k = some fix) :
    ∀ p ∈ fix.places, ∃ spot, elf.Uses s i k spot ∧ elf.At layout spot p := by
  obtain ⟨entry, at_k, fixed⟩ := Option.bind_eq_some_iff.mp fixed
  have own (typed : entry.type ≠ .none) : ∃ spot, elf.Uses s i k spot ∧ elf.At layout spot (place layout s entry) :=
    ⟨.entry i k, .own, s, entry, kept, at_k, typed, rfl⟩
  have alone {type : RelType} (typed : entry.type ≠ .none) : ∀ p ∈ (Fix.alone ⟨place layout s entry, type⟩).places,
      ∃ spot, elf.Uses s i k spot ∧ elf.At layout spot p := by
    intro p member
    cases List.mem_singleton.mp member
    exact own typed
  have two {hi lo : ℕ} (first : ∃ spot, elf.Uses s i k spot ∧ elf.At layout spot hi)
      (second : ∃ spot, elf.Uses s i k spot ∧ elf.At layout spot lo) :
      ∀ p ∈ (Fix.pair hi lo).places, ∃ spot, elf.Uses s i k spot ∧ elf.At layout spot p := by
    intro p member
    rcases List.mem_cons.mp member with rfl | member
    · exact first
    · cases List.mem_singleton.mp member
      exact second
  cases type : entry.type with
  | none | gprel16 | other =>
    rw [type] at fixed
    cases fixed
  | mips16 | mips32 | rel32 | mips26 =>
    have typed : entry.type ≠ .none := by rw [type]; exact nofun
    rw [type] at fixed
    cases fixed
    exact alone typed
  | hi16 =>
    have typed : entry.type ≠ .none := by rw [type]; exact nofun
    rw [type] at fixed
    dsimp only at fixed
    cases next : nextLo s.table k with
    | none =>
      rw [next] at fixed
      cases fixed
      exact alone typed
    | some m =>
      rw [next] at fixed
      cases index : scratchIdx elf.strays i k with
      | some g =>
        rw [index] at fixed
        cases fixed
        exact two (own typed) ⟨.padLo g, .stray index, lt_of_scratchIdx index, rfl⟩
      | none =>
        rw [index] at fixed
        obtain ⟨lo, at_m, rfl⟩ := Option.map_eq_some_iff.mp fixed
        obtain ⟨sym, -, -, is_lo, -⟩ := nextLo_eq_some_iff.mp next
        obtain ⟨lo', at_m', lo_type⟩ := exists_reloc is_lo
        cases at_m.symm.trans at_m'
        exact two (own typed) ⟨.entry i m, .partner next index, s, lo, kept, at_m, by rw [lo_type]; exact nofun, rfl⟩
  | lo16 =>
    have typed : entry.type ≠ .none := by rw [type]; exact nofun
    rw [type] at fixed
    dsimp only at fixed
    cases index : scratchIdx elf.extraLos i k with
    | some g =>
      rw [index] at fixed
      cases fixed
      exact two ⟨.padHi g, .extra index, lt_of_scratchIdx index, rfl⟩ (own typed)
    | none =>
      rw [index] at fixed
      dsimp only at fixed
      split_ifs at fixed
      cases fixed
      exact alone typed

/-- There is no step for the LO16 of a HI16 that has no scratch word. -/
theorem fixAt_partner (kept : (s, i) ∈ elf.relSections) {m : ℕ} (next : nextLo s.table k = some m) :
    elf.fixAt layout s i m = none := by
  obtain ⟨sym, is_hi, above, is_lo, -⟩ := nextLo_eq_some_iff.mp next
  obtain ⟨lo, at_m, lo_type⟩ := exists_reloc is_lo
  have single : scratchIdx elf.extraLos i m = none := by
    refine (scratchIdx_eq_none_iff kept).mpr fun h repeated => ?_
    obtain ⟨-, own, earlier, before, same⟩ := mem_repeats.mp repeated
    exact first_of_nextLo next earlier before (same.trans own.symm)
  have led : prevHi s.table m ≠ none := by
    intro none
    have absent := (prevHi_eq_none_iff is_lo).mp none k above
    rw [is_hi] at absent
    cases absent
  rw [fixAt, at_m, Option.bind_some, lo_type]
  dsimp only
  rw [single]
  exact if_neg led

/-- No two steps are about one word. -/
theorem uses_unique (kept : (s, i) ∈ elf.relSections) (kept' : (s', i') ∈ elf.relSections) {fix fix' : Fix} {spot : Spot}
    (fixed : elf.fixAt layout s i k = some fix) (fixed' : elf.fixAt layout s' i' k' = some fix')
    (uses : elf.Uses s i k spot) (uses' : elf.Uses s' i' k' spot) : (i, k) = (i', k') := by
  cases uses with
  | own =>
    cases uses' with
    | own => rfl
    | partner next direct =>
      cases relSections_unique kept kept'
      rw [fixAt_partner kept next] at fixed
      cases fixed
  | partner next direct =>
    cases uses' with
    | own =>
      cases relSections_unique kept kept'
      rw [fixAt_partner kept next] at fixed'
      cases fixed'
    | partner next' direct' =>
      cases relSections_unique kept kept'
      rcases Nat.lt_trichotomy k k' with less | rfl | greater
      · refine absurd (mem_repeats.mpr ⟨?_, next', k, less, next⟩) ((scratchIdx_eq_none_iff kept).mp direct' _)
        exact lt_length_of_matches (nextLo_eq_some_iff.mp next').choose_spec.1
      · rfl
      · refine absurd (mem_repeats.mpr ⟨?_, next, k', greater, next'⟩) ((scratchIdx_eq_none_iff kept).mp direct _)
        exact lt_length_of_matches (nextLo_eq_some_iff.mp next).choose_spec.1
  | stray index =>
    cases uses' with
    | stray index' =>
      obtain ⟨m, -, recorded⟩ := scratchIdx_eq_some kept index
      obtain ⟨m', -, recorded'⟩ := scratchIdx_eq_some kept' index'
      have same := Option.some.inj (recorded.symm.trans recorded')
      rw [Scratch.mk.injEq] at same
      rw [same.1, same.2.1]
  | extra index =>
    cases uses' with
    | extra index' =>
      obtain ⟨m, -, recorded⟩ := scratchIdx_eq_some kept index
      obtain ⟨m', -, recorded'⟩ := scratchIdx_eq_some kept' index'
      have same := Option.some.inj (recorded.symm.trans recorded')
      rw [Scratch.mk.injEq] at same
      rw [same.1, same.2.1]

end Elf

end KosTool.Elf2irx
