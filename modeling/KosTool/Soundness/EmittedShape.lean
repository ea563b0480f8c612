import KosTool.Model.Binary.IrxFile
import KosTool.Soundness.CheckedSums
import KosTool.Soundness.IrxRelocation

/-! # The shape of an emitted relocation table

Every entry that the loader takes is written once, next to its partner if it has one, and every scratch word once; so
neither of the internal checks fails and the table is as long as was reserved for it. A HI16 without a LO16 is written as
well, with the type that marks it to be dropped: the tables have the shape that the loader needs exactly if there is none.
-/

namespace KosTool.Elf2irx

variable {elf : Elf} {layout : Layout} {s : Section} {i k m g : ℕ} {entry : Reloc}

section Scratches

variable {partner : List Reloc → ℕ → Option ℕ}

theorem repeats_nodup (partner : ℕ → Option ℕ) (n : ℕ) : ((repeats partner n).map Prod.fst).Nodup := by
  induction n with
  | zero => exact .nil
  | succ n ih =>
    have last : repeats partner (n + 1) = (repeatStep partner ((List.range n).foldl (repeatStep partner) ([], [])) n).2 := by
      rw [repeats, List.range_succ, List.foldl_append]
      rfl
    rw [last, repeatStep]
    cases partner n with
    | none => exact ih
    | some next =>
      dsimp only
      split_ifs
      · rw [List.map_append, List.map_singleton]
        refine List.Nodup.append ih (List.nodup_singleton n) fun k member own => ?_
        obtain ⟨⟨k', m⟩, repeated, rfl⟩ := List.mem_map.mp member
        have same : k' = n := List.mem_singleton.mp own
        exact absurd (mem_repeats.mp repeated).1 (by omega)
      · exact ih

/-- No entry has two scratch words. -/
theorem Elf.detect_nodup (elf : Elf) (partner : List Reloc → ℕ → Option ℕ) :
    ((elf.detect partner).map fun scratch => (scratch.relSecIdx, scratch.inIdx)).Nodup := by
  have indices : (elf.relSections.map Prod.snd).Nodup := by
    refine List.Nodup.sublist (List.Sublist.map _ List.filter_sublist) ?_
    rw [List.zipIdx_map_snd]
    exact List.nodup_range'
  rw [Elf.detect, List.map_flatMap, List.nodup_flatMap]
  refine ⟨fun value _ => ?_, ?_⟩
  · refine List.Nodup.of_map Prod.snd ?_
    rw [List.map_map, List.map_map]
    exact repeats_nodup _ _
  · refine (List.pairwise_map.mp indices).imp fun {first second} apart key inFirst inSecond => apart ?_
    obtain ⟨scratch, member, rfl⟩ := List.mem_map.mp inFirst
    obtain ⟨⟨k, m⟩, -, rfl⟩ := List.mem_map.mp member
    obtain ⟨scratch', member', same⟩ := List.mem_map.mp inSecond
    obtain ⟨⟨k', m'⟩, -, rfl⟩ := List.mem_map.mp member'
    exact (Prod.mk.inj same).1.symm

/-- The indices of the scratch words for a section. -/
def sectionScratches (scratches : List Scratch) (i : ℕ) : List ℕ :=
  (scratches.zipIdx.filter fun (scratch, _) => scratch.relSecIdx == i).map Prod.snd

theorem mem_sectionScratches {scratches : List Scratch} :
    g ∈ sectionScratches scratches i ↔ ∃ scratch, scratches[g]? = some scratch ∧ scratch.relSecIdx = i := by
  rw [sectionScratches, List.mem_map]
  constructor
  · rintro ⟨⟨scratch, g⟩, member, rfl⟩
    obtain ⟨inside, same⟩ := List.mem_filter.mp member
    exact ⟨scratch, List.mem_zipIdx_iff_getElem?.mp inside, beq_iff_eq.mp same⟩
  · rintro ⟨scratch, at_g, same⟩
    exact ⟨(scratch, g), List.mem_filter.mpr ⟨List.mem_zipIdx_iff_getElem?.mpr at_g, beq_iff_eq.mpr same⟩, rfl⟩

theorem sectionScratches_nodup (scratches : List Scratch) (i : ℕ) : (sectionScratches scratches i).Nodup := by
  refine List.Nodup.sublist (List.Sublist.map _ List.filter_sublist) ?_
  rw [List.zipIdx_map_snd]
  exact List.nodup_range'

theorem length_sectionScratches (scratches : List Scratch) (i : ℕ) :
    (sectionScratches scratches i).length = scratches.countP (·.relSecIdx == i) := by
  have first : scratches = scratches.zipIdx.map Prod.fst := (List.zipIdx_map_fst 0 scratches).symm
  conv_rhs => rw [first, List.countP_map, List.countP_eq_length_filter]
  rw [sectionScratches, List.length_map]
  rfl

/-- The entries of a section have all of its scratch words, each of them one. -/
theorem scratches_perm (kept : (s, i) ∈ elf.relSections) :
    ((List.range s.table.length).filterMap (scratchIdx (elf.detect partner) i)).Perm
      (sectionScratches (elf.detect partner) i) := by
  refine (List.perm_ext_iff_of_nodup ?_ (sectionScratches_nodup _ _)).mpr fun g => ?_
  · refine List.Nodup.filterMap (fun k k' g first second => ?_) List.nodup_range
    obtain ⟨m, -, recorded⟩ := scratchIdx_eq_some kept first
    obtain ⟨m', -, recorded'⟩ := scratchIdx_eq_some kept second
    exact congrArg Scratch.inIdx (Option.some.inj (recorded.symm.trans recorded'))
  · rw [mem_sectionScratches, List.mem_filterMap]
    constructor
    · rintro ⟨k, -, index⟩
      obtain ⟨m, -, recorded⟩ := scratchIdx_eq_some kept index
      exact ⟨_, recorded, rfl⟩
    · rintro ⟨scratch, recorded, same⟩
      obtain ⟨s', i', k, m, kept', repeated, rfl⟩ := Elf.mem_detect.mp (List.mem_of_getElem? recorded)
      dsimp only at same
      rw [same] at kept' recorded
      cases Elf.relSections_unique kept kept'
      cases index : scratchIdx (elf.detect partner) i k with
      | none => exact absurd repeated ((scratchIdx_eq_none_iff kept).mp index m)
      | some g' =>
        refine ⟨k, List.mem_range.mpr (mem_repeats.mp repeated).1, ?_⟩
        obtain ⟨m', -, recorded'⟩ := scratchIdx_eq_some kept index
        have keys := elf.detect_nodup partner
        have inside := (List.getElem?_eq_some_iff.mp recorded).1
        have inside' := (List.getElem?_eq_some_iff.mp recorded').1
        have key : ((elf.detect partner).map fun scratch => (scratch.relSecIdx, scratch.inIdx))[g]? = some (i, k) := by
          rw [List.getElem?_map, recorded]
          rfl
        have key' : ((elf.detect partner).map fun scratch => (scratch.relSecIdx, scratch.inIdx))[g']? = some (i, k) := by
          rw [List.getElem?_map, recorded']
          rfl
        rw [index, (List.getElem?_inj (by rwa [List.length_map]) keys).mp (key.trans key'.symm)]

end Scratches

/-- A HI16 without a LO16 behind it for its symbol. -/
def Section.orphan (s : Section) (k : ℕ) : Bool :=
  s.table[k]?.any fun entry => entry.type = .hi16 ∧ nextLo s.table k = none

/-- The LO16 for the stray HI16 of this index. -/
def Layout.scratchLo (layout : Layout) (g : ℕ) : IrxReloc := ⟨layout.padloAddr + g * 4, .lo16⟩

/-- The HI16 for the extra LO16 of this index. -/
def Elf.scratchHi (elf : Elf) (layout : Layout) (g : ℕ) : IrxReloc :=
  ⟨layout.padloAddr + elf.strays.length * 4 + g * 4, .hi16⟩

/-- The entry of a position as it is written. -/
def Elf.ownEntry (layout : Layout) (s : Section) (k : ℕ) : List IrxReloc :=
  ((s.table[k]?.filter fun entry => relocationKeptForLoader entry.type).map fun entry =>
    ⟨place layout s entry, if s.orphan k then .none else entry.type⟩).toList

/-- The LO16 that is written with a HI16. -/
def Elf.ledBy (elf : Elf) (s : Section) (i k : ℕ) : Option ℕ :=
  (nextLo s.table k).filter fun _ => scratchIdx elf.strays i k = none

/-- A LO16 that is written with its HI16. -/
def Elf.led (elf : Elf) (s : Section) (i k : ℕ) : Bool := prevHi s.table k ≠ none ∧ scratchIdx elf.extraLos i k = none

section Partition

theorem nextLo_of_other (at_k : s.table[k]? = some entry) (other : entry.type ≠ .hi16) : nextLo s.table k = none := by
  rw [nextLo, at_k, Option.filter_some, if_neg fun hi => other (of_decide_eq_true hi)]
  rfl

theorem prevHi_of_other (at_k : s.table[k]? = some entry) (other : entry.type ≠ .lo16) : prevHi s.table k = none := by
  rw [prevHi, at_k, Option.filter_some, if_neg fun lo => other (of_decide_eq_true lo)]
  rfl

theorem orphan_of_other (at_k : s.table[k]? = some entry) (other : entry.type ≠ .hi16) : s.orphan k = false := by
  rw [Section.orphan, at_k, Option.any_some]
  exact decide_eq_false fun hi => other hi.1

/-- Only an entry that has a partner has a scratch word. -/
theorem scratchIdx_of_alone {partner : List Reloc → ℕ → Option ℕ} (kept : (s, i) ∈ elf.relSections)
    (alone : partner s.table k = none) : scratchIdx (elf.detect partner) i k = none := by
  refine (scratchIdx_eq_none_iff kept).mpr fun m repeated => ?_
  have own := (mem_repeats.mp repeated).2.1
  rw [alone] at own
  cases own

theorem ownEntry_eq (layout : Layout) (at_k : s.table[k]? = some entry) (taken : relocationKeptForLoader entry.type = true) :
    Elf.ownEntry layout s k = [⟨Elf.place layout s entry, if s.orphan k then .none else entry.type⟩] := by
  rw [Elf.ownEntry, at_k, Option.filter_some, if_pos taken]
  rfl

theorem ownEntry_of_other (at_k : s.table[k]? = some entry) (taken : relocationKeptForLoader entry.type = false) :
    Elf.ownEntry layout s k = [] := by
  rw [Elf.ownEntry, at_k, Option.filter_some, taken]
  rfl

/-- The LO16 of a HI16 is written as it is. -/
theorem ownEntry_of_next (layout : Layout) (next : nextLo s.table k = some m) : ∃ lo, s.table[m]? = some lo ∧
    Elf.ownEntry layout s m = [⟨Elf.place layout s lo, .lo16⟩] := by
  obtain ⟨sym, -, -, is_lo, -⟩ := nextLo_eq_some_iff.mp next
  obtain ⟨lo, at_m, type, -⟩ := entryMatches_iff.mp is_lo
  refine ⟨lo, at_m, ?_⟩
  rw [ownEntry_eq layout at_m (by rw [type]; rfl), orphan_of_other at_m (by rw [type]; decide), type]
  rfl

/-- What is written about an entry: the entry, if it is not written with its HI16, its scratch word and its LO16. -/
theorem Elf.fixAt_perm (kept : (s, i) ∈ elf.relSections) (at_k : s.table[k]? = some entry) :
    ((elf.fixAt layout s i k).toList.flatMap Fix.entries).Perm
      ((if elf.led s i k then [] else ownEntry layout s k) ++
        ((scratchIdx elf.strays i k).toList.map layout.scratchLo ++
          ((scratchIdx elf.extraLos i k).toList.map (elf.scratchHi layout) ++
            (elf.ledBy s i k).toList.flatMap (ownEntry layout s)))) := by
  by_cases is_hi : entry.type = .hi16
  · have prev : prevHi s.table k = none := prevHi_of_other at_k (by rw [is_hi]; decide)
    have single : scratchIdx elf.extraLos i k = none := scratchIdx_of_alone kept prev
    have unled : elf.led s i k = false := decide_eq_false fun both => both.1 prev
    have own := ownEntry_eq layout at_k (by rw [is_hi]; rfl)
    rw [Elf.fixAt, at_k, Option.bind_some, is_hi, unled, single, own, is_hi, Elf.ledBy, Section.orphan, at_k, Option.any_some]
    cases next : nextLo s.table k with
    | none =>
      rw [show scratchIdx elf.strays i k = none from scratchIdx_of_alone kept next]
      simp [is_hi, Fix.entries]
    | some m =>
      obtain ⟨lo, at_m, paired⟩ := ownEntry_of_next layout next
      cases stray : scratchIdx elf.strays i k with
      | some g => simp [Fix.entries, Layout.scratchLo]
      | none => simp [Fix.entries, at_m, paired, Option.filter_some]
  · have next : nextLo s.table k = none := nextLo_of_other at_k is_hi
    have direct : scratchIdx elf.strays i k = none := scratchIdx_of_alone kept next
    have live : s.orphan k = false := orphan_of_other at_k is_hi
    rw [Elf.fixAt, at_k, Option.bind_some, direct, Elf.ledBy, next]
    by_cases is_lo : entry.type = .lo16
    · rw [ownEntry_eq layout at_k (by rw [is_lo]; rfl), is_lo, live]
      cases extra : scratchIdx elf.extraLos i k with
      | some g =>
        have unled : elf.led s i k = false := decide_eq_false fun both => Option.some_ne_none g (extra.symm.trans both.2)
        rw [unled]
        simpa [Fix.entries, Elf.scratchHi] using List.Perm.swap _ _ []
      | none =>
        cases prev : prevHi s.table k with
        | none => simp [Elf.led, prev, Fix.entries]
        | some h => simp [Elf.led, prev, extra]
    · have prev : prevHi s.table k = none := prevHi_of_other at_k is_lo
      have single : scratchIdx elf.extraLos i k = none := scratchIdx_of_alone kept prev
      have unled : elf.led s i k = false := decide_eq_false fun both => both.1 prev
      rw [single, unled]
      cases type : entry.type with
      | hi16 => exact absurd type is_hi
      | lo16 => exact absurd type is_lo
      | mips16 | mips32 | rel32 | mips26 =>
        rw [ownEntry_eq layout at_k (by rw [type]; rfl), live, type]
        exact .refl _
      | none | gprel16 | other =>
        rw [ownEntry_of_other at_k (by rw [type]; rfl)]
        exact .refl _

theorem led_inj (kept : (s, i) ∈ elf.relSections) {k' : ℕ} (first : elf.ledBy s i k = some m)
    (second : elf.ledBy s i k' = some m) : k = k' := by
  obtain ⟨next, direct⟩ := Option.filter_eq_some_iff.mp first
  obtain ⟨next', direct'⟩ := Option.filter_eq_some_iff.mp second
  exact led_once kept next (of_decide_eq_true direct) next' (of_decide_eq_true direct')

/-- The LO16 entries that are written with a HI16 are those that are not written by themselves. -/
theorem led_perm (kept : (s, i) ∈ elf.relSections) : ((List.range s.table.length).filterMap (elf.ledBy s i)).Perm
    ((List.range s.table.length).filter (elf.led s i)) := by
  refine (List.perm_ext_iff_of_nodup ?_ (List.nodup_range.filter _)).mpr fun l => ?_
  · exact List.Nodup.filterMap (fun k k' l first second => led_inj kept first second) List.nodup_range
  · rw [List.mem_filterMap, List.mem_filter, List.mem_range, Elf.led, decide_eq_true_iff, ← exists_led_iff kept]
    constructor
    · rintro ⟨k, -, led⟩
      obtain ⟨next, direct⟩ := Option.filter_eq_some_iff.mp led
      obtain ⟨sym, -, -, is_lo, -⟩ := nextLo_eq_some_iff.mp next
      exact ⟨lt_length_of_matches is_lo, k, next, of_decide_eq_true direct⟩
    · rintro ⟨-, k, next, direct⟩
      obtain ⟨sym, is_hi, -⟩ := nextLo_eq_some_iff.mp next
      exact ⟨k, List.mem_range.mpr (lt_length_of_matches is_hi),
        Option.filter_eq_some_iff.mpr ⟨next, decide_eq_true direct⟩⟩

/-- The scratch words are written once. -/
theorem scratch_perm {partner : List Reloc → ℕ → Option ℕ} (kept : (s, i) ∈ elf.relSections) (word : ℕ → IrxReloc) :
    ((List.range s.table.length).flatMap fun k => (scratchIdx (elf.detect partner) i k).toList.map word).Perm
      ((sectionScratches (elf.detect partner) i).map word) := by
  rw [← List.map_flatMap, ← List.filterMap_eq_flatMap_toList]
  exact (scratches_perm kept).map word

/-- The entries that are not written with their HI16 and those that are, together, are all entries. -/
theorem own_perm (kept : (s, i) ∈ elf.relSections) :
    (((List.range s.table.length).flatMap fun k => if elf.led s i k then [] else Elf.ownEntry layout s k) ++
      (List.range s.table.length).flatMap fun k => (elf.ledBy s i k).toList.flatMap (Elf.ownEntry layout s)).Perm
      ((List.range s.table.length).flatMap (Elf.ownEntry layout s)) := by
  have left (positions : List ℕ) : (positions.flatMap fun k => if elf.led s i k then [] else Elf.ownEntry layout s k) =
      (positions.filter fun k => !elf.led s i k).flatMap (Elf.ownEntry layout s) := by
    induction positions with
    | nil => rfl
    | cons k positions ih =>
      rw [List.flatMap_cons, List.filter_cons, ih]
      cases elf.led s i k <;> rfl
  rw [left, ← List.flatMap_assoc, ← List.filterMap_eq_flatMap_toList]
  refine (((led_perm kept).flatMap_right _).append_left _).trans ?_
  rw [← List.flatMap_append]
  exact (List.perm_append_comm.trans (List.filter_append_perm _ _)).flatMap_right _

/-- What is written for a section: its entries and its scratch words, each once. -/
theorem Elf.fixes_perm (layout : Layout) (kept : (s, i) ∈ elf.relSections) : ((elf.fixes layout s i).flatMap Fix.entries).Perm
    ((List.range s.table.length).flatMap (ownEntry layout s) ++ ((sectionScratches elf.strays i).map layout.scratchLo ++
      (sectionScratches elf.extraLos i).map (elf.scratchHi layout))) := by
  rw [Elf.fixes, List.filterMap_eq_flatMap_toList, List.flatMap_assoc]
  refine (List.Perm.flatMap_left _ fun k inside => fixAt_perm kept (List.getElem?_eq_getElem (List.mem_range.mp inside))).trans ?_
  refine (List.flatMap_append_perm _ _ _).symm.trans ?_
  refine ((List.flatMap_append_perm _ _ _).symm.append_left _).trans ?_
  refine (((List.flatMap_append_perm _ _ _).symm.append_left _).append_left _).trans ?_
  -- The LO16 entries that are written with a HI16 join the others.
  rw [← List.append_assoc (List.flatMap _ _) (List.flatMap _ _) (List.flatMap _ _)]
  refine (List.perm_append_comm.append_left _).trans ?_
  rw [← List.append_assoc]
  exact (own_perm kept).append ((scratch_perm kept _).append (scratch_perm kept _))

/-- The entries of the positions are the entries that the loader takes. -/
theorem ownEntries_eq (layout : Layout) (s : Section) : (List.range s.table.length).flatMap (Elf.ownEntry layout s) =
    s.keptEntries.map fun (entry, k) => ⟨Elf.place layout s entry, if s.orphan k then .none else entry.type⟩ := by
  have positions : (List.range s.table.length).flatMap (Elf.ownEntry layout s) = s.table.zipIdx.filterMap fun (entry, k) =>
      if relocationKeptForLoader entry.type then
        some ⟨Elf.place layout s entry, if s.orphan k then .none else entry.type⟩
      else none := by
    rw [← List.length_zipIdx]
    refine (List.filterMap_eq_flatMap_toList _ _).symm.trans (filterMap_positions fun k value at_k => ?_)
    obtain ⟨inside, equal⟩ := List.getElem?_eq_some_iff.mp at_k
    rw [List.length_zipIdx] at inside
    rw [← equal, List.getElem_zipIdx, Nat.zero_add, List.getElem?_eq_getElem inside, Option.filter_some]
    dsimp only
    split_ifs <;> rfl
  rw [positions, Section.keptEntries, ← List.filterMap_eq_map, List.filterMap_filter]
  exact List.filterMap_congr fun value _ => rfl

end Partition

section Emitted

/-- The offsets in the image of the entries that the loader takes are no overflows. -/
def Elf.Fits (layout : Layout) (s : Section) : Prop := ∀ entry ∈ s.table, relocationKeptForLoader entry.type = true →
  place layout s entry < 2 ^ 32

/-- The first pass goes through if no offset overflows. -/
theorem exists_keeps (kept : (s, i) ∈ elf.relSections) (fits : Elf.Fits layout s) :
    ∃ rels, Keeps elf layout s i rels ∧ (s.table.zipIdx.filter fun (entry, _) => relocationKeptForLoader entry.type).mapM
      (fun (entry, k) => keptRel elf.strays elf.extraLos i (layout.addr s.info.toNat) entry k) = .ok rels := by
  have all : ∀ value ∈ s.keptEntries, ∃ rel,
      keptRel elf.strays elf.extraLos i (layout.addr s.info.toNat) value.1 value.2 = .ok rel := by
    rintro ⟨entry, k⟩ member
    obtain ⟨at_k, taken⟩ := Section.mem_keptEntries.mp member
    have below : layout.addr s.info.toNat + entry.offset.toNat < 2 ^ 32 := fits entry (List.mem_of_getElem? at_k) taken
    refine ⟨_, Fallible.bind_eq_ok.mpr ⟨entry.offset.toNat + layout.addr s.info.toNat, ?_, rfl⟩⟩
    exact if_neg (by dsimp only; omega)
  obtain ⟨rels, collected⟩ := Fallible.exists_mapM all
  exact ⟨rels, ⟨kept, Fallible.forall₂_of_mapM collected⟩, collected⟩

/-- As many entries are written as were counted. -/
theorem length_fixes (kept : (s, i) ∈ elf.relSections) : ((elf.fixes layout s i).flatMap Fix.entries).length =
    s.keptEntries.length + elf.strays.countP (·.relSecIdx == i) + elf.extraLos.countP (·.relSecIdx == i) := by
  rw [(Elf.fixes_perm layout kept).length_eq, ownEntries_eq, List.length_append, List.length_append, List.length_map,
    List.length_map, List.length_map, length_sectionScratches, length_sectionScratches, Nat.add_assoc]

/-- Neither of the internal checks fails. -/
theorem Elf.emitRelocationSection_eq_ok (kept : (s, i) ∈ elf.relSections) (fits : Elf.Fits layout s) :
    elf.emitRelocationSection layout s i = .ok ((elf.fixes layout s i).flatMap Fix.entries) := by
  obtain ⟨rels, keeps, collected⟩ := exists_keeps kept fits
  obtain ⟨used, paired⟩ := Emission.pairAll_eq_ok (fun c c' m => keeps.once) s.name
  have expected : (Emission.emit rels layout.padloAddr elf.strays.length).length =
      rels.length + elf.strays.countP (·.relSecIdx == i) + elf.extraLos.countP (·.relSecIdx == i) := by
    rw [keeps.emit_eq, length_fixes kept, keeps.rels.length_eq]
  refine Fallible.bind_eq_ok.mpr ⟨rels, collected, Fallible.bind_eq_ok.mpr ⟨used, paired, ?_⟩⟩
  refine Fallible.bind_eq_ok.mpr ⟨⟨⟩, ?_, congrArg Except.ok keeps.emit_eq⟩
  rw [expected]
  exact if_pos (beq_self_eq_true _)

/-- A HI16 and the LO16 next to it: its LO16, or the scratch word of one of them. -/
inductive Elf.Partners (elf : Elf) (layout : Layout) (s : Section) (i : ℕ) : IrxReloc → IrxReloc → Prop
  | abi {k m : ℕ} {hi lo : Reloc} (at_k : s.table[k]? = some hi) (next : nextLo s.table k = some m)
      (direct : scratchIdx elf.strays i k = none) (at_m : s.table[m]? = some lo) :
      Partners elf layout s i ⟨place layout s hi, .hi16⟩ ⟨place layout s lo, .lo16⟩
  | stray {k g : ℕ} {hi : Reloc} (at_k : s.table[k]? = some hi) (detected : scratchIdx elf.strays i k = some g) :
      Partners elf layout s i ⟨place layout s hi, .hi16⟩ (layout.scratchLo g)
  | extra {k g : ℕ} {lo : Reloc} (at_k : s.table[k]? = some lo) (detected : scratchIdx elf.extraLos i k = some g) :
      Partners elf layout s i (elf.scratchHi layout g) ⟨place layout s lo, .lo16⟩

/-- A HI16 is written in a step with its partner. -/
theorem paired_of_entries {r : IrxReloc → IrxReloc → Prop} {fixes : List Fix}
    (pairs : ∀ hi lo, Fix.pair hi lo ∈ fixes → r ⟨hi, .hi16⟩ ⟨lo, .lo16⟩)
    (singles : ∀ entry, Fix.alone entry ∈ fixes → entry.type ≠ .hi16) {a : ℕ} {hi : IrxReloc}
    (at_a : (fixes.flatMap Fix.entries)[a]? = some hi) (is_hi : hi.type = .hi16) :
    ∃ lo, (fixes.flatMap Fix.entries)[a + 1]? = some lo ∧ r hi lo := by
  induction fixes generalizing a with
  | nil => nomatch at_a
  | cons fix fixes ih =>
    have rest := @ih (fun hi lo later => pairs hi lo (List.mem_cons_of_mem fix later))
      (fun entry later => singles entry (List.mem_cons_of_mem fix later))
    cases fix with
    | alone entry =>
      cases a with
      | zero =>
        cases at_a
        exact absurd is_hi (singles _ List.mem_cons_self)
      | succ a => exact rest at_a
    | pair first second =>
      match a with
      | 0 =>
        cases at_a
        exact ⟨_, rfl, pairs first second List.mem_cons_self⟩
      | 1 =>
        cases at_a
        cases is_hi
      | a + 2 => exact rest at_a

theorem mem_fixes {fix : Fix} : fix ∈ elf.fixes layout s i ↔ ∃ k, elf.fixAt layout s i k = some fix := by
  rw [Elf.fixes, List.mem_filterMap]
  refine exists_congr fun k => and_iff_right_of_imp fun fixed => ?_
  obtain ⟨entry, at_k, -⟩ := Option.bind_eq_some_iff.mp fixed
  exact List.mem_range.mpr (List.getElem?_eq_some_iff.mp at_k).1

/-- The pairs that are written are partners. -/
theorem partners_of_pair {hi lo : ℕ} (fixed : elf.fixAt layout s i k = some (.pair hi lo)) :
    elf.Partners layout s i ⟨hi, .hi16⟩ ⟨lo, .lo16⟩ := by
  obtain ⟨entry, at_k, fixed⟩ := Option.bind_eq_some_iff.mp fixed
  cases type : entry.type with
  | hi16 =>
    rw [type] at fixed
    cases next : nextLo s.table k with
    | none =>
      rw [next] at fixed
      cases fixed
    | some m =>
      cases stray : scratchIdx elf.strays i k with
      | some g =>
        rw [next, stray] at fixed
        cases fixed
        exact .stray at_k stray
      | none =>
        rw [next, stray] at fixed
        obtain ⟨lo, at_m, same⟩ := Option.map_eq_some_iff.mp fixed
        cases same
        exact .abi at_k next stray at_m
  | lo16 =>
    rw [type] at fixed
    cases extra : scratchIdx elf.extraLos i k with
    | some g =>
      rw [extra] at fixed
      cases fixed
      exact .extra at_k extra
    | none =>
      rw [extra] at fixed
      dsimp only at fixed
      split_ifs at fixed
      cases fixed
  | mips16 | mips32 | rel32 | mips26 | none | gprel16 | other =>
    rw [type] at fixed
    cases fixed

/-- What is written by itself is no HI16, and of no type that the loader takes only for a HI16 without a LO16. -/
theorem type_of_alone {single : IrxReloc} (fixed : elf.fixAt layout s i k = some (.alone single)) :
    single.type ≠ .hi16 ∧ (relocationKeptForLoader single.type = true ∨ s.orphan k = true) := by
  obtain ⟨entry, at_k, fixed⟩ := Option.bind_eq_some_iff.mp fixed
  cases type : entry.type with
  | hi16 =>
    rw [type] at fixed
    cases next : nextLo s.table k with
    | none =>
      rw [next] at fixed
      cases fixed
      refine ⟨nofun, .inr ?_⟩
      rw [Section.orphan, at_k, Option.any_some]
      exact decide_eq_true ⟨type, next⟩
    | some m =>
      rw [next] at fixed
      cases stray : scratchIdx elf.strays i k with
      | some g =>
        rw [stray] at fixed
        cases fixed
      | none =>
        rw [stray] at fixed
        obtain ⟨lo, -, same⟩ := Option.map_eq_some_iff.mp fixed
        cases same
  | lo16 =>
    rw [type] at fixed
    cases extra : scratchIdx elf.extraLos i k with
    | some g =>
      rw [extra] at fixed
      cases fixed
    | none =>
      rw [extra] at fixed
      dsimp only at fixed
      split_ifs at fixed
      cases fixed
      exact ⟨nofun, .inl rfl⟩
  | mips16 | mips32 | rel32 | mips26 =>
    rw [type] at fixed
    cases fixed
    exact ⟨nofun, .inl rfl⟩
  | none | gprel16 | other =>
    rw [type] at fixed
    cases fixed

/-- The entries that the loader takes and that are not to be dropped. -/
def Section.liveEntries (s : Section) : List (Reloc × ℕ) := s.keptEntries.filter fun (_, k) => !s.orphan k

/-- The shape of a table that the loader needs. -/
structure Elf.Shaped (elf : Elf) (layout : Layout) (s : Section) (i : ℕ) (out : List IrxReloc) : Prop where
  types : ∀ entry ∈ out, relocationKeptForLoader entry.type = true
  paired : ∀ (a : ℕ) (hi : IrxReloc), out[a]? = some hi → hi.type = .hi16 →
    ∃ lo, out[a + 1]? = some lo ∧ elf.Partners layout s i hi lo
  once : out.Perm ((s.liveEntries.map fun (entry, _) => ⟨place layout s entry, entry.type⟩) ++
    ((sectionScratches elf.strays i).map layout.scratchLo ++ (sectionScratches elf.extraLos i).map (elf.scratchHi layout)))
  size : ∀ size, elf.outputRelocationSize i s = .ok size → out.length * 8 = size

/-- The counted size is that of the entries and the scratch words. -/
theorem outputRelocationSize_eq {size : ℕ} (kept : (s, i) ∈ elf.relSections)
    (counted : elf.outputRelocationSize i s = .ok size) : size =
      (s.keptEntries.length + elf.strays.countP (·.relSecIdx == i) + elf.extraLos.countP (·.relSecIdx == i)) * 8 := by
  have rel : s.type = .rel := beq_iff_eq.mp (Bool.and_eq_true_iff.mp (List.mem_filter.mp kept).2).2
  rw [Elf.outputRelocationSize, if_neg (not_not.mpr rel)] at counted
  obtain ⟨withStrays, sum, counted⟩ := Fallible.bind_eq_ok.mp counted
  obtain ⟨withBoth, sum', counted⟩ := Fallible.bind_eq_ok.mp counted
  have entries : s.table.countP (fun entry => relocationKeptForLoader entry.type) = s.keptEntries.length := by
    conv_lhs => rw [← List.zipIdx_map_fst 0 s.table, List.countP_map, List.countP_eq_length_filter]
    rfl
  rw [checkedMulU32_eq_ok counted, checkedAddU32_eq_ok sum', checkedAddU32_eq_ok sum, entries]

/-- A section whose HI16 entries have a LO16 is written in the shape that the loader needs. -/
theorem shaped_of_paired (kept : (s, i) ∈ elf.relSections) (live : ∀ k < s.table.length, s.orphan k = false) :
    elf.Shaped layout s i ((elf.fixes layout s i).flatMap Fix.entries) := by
  have inside {fix : Fix} (k : ℕ) (fixed : elf.fixAt layout s i k = some fix) : k < s.table.length := by
    obtain ⟨entry, at_k, -⟩ := Option.bind_eq_some_iff.mp fixed
    exact (List.getElem?_eq_some_iff.mp at_k).1
  have singles (entry : IrxReloc) (member : Fix.alone entry ∈ elf.fixes layout s i) : entry.type ≠ .hi16 ∧
      relocationKeptForLoader entry.type = true := by
    obtain ⟨k, fixed⟩ := mem_fixes.mp member
    obtain ⟨other, taken | orphan⟩ := type_of_alone fixed
    · exact ⟨other, taken⟩
    · exact absurd orphan (by rw [live k (inside k fixed)]; exact Bool.false_ne_true)
  constructor
  · intro entry member
    obtain ⟨fix, fixed, written⟩ := List.mem_flatMap.mp member
    cases fix with
    | alone single =>
      cases List.mem_singleton.mp written
      exact (singles _ fixed).2
    | pair hi lo =>
      rcases List.mem_pair.mp written with rfl | rfl <;> rfl
  · intro a hi at_a is_hi
    refine paired_of_entries (fun hi lo member => ?_) (fun entry member => (singles entry member).1) at_a is_hi
    obtain ⟨k, fixed⟩ := mem_fixes.mp member
    exact partners_of_pair fixed
  · have all : s.liveEntries = s.keptEntries := by
      refine List.filter_eq_self.mpr fun (entry, k) member => ?_
      exact congrArg Bool.not (live k (List.getElem?_eq_some_iff.mp (Section.mem_keptEntries.mp member).1).1)
    have own := Elf.fixes_perm layout kept
    rw [ownEntries_eq] at own
    rw [all]
    refine own.trans (List.Perm.append_right _ (List.Perm.of_eq (List.map_congr_left fun (entry, k) member => ?_)))
    dsimp only
    rw [live k (List.getElem?_eq_some_iff.mp (Section.mem_keptEntries.mp member).1).1]
    rfl
  · intro size counted
    rw [length_fixes kept, outputRelocationSize_eq kept counted]

/-- A HI16 without a LO16 is written without a type. -/
theorem orphan_written (elf : Elf) (layout : Layout) (i : ℕ) (orphan : s.orphan k = true) :
    ∃ entry, ⟨Elf.place layout s entry, .none⟩ ∈ (elf.fixes layout s i).flatMap Fix.entries := by
  obtain ⟨entry, at_k, lone⟩ := (Option.any_eq_true _ _).mp orphan
  obtain ⟨is_hi, none⟩ := of_decide_eq_true lone
  refine ⟨entry, List.mem_flatMap.mpr ⟨.alone _, mem_fixes.mpr ⟨k, ?_⟩, List.mem_singleton_self _⟩⟩
  rw [Elf.fixAt, at_k, Option.bind_some, is_hi, none]

end Emitted

/-- The table of a section is written, in the shape that the loader needs exactly if every HI16 has a LO16. -/
theorem emitRelocationSection_shaped_iff {elf : Elf} {layout : Layout} {s : Section} {i : ℕ}
    (kept : (s, i) ∈ elf.relSections) (fits : Elf.Fits layout s) :
    (∃ out, elf.emitRelocationSection layout s i = .ok out ∧ elf.Shaped layout s i out) ↔
      ∀ k < s.table.length, s.orphan k = false := by
  rw [Elf.emitRelocationSection_eq_ok kept fits]
  constructor
  · rintro ⟨out, same, shaped⟩ k inside
    cases same
    by_contra orphan
    obtain ⟨entry, written⟩ := orphan_written elf layout i (Bool.not_eq_false _ ▸ orphan)
    exact Bool.false_ne_true (shaped.types _ written)
  · intro live
    exact ⟨_, rfl, shaped_of_paired kept live⟩

/-- Where the sections of the shown programs stand: all of them at 0, the scratch words behind the program. -/
def shownLayout : Layout := ⟨[0, 0, 0, 0, 0], 12, 16, 16⟩

/-- A HI16 with two LO16 entries. -/
theorem emitRelocationSection_shaped_carry :
    ∃ out, carryElf.emitRelocationSection shownLayout (shownRel carryRelocs) 2 = .ok out ∧
      carryElf.Shaped shownLayout (shownRel carryRelocs) 2 out :=
  (emitRelocationSection_shaped_iff (by rw [carryElf, relSections_shown]; exact List.mem_singleton_self _)
    (show ∀ entry ∈ _, _ by decide +kernel)).mpr (by decide +kernel)

/-- The only relocation is a HI16. -/
def loneRelocs : List (Word × Word) := [(0, 0x105)]

/-- A HI16 without a LO16 is written all the same, with the type that marks it to be dropped. -/
theorem emitRelocationSection_orphan :
    (elf2irx (shownInput [0, 0, 0] loneRelocs ⟨"a", 0, 1⟩)).toOption.map (·.tables) = some [[⟨0, .none⟩]] ∧
    ¬∀ (elf : Elf) (layout : Layout) (s : Section) (i : ℕ), (s, i) ∈ elf.relSections → Elf.Fits layout s →
      ∃ out, elf.emitRelocationSection layout s i = .ok out ∧ elf.Shaped layout s i out := by
  refine ⟨by decide +kernel, fun all => ?_⟩
  obtain ⟨out, through, shaped⟩ := all (shownElf [0, 0, 0] loneRelocs ⟨"a", 0, 1⟩) shownLayout (shownRel loneRelocs) 2
    (by rw [relSections_shown]; exact List.mem_singleton_self _) (show ∀ entry ∈ _, _ by decide +kernel)
  have emitted : ((shownElf [0, 0, 0] loneRelocs ⟨"a", 0, 1⟩).emitRelocationSection shownLayout (shownRel loneRelocs)
      2).toOption = some [⟨0, .none⟩] := by decide +kernel
  cases through.symm.trans (Fallible.eq_ok_of_toOption emitted)
  exact Bool.false_ne_true (shaped.types _ (List.mem_singleton_self _))

end KosTool.Elf2irx
