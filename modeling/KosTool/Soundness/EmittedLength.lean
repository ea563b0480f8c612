import KosTool.Machine.Fallible
import KosTool.Soundness.EmittedTable
import Mathlib.Data.List.Nodup
import Mathlib.Data.List.Perm.Subperm

/-! # The length of an emitted relocation table

The third pass of `emit_relocation_section` writes each kept entry once, at its own position or with the HI16 that it is
paired with, and next to it at most one entry for each scratch word of the section. So no table outgrows the room that
the layout has reckoned for it.
-/

namespace KosTool.Elf2irx

open Fallible

namespace Emission

variable {kept : List KeptRel} {padloAddr strayCount a : ℕ} {state : State}

/-- A second pass that has gone through pairs no LO16 twice. -/
theorem once_of_pairAll {name : String} {used : List ℕ} (through : pairAll kept name = .ok used) {c c' m : ℕ}
    (first : pair kept c = some m) (second : pair kept c' = some m) : c = c' := by
  have all : (∀ c ∈ List.range kept.length, ∀ m, pair kept c = some m → m ∈ used) ∧ ∀ c ∈ List.range kept.length,
      ∀ c' ∈ List.range kept.length, ∀ m, pair kept c = some m → pair kept c' = some m → c = c' := by
    refine foldlM_induct (motive := fun done used => (∀ c ∈ done, ∀ m, pair kept c = some m → m ∈ used) ∧
      ∀ c ∈ done, ∀ c' ∈ done, ∀ m, pair kept c = some m → pair kept c' = some m → c = c') ⟨nofun, nofun⟩ ?_ through
    rintro done k used next ⟨marked, once⟩ step
    rw [pairStep] at step
    rcases own : pair kept k with _ | m
    · rw [own] at step
      cases step
      have other {c m : ℕ} (member : c ∈ done ++ [k]) (paired : pair kept c = some m) : c ∈ done := by
        rcases List.mem_append.mp member with earlier | last
        · exact earlier
        · cases List.mem_singleton.mp last
          cases own.symm.trans paired
      exact ⟨fun c member m paired => marked c (other member paired) m paired, fun c member c' member' m paired paired' =>
        once c (other member paired) c' (other member' paired') m paired paired'⟩
    · rw [own] at step
      dsimp only at step
      split_ifs at step with taken
      cases step
      rw [List.contains_iff_mem] at taken
      have fresh {c : ℕ} (earlier : c ∈ done) : pair kept c ≠ some m := fun paired => taken (marked c earlier m paired)
      constructor
      · intro c member m' paired
        rcases List.mem_append.mp member with earlier | last
        · exact List.mem_cons_of_mem m (marked c earlier m' paired)
        · cases List.mem_singleton.mp last
          cases own.symm.trans paired
          exact List.mem_cons_self
      · intro c member c' member' m' paired paired'
        rcases List.mem_append.mp member with earlier | last <;> rcases List.mem_append.mp member' with earlier' | last'
        · exact once c earlier c' earlier' m' paired paired'
        · cases List.mem_singleton.mp last'
          cases own.symm.trans paired'
          exact absurd paired (fresh earlier)
        · cases List.mem_singleton.mp last
          cases own.symm.trans paired
          exact absurd paired' (fresh earlier')
        · exact (List.mem_singleton.mp last).trans (List.mem_singleton.mp last').symm
  have bound {c : ℕ} (paired : pair kept c = some m) : c ∈ List.range kept.length := by
    obtain ⟨above, below⟩ := lt_of_pair paired
    exact List.mem_range.mpr (above.trans below)
  exact all.2 c (bound first) c' (bound second) m first second

/-- The state of the third pass before a position, by what has been written: the entries before it, those behind it that
are consumed, and the scratch entries. -/
structure Counted (kept : List KeptRel) (a : ℕ) (state : State) : Prop where
  nodup : state.consumed.Nodup
  paired : ∀ m ∈ state.consumed, ∃ c < a, pair kept c = some m
  length : state.out.length ≤ a + state.consumed.countP (a ≤ ·) + (kept.take a).countP (·.strayIdx.isSome) +
    (kept.take a).countP (·.extraLoIdx.isSome)

/-- Those from a position on are that position and those behind it. -/
theorem countP_le_eq (values : List ℕ) (a : ℕ) : values.countP (a ≤ ·) = values.count a + values.countP (a + 1 ≤ ·) := by
  induction values with
  | nil => rfl
  | cons value rest ih =>
    rw [List.countP_cons, List.countP_cons, List.count_cons, ih]
    simp only [decide_eq_true_eq, beq_iff_eq]
    split_ifs <;> omega

theorem length_written_le (kept : List KeptRel) (k : ℕ) : (written kept k).length ≤ 1 := by
  rw [written]
  cases kept[k]? <;> simp

/-- One position writes its entry, the scratch entries next to it, and maybe the LO16 that it consumes. -/
theorem Counted.step (counted : Counted kept a state)
    (once : ∀ c c' m, pair kept c = some m → pair kept c' = some m → c = c') {rel : KeptRel} (at_a : kept[a]? = some rel) :
    Counted kept (a + 1) (step kept padloAddr strayCount state a) := by
  obtain ⟨nodup, paired, length⟩ := counted
  have earlier : ∀ m ∈ state.consumed, ∃ c < a + 1, pair kept c = some m := fun m member => by
    obtain ⟨c, below, same⟩ := paired m member
    exact ⟨c, Nat.lt_succ_of_lt below, same⟩
  have here := countP_le_eq state.consumed a
  have single := List.nodup_iff_count_le_one.mp nodup a
  have more : kept.take (a + 1) = kept.take a ++ [rel] := by
    rw [List.take_add_one, at_a, Option.toList_some]
  have own := length_written_le kept a
  rw [Emission.step]
  split_ifs with taken
  · refine ⟨nodup, earlier, ?_⟩
    rw [more, List.countP_append, List.countP_append]
    omega
  · have absent : state.consumed.count a = 0 := List.count_eq_zero.mpr fun member => taken (List.contains_iff_mem.mpr member)
    rw [at_a, Option.bind_some, Option.bind_some]
    have extra : ((rel.extraLoIdx.toList.map fun i => (⟨padloAddr + strayCount * 4 + i * 4, .hi16⟩ : IrxReloc)).length) ≤
        [rel].countP (·.extraLoIdx.isSome) := by
      rcases index : rel.extraLoIdx with _ | i
      · exact Nat.zero_le _
      · simp [index]
    rcases stray : rel.strayIdx with _ | i
    · rcases next : pair kept a with _ | m
      · refine ⟨nodup, earlier, ?_⟩
        dsimp only
        rw [more, List.countP_append, List.countP_append, List.length_append, List.length_append]
        omega
      · dsimp only
        split_ifs with adjacent
        · refine ⟨nodup, earlier, ?_⟩
          dsimp only
          rw [more, List.countP_append, List.countP_append, List.length_append, List.length_append]
          omega
        · have above := (lt_of_pair next).1
          refine ⟨List.nodup_cons.mpr ⟨fun member => ?_, nodup⟩, fun other member => ?_, ?_⟩
          · obtain ⟨c, below, same⟩ := paired m member
            exact absurd (once c a m same next) (Nat.ne_of_lt below)
          · rcases List.mem_cons.mp member with rfl | member
            · exact ⟨a, Nat.lt_succ_self a, next⟩
            · exact earlier other member
          · have partner := length_written_le kept m
            rw [more, List.countP_append, List.countP_append, List.length_append, List.length_append, List.length_append,
              List.countP_cons, if_pos (decide_eq_true (Nat.succ_le_of_lt above))]
            omega
    · have scratch : [rel].countP (·.strayIdx.isSome) = 1 := by simp [stray]
      refine ⟨nodup, earlier, ?_⟩
      dsimp only
      rw [more, List.countP_append, List.countP_append, List.length_append, List.length_append, List.length_append,
        List.length_singleton, scratch]
      omega

/-- No table is longer than its kept entries and its scratch words. -/
theorem length_emit_le (once : ∀ c c' m, pair kept c = some m → pair kept c' = some m → c = c') :
    (emit kept padloAddr strayCount).length ≤ kept.length + kept.countP (·.strayIdx.isSome) +
      kept.countP (·.extraLoIdx.isSome) := by
  have all (a : ℕ) (bound : a ≤ kept.length) :
      Counted kept a ((List.range a).foldl (step kept padloAddr strayCount) ⟨[], []⟩) := by
    induction a with
    | zero => exact ⟨List.nodup_nil, nofun, Nat.zero_le _⟩
    | succ a ih =>
      rw [List.range_succ, List.foldl_append]
      exact (ih (Nat.le_of_succ_le bound)).step once (List.getElem?_eq_getElem bound)
  obtain ⟨-, paired, length⟩ := all kept.length le_rfl
  rw [List.take_length, List.countP_eq_zero.mpr] at length
  · exact length
  · intro m member
    obtain ⟨c, -, same⟩ := paired m member
    simpa using (lt_of_pair same).2

end Emission

/-- The scratch words of distinct entries of a section are distinct. -/
theorem countP_scratchIdx_le {scratches : List Scratch} {relSecIdx : ℕ} {positions : List ℕ} (nodup : positions.Nodup) :
    positions.countP (fun k => (scratchIdx scratches relSecIdx k).isSome) ≤ scratches.countP (·.relSecIdx == relSecIdx) := by
  rw [List.countP_eq_length_filter, List.countP_eq_length_filter, ← List.length_map Scratch.inIdx]
  refine (List.subperm_of_subset (nodup.filter _) fun k member => ?_).length_le
  have found := (List.mem_filter.mp member).2
  rw [scratchIdx, List.findIdx?_isSome, List.any_eq_true] at found
  obtain ⟨scratch, listed, same⟩ := found
  rw [Bool.and_eq_true, beq_iff_eq, beq_iff_eq] at same
  exact List.mem_map.mpr ⟨scratch, List.mem_filter.mpr ⟨listed, beq_iff_eq.mpr same.1⟩, same.2⟩

/-- The kept entries of a section have at most the scratch words of the section. -/
theorem countP_kept_le {strays extraLos : List Scratch} {relSecIdx base : ℕ} {taken : List (Reloc × ℕ)} {kept : List KeptRel}
    (rels : List.Forall₂ (fun entry rel => keptRel strays extraLos relSecIdx base entry.1 entry.2 = .ok rel) taken kept)
    (nodup : (taken.map Prod.snd).Nodup) :
    kept.countP (·.strayIdx.isSome) ≤ strays.countP (·.relSecIdx == relSecIdx) ∧
      kept.countP (·.extraLoIdx.isSome) ≤ extraLos.countP (·.relSecIdx == relSecIdx) := by
  have counts : kept.countP (·.strayIdx.isSome) ≤
        (taken.map Prod.snd).countP (fun k => (scratchIdx strays relSecIdx k).isSome) ∧
      kept.countP (·.extraLoIdx.isSome) ≤
        (taken.map Prod.snd).countP fun k => (scratchIdx extraLos relSecIdx k).isSome := by
    clear nodup
    induction rels with
    | nil => exact ⟨le_rfl, le_rfl⟩
    | @cons entry rel taken kept here rest ih =>
      obtain ⟨offOut, -, here⟩ := bind_eq_ok.mp here
      cases pure_eq_ok.mp here
      simp only [List.map_cons, List.countP_cons]
      constructor
      · refine Nat.add_le_add ih.1 ?_
        by_cases hi : entry.1.type = .hi16
        · rw [if_pos hi]
        · rw [if_neg hi]
          exact Nat.zero_le _
      · refine Nat.add_le_add ih.2 ?_
        by_cases lo : entry.1.type = .lo16
        · rw [if_pos lo]
        · rw [if_neg lo]
          exact Nat.zero_le _
  exact ⟨counts.1.trans (countP_scratchIdx_le nodup), counts.2.trans (countP_scratchIdx_le nodup)⟩

end KosTool.Elf2irx
