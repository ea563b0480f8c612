import KosTool.Model.Binary.Irx
import KosTool.Soundness.PairedEntries

/-! # What an emitted relocation table makes the loader do

The passes of `emit_relocation_section` write for each entry what the loader has to do about it: to patch it by itself,
to patch a HI16 with a LO16, or nothing where the HI16 that has the entry was written with it.
-/

namespace KosTool.Elf2irx

open WordPatch

/-- A step of the loader: an entry by itself, or a HI16 with its LO16. -/
inductive Fix where
  | alone (entry : IrxReloc)
  | pair (hi lo : ℕ)

/-- The entries for a step. -/
def Fix.entries : Fix → List IrxReloc
  | .alone entry => [entry]
  | .pair hi lo => [⟨hi, .hi16⟩, ⟨lo, .lo16⟩]

namespace Emission

variable {kept : List KeptRel} {padloAddr strayCount : ℕ} {a c m : ℕ}

theorem pair_eq_some_iff : pair kept c = some m ↔
    ∃ hi lo, kept[c]? = some hi ∧ hi.type = .hi16 ∧ hi.strayIdx = none ∧ c < m ∧ kept[m]? = some lo ∧
      lo.type = .lo16 ∧ lo.sym = hi.sym ∧
      ∀ j, c < j → j < m → ∀ other, kept[j]? = some other → ¬(other.type = .lo16 ∧ other.sym = hi.sym) := by
  constructor
  · intro paired
    obtain ⟨hi, here, found⟩ := Option.bind_eq_some_iff.mp paired
    obtain ⟨at_c, is_hi⟩ := Option.filter_eq_some_iff.mp here
    obtain ⟨is_lo, inside, none⟩ := List.find?_range'_eq_some.mp found
    obtain ⟨lo, at_m, lo_eq⟩ := (Option.any_eq_true _ _).mp is_lo
    refine ⟨hi, lo, at_c, (of_decide_eq_true is_hi).1, (of_decide_eq_true is_hi).2, (List.mem_range'_1.mp inside).1, at_m,
      (of_decide_eq_true lo_eq).1, (of_decide_eq_true lo_eq).2, fun j above below other at_j other_eq => ?_⟩
    have absent := none j above below
    rw [at_j] at absent
    simp [other_eq] at absent
  · rintro ⟨hi, lo, at_c, is_hi, direct, above, at_m, is_lo, same, none⟩
    have bound := (List.getElem?_eq_some_iff.mp at_m).1
    have here : decide (hi.type = .hi16 ∧ hi.strayIdx = Option.none) = true := decide_eq_true ⟨is_hi, direct⟩
    rw [pair, at_c, Option.filter_some, if_pos here, Option.bind_some, List.find?_range'_eq_some]
    refine ⟨?_, List.mem_range'_1.mpr ⟨above, by omega⟩, fun j overrun below => ?_⟩
    · rw [at_m]
      exact decide_eq_true ⟨is_lo, same⟩
    · cases at_j : kept[j]? with
      | none => rfl
      | some other =>
        rw [Option.any_some, decide_eq_false (none j overrun below other at_j)]
        rfl

theorem lt_of_pair (paired : pair kept c = some m) : c < m ∧ m < kept.length := by
  obtain ⟨hi, lo, -, -, -, above, at_m, -⟩ := pair_eq_some_iff.mp paired
  exact ⟨above, (List.getElem?_eq_some_iff.mp at_m).1⟩

/-- What is written for an entry. -/
def fixOf (kept : List KeptRel) (padloAddr strayCount a : ℕ) : Option Fix :=
  kept[a]?.bind fun rel =>
    match rel.type with
    | .hi16 =>
      match rel.strayIdx, (pair kept a).bind (kept[·]?) with
      | some i, _ => some (.pair rel.offOut (padloAddr + i * 4))
      | none, some lo => some (.pair rel.offOut lo.offOut)
      | none, none => some (.alone ⟨rel.offOut, .none⟩)
    | .lo16 =>
      match rel.extraLoIdx with
      | some i => some (.pair (padloAddr + strayCount * 4 + i * 4) rel.offOut)
      | none => if ∃ c < a, pair kept c = some a then none else some (.alone ⟨rel.offOut, .lo16⟩)
    | type => some (.alone ⟨rel.offOut, type⟩)

/-- What the first two passes see to: only a HI16 is stray, only a LO16 is an extra one, and a LO16 that a HI16 is
paired with is neither an extra one nor paired with another. -/
structure Sorted (kept : List KeptRel) : Prop where
  stray : ∀ (a : ℕ) (rel : KeptRel), kept[a]? = some rel → rel.type ≠ .hi16 → rel.strayIdx = none
  extra : ∀ (a : ℕ) (rel : KeptRel), kept[a]? = some rel → rel.type ≠ .lo16 → rel.extraLoIdx = none
  direct : ∀ (c m : ℕ) (rel : KeptRel), pair kept c = some m → kept[m]? = some rel → rel.extraLoIdx = none
  once : ∀ c c' m, pair kept c = some m → pair kept c' = some m → c = c'

/-- The entries that are written for those before a position. -/
def before (kept : List KeptRel) (padloAddr strayCount a : ℕ) : List IrxReloc :=
  ((List.range a).filterMap (fixOf kept padloAddr strayCount)).flatMap Fix.entries

theorem before_succ (a : ℕ) : before kept padloAddr strayCount (a + 1) = before kept padloAddr strayCount a ++
    (fixOf kept padloAddr strayCount a).toList.flatMap Fix.entries := by
  rw [before, List.range_succ, List.filterMap_append, List.flatMap_append]
  rfl

/-- The state of the third pass before a position. A LO16 may be about to be written, when all before it is consumed. -/
structure Inv (kept : List KeptRel) (padloAddr strayCount a : ℕ) (state : State) (pending : Option ℕ) : Prop where
  consumed : ∀ m, a ≤ m → (m ∈ state.consumed ↔ (∃ c < a, pair kept c = some m) ∧ pending ≠ some m)
  out : state.out ++ pending.toList.flatMap (written kept) = before kept padloAddr strayCount a
  waits : ∀ m ∈ pending, (∃ c < a, pair kept c = some m) ∧ a ≤ m ∧ ∀ j, a ≤ j → j < m → j ∈ state.consumed

theorem mem_nextLeft {consumed : List ℕ} {k : ℕ} (bound : m < kept.length) (left : m ∉ consumed) (above : k ≤ m) :
    nextLeft kept consumed k = m ↔ ∀ j, k ≤ j → j < m → j ∈ consumed := by
  have free : (!consumed.contains m) = true := by
    rw [Bool.not_eq_true', List.contains_eq_mem]
    exact decide_eq_false left
  constructor
  · intro same j from_k below
    cases found : (List.range' k (kept.length - k)).find? fun j => !consumed.contains j with
    | none =>
      rw [nextLeft, found, Option.getD_none] at same
      omega
    | some i =>
      rw [nextLeft, found, Option.getD_some] at same
      subst same
      have passed := (List.find?_range'_eq_some.mp found).2.2 j from_k below
      simpa using passed
  · intro all
    have found : ((List.range' k (kept.length - k)).find? fun j => !consumed.contains j) = some m := by
      refine List.find?_range'_eq_some.mpr ⟨free, List.mem_range'_1.mpr ⟨above, by omega⟩, fun j from_k below => ?_⟩
      rw [Bool.not_not, List.contains_iff_mem]
      exact all j from_k below
    rw [nextLeft, found, Option.getD_some]

section Step

variable (sorted : Sorted kept) {state : State} {pending : Option ℕ}

/-- A LO16 that is paired is written with its HI16. -/
theorem fixOf_target (sorted : Sorted kept) (paired : pair kept c = some a) :
    fixOf kept padloAddr strayCount a = none := by
  obtain ⟨hi, lo, -, -, -, above, at_a, is_lo, -⟩ := pair_eq_some_iff.mp paired
  have target : ∃ c < a, pair kept c = some a := ⟨c, above, paired⟩
  rw [fixOf, at_a, Option.bind_some, is_lo, sorted.direct c a lo paired at_a]
  exact if_pos target

theorem pair_of_lo {rel : KeptRel} (at_a : kept[a]? = some rel) (other : rel.type ≠ .hi16) : pair kept a = none := by
  cases paired : pair kept a with
  | none => rfl
  | some m =>
    obtain ⟨hi, lo, at_a', is_hi, -⟩ := pair_eq_some_iff.mp paired
    cases at_a.symm.trans at_a'
    exact absurd is_hi other

/-- An entry that is consumed is passed over. -/
theorem Inv.skip (inv : Inv kept padloAddr strayCount a state pending) (sorted : Sorted kept)
    (passed : a ∈ state.consumed) : Inv kept padloAddr strayCount (a + 1) state pending := by
  obtain ⟨⟨c, earlier, paired⟩, other⟩ := (inv.consumed a le_rfl).mp passed
  obtain ⟨hi, lo, -, -, -, -, at_a, is_lo, -⟩ := pair_eq_some_iff.mp paired
  have unpaired : pair kept a = none := pair_of_lo at_a (by rw [is_lo]; exact nofun)
  refine ⟨fun m above => ?_, ?_, fun m waits => ?_⟩
  · rw [inv.consumed m (by omega), exists_lt_succ, unpaired]
    exact and_congr_left fun _ => (or_iff_left nofun).symm
  · rw [inv.out, before_succ, fixOf_target sorted paired]
    exact (List.append_nil _).symm
  · obtain ⟨⟨c', before, same⟩, above, all⟩ := inv.waits m waits
    refine ⟨⟨c', by omega, same⟩, ?_, fun j overrun below => all j (by omega) below⟩
    rcases Nat.lt_or_eq_of_le above with less | rfl
    · exact less
    · exact absurd waits other

theorem written_eq {rel : KeptRel} (at_a : kept[a]? = some rel) :
    written kept a = [⟨rel.offOut, typeOut kept a rel⟩] := by
  rw [written, at_a]
  rfl

theorem typeOut_of_lo {rel : KeptRel} (other : rel.type ≠ .hi16) : typeOut kept a rel = rel.type :=
  if_neg fun hi => other hi.1

/-- The LO16 that is about to be written comes next. -/
theorem Inv.settle (inv : Inv kept padloAddr strayCount a state (some m)) (sorted : Sorted kept)
    (left : a ∉ state.consumed) :
    Inv kept padloAddr strayCount (a + 1) (step kept padloAddr strayCount state a) none := by
  obtain ⟨⟨c, earlier, paired⟩, above, all⟩ := inv.waits m rfl
  have here : m = a := by
    rcases Nat.lt_or_eq_of_le above with less | same
    · exact absurd (all a le_rfl less) left
    · exact same.symm
  subst here
  obtain ⟨hi, lo, -, -, -, -, at_m, is_lo, -⟩ := pair_eq_some_iff.mp paired
  have other : lo.type ≠ .hi16 := by
    rw [is_lo]
    exact nofun
  have unpaired : pair kept m = none := pair_of_lo at_m other
  have stepped : step kept padloAddr strayCount state m = { state with out := state.out ++ written kept m } := by
    rw [step, if_neg (by rwa [List.contains_iff_mem]), at_m, Option.bind_some, Option.bind_some,
      sorted.direct c m lo paired at_m, sorted.stray m lo at_m other, unpaired]
    exact congrArg (State.mk state.consumed) (congrArg (· ++ written kept m) (List.append_nil state.out))
  rw [stepped]
  refine ⟨fun m' above' => ?_, ?_, nofun⟩
  · rw [inv.consumed m' (by omega), exists_lt_succ, unpaired]
    refine and_congr (or_iff_left nofun).symm (iff_of_true (fun same => ?_) nofun)
    cases same
    omega
  · rw [before_succ, fixOf_target sorted paired, ← inv.out]
    simp only [Option.toList_none, Option.toList_some, List.flatMap_cons, List.flatMap_nil, List.append_nil]

/-- An entry that is not paired is written with its scratch word. -/
theorem Inv.write {fix : Fix} (inv : Inv kept padloAddr strayCount a state none) (unpaired : pair kept a = none)
    (fixed : fixOf kept padloAddr strayCount a = some fix) :
    Inv kept padloAddr strayCount (a + 1) ⟨state.consumed, state.out ++ fix.entries⟩ none := by
  refine ⟨fun m above => ?_, ?_, nofun⟩
  · rw [inv.consumed m (by omega), exists_lt_succ, unpaired]
    exact and_congr_left fun _ => (or_iff_left nofun).symm
  · have out := inv.out
    rw [Option.toList_none, List.flatMap_nil, List.append_nil] at out
    rw [before_succ, fixed, ← out]
    simp only [Option.toList_none, Option.toList_some, List.flatMap_cons, List.flatMap_nil, List.append_nil]

/-- A HI16 with its LO16: the LO16 is written at once, or left to come next. -/
theorem Inv.writePair {hi lo : KeptRel} (inv : Inv kept padloAddr strayCount a state none) (sorted : Sorted kept)
    (paired : pair kept a = some m) (at_a : kept[a]? = some hi) (at_m : kept[m]? = some lo)
    (left : a ∉ state.consumed) :
    ∃ pending, Inv kept padloAddr strayCount (a + 1) (step kept padloAddr strayCount state a) pending := by
  obtain ⟨hi', lo', at_a', is_hi, direct, above, at_m', is_lo, -⟩ := pair_eq_some_iff.mp paired
  cases at_a.symm.trans at_a'
  cases at_m.symm.trans at_m'
  have bound := (List.getElem?_eq_some_iff.mp at_m).1
  have fixed : fixOf kept padloAddr strayCount a = some (.pair hi.offOut lo.offOut) := by
    rw [fixOf, at_a, Option.bind_some, is_hi, direct, paired, Option.bind_some, at_m]
  have hiType : typeOut kept a hi = .hi16 := by
    rw [typeOut, if_neg (by rw [paired]; exact fun orphan => nomatch orphan.2.2), is_hi]
  have loWritten : written kept m = [⟨lo.offOut, .lo16⟩] := by
    rw [written_eq at_m, typeOut_of_lo (by rw [is_lo]; exact nofun), is_lo]
  have out := inv.out
  rw [Option.toList_none, List.flatMap_nil, List.append_nil] at out
  have whole : before kept padloAddr strayCount (a + 1) =
      state.out ++ [⟨hi.offOut, .hi16⟩] ++ [⟨lo.offOut, .lo16⟩] := by
    rw [before_succ, fixed, ← out, List.append_assoc]
    rfl
  have fresh : m ∉ state.consumed := by
    intro member
    obtain ⟨⟨c, earlier, same⟩, -⟩ := (inv.consumed m (by omega)).mp member
    exact absurd (sorted.once c a m same paired) (Nat.ne_of_lt earlier)
  have stepped : step kept padloAddr strayCount state a =
      if nextLeft kept state.consumed (a + 1) = m then ⟨state.consumed, state.out ++ [⟨hi.offOut, .hi16⟩]⟩
      else ⟨m :: state.consumed, state.out ++ [⟨hi.offOut, .hi16⟩] ++ [⟨lo.offOut, .lo16⟩]⟩ := by
    rw [step, if_neg (by rwa [List.contains_iff_mem]), at_a, Option.bind_some, Option.bind_some,
      sorted.extra a hi at_a (by rw [is_hi]; exact nofun), direct, paired, written_eq at_a, hiType]
    simp only [Option.toList_none, List.map_nil, List.append_nil, loWritten]
  rw [stepped]
  split_ifs with next
  · refine ⟨some m, fun m' above' => ?_, ?_, ?_⟩
    · rw [inv.consumed m' (by omega), exists_lt_succ, paired]
      refine ⟨fun earlier => ⟨.inl earlier.1, ?_⟩, fun either => ⟨either.1.resolve_right either.2, nofun⟩⟩
      rintro same
      cases same
      exact fresh ((inv.consumed m (by omega)).mpr earlier)
    · rw [whole, Option.toList_some, List.flatMap_cons, loWritten]
      rfl
    · rintro m' same
      cases same
      exact ⟨⟨a, Nat.lt_succ_self a, paired⟩, above, (mem_nextLeft bound fresh above).mp next⟩
  · refine ⟨none, fun m' above' => ?_, ?_, nofun⟩
    · rw [List.mem_cons, inv.consumed m' (by omega), exists_lt_succ, paired, Option.some.injEq, or_comm]
      refine ⟨fun either => ⟨?_, nofun⟩, fun either => ?_⟩
      · exact either.imp And.left fun same => same.symm
      · exact either.1.imp (fun earlier => ⟨earlier, nofun⟩) fun same => same.symm
    · rw [whole]
      exact List.append_nil _

/-- Every position of the third pass writes what there is to do. -/
theorem Inv.step (inv : Inv kept padloAddr strayCount a state pending) (sorted : Sorted kept) (inside : a < kept.length) :
    ∃ pending, Inv kept padloAddr strayCount (a + 1) (step kept padloAddr strayCount state a) pending := by
  obtain ⟨rel, at_a⟩ : ∃ rel, kept[a]? = some rel := ⟨_, List.getElem?_eq_getElem inside⟩
  by_cases passed : a ∈ state.consumed
  · rw [Emission.step, if_pos (List.contains_iff_mem.mpr passed)]
    exact ⟨pending, inv.skip sorted passed⟩
  cases waiting : pending with
  | some m =>
    subst waiting
    exact ⟨none, inv.settle sorted passed⟩
  | none =>
    subst waiting
    have free : ¬∃ c < a, pair kept c = some a := fun target =>
      passed ((inv.consumed a le_rfl).mpr ⟨target, nofun⟩)
    have stepped : Emission.step kept padloAddr strayCount state a =
        let out := state.out ++ (rel.extraLoIdx.toList.map fun i => ⟨padloAddr + strayCount * 4 + i * 4, .hi16⟩) ++
          [⟨rel.offOut, typeOut kept a rel⟩]
        match rel.strayIdx, pair kept a with
        | some i, _ => ⟨state.consumed, out ++ [⟨padloAddr + i * 4, .lo16⟩]⟩
        | none, none => ⟨state.consumed, out⟩
        | none, some m =>
          if nextLeft kept state.consumed (a + 1) = m then ⟨state.consumed, out⟩
          else ⟨m :: state.consumed, out ++ written kept m⟩ := by
      rw [Emission.step, if_neg (by rwa [List.contains_iff_mem]), at_a, Option.bind_some, Option.bind_some,
        written_eq at_a]
      cases rel.strayIdx with
      | some i => rfl
      | none => cases pair kept a <;> rfl
    cases paired : pair kept a with
    | some m =>
      obtain ⟨-, lo, -, -, -, -, at_m, -⟩ := pair_eq_some_iff.mp paired
      exact inv.writePair sorted paired at_a at_m passed
    | none =>
      rw [stepped, paired]
      refine ⟨none, ?_⟩
      by_cases is_hi : rel.type = .hi16
      · have single := sorted.extra a rel at_a (by rw [is_hi]; exact nofun)
        cases stray : rel.strayIdx with
        | some i =>
          have fixed : fixOf kept padloAddr strayCount a = some (.pair rel.offOut (padloAddr + i * 4)) := by
            rw [fixOf, at_a, Option.bind_some, is_hi, stray]
          have typed : typeOut kept a rel = .hi16 := (if_neg fun orphan => by
            rw [stray] at orphan
            exact nomatch orphan.2.1).trans is_hi
          have next := inv.write paired fixed
          rw [single, typed]
          simpa only [Fix.entries, Option.toList_none, List.map_nil, List.append_nil, List.append_assoc,
            List.singleton_append] using next
        | none =>
          have fixed : fixOf kept padloAddr strayCount a = some (.alone ⟨rel.offOut, .none⟩) := by
            rw [fixOf, at_a, Option.bind_some, is_hi, stray, paired]
            rfl
          have typed : typeOut kept a rel = .none := if_pos ⟨is_hi, stray, paired⟩
          have next := inv.write paired fixed
          rw [single, typed]
          simpa only [Fix.entries, Option.toList_none, List.map_nil, List.append_nil] using next
      · rw [sorted.stray a rel at_a is_hi, typeOut_of_lo is_hi]
        cases extra : rel.extraLoIdx with
        | some i =>
          have is_lo : rel.type = .lo16 := by
            by_contra other
            rw [sorted.extra a rel at_a other] at extra
            cases extra
          have fixed : fixOf kept padloAddr strayCount a =
              some (.pair (padloAddr + strayCount * 4 + i * 4) rel.offOut) := by
            rw [fixOf, at_a, Option.bind_some, is_lo, extra]
          have next := inv.write paired fixed
          rw [is_lo]
          simpa only [Fix.entries, Option.toList_some, List.map_cons, List.map_nil, List.append_assoc,
            List.singleton_append] using next
        | none =>
          have fixed : fixOf kept padloAddr strayCount a = some (.alone ⟨rel.offOut, rel.type⟩) := by
            rw [fixOf, at_a, Option.bind_some]
            cases type : rel.type with
            | hi16 => exact absurd type is_hi
            | lo16 =>
              rw [extra]
              exact if_neg free
            | _ => rfl
          have next := inv.write paired fixed
          simpa only [Fix.entries, Option.toList_none, List.map_nil, List.append_nil] using next

/-- The third pass writes, entry by entry, what there is to do. -/
theorem emit_eq (sorted : Sorted kept) : emit kept padloAddr strayCount = before kept padloAddr strayCount kept.length := by
  have all (n : ℕ) (inside : n ≤ kept.length) : ∃ pending, Inv kept padloAddr strayCount n
      ((List.range n).foldl (Emission.step kept padloAddr strayCount) ⟨[], []⟩) pending := by
    induction n with
    | zero => exact ⟨none, fun m _ => ⟨nofun, fun ⟨⟨_, earlier, _⟩, _⟩ => nomatch earlier⟩, rfl, nofun⟩
    | succ n ih =>
      obtain ⟨pending, inv⟩ := ih (by omega)
      rw [List.range_succ, List.foldl_append, List.foldl_cons, List.foldl_nil]
      exact inv.step sorted inside
  obtain ⟨pending, inv⟩ := all kept.length le_rfl
  cases waiting : pending with
  | some m =>
    obtain ⟨⟨c, -, paired⟩, above, -⟩ := inv.waits m waiting
    exact absurd (lt_of_pair paired).2 (Nat.not_lt.mpr above)
  | none =>
    have out := inv.out
    rw [waiting, Option.toList_none, List.flatMap_nil, List.append_nil] at out
    exact out

end Step

end Emission

end KosTool.Elf2irx
