import KosTool.Machine.Fallible
import KosTool.Soundness.EmittedTable

/-! # The emitted table of a relocation section

What is emitted for a section, told by the positions of its sorted table: the entries that the loader takes, each HI16
with the LO16 that is its partner or with a scratch word, and each further LO16 with a scratch word for the HI16.
-/

namespace KosTool.Elf2irx

open WordPatch

section Scratches

variable {elf : Elf} {s : Section} {i k : ℕ} {partner : List Reloc → ℕ → Option ℕ}

/-- The index of a section determines it. -/
theorem Elf.relSections_unique {s' : Section} (first : (s, i) ∈ elf.relSections) (second : (s', i) ∈ elf.relSections) :
    s = s' := by
  have at_i := List.mem_zipIdx_iff_getElem?.mp (List.mem_filter.mp first).1
  have at_i' := List.mem_zipIdx_iff_getElem?.mp (List.mem_filter.mp second).1
  exact Option.some.inj (at_i.symm.trans at_i')

theorem Elf.mem_detect {scratch : Scratch} : scratch ∈ elf.detect partner ↔ ∃ s i k m, (s, i) ∈ elf.relSections ∧
    (k, m) ∈ repeats (partner s.table) s.table.length ∧
    scratch = ⟨i, k, (s.table[m]?.map (·.offset.toNat)).getD 0, s.info.toNat⟩ := by
  rw [Elf.detect, List.mem_flatMap]
  constructor
  · rintro ⟨⟨s, i⟩, kept, member⟩
    obtain ⟨⟨k, m⟩, repeated, rfl⟩ := List.mem_map.mp member
    exact ⟨s, i, k, m, kept, repeated, rfl⟩
  · rintro ⟨s, i, k, m, kept, repeated, rfl⟩
    exact ⟨(s, i), kept, List.mem_map.mpr ⟨(k, m), repeated, rfl⟩⟩

/-- An entry has no scratch word exactly if it is no repeat. -/
theorem scratchIdx_eq_none_iff (kept : (s, i) ∈ elf.relSections) : scratchIdx (elf.detect partner) i k = none ↔
    ∀ m, (k, m) ∉ repeats (partner s.table) s.table.length := by
  rw [scratchIdx, List.findIdx?_eq_none_iff]
  constructor
  · intro none m repeated
    have absent := none _ (Elf.mem_detect.mpr ⟨s, i, k, m, kept, repeated, rfl⟩)
    simp at absent
  · intro none scratch member
    obtain ⟨s', i', k', m, kept', repeated, rfl⟩ := Elf.mem_detect.mp member
    rw [Bool.and_eq_false_iff, beq_eq_false_iff_ne, beq_eq_false_iff_ne]
    by_contra both
    rw [not_or, not_not, not_not] at both
    obtain ⟨rfl, rfl⟩ := both
    cases Elf.relSections_unique kept kept'
    exact none m repeated

/-- A scratch word is recorded with the partner of its entry. -/
theorem scratchIdx_eq_some {g : ℕ} (kept : (s, i) ∈ elf.relSections)
    (found : scratchIdx (elf.detect partner) i k = some g) :
    ∃ m, (k, m) ∈ repeats (partner s.table) s.table.length ∧ (elf.detect partner)[g]? =
      some ⟨i, k, (s.table[m]?.map (·.offset.toNat)).getD 0, s.info.toNat⟩ := by
  obtain ⟨inside, same, -⟩ := List.findIdx?_eq_some_iff_getElem.mp found
  rw [Bool.and_eq_true, beq_iff_eq, beq_iff_eq] at same
  obtain ⟨s', i', k', m, kept', repeated, equal⟩ := Elf.mem_detect.mp (List.getElem_mem inside)
  rw [equal] at same
  obtain ⟨rfl, rfl⟩ := same
  cases Elf.relSections_unique kept kept'
  exact ⟨m, repeated, (List.getElem?_eq_getElem inside).trans (congrArg some equal)⟩

/-- No LO16 is written with two HI16 entries: the second of them has a scratch word. -/
theorem led_once {k' l : ℕ} (kept : (s, i) ∈ elf.relSections) (next : nextLo s.table k = some l)
    (direct : scratchIdx elf.strays i k = none) (next' : nextLo s.table k' = some l)
    (direct' : scratchIdx elf.strays i k' = none) : k = k' := by
  have inside {h : ℕ} (next : nextLo s.table h = some l) : h < s.table.length := by
    obtain ⟨sym, is_hi, -⟩ := nextLo_eq_some_iff.mp next
    exact lt_length_of_matches is_hi
  rcases Nat.lt_trichotomy k k' with less | same | greater
  · exact absurd (mem_repeats.mpr ⟨inside next', next', k, less, next⟩) ((scratchIdx_eq_none_iff kept).mp direct' l)
  · exact same
  · exact absurd (mem_repeats.mpr ⟨inside next, next, k', greater, next'⟩) ((scratchIdx_eq_none_iff kept).mp direct l)

/-- A LO16 that is written with a HI16 is not an extra one. -/
theorem single_of_led {l : ℕ} (kept : (s, i) ∈ elf.relSections) (next : nextLo s.table k = some l) :
    scratchIdx elf.extraLos i l = none := by
  refine (scratchIdx_eq_none_iff kept).mpr fun h repeated => ?_
  obtain ⟨-, own, earlier, before, same⟩ := mem_repeats.mp repeated
  exact first_of_nextLo next earlier before (same.trans own.symm)

/-- The LO16 entries that are written with a HI16 are those that have one and are no extra ones. -/
theorem exists_led_iff {l : ℕ} (kept : (s, i) ∈ elf.relSections) :
    (∃ k, nextLo s.table k = some l ∧ scratchIdx elf.strays i k = none) ↔
      prevHi s.table l ≠ none ∧ scratchIdx elf.extraLos i l = none := by
  constructor
  · rintro ⟨k, next, -⟩
    refine ⟨fun none => ?_, single_of_led kept next⟩
    obtain ⟨sym, is_hi, above, is_lo, -⟩ := nextLo_eq_some_iff.mp next
    have absent := (prevHi_eq_none_iff is_lo).mp none k above
    rw [is_hi] at absent
    cases absent
  · rintro ⟨led, single⟩
    obtain ⟨h, prev⟩ := Option.ne_none_iff_exists'.mp led
    obtain ⟨sym, is_lo, -⟩ := prevHi_eq_some_iff.mp prev
    have alone : ∀ earlier < l, prevHi s.table earlier ≠ some h := fun earlier before same =>
      (scratchIdx_eq_none_iff kept).mp single h (mem_repeats.mpr ⟨lt_length_of_matches is_lo, prev, earlier, before, same⟩)
    obtain ⟨first, next, least⟩ := exists_first_nextLo (nextLo_of_first prev alone)
    refine ⟨first, next, (scratchIdx_eq_none_iff kept).mpr fun m repeated => ?_⟩
    obtain ⟨-, own, earlier, before, same⟩ := mem_repeats.mp repeated
    cases own.symm.trans next
    exact least earlier before same

end Scratches

/-- What the loader is made to do about an entry of a section. -/
def Elf.fixAt (elf : Elf) (layout : Layout) (s : Section) (i k : ℕ) : Option Fix :=
  s.table[k]?.bind fun entry =>
    match entry.type with
    | .hi16 =>
      match nextLo s.table k, scratchIdx elf.strays i k with
      | none, _ => some (.alone ⟨place layout s entry, .none⟩)
      | some _, some g => some (.pair (place layout s entry) (layout.padloAddr + g * 4))
      | some m, none => s.table[m]?.map fun lo => .pair (place layout s entry) (place layout s lo)
    | .lo16 =>
      match scratchIdx elf.extraLos i k with
      | some g => some (.pair (layout.padloAddr + elf.strays.length * 4 + g * 4) (place layout s entry))
      | none => if prevHi s.table k = none then some (.alone ⟨place layout s entry, .lo16⟩) else none
    | .mips16 | .mips32 | .rel32 | .mips26 => some (.alone ⟨place layout s entry, entry.type⟩)
    | _ => none

/-- What the loader is made to do about a section. -/
def Elf.fixes (elf : Elf) (layout : Layout) (s : Section) (i : ℕ) : List Fix :=
  (List.range s.table.length).filterMap (elf.fixAt layout s i)

/-- The entries that the loader takes, with their positions. -/
def Section.keptEntries (s : Section) : List (Reloc × ℕ) :=
  s.table.zipIdx.filter fun (entry, _) => relocationKeptForLoader entry.type

section KeptEntries

variable {s : Section} {a b k l : ℕ} {entry other : Reloc}

theorem Section.mem_keptEntries :
    (entry, k) ∈ s.keptEntries ↔ s.table[k]? = some entry ∧ relocationKeptForLoader entry.type = true := by
  rw [Section.keptEntries, List.mem_filter, List.mem_zipIdx_iff_getElem?]

/-- The positions ascend. -/
theorem Section.keptEntries_ascend (s : Section) : s.keptEntries.Pairwise fun first second => first.2 < second.2 := by
  apply List.Pairwise.filter
  have positions : (s.table.zipIdx.map Prod.snd).Pairwise (· < ·) := by
    rw [List.zipIdx_map_snd]
    exact List.pairwise_lt_range'
  exact List.pairwise_map.mp positions

theorem Section.keptEntries_lt (at_a : s.keptEntries[a]? = some (entry, k)) (at_b : s.keptEntries[b]? = some (other, l))
    (ascend : a < b) : k < l := by
  obtain ⟨inside, equal⟩ := List.getElem?_eq_some_iff.mp at_a
  obtain ⟨inside', equal'⟩ := List.getElem?_eq_some_iff.mp at_b
  have less := List.pairwise_iff_getElem.mp s.keptEntries_ascend a b inside inside' ascend
  rwa [equal, equal'] at less

theorem Section.keptEntries_lt_iff (at_a : s.keptEntries[a]? = some (entry, k))
    (at_b : s.keptEntries[b]? = some (other, l)) : a < b ↔ k < l := by
  refine ⟨Section.keptEntries_lt at_a at_b, fun less => ?_⟩
  rcases Nat.lt_trichotomy a b with below | rfl | above
  · exact below
  · cases at_a.symm.trans at_b
    exact absurd less (Nat.lt_irrefl k)
  · exact absurd (Section.keptEntries_lt at_b at_a above) (Nat.not_lt.mpr (Nat.le_of_lt less))

theorem Section.exists_keptEntries (at_k : s.table[k]? = some entry) (taken : relocationKeptForLoader entry.type = true) :
    ∃ a : ℕ, s.keptEntries[a]? = some (entry, k) :=
  List.mem_iff_getElem?.mp (Section.mem_keptEntries.mpr ⟨at_k, taken⟩)

theorem Section.at_keptEntries (at_a : s.keptEntries[a]? = some (entry, k)) :
    s.table[k]? = some entry ∧ relocationKeptForLoader entry.type = true :=
  Section.mem_keptEntries.mp (List.mem_iff_getElem?.mpr ⟨a, at_a⟩)

end KeptEntries

section Kept

variable {elf : Elf} {layout : Layout} {s : Section} {i : ℕ} {kept : List KeptRel}

/-- The kept entries as the first pass collects them. -/
structure Keeps (elf : Elf) (layout : Layout) (s : Section) (i : ℕ) (kept : List KeptRel) : Prop where
  member : (s, i) ∈ elf.relSections
  rels : List.Forall₂ (fun value rel => keptRel elf.strays elf.extraLos i (layout.addr s.info.toNat) value.1 value.2 =
    .ok rel) s.keptEntries kept

variable {a b k l : ℕ} {entry : Reloc} {rel : KeptRel}

theorem keptRel_eq_ok {base : ℕ} {strays extraLos : List Scratch} (collected : keptRel strays extraLos i base entry k = .ok rel) :
    rel = ⟨base + entry.offset.toNat, entry.type, entry.sym,
      if entry.type = .hi16 then scratchIdx strays i k else none,
      if entry.type = .lo16 then scratchIdx extraLos i k else none⟩ := by
  obtain ⟨offOut, sum, rest⟩ := Fallible.bind_eq_ok.mp collected
  rw [checkedAddU32] at sum
  split_ifs at sum
  cases sum
  cases rest
  rw [Nat.add_comm]

/-- A kept entry at its position. -/
theorem Keeps.at_entry (keeps : Keeps elf layout s i kept) (at_a : s.keptEntries[a]? = some (entry, k)) :
    kept[a]? = some ⟨Elf.place layout s entry, entry.type, entry.sym,
      if entry.type = .hi16 then scratchIdx elf.strays i k else none,
      if entry.type = .lo16 then scratchIdx elf.extraLos i k else none⟩ := by
  have inside := (List.getElem?_eq_some_iff.mp at_a).1
  rw [keeps.rels.length_eq] at inside
  have at_a' := List.getElem?_eq_getElem inside
  obtain ⟨value, here, collected⟩ := Fallible.getElem?_of_forall₂ keeps.rels at_a'
  cases at_a.symm.trans here
  rw [at_a']
  exact congrArg some (keptRel_eq_ok collected)

theorem Keeps.exists_entry (keeps : Keeps elf layout s i kept) (at_a : kept[a]? = some rel) :
    ∃ (entry : Reloc) (k : ℕ), s.keptEntries[a]? = some (entry, k) ∧ rel = ⟨Elf.place layout s entry, entry.type, entry.sym,
      if entry.type = .hi16 then scratchIdx elf.strays i k else none,
      if entry.type = .lo16 then scratchIdx elf.extraLos i k else none⟩ := by
  obtain ⟨⟨entry, k⟩, here, collected⟩ := Fallible.getElem?_of_forall₂ keeps.rels at_a
  exact ⟨entry, k, here, keptRel_eq_ok collected⟩

/-- The loader takes every LO16 and every HI16. -/
theorem Section.exists_of_matches {type : RelType} {sym : ℕ} (here : entryMatches s.table type sym k)
    (taken : relocationKeptForLoader type = true) :
    ∃ (a : ℕ) (entry : Reloc), s.keptEntries[a]? = some (entry, k) ∧ entry.type = type ∧ entry.sym = sym := by
  obtain ⟨entry, at_k, type_eq, sym_eq⟩ := entryMatches_iff.mp here
  obtain ⟨a, at_a⟩ := Section.exists_keptEntries at_k (type_eq ▸ taken)
  exact ⟨a, entry, at_a, type_eq, sym_eq⟩

/-- A pair of the second pass is a HI16 that has no scratch word, with its LO16. -/
theorem Keeps.pair_iff (keeps : Keeps elf layout s i kept) {entry' : Reloc} (at_a : s.keptEntries[a]? = some (entry, k))
    (at_b : s.keptEntries[b]? = some (entry', l)) :
    Emission.pair kept a = some b ↔ nextLo s.table k = some l ∧ scratchIdx elf.strays i k = none := by
  rw [Emission.pair_eq_some_iff]
  have hiRel := keeps.at_entry at_a
  have loRel := keeps.at_entry at_b
  have at_k := (Section.at_keptEntries at_a).1
  have at_l := (Section.at_keptEntries at_b).1
  constructor
  · rintro ⟨hi, lo, hi_eq, is_hi, direct, above, lo_eq, is_lo, same, none⟩
    cases hiRel.symm.trans hi_eq
    cases loRel.symm.trans lo_eq
    dsimp only at is_hi direct is_lo same none
    rw [if_pos is_hi] at direct
    refine ⟨nextLo_eq_some_iff.mpr ⟨entry.sym, entryMatches_iff.mpr ⟨entry, at_k, is_hi, rfl⟩,
      Section.keptEntries_lt at_a at_b above, entryMatches_iff.mpr ⟨entry', at_l, is_lo, same⟩, fun j overrun below => ?_⟩, direct⟩
    by_contra between
    rw [Bool.not_eq_false] at between
    obtain ⟨c, other, at_c, type_eq, sym_eq⟩ := Section.exists_of_matches between rfl
    exact none c ((Section.keptEntries_lt_iff at_a at_c).mpr overrun) ((Section.keptEntries_lt_iff at_c at_b).mpr below) _
      (keeps.at_entry at_c) ⟨type_eq, sym_eq⟩
  · rintro ⟨next, direct⟩
    obtain ⟨sym, is_hi, above, is_lo, none⟩ := nextLo_eq_some_iff.mp next
    obtain ⟨hi, at_k', hi_type, rfl⟩ := entryMatches_iff.mp is_hi
    obtain ⟨lo, at_l', lo_type, lo_sym⟩ := entryMatches_iff.mp is_lo
    cases at_k.symm.trans at_k'
    cases at_l.symm.trans at_l'
    refine ⟨_, _, hiRel, hi_type, (if_pos hi_type).trans direct, (Section.keptEntries_lt_iff at_a at_b).mpr above, loRel, lo_type,
      lo_sym, fun j overrun below other at_j other_eq => ?_⟩
    obtain ⟨third, t, at_j', rfl⟩ := keeps.exists_entry at_j
    have absent := none t (Section.keptEntries_lt at_a at_j' overrun) (Section.keptEntries_lt at_j' at_b below)
    rw [entryMatches_iff.mpr ⟨third, (Section.at_keptEntries at_j').1, other_eq⟩] at absent
    cases absent

/-- A HI16 without a scratch word is paired with its LO16, if it has one. -/
theorem Keeps.exists_pair (keeps : Keeps elf layout s i kept) (at_a : s.keptEntries[a]? = some (entry, k))
    (next : nextLo s.table k = some l) (direct : scratchIdx elf.strays i k = none) :
    ∃ (b : ℕ) (entry' : Reloc), s.keptEntries[b]? = some (entry', l) ∧ Emission.pair kept a = some b := by
  obtain ⟨sym, -, -, is_lo, -⟩ := nextLo_eq_some_iff.mp next
  obtain ⟨b, entry', at_b, -, -⟩ := Section.exists_of_matches is_lo rfl
  exact ⟨b, entry', at_b, (keeps.pair_iff at_a at_b).mpr ⟨next, direct⟩⟩

/-- A HI16 is paired only if it has a LO16. -/
theorem Keeps.next_of_pair (keeps : Keeps elf layout s i kept) (at_a : s.keptEntries[a]? = some (entry, k))
    (paired : Emission.pair kept a = some b) : ∃ (entry' : Reloc) (l : ℕ), s.keptEntries[b]? = some (entry', l) ∧
      nextLo s.table k = some l ∧ scratchIdx elf.strays i k = none := by
  obtain ⟨hi, lo, -, -, -, -, at_b, -⟩ := Emission.pair_eq_some_iff.mp paired
  obtain ⟨entry', l, at_b', -⟩ := keeps.exists_entry at_b
  exact ⟨entry', l, at_b', (keeps.pair_iff at_a at_b').mp paired⟩

/-- No LO16 is paired with two HI16 entries: the second of them has a scratch word. -/
theorem Keeps.once (keeps : Keeps elf layout s i kept) {c c' m : ℕ} (first : Emission.pair kept c = some m)
    (second : Emission.pair kept c' = some m) : c = c' := by
  obtain ⟨hi, lo, at_c, -⟩ := Emission.pair_eq_some_iff.mp first
  obtain ⟨hi', lo', at_c', -⟩ := Emission.pair_eq_some_iff.mp second
  obtain ⟨hi, k, at_k, -⟩ := keeps.exists_entry at_c
  obtain ⟨hi', k', at_k', -⟩ := keeps.exists_entry at_c'
  obtain ⟨lo, l, at_l, next, direct⟩ := keeps.next_of_pair at_k first
  obtain ⟨lo', l', at_l', next', direct'⟩ := keeps.next_of_pair at_k' second
  cases at_l.symm.trans at_l'
  cases led_once keeps.member next direct next' direct'
  rcases Nat.lt_trichotomy c c' with below | same | above
  · exact absurd (Section.keptEntries_lt at_k at_k' below) (Nat.lt_irrefl k)
  · exact same
  · exact absurd (Section.keptEntries_lt at_k' at_k above) (Nat.lt_irrefl k)

/-- Which entries have scratch words, as the passes need it. -/
theorem Keeps.sorted (keeps : Keeps elf layout s i kept) : Emission.Sorted kept := by
  refine ⟨fun a rel at_a other => ?_, fun a rel at_a other => ?_, fun c m rel paired at_m => ?_,
    fun c c' m => keeps.once⟩
  · obtain ⟨entry, k, -, rfl⟩ := keeps.exists_entry at_a
    exact if_neg other
  · obtain ⟨entry, k, -, rfl⟩ := keeps.exists_entry at_a
    exact if_neg other
  · obtain ⟨hi, -, at_c, -⟩ := Emission.pair_eq_some_iff.mp paired
    obtain ⟨hi, k, at_c', -⟩ := keeps.exists_entry at_c
    obtain ⟨lo, l, at_m', next, -⟩ := keeps.next_of_pair at_c' paired
    cases at_m.symm.trans (keeps.at_entry at_m')
    dsimp only
    split_ifs with is_lo
    · exact single_of_led keeps.member next
    · rfl

/-- A LO16 that is not an extra one is paired exactly if it has a HI16. -/
theorem Keeps.paired_iff (keeps : Keeps elf layout s i kept) (at_a : s.keptEntries[a]? = some (entry, k))
    (single : scratchIdx elf.extraLos i k = none) :
    (∃ c < a, Emission.pair kept c = some a) ↔ prevHi s.table k ≠ none := by
  rw [← and_iff_left (a := prevHi s.table k ≠ none) single, ← exists_led_iff keeps.member]
  constructor
  · rintro ⟨c, -, paired⟩
    obtain ⟨hi, -, at_c, -⟩ := Emission.pair_eq_some_iff.mp paired
    obtain ⟨hi, k', at_c', -⟩ := keeps.exists_entry at_c
    exact ⟨k', (keeps.pair_iff at_c' at_a).mp paired⟩
  · rintro ⟨k', next, direct⟩
    obtain ⟨sym, is_hi, above, -⟩ := nextLo_eq_some_iff.mp next
    obtain ⟨c, hi, at_c, -, -⟩ := Section.exists_of_matches is_hi rfl
    exact ⟨c, (Section.keptEntries_lt_iff at_c at_a).mpr above, (keeps.pair_iff at_c at_a).mpr ⟨next, direct⟩⟩

/-- What is written for a kept entry is told by its position in the table. -/
theorem Keeps.fixOf_eq (keeps : Keeps elf layout s i kept) (at_a : s.keptEntries[a]? = some (entry, k)) :
    Emission.fixOf kept layout.padloAddr elf.strays.length a = elf.fixAt layout s i k := by
  obtain ⟨at_k, taken⟩ := Section.at_keptEntries at_a
  rw [Emission.fixOf, keeps.at_entry at_a, Option.bind_some, Elf.fixAt, at_k, Option.bind_some]
  cases type : entry.type with
  | hi16 =>
    dsimp only
    rw [if_pos rfl]
    cases stray : scratchIdx elf.strays i k with
    | some g =>
      obtain ⟨m, repeated, -⟩ := scratchIdx_eq_some keeps.member stray
      rw [(mem_repeats.mp repeated).2.1]
    | none =>
      cases next : nextLo s.table k with
      | some l =>
        obtain ⟨b, entry', at_b, paired⟩ := keeps.exists_pair at_a next stray
        rw [paired, Option.bind_some, keeps.at_entry at_b]
        dsimp only
        rw [(Section.at_keptEntries at_b).1]
        rfl
      | none =>
        cases paired : Emission.pair kept a with
        | some b =>
          obtain ⟨-, l, -, next', -⟩ := keeps.next_of_pair at_a paired
          cases next.symm.trans next'
        | none => rfl
  | lo16 =>
    dsimp only
    rw [if_pos rfl]
    cases extra : scratchIdx elf.extraLos i k with
    | some g => rfl
    | none =>
      have paired := keeps.paired_iff at_a extra
      by_cases unled : prevHi s.table k = none
      · exact (if_neg fun target => paired.mp target unled).trans (if_pos unled).symm
      · exact (if_pos (paired.mpr unled)).trans (if_neg unled).symm
  | mips16 | mips32 | rel32 | mips26 => rfl
  | none | gprel16 | other =>
    rw [type] at taken
    cases taken

/-- A list read by its positions. -/
theorem filterMap_positions {α β : Type} {values : List α} {f : ℕ → Option β} {g : α → Option β}
    (same : ∀ a value, values[a]? = some value → f a = g value) :
    (List.range values.length).filterMap f = values.filterMap g := by
  induction values using List.reverseRecOn with
  | nil => rfl
  | append_singleton values last ih =>
    have front : (List.range values.length).filterMap f = values.filterMap g := by
      refine ih fun a value at_a => same a value ?_
      rwa [List.getElem?_append_left (List.getElem?_eq_some_iff.mp at_a).1]
    have here : f values.length = g last := same _ _ List.getElem?_concat_length
    rw [List.length_append, List.length_singleton, List.range_succ, List.filterMap_append, List.filterMap_append, front]
    simp only [List.filterMap_cons, List.filterMap_nil, here]

/-- Only a kept entry has something to do. -/
theorem Elf.fixes_eq (elf : Elf) (layout : Layout) (s : Section) (i : ℕ) :
    elf.fixes layout s i = s.keptEntries.filterMap fun value => elf.fixAt layout s i value.2 := by
  have positions : elf.fixes layout s i = s.table.zipIdx.filterMap fun value => elf.fixAt layout s i value.2 := by
    rw [Elf.fixes, ← List.length_zipIdx, filterMap_positions]
    intro a value at_a
    obtain ⟨inside, equal⟩ := List.getElem?_eq_some_iff.mp at_a
    rw [← equal, List.getElem_zipIdx, Nat.zero_add]
  rw [positions, Section.keptEntries, List.filterMap_filter]
  apply List.filterMap_congr
  rintro ⟨entry, k⟩ member
  have at_k := List.mem_zipIdx_iff_getElem?.mp member
  dsimp only
  split_ifs with taken
  · rfl
  · rw [Elf.fixAt, at_k, Option.bind_some]
    cases type : entry.type with
    | none | gprel16 | other => rfl
    | mips16 | mips32 | rel32 | mips26 | hi16 | lo16 =>
      rw [type] at taken
      exact absurd rfl taken

/-- The second pass goes through if no LO16 is paired twice. -/
theorem Emission.pairAll_eq_ok (once : ∀ c c' m, Emission.pair kept c = some m → Emission.pair kept c' = some m → c = c')
    (name : String) : ∃ used, Emission.pairAll kept name = .ok used := by
  have all (n : ℕ) : ∃ used, (List.range n).foldlM (Emission.pairStep kept name) [] = .ok used ∧
      ∀ m ∈ used, ∃ c < n, Emission.pair kept c = some m := by
    induction n with
    | zero => exact ⟨[], rfl, nofun⟩
    | succ n ih =>
      obtain ⟨used, front, marked⟩ := ih
      rw [List.range_succ, List.foldlM_append, front]
      cases own : Emission.pair kept n with
      | none =>
        refine ⟨used, ?_, fun m member => ?_⟩
        · exact Fallible.bind_eq_ok.mpr ⟨used, rfl, by rw [List.foldlM_cons, Emission.pairStep, own]; rfl⟩
        · obtain ⟨c, below, paired⟩ := marked m member
          exact ⟨c, Nat.lt_succ_of_lt below, paired⟩
      | some next =>
        have fresh : used.contains next = false := by
          rw [List.contains_eq_mem, decide_eq_false_iff_not]
          intro member
          obtain ⟨c, below, paired⟩ := marked next member
          exact absurd (once c n next paired own) (Nat.ne_of_lt below)
        refine ⟨next :: used, ?_, fun m member => ?_⟩
        · have step : Emission.pairStep kept name used n = .ok (next :: used) := by
            rw [Emission.pairStep, own]
            exact if_neg (by rw [fresh]; exact Bool.false_ne_true)
          exact Fallible.bind_eq_ok.mpr ⟨used, rfl, by rw [List.foldlM_cons, step]; rfl⟩
        · rcases List.mem_cons.mp member with rfl | member
          · exact ⟨n, Nat.lt_succ_self n, own⟩
          · obtain ⟨c, below, paired⟩ := marked m member
            exact ⟨c, Nat.lt_succ_of_lt below, paired⟩
  obtain ⟨used, through, -⟩ := all kept.length
  exact ⟨used, through⟩

/-- What the third pass writes is what the loader is made to do about the entries. -/
theorem Keeps.emit_eq (keeps : Keeps elf layout s i kept) :
    Emission.emit kept layout.padloAddr elf.strays.length = (elf.fixes layout s i).flatMap Fix.entries := by
  rw [Emission.emit_eq keeps.sorted, Emission.before, ← keeps.rels.length_eq, filterMap_positions, Elf.fixes_eq]
  rintro a ⟨entry, k⟩ at_a
  exact keeps.fixOf_eq at_a

/-- The emitted table of a section is what the loader is made to do about its entries. -/
theorem Elf.emitRelocationSection_eq (member : (s, i) ∈ elf.relSections) {out : List IrxReloc}
    (through : elf.emitRelocationSection layout s i = .ok out) :
    out = (elf.fixes layout s i).flatMap Fix.entries := by
  obtain ⟨kept, collected, through⟩ := Fallible.bind_eq_ok.mp through
  obtain ⟨used, pairs, through⟩ := Fallible.bind_eq_ok.mp through
  obtain ⟨⟨⟩, -, through⟩ := Fallible.bind_eq_ok.mp through
  have keeps : Keeps elf layout s i kept := ⟨member, Fallible.forall₂_of_mapM collected⟩
  cases through
  exact keeps.emit_eq

end Kept

end KosTool.Elf2irx
