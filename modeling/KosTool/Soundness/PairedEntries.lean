import KosTool.Model.Binary.IrxLayout

/-! # Which HI16 and LO16 entries are partners

A HI16 has the next LO16 for its symbol, a LO16 the last HI16. A LO16 with a HI16 is either the partner of the first
HI16 that has it, or it is one of several LO16 entries of its HI16 and not the first of them; never both. So each of
them ends up in one pair.
-/

namespace KosTool.Elf2irx

section Insertion

variable {entries sorted : List Reloc} {entry : Reloc}

/-- The offsets of the entries ascend. -/
def Ascending (entries : List Reloc) : Prop := entries.Pairwise fun first second => first.offset ≤ second.offset

theorem insertReloc_perm : (insertReloc sorted entry).Perm (entry :: sorted) := by
  rw [insertReloc]
  refine List.perm_middle.trans (List.Perm.cons entry ?_)
  rw [List.rdropWhile_append_rtakeWhile]

theorem insertReloc_ascending (ascending : Ascending sorted) : Ascending (insertReloc sorted entry) := by
  have parts : sorted = sorted.rdropWhile (fun other => entry.offset < other.offset) ++
      sorted.rtakeWhile fun other => entry.offset < other.offset := List.rdropWhile_append_rtakeWhile.symm
  rw [Ascending, parts, List.pairwise_append] at ascending
  obtain ⟨front, moved, between⟩ := ascending
  have above : ∀ other ∈ sorted.rtakeWhile (fun other => entry.offset < other.offset), entry.offset ≤ other.offset := by
    intro other member
    have test := List.mem_rtakeWhile_imp member
    exact BitVec.le_of_lt (of_decide_eq_true test)
  -- The last of those that stay is not above the entry, and the others of them are not above it.
  have below : ∀ other ∈ sorted.rdropWhile (fun other => entry.offset < other.offset), other.offset ≤ entry.offset := by
    intro other member
    have some := List.ne_nil_of_mem member
    have last := List.rdropWhile_last_not _ _ some
    rw [decide_eq_true_eq, BitVec.not_lt] at last
    rw [← List.dropLast_append_getLast some] at member front
    rcases List.mem_append.mp member with early | same
    · exact BitVec.le_trans ((List.pairwise_append.mp front).2.2 other early _ (List.mem_singleton_self _)) last
    · rw [List.mem_singleton.mp same]
      exact last
  rw [insertReloc, Ascending, List.pairwise_append]
  refine ⟨front, List.pairwise_cons.mpr ⟨above, moved⟩, fun first early second late => ?_⟩
  rcases List.mem_cons.mp late with rfl | late
  · exact below first early
  · exact between first early second late

theorem sortRelocations_perm (entries : List Reloc) : (sortRelocations entries).Perm entries := by
  induction entries using List.reverseRecOn with
  | nil => exact .nil
  | append_singleton entries entry ih =>
    rw [sortRelocations, List.foldl_append]
    exact insertReloc_perm.trans ((ih.cons entry).trans (List.perm_append_singleton entry entries).symm)

theorem sortRelocations_ascending (entries : List Reloc) : Ascending (sortRelocations entries) := by
  induction entries using List.reverseRecOn with
  | nil => exact .nil
  | append_singleton entries entry ih =>
    rw [sortRelocations, List.foldl_append]
    exact insertReloc_ascending ih

end Insertion

section Repeats

variable {partner : ℕ → Option ℕ} {found : List ℕ × List (ℕ × ℕ)}

/-- A position marks its partner. -/
theorem mem_repeatStep_fst {k m : ℕ} :
    m ∈ (repeatStep partner found k).1 ↔ m ∈ found.1 ∨ partner k = some m := by
  rw [repeatStep]
  cases partner k with
  | none => exact (or_iff_left nofun).symm
  | some next =>
    dsimp only
    split_ifs with marked
    · refine (or_iff_left_of_imp fun same => ?_).symm
      cases same
      exact List.contains_iff_mem.mp marked
    · rw [List.mem_cons, or_comm, Option.some.injEq, eq_comm]

/-- A position whose partner is marked is found. -/
theorem mem_repeatStep_snd {k i m : ℕ} : (i, m) ∈ (repeatStep partner found k).2 ↔
    (i, m) ∈ found.2 ∨ i = k ∧ partner k = some m ∧ m ∈ found.1 := by
  rw [repeatStep]
  cases partner k with
  | none => exact (or_iff_left fun late => nomatch late.2.1).symm
  | some next =>
    dsimp only
    split_ifs with marked
    · rw [List.mem_append, List.mem_singleton, Prod.mk.injEq]
      refine or_congr_right (and_congr_right fun _ => ⟨?_, fun late => (Option.some.inj late.1).symm⟩)
      rintro rfl
      exact ⟨rfl, List.contains_iff_mem.mp marked⟩
    · refine (or_iff_left ?_).symm
      rintro ⟨-, same, member⟩
      cases same
      exact marked (List.contains_iff_mem.mpr member)

theorem exists_lt_succ {p : ℕ → Prop} {n : ℕ} : (∃ k < n + 1, p k) ↔ (∃ k < n, p k) ∨ p n := by
  constructor
  · rintro ⟨k, before, holds⟩
    rcases Nat.lt_or_eq_of_le (Nat.le_of_lt_succ before) with less | rfl
    · exact .inl ⟨k, less, holds⟩
    · exact .inr holds
  · rintro (⟨k, before, holds⟩ | holds)
    · exact ⟨k, Nat.lt_succ_of_lt before, holds⟩
    · exact ⟨n, Nat.lt_succ_self n, holds⟩

/-- The marks are the partners of the positions so far. -/
theorem mem_marked {n m : ℕ} :
    m ∈ ((List.range n).foldl (repeatStep partner) ([], [])).1 ↔ ∃ k < n, partner k = some m := by
  induction n with
  | zero => exact ⟨nofun, fun ⟨_, before, _⟩ => nomatch before⟩
  | succ n ih =>
    rw [List.range_succ, List.foldl_append, List.foldl_cons, List.foldl_nil, mem_repeatStep_fst, ih, exists_lt_succ]

/-- The repeats are the positions with the partner of an earlier one. -/
theorem mem_repeats {n i m : ℕ} : (i, m) ∈ repeats partner n ↔
    i < n ∧ partner i = some m ∧ ∃ earlier < i, partner earlier = some m := by
  induction n with
  | zero => exact ⟨nofun, fun ⟨before, _⟩ => nomatch before⟩
  | succ n ih =>
    rw [repeats] at ih ⊢
    rw [List.range_succ, List.foldl_append, List.foldl_cons, List.foldl_nil, mem_repeatStep_snd, ih, mem_marked]
    constructor
    · rintro (⟨before, rest⟩ | ⟨rfl, rest⟩)
      · exact ⟨Nat.lt_succ_of_lt before, rest⟩
      · exact ⟨Nat.lt_succ_self _, rest⟩
    · rintro ⟨before, rest⟩
      rcases Nat.lt_or_eq_of_le (Nat.le_of_lt_succ before) with less | rfl
      · exact .inl ⟨less, rest⟩
      · exact .inr ⟨rfl, rest⟩

end Repeats

section Partners

variable {table : List Reloc} {k m h sym : ℕ} {type : RelType}

theorem entryMatches_iff : entryMatches table type sym k = true ↔
    ∃ entry, table[k]? = some entry ∧ entry.type = type ∧ entry.sym = sym := by
  rw [entryMatches, Option.any_eq_true]
  exact exists_congr fun entry => and_congr_right fun _ => decide_eq_true_iff

/-- An entry is for one symbol. -/
theorem sym_unique {other : RelType} {sym' : ℕ} (first : entryMatches table type sym k)
    (second : entryMatches table other sym' k) : sym = sym' ∧ type = other := by
  obtain ⟨entry, at_k, type_eq, sym_eq⟩ := entryMatches_iff.mp first
  obtain ⟨entry', at_k', type_eq', sym_eq'⟩ := entryMatches_iff.mp second
  cases at_k.symm.trans at_k'
  exact ⟨sym_eq.symm.trans sym_eq', type_eq.symm.trans type_eq'⟩

theorem lt_length_of_matches (here : entryMatches table type sym k) : k < table.length := by
  obtain ⟨entry, at_k, -⟩ := entryMatches_iff.mp here
  exact (List.getElem?_eq_some_iff.mp at_k).1

/-- The last position that a test holds of. -/
theorem find_reverse_range {p : ℕ → Bool} {n : ℕ} : (List.range n).reverse.find? p = some h ↔
    p h = true ∧ h < n ∧ ∀ j, h < j → j < n → p j = false := by
  induction n with
  | zero => exact ⟨nofun, fun ⟨_, before, _⟩ => nomatch before⟩
  | succ n ih =>
    rw [List.range_succ, List.reverse_append, List.reverse_singleton, List.singleton_append, List.find?_cons]
    cases last : p n with
    | true =>
      constructor
      · intro same
        cases same
        exact ⟨last, Nat.lt_succ_self _, fun j above below => absurd (Nat.le_of_lt_succ below) (Nat.not_le.mpr above)⟩
      · rintro ⟨holds, before, none⟩
        rcases Nat.lt_or_eq_of_le (Nat.le_of_lt_succ before) with less | rfl
        · rw [none n less (Nat.lt_succ_self n)] at last
          cases last
        · rfl
    | false =>
      refine ih.trans (and_congr_right fun holds => ⟨?_, ?_⟩)
      · rintro ⟨before, none⟩
        refine ⟨Nat.lt_succ_of_lt before, fun j above below => ?_⟩
        rcases Nat.lt_or_eq_of_le (Nat.le_of_lt_succ below) with less | rfl
        · exact none j above less
        · exact last
      · rintro ⟨before, none⟩
        refine ⟨?_, fun j above below => none j above (Nat.lt_succ_of_lt below)⟩
        rcases Nat.lt_or_eq_of_le (Nat.le_of_lt_succ before) with less | rfl
        · exact less
        · rw [holds] at last
          cases last

/-- The LO16 of a HI16 is the first behind it. -/
theorem nextLo_eq_some_iff : nextLo table k = some m ↔ ∃ sym, entryMatches table .hi16 sym k ∧ k < m ∧
    entryMatches table .lo16 sym m ∧ ∀ j, k < j → j < m → entryMatches table .lo16 sym j = false := by
  constructor
  · intro next
    obtain ⟨hi, here, found⟩ := Option.bind_eq_some_iff.mp next
    obtain ⟨at_k, is_hi⟩ := Option.filter_eq_some_iff.mp here
    obtain ⟨matches_m, inside, none⟩ := List.find?_range'_eq_some.mp found
    refine ⟨hi.sym, entryMatches_iff.mpr ⟨hi, at_k, of_decide_eq_true is_hi, rfl⟩, ?_, matches_m, ?_⟩
    · exact (List.mem_range'_1.mp inside).1
    · exact fun j above below => by simpa using none j above below
  · rintro ⟨sym, is_hi, above, is_lo, none⟩
    obtain ⟨hi, at_k, type_eq, rfl⟩ := entryMatches_iff.mp is_hi
    have bound := lt_length_of_matches is_lo
    rw [nextLo, at_k, Option.filter_some, if_pos (decide_eq_true type_eq), Option.bind_some, List.find?_range'_eq_some]
    refine ⟨is_lo, List.mem_range'_1.mpr ⟨above, by omega⟩, fun j overrun below => ?_⟩
    rw [none j overrun below]
    rfl

/-- A HI16 has no LO16 if none is behind it. -/
theorem nextLo_eq_none_iff (is_hi : entryMatches table .hi16 sym k) :
    nextLo table k = none ↔ ∀ j, k < j → entryMatches table .lo16 sym j = false := by
  obtain ⟨hi, at_k, type_eq, rfl⟩ := entryMatches_iff.mp is_hi
  rw [nextLo, at_k, Option.filter_some, if_pos (decide_eq_true type_eq), Option.bind_some, List.find?_range'_eq_none]
  constructor
  · intro none j above
    cases is_lo : entryMatches table .lo16 hi.sym j with
    | false => rfl
    | true =>
      have bound := lt_length_of_matches is_lo
      have absent := none j above (by omega)
      rw [is_lo] at absent
      cases absent
  · intro none j above _
    rw [none j above]
    rfl

/-- The HI16 of a LO16 is the last before it. -/
theorem prevHi_eq_some_iff : prevHi table k = some h ↔ ∃ sym, entryMatches table .lo16 sym k ∧ h < k ∧
    entryMatches table .hi16 sym h ∧ ∀ j, h < j → j < k → entryMatches table .hi16 sym j = false := by
  constructor
  · intro prev
    obtain ⟨lo, here, found⟩ := Option.bind_eq_some_iff.mp prev
    obtain ⟨at_k, is_lo⟩ := Option.filter_eq_some_iff.mp here
    obtain ⟨matches_h, before, none⟩ := find_reverse_range.mp found
    exact ⟨lo.sym, entryMatches_iff.mpr ⟨lo, at_k, of_decide_eq_true is_lo, rfl⟩, before, matches_h, none⟩
  · rintro ⟨sym, is_lo, before, is_hi, none⟩
    obtain ⟨lo, at_k, type_eq, rfl⟩ := entryMatches_iff.mp is_lo
    rw [prevHi, at_k, Option.filter_some, if_pos (decide_eq_true type_eq), Option.bind_some, find_reverse_range]
    exact ⟨is_hi, before, none⟩

/-- A LO16 has no HI16 if none is before it. -/
theorem prevHi_eq_none_iff (is_lo : entryMatches table .lo16 sym k) :
    prevHi table k = none ↔ ∀ j < k, entryMatches table .hi16 sym j = false := by
  obtain ⟨lo, at_k, type_eq, rfl⟩ := entryMatches_iff.mp is_lo
  rw [prevHi, at_k, Option.filter_some, if_pos (decide_eq_true type_eq), Option.bind_some, List.find?_eq_none]
  simp only [List.mem_reverse, List.mem_range, Bool.not_eq_true]

/-- The LO16 that is next to a HI16 is not an extra one: its own HI16 has no earlier LO16. -/
theorem first_of_nextLo (next : nextLo table k = some m) (earlier : ℕ) (before : earlier < m) :
    prevHi table earlier ≠ prevHi table m := by
  obtain ⟨sym, is_hi, above, is_lo, none⟩ := nextLo_eq_some_iff.mp next
  intro same
  cases last : prevHi table m with
  | none =>
    have absent := (prevHi_eq_none_iff is_lo).mp last k above
    rw [is_hi] at absent
    cases absent
  | some h =>
    obtain ⟨sym', is_lo', below, is_hi', gap⟩ := prevHi_eq_some_iff.mp last
    obtain ⟨rfl, -⟩ := sym_unique is_lo is_lo'
    obtain ⟨sym'', is_lo'', below', is_hi'', -⟩ := prevHi_eq_some_iff.mp (same.trans last)
    obtain ⟨rfl, -⟩ := sym_unique is_hi' is_hi''
    have after : k ≤ h := by
      by_contra late
      have absent := gap k (Nat.not_le.mp late) above
      rw [is_hi] at absent
      cases absent
    have absent := none earlier (by omega) before
    rw [is_lo''] at absent
    cases absent

/-- A LO16 with a HI16 that no earlier LO16 has is next to its HI16. -/
theorem nextLo_of_first (prev : prevHi table k = some h) (first : ∀ earlier < k, prevHi table earlier ≠ some h) :
    nextLo table h = some k := by
  obtain ⟨sym, is_lo, below, is_hi, none⟩ := prevHi_eq_some_iff.mp prev
  refine nextLo_eq_some_iff.mpr ⟨sym, is_hi, below, is_lo, fun j above before => ?_⟩
  cases other : entryMatches table .lo16 sym j with
  | false => rfl
  | true =>
    refine absurd (prevHi_eq_some_iff.mpr ⟨sym, other, above, is_hi, fun i between inside => ?_⟩) (first j before)
    exact none i between (by omega)

/-- The first HI16 of those with one LO16. -/
theorem exists_first_nextLo (next : nextLo table h = some k) :
    ∃ first, nextLo table first = some k ∧ ∀ earlier < first, nextLo table earlier ≠ some k := by
  have any : ∃ i, nextLo table i = some k := ⟨h, next⟩
  exact ⟨Nat.find any, Nat.find_spec any, fun earlier before => Nat.find_min any before⟩

end Partners

end KosTool.Elf2irx
