import KosTool.Soundness.ImageSpots

/-! # The bytes of the image through the passes

The sections are copied apart from one another. The static pass, the scratch words and the loader are then patches of
which none meets another in its pass, so that each word of the image is known behind each of them.
-/

namespace KosTool.Elf2irx

open ByteWord WordPatch

namespace Elf

variable {elf : Elf} {layout : Layout} {s : Section} {i k : ℕ} {entry : Reloc} {base : Word}

/-- What the loader is made to do about all sections. -/
def allFixes (elf : Elf) (layout : Layout) : List Fix := elf.relSections.flatMap fun (s, i) => elf.fixes layout s i

theorem mem_fixes {fix : Fix} : fix ∈ elf.fixes layout s i ↔
    ∃ k < s.table.length, elf.fixAt layout s i k = some fix := by
  rw [fixes, List.mem_filterMap]
  exact exists_congr fun k => and_congr_left fun _ => List.mem_range

theorem Ready.fix_proper (ready : elf.Ready layout) (kept : (s, i) ∈ elf.relSections) {fix : Fix}
    (fixed : elf.fixAt layout s i k = some fix) : fix.Proper := by
  obtain ⟨entry, at_k, here⟩ := Option.bind_eq_some_iff.mp fixed
  cases type : entry.type with
  | none | gprel16 | other =>
    rw [type] at here
    cases here
  | mips16 | mips32 | rel32 | mips26 =>
    rw [type] at here
    cases here
    exact nofun
  | hi16 =>
    have typed : entry.type ≠ .none := by rw [type]; exact nofun
    have own : elf.At layout (.entry i k) (place layout s entry) := ⟨s, entry, kept, at_k, typed, rfl⟩
    rw [type] at here
    dsimp only at here
    cases next : nextLo s.table k with
    | none =>
      rw [next] at here
      cases here
      exact nofun
    | some m =>
      rw [next] at here
      cases index : scratchIdx elf.strays i k with
      | some g =>
        rw [index] at here
        cases here
        have pad : elf.At layout (.padLo g) (layout.padloAddr + g * 4) := ⟨lt_of_scratchIdx index, rfl⟩
        exact ready.apart own pad nofun
      | none =>
        rw [index] at here
        obtain ⟨lo, at_m, rfl⟩ := Option.map_eq_some_iff.mp here
        obtain ⟨sym, -, above, is_lo, -⟩ := nextLo_eq_some_iff.mp next
        obtain ⟨lo', at_m', lo_type⟩ := exists_reloc is_lo
        cases at_m.symm.trans at_m'
        have other : elf.At layout (.entry i m) (place layout s lo) :=
          ⟨s, lo, kept, at_m, by rw [lo_type]; exact nofun, rfl⟩
        refine ready.apart own other fun same => ?_
        rw [Spot.entry.injEq] at same
        omega
  | lo16 =>
    have typed : entry.type ≠ .none := by rw [type]; exact nofun
    have own : elf.At layout (.entry i k) (place layout s entry) := ⟨s, entry, kept, at_k, typed, rfl⟩
    rw [type] at here
    dsimp only at here
    cases index : scratchIdx elf.extraLos i k with
    | some g =>
      rw [index] at here
      cases here
      have pad : elf.At layout (.padHi g) (layout.padloAddr + elf.strays.length * 4 + g * 4) :=
        ⟨lt_of_scratchIdx index, rfl⟩
      exact ready.apart pad own nofun
    | none =>
      rw [index] at here
      dsimp only at here
      split_ifs at here
      cases here
      exact nofun

theorem Ready.proper (ready : elf.Ready layout) : ∀ fix ∈ elf.allFixes layout, fix.Proper := by
  intro fix member
  obtain ⟨⟨s, i⟩, kept, inside⟩ := List.mem_flatMap.mp member
  obtain ⟨k, -, fixed⟩ := mem_fixes.mp inside
  exact ready.fix_proper kept fixed

/-- The kept relocation sections ascend. -/
theorem relSections_ascend (elf : Elf) : elf.relSections.Pairwise fun first second => first.2 < second.2 := by
  apply List.Pairwise.filter
  have positions : (elf.sections.zipIdx.map Prod.snd).Pairwise (· < ·) := by
    rw [List.zipIdx_map_snd]
    exact List.pairwise_lt_range'
  exact List.pairwise_map.mp positions

/-- The steps of the loader are about different words. -/
theorem Ready.fixes_apart (ready : elf.Ready layout) : (elf.allFixes layout).Pairwise fun first second =>
    ∀ p ∈ first.places, ∀ q ∈ second.places, Apart p q := by
  have apart {s s' : Section} {i i' k k' : ℕ} (kept : (s, i) ∈ elf.relSections) (kept' : (s', i') ∈ elf.relSections)
      {first second : Fix} (fixed : elf.fixAt layout s i k = some first)
      (fixed' : elf.fixAt layout s' i' k' = some second) (other : (i, k) ≠ (i', k')) :
      ∀ p ∈ first.places, ∀ q ∈ second.places, Apart p q := by
    intro p left q right
    obtain ⟨spot, uses, here⟩ := fixAt_places kept fixed p left
    obtain ⟨spot', uses', here'⟩ := fixAt_places kept' fixed' q right
    refine ready.apart here here' fun same => other ?_
    subst same
    exact uses_unique kept kept' fixed fixed' uses uses'
  rw [allFixes, List.pairwise_flatMap]
  constructor
  · rintro ⟨s, i⟩ kept
    dsimp only
    rw [fixes, List.pairwise_filterMap]
    refine List.pairwise_lt_range.imp fun {k k'} less first fixed second fixed' => ?_
    refine apart kept kept fixed fixed' fun same => ?_
    rw [Prod.mk.injEq] at same
    omega
  · refine elf.relSections_ascend.imp_of_mem fun {value value'} kept kept' less first inside second inside' => ?_
    obtain ⟨k, -, fixed⟩ := mem_fixes.mp inside
    obtain ⟨k', -, fixed'⟩ := mem_fixes.mp inside'
    refine apart kept kept' fixed fixed' fun same => ?_
    rw [Prod.mk.injEq] at same
    omega

/-- The loader's run over all tables. -/
theorem Ready.loadcore_eq (ready : elf.Ready layout) {irx : Irx}
    (tables : irx.tables = elf.relSections.map fun (s, i) => (elf.fixes layout s i).flatMap Fix.entries) :
    irx.loadcore base = run ((elf.allFixes layout).flatMap (Fix.patches base)) irx.loaded := by
  have proper := ready.proper
  rw [Irx.loadcore, tables, allFixes]
  rw [allFixes] at proper
  generalize irx.loaded = image
  generalize elf.relSections = sections at proper
  induction sections generalizing image with
  | nil => rfl
  | cons value rest ih =>
    rw [List.map_cons, List.foldl_cons, List.flatMap_cons, List.flatMap_append, run_append]
    rw [List.flatMap_cons] at proper
    have head : ∀ fix ∈ elf.fixes layout value.1 value.2, fix.Proper := fun fix member =>
      proper fix (List.mem_append_left _ member)
    rw [← Fix.loadTable_entries head]
    exact ih _ fun fix member => proper fix (List.mem_append_right _ member)

/-- The patches of the static pass. -/
def staticAll (elf : Elf) (layout : Layout) : List Patch := elf.relSections.flatMap fun (s, _) =>
  staticPatches (place layout s) (valueOf (elf.relocationSymbolAddr layout)) s.table

theorem Ready.static_eq (ready : elf.Ready layout) {image result : Buffer}
    (through : elf.applyStaticRelocationAddends layout image = .ok result) :
    result = run (elf.staticAll layout) image ∧ ∀ s i entry, (s, i) ∈ elf.relSections → entry ∈ s.table →
      entry.type ≠ .none →
        elf.relocationSymbolAddr layout entry = .ok (valueOf (elf.relocationSymbolAddr layout) entry) := by
  have filed := ready.placed.filed
  rw [applyStaticRelocationAddends] at through
  rw [staticAll]
  generalize elf.relSections = sections at filed through
  induction sections generalizing image with
  | nil =>
    cases through
    exact ⟨rfl, nofun⟩
  | cons value rest ih =>
    obtain ⟨s, i⟩ := value
    rw [List.foldlM_cons] at through
    obtain ⟨between, head, through⟩ := Fallible.bind_eq_ok.mp through
    obtain ⟨target, known, copied⟩ := filed s i List.mem_cons_self
    have relocated : ((elf.target? s).any fun target => target.alloc && target.type != .nobits) = true := by
      simp only [Elf.copied, Bool.and_eq_true, beq_iff_eq] at copied
      rw [known, Option.any_some, copied.2, copied.1.2]
      rfl
    dsimp only at head
    rw [if_pos relocated] at head
    obtain ⟨first, values⟩ := applyTable_eq_ok head
    obtain ⟨others, all⟩ := ih (fun s' i' member => filed s' i' (List.mem_cons_of_mem _ member)) through
    rw [List.flatMap_cons, run_append, ← first]
    refine ⟨others, fun s' i' entry member inside typed => ?_⟩
    rcases List.mem_cons.mp member with same | later
    · cases same
      exact values entry inside typed
    · exact all s' i' entry later inside typed

/-- The words of a table are apart. -/
theorem Ready.table_apart (ready : elf.Ready layout) (kept : (s, i) ∈ elf.relSections) :
    s.table.Pairwise fun first second => first.type ≠ .none → second.type ≠ .none →
      Apart (place layout s first) (place layout s second) := by
  rw [List.pairwise_iff_getElem]
  intro a b bound bound' less typed typed'
  refine ready.apart_entries kept kept (List.getElem?_eq_getElem bound) (List.getElem?_eq_getElem bound') typed typed'
    fun same => ?_
  rw [Prod.mk.injEq] at same
  omega

/-- The patches of the static pass spare one another. -/
theorem Ready.static_spare (ready : elf.Ready layout) : (elf.staticAll layout).Pairwise Patch.Spares := by
  rw [staticAll, List.pairwise_flatMap]
  constructor
  · rintro ⟨s, i⟩ kept
    exact staticPatches_spare (ready.table_apart kept)
  · refine elf.relSections_ascend.imp_of_mem fun {value value'} kept kept' less first inside second inside' => ?_
    obtain ⟨⟨entry, member, typed, place_eq⟩, -⟩ := staticPatches_reach inside
    obtain ⟨⟨entry', member', typed', place_eq'⟩, reads⟩ := staticPatches_reach inside'
    obtain ⟨k, at_k⟩ := List.mem_iff_getElem?.mp member
    have apart {other : Reloc} (member : other ∈ value'.1.table) (typed' : other.type ≠ .none) :
        Apart (place layout value.1 entry) (place layout value'.1 other) := by
      obtain ⟨k', at_k'⟩ := List.mem_iff_getElem?.mp member
      refine ready.apart_entries kept kept' at_k at_k' typed typed' fun same => ?_
      rw [Prod.mk.injEq] at same
      omega
    refine ⟨?_, fun offset read => ?_⟩
    · rw [place_eq, place_eq']
      exact apart member' typed'
    · obtain ⟨other, member', typed', rfl⟩ := reads offset read
      rw [place_eq]
      exact apart member' typed'

/-- The patches that fill the scratch words. -/
def padPatches (elf : Elf) (layout : Layout) : List Patch :=
  (elf.strays.zipIdx.map fun (stray, i) =>
    .copy (layout.padloAddr + i * 4) (partnerPlace layout stray) (· &&& 0xffff#32)) ++
  (elf.extraLos.zipIdx.map fun (extra, i) =>
    .copy (layout.padloAddr + elf.strays.length * 4 + i * 4) (partnerPlace layout extra) id)

theorem initPadlo_eq (elf : Elf) (layout : Layout) (image : Buffer) :
    elf.initPadlo layout image = run (elf.padPatches layout) image := by
  rw [padPatches, run_append, run, run, List.foldl_map, List.foldl_map]
  rfl

/-- The partner of a scratch relocation is an entry of a kept table. -/
theorem Ready.partner_at {partner : List Reloc → ℕ → Option ℕ}
    (known : ∀ table k m, partner table k = some m → ∃ type sym, type ≠ .none ∧ entryMatches table type sym m)
    {scratch : Scratch} (member : scratch ∈ elf.detect partner) :
    ∃ spot, elf.At layout spot (partnerPlace layout scratch) ∧ ∃ i k, spot = .entry i k := by
  obtain ⟨s, i, k, m, kept, repeated, rfl⟩ := mem_detect.mp member
  obtain ⟨type, sym, typed, here⟩ := known s.table k m (mem_repeats.mp repeated).2.1
  obtain ⟨lo, at_m, rfl⟩ := exists_reloc here
  refine ⟨.entry i m, ⟨s, lo, kept, at_m, typed, ?_⟩, i, m, rfl⟩
  rw [partnerPlace, at_m]
  rfl

theorem nextLo_known (table : List Reloc) (k m : ℕ) (next : nextLo table k = some m) :
    ∃ type sym, type ≠ .none ∧ entryMatches table type sym m := by
  obtain ⟨sym, -, -, is_lo, -⟩ := nextLo_eq_some_iff.mp next
  exact ⟨.lo16, sym, nofun, is_lo⟩

theorem prevHi_known (table : List Reloc) (k m : ℕ) (prev : prevHi table k = some m) :
    ∃ type sym, type ≠ .none ∧ entryMatches table type sym m := by
  obtain ⟨sym, -, -, is_hi, -⟩ := prevHi_eq_some_iff.mp prev
  exact ⟨.hi16, sym, nofun, is_hi⟩

/-- A scratch word is written, and the word of an entry is read. -/
theorem pad_reach {patch : Patch} (member : patch ∈ elf.padPatches layout) :
    (∃ spot, elf.At layout spot patch.place ∧ ∀ i k, spot ≠ .entry i k) ∧
      ∀ offset ∈ patch.reads, ∃ spot, elf.At layout spot offset ∧ ∃ i k, spot = .entry i k := by
  rcases List.mem_append.mp member with stray | extra
  · obtain ⟨⟨scratch, g⟩, inside, rfl⟩ := List.mem_map.mp stray
    have at_g := List.mem_zipIdx_iff_getElem?.mp inside
    refine ⟨⟨.padLo g, ⟨(List.getElem?_eq_some_iff.mp at_g).1, rfl⟩, nofun⟩, fun offset read => ?_⟩
    cases List.mem_singleton.mp read
    exact Ready.partner_at nextLo_known (List.mem_iff_getElem?.mpr ⟨g, at_g⟩)
  · obtain ⟨⟨scratch, g⟩, inside, rfl⟩ := List.mem_map.mp extra
    have at_g := List.mem_zipIdx_iff_getElem?.mp inside
    refine ⟨⟨.padHi g, ⟨(List.getElem?_eq_some_iff.mp at_g).1, rfl⟩, nofun⟩, fun offset read => ?_⟩
    cases List.mem_singleton.mp read
    exact Ready.partner_at prevHi_known (List.mem_iff_getElem?.mpr ⟨g, at_g⟩)

/-- The patches of the scratch words spare one another. -/
theorem Ready.pad_spare (ready : elf.Ready layout) : (elf.padPatches layout).Pairwise Patch.Spares := by
  have unread {first second : Patch} (left : first ∈ elf.padPatches layout) (right : second ∈ elf.padPatches layout) :
      ∀ offset ∈ second.reads, Apart first.place offset := by
    intro offset read
    obtain ⟨⟨spot, here, pad⟩, -⟩ := pad_reach left
    obtain ⟨-, reads⟩ := pad_reach right
    obtain ⟨spot', here', i, k, rfl⟩ := reads offset read
    exact ready.apart here here' (pad i k)
  have apart : (elf.padPatches layout).Pairwise fun first second => Apart first.place second.place := by
    rw [padPatches, List.pairwise_append]
    have ascend (start : ℕ) (scratches : List Scratch) (f : Word → Word) :
        (scratches.zipIdx.map fun value : Scratch × ℕ =>
          Patch.copy (start + value.2 * 4) (partnerPlace layout value.1) f).Pairwise
            fun first second => Apart first.place second.place := by
      rw [List.pairwise_map]
      have positions : (scratches.zipIdx.map Prod.snd).Pairwise (· < ·) := by
        rw [List.zipIdx_map_snd]
        exact List.pairwise_lt_range'
      refine (List.pairwise_map.mp positions).imp fun {value value'} less => .inl ?_
      change start + value.2 * 4 + 4 ≤ start + value'.2 * 4
      omega
    refine ⟨ascend _ _ _, ascend _ _ _, fun first left second right => ?_⟩
    obtain ⟨⟨scratch, g⟩, inside, rfl⟩ := List.mem_map.mp left
    obtain ⟨⟨scratch', g'⟩, -, rfl⟩ := List.mem_map.mp right
    have bound := (List.getElem?_eq_some_iff.mp (List.mem_zipIdx_iff_getElem?.mp inside)).1
    refine .inl ?_
    change layout.padloAddr + g * 4 + 4 ≤ layout.padloAddr + elf.strays.length * 4 + g' * 4
    omega
  exact apart.imp_of_mem fun left right apart => ⟨apart, unread left right⟩

/-- A byte outside the sections that are copied stays as it was. -/
theorem copy_outside {sections : List (Section × ℕ)} {y : ℕ}
    (outside : ∀ t j, (t, j) ∈ sections → elf.copied j t → ¬layout.Inside j t y) (image : Buffer) :
    sections.foldl (fun image (s, i) =>
      if elf.copied i s then storeAt image (layout.addr i) (slice s.contents 0 s.size.toNat) else image) image y =
      image y := by
  induction sections generalizing image with
  | nil => rfl
  | cons value rest ih =>
    rw [List.foldl_cons, ih fun t j member => outside t j (List.mem_cons_of_mem _ member)]
    obtain ⟨t, j⟩ := value
    dsimp only
    split_ifs with copied
    · have apart : ¬(layout.addr j ≤ y ∧ y < layout.addr j + t.size.toNat) := outside t j List.mem_cons_self copied
      rw [storeAt_slice, if_neg apart]
    · rfl

/-- The bytes of a section that is copied. -/
theorem copy_inside {sections : List (Section × ℕ)} {t : Section} {j y : ℕ} (member : (t, j) ∈ sections)
    (copied : elf.copied j t) (inside : layout.Inside j t y)
    (apart : ∀ t' j', (t', j') ∈ sections → elf.copied j' t' → layout.Inside j' t' y → (t', j') = (t, j))
    (image : Buffer) :
    sections.foldl (fun image (s, i) =>
      if elf.copied i s then storeAt image (layout.addr i) (slice s.contents 0 s.size.toNat) else image) image y =
      t.contents (y - layout.addr j) := by
  induction sections generalizing image with
  | nil => nomatch member
  | cons value rest ih =>
    rw [List.foldl_cons]
    by_cases later : (t, j) ∈ rest
    · exact ih later (fun t' j' member => apart t' j' (List.mem_cons_of_mem _ member)) _
    · rw [copy_outside fun t' j' member' copied' inside' => later (apart t' j' (List.mem_cons_of_mem _ member') copied' inside' ▸
        member')]
      rcases List.mem_cons.mp member with rfl | member
      · have here : layout.addr j ≤ y ∧ y < layout.addr j + t.size.toNat := inside
        dsimp only
        rw [if_pos copied, storeAt_slice, if_pos here, Nat.zero_add]
      · exact absurd member later

/-- The bytes of the copied sections, before the relocation. -/
theorem copySections_inside (fits : layout.Fits elf) {t : Section} {j y : ℕ} (member : (t, j) ∈ elf.sections.zipIdx)
    (copied : elf.copied j t) (inside : y < t.size.toNat) :
    elf.copySections layout (layout.addr j + y) = t.contents y := by
  have here : layout.Inside j t (layout.addr j + y) := ⟨Nat.le_add_right _ _, by omega⟩
  rw [copySections, copy_inside member copied here, Nat.add_sub_cancel_left]
  intro t' j' member' copied' inside'
  have same : j' = j := by
    by_contra other
    exact fits.apart t' j' t j member' member (inImage_of_copied copied') (inImage_of_copied copied) other _ inside' here
  subst same
  have at_j := List.mem_zipIdx_iff_getElem?.mp member
  cases (List.mem_zipIdx_iff_getElem?.mp member').symm.trans at_j
  rfl

theorem copySections_outside {y : ℕ}
    (outside : ∀ t j, (t, j) ∈ elf.sections.zipIdx → elf.copied j t → ¬layout.Inside j t y) :
    elf.copySections layout y = 0 := copy_outside outside _

/-- The word of an entry, before the relocation. -/
theorem Ready.rd32_copySections (ready : elf.Ready layout) (kept : (s, i) ∈ elf.relSections) {target : Section}
    (known : elf.target? s = some target) (at_k : s.table[k]? = some entry) (typed : entry.type ≠ .none) :
    rd32 (elf.copySections layout) (place layout s entry) = rd32 target.contents entry.offset.toNat := by
  obtain ⟨t, member, copied, bound⟩ := ready.inside kept at_k typed
  obtain rfl := Option.some.inj (known.symm.trans (List.mem_zipIdx_iff_getElem?.mp member))
  have byteAt (j : ℕ) (below : j < 4) : elf.copySections layout (layout.addr s.info.toNat + (entry.offset.toNat + j)) =
      target.contents (entry.offset.toNat + j) := copySections_inside ready.fits member copied (by omega)
  have zeroth := byteAt 0 (by decide)
  rw [place, rd32, rd32, Nat.add_assoc, Nat.add_assoc, Nat.add_assoc, byteAt 1 (by decide),
    byteAt 2 (by decide), byteAt 3 (by decide)]
  exact congrArg _ zeroth

/-- The position of an entry is the number of those before it. -/
theorem getElem?_of_split {table before behind : List Reloc} (split : table = before ++ entry :: behind) :
    table[before.length]? = some entry := by
  rw [split, List.getElem?_append_right le_rfl, Nat.sub_self, List.getElem?_cons_zero]

/-- The word of an entry behind the static pass. -/
theorem Ready.rd32_static (ready : elf.Ready layout) (kept : (s, i) ∈ elf.relSections) {before behind : List Reloc}
    (split : s.table = before ++ entry :: behind) (typed : entry.type ≠ .none) (image : Buffer) :
    rd32 (run (elf.staticAll layout) image) (place layout s entry) =
      match staticPatch (place layout s) (valueOf (elf.relocationSymbolAddr layout) entry) entry behind with
      | some patch => patch.word image
      | none => rd32 image (place layout s entry) := by
  have at_k := getElem?_of_split split
  cases own : staticPatch (place layout s) (valueOf (elf.relocationSymbolAddr layout) entry) entry behind with
  | some patch =>
    have member : patch ∈ elf.staticAll layout := by
      refine List.mem_flatMap.mpr ⟨(s, i), kept, ?_⟩
      dsimp only
      rw [split]
      exact mem_staticPatches own
    rw [← (staticPatch_reach own).2.1]
    exact rd32_run ready.static_spare member image
  | none =>
    refine rd32_run_apart (fun patch member => ?_) image
    obtain ⟨⟨s', i'⟩, kept', inside⟩ := List.mem_flatMap.mp member
    obtain ⟨before', entry', behind', split', own'⟩ := exists_of_mem_staticPatches inside
    obtain ⟨typed', place_eq, -⟩ := staticPatch_reach own'
    have at_k' := getElem?_of_split split'
    rw [place_eq]
    refine ready.apart_entries kept' kept at_k' at_k typed' typed fun same => ?_
    rw [Prod.mk.injEq] at same
    obtain ⟨rfl, length⟩ := same
    cases relSections_unique kept kept'
    obtain ⟨rfl, rest⟩ := List.append_inj (split'.symm.trans split) length
    obtain ⟨rfl, rfl⟩ := List.cons.inj rest
    cases own.symm.trans own'

/-- The scratch words do not touch the words of the entries. -/
theorem Ready.rd32_initPadlo (ready : elf.Ready layout) (kept : (s, i) ∈ elf.relSections)
    (at_k : s.table[k]? = some entry) (typed : entry.type ≠ .none) (image : Buffer) :
    rd32 (elf.initPadlo layout image) (place layout s entry) = rd32 image (place layout s entry) := by
  have own : elf.At layout (.entry i k) (place layout s entry) := ⟨s, entry, kept, at_k, typed, rfl⟩
  rw [initPadlo_eq]
  refine rd32_run_apart (fun patch member => ?_) image
  obtain ⟨⟨spot, here, pad⟩, -⟩ := pad_reach member
  exact ready.apart here own (pad i k)

/-- The scratch word of a stray HI16 holds the low half of its LO16. -/
theorem Ready.rd32_padLo (ready : elf.Ready layout) {g : ℕ} {stray : Scratch} (at_g : elf.strays[g]? = some stray)
    (image : Buffer) : rd32 (elf.initPadlo layout image) (layout.padloAddr + g * 4) =
      rd32 image (partnerPlace layout stray) &&& 0xffff#32 := by
  have inside : (stray, g) ∈ elf.strays.zipIdx := List.mem_zipIdx_iff_getElem?.mpr at_g
  have member : Patch.copy (layout.padloAddr + g * 4) (partnerPlace layout stray) (· &&& 0xffff#32) ∈
      elf.padPatches layout := List.mem_append_left _ (List.mem_map_of_mem inside)
  rw [initPadlo_eq]
  exact rd32_run ready.pad_spare member image

end Elf

end KosTool.Elf2irx
