import KosTool.Model.Binary.Scramble

/-! # Scrambling and descrambling are inverse

Both programs draw the same numbers and so emit the same order of slices, chunk by chunk a permutation. One
gathers the slices in that order and the other scatters them, the tail stays in place, and no copy or index
leaves its buffer.
-/

namespace KosTool.Binary

open ByteWord BlockCopy DescendingChunks SwapEmission

/-- The entry drawn for a slice, and the seed left. -/
def draw (seed : BitVec 32) (i : ℕ) : ℕ × BitVec 32 :=
  (((scrambleNext seed).1.toNat * i) >>> 16, (scrambleNext seed).2)

theorem scrambleNext_lt (seed : BitVec 32) : (scrambleNext seed).1.toNat < 2 ^ 16 := by
  simp only [scrambleNext]
  generalize (seed * 2109#32 + 9273#32) &&& 0x7fff#32 = next
  rw [BitVec.toNat_and]
  exact Nat.and_lt_two_pow _ (by decide)

theorem draw_le (seed : BitVec 32) (i : ℕ) : (draw seed i).1 ≤ i := by
  have small := scrambleNext_lt seed
  rw [draw, Nat.shiftRight_eq_div_pow]
  exact Nat.div_le_of_le_mul (Nat.mul_le_mul_right i small.le)

/-- The 32-bit product does not overflow. -/
theorem draw_eq (seed : BitVec 32) {i : ℕ} (inside : i < 2 ^ 16) :
    (((scrambleNext seed).1 * BitVec.ofNat 32 i) >>> 16).toNat = (draw seed i).1 := by
  have small := scrambleNext_lt seed
  have product : (scrambleNext seed).1.toNat * i < 2 ^ 32 := calc
    (scrambleNext seed).1.toNat * i ≤ 2 ^ 16 * i := Nat.mul_le_mul_right _ small.le
    _ < 2 ^ 16 * 2 ^ 16 := Nat.mul_lt_mul_of_pos_left inside (by decide)
  have index : i % 2 ^ 32 = i := Nat.mod_eq_of_lt (by omega)
  rw [draw, BitVec.toNat_ushiftRight, BitVec.toNat_mul, BitVec.toNat_ofNat, index, Nat.mod_eq_of_lt product]

/-- Slice `k` goes to the place of the `k`th slice of the order. -/
def scatter (order : List ℕ) : List Memcpy := order.zipIdx.map fun entry => ⟨32 * entry.1, 32 * entry.2, 32⟩

/-- The `k`th slice of the order goes to the place of slice `k`. -/
def gather (order : List ℕ) : List Memcpy := order.zipIdx.map fun entry => ⟨32 * entry.2, 32 * entry.1, 32⟩

theorem scatter_concat (order : List ℕ) (last : ℕ) :
    scatter (order ++ [last]) = scatter order ++ [⟨32 * last, 32 * order.length, 32⟩] := by
  simp only [scatter, List.zipIdx_append, List.map_append, Nat.zero_add, List.zipIdx_singleton, List.map_singleton]

theorem gather_concat (order : List ℕ) (last : ℕ) :
    gather (order ++ [last]) = gather order ++ [⟨32 * order.length, 32 * last, 32⟩] := by
  simp only [gather, List.zipIdx_append, List.map_append, Nat.zero_add, List.zipIdx_singleton, List.map_singleton]

/-- The accesses stay inside the arrays. -/
def AccessesInside (accesses : List IndexAccess) : Prop := ∀ access ∈ accesses, access.index < access.allocated

theorem AccessesInside.append {first second : List IndexAccess} (left : AccessesInside first)
    (right : AccessesInside second) : AccessesInside (first ++ second) := by
  intro access among
  rcases List.mem_append.mp among with earlier | later
  · exact left access earlier
  · exact right access later

/-- Clearing the array stays inside it. -/
theorem accessesInside_range {count allocated : ℕ} (room : count ≤ allocated) :
    AccessesInside ((List.range count).map fun i => ⟨i, allocated⟩) := by
  intro access among
  obtain ⟨i, inside, rfl⟩ := List.mem_map.mp among
  exact (List.mem_range.mp inside).trans_le room

/-- Exchanging two entries stays inside the array. -/
theorem accessesInside_exchange {i x allocated : ℕ} (inside : i < allocated) (below : x ≤ i) :
    AccessesInside [⟨i, allocated⟩, ⟨x, allocated⟩] := by
  intro access among
  simp only [List.mem_cons, List.not_mem_nil, or_false] at among
  rcases among with rfl | rfl
  · exact inside
  · exact below.trans_lt inside

/-- The slices emitted, whole chunks of them, and the seed left: what both programs compute. -/
structure Emission where
  seed : BitVec 32
  order : List ℕ

/-- The emission of a chunk. -/
def Emission.chunk (chunk offset : ℕ) (emission : Emission) : Emission :=
  let next := emitted draw (chunk / 32) id emission.seed
  { seed := next.2, order := emission.order ++ next.1.map (offset / 32 + ·) }

/-- The descrambling has scattered what was emitted. -/
structure Scatters (state : Descrambling) (emission : Emission) : Prop where
  seed : state.seed = emission.seed
  src : state.src = 32 * emission.order.length
  copies : state.copies = scatter emission.order
  inside : AccessesInside state.accesses

/-- The scrambling has gathered what was emitted. -/
structure Gathers (state : Scrambling) (emission : Emission) : Prop where
  seed : state.seed = emission.seed
  copies : state.copies = gather emission.order
  inside : AccessesInside state.accesses

/-- The innermost loop of `dc_descramble` scatters. -/
theorem descrambleSlices_scatters (count n : ℕ) (room : n ≤ 2 ^ 16) : ∀ (idx : ℕ → ℕ) (state : Descrambling)
    (emission : Emission), Scatters state emission → Scatters (descrambleSlices (32 * count) n idx state)
      ⟨(emitted draw n idx emission.seed).2, emission.order ++ (emitted draw n idx emission.seed).1.map (count + ·)⟩ := by
  induction n with
  | zero =>
    intro idx state emission scatters
    rw [emitted, List.map_nil, List.append_nil]
    exact scatters
  | succ n ih =>
    intro idx state emission scatters
    have drawn := draw_eq emission.seed (show n < 2 ^ 16 by omega)
    rw [emitted, List.map_cons, List.append_cons, descrambleSlices]
    simp only [scatters.seed, drawn]
    apply ih (show n ≤ 2 ^ 16 by omega) _ _ ⟨_, _⟩
    constructor
    · rfl
    · simp only [scatters.src, List.length_append, List.length_singleton, scrambleSlice]
      omega
    · rw [scatter_concat, scatters.copies, scatters.src, Nat.mul_add, Nat.mul_comm 32 (SwapEmission.exchange ..)]
      rfl
    · apply scatters.inside.append
      exact accessesInside_exchange (show n < 2 ^ 16 by omega) (draw_le _ _)

/-- The loop of `dcdisc_scramble_chunk` gathers. -/
theorem scrambleSlices_gathers (count slices n : ℕ) (room : n ≤ slices) : ∀ (indices : ℕ → ℕ) (outOffset : ℕ)
    (state : Scrambling) (emission : Emission), 32 * count + outOffset = 32 * emission.order.length →
      Gathers state emission → Gathers (scrambleSlices (32 * count) slices n indices outOffset state)
        ⟨(emitted draw n indices emission.seed).2,
          emission.order ++ (emitted draw n indices emission.seed).1.map (count + ·)⟩ := by
  induction n with
  | zero =>
    intro indices outOffset state emission _ gathers
    rw [emitted, List.map_nil, List.append_nil]
    exact gathers
  | succ n ih =>
    intro indices outOffset state emission place gathers
    rw [emitted, List.map_cons, List.append_cons, scrambleSlices]
    simp only [gathers.seed]
    apply ih (show n ≤ slices by omega) _ _ _ ⟨_, _⟩
    · simp only [List.length_append, List.length_singleton]
      omega
    constructor
    · rfl
    · rw [gather_concat, gathers.copies, place, Nat.mul_add]
      rfl
    · apply gathers.inside.append
      exact accessesInside_exchange room (draw_le _ _)

/-- What was emitted enumerates the slices up to an offset. -/
structure Emission.Enumerates (offset : ℕ) (emission : Emission) : Prop where
  offset : offset = 32 * emission.order.length
  perm : emission.order.Perm (List.range emission.order.length)

theorem slices_of_isDouble {chunk : ℕ} (double : IsDouble 32 16 chunk) : ∃ n ≤ 2 ^ 16, chunk = 32 * n := by
  obtain ⟨k, bound, rfl⟩ := double
  exact ⟨2 ^ k, Nat.pow_le_pow_right (by decide) bound, rfl⟩

/-- A chunk emits the slices behind those emitted before. -/
theorem Emission.Enumerates.chunk {chunk offset : ℕ} {emission : Emission} (double : IsDouble 32 16 chunk)
    (enumerates : emission.Enumerates offset) : (emission.chunk chunk offset).Enumerates (offset + chunk) := by
  obtain ⟨n, -, rfl⟩ := slices_of_isDouble double
  have emits : (emitted draw n id emission.seed).1.Perm (List.range n) := by
    have perm := emitted_perm draw n (fun seed i _ => draw_le seed i) id emission.seed
    rwa [List.map_id] at perm
  have length : (emitted draw n id emission.seed).1.length = n := emits.length_eq.trans List.length_range
  have slices : 32 * n / 32 = n := Nat.mul_div_cancel_left n (by decide)
  have count : offset / 32 = emission.order.length := by
    rw [enumerates.offset]
    exact Nat.mul_div_cancel_left _ (by decide)
  constructor
  · simp only [Emission.chunk, slices, List.length_append, List.length_map, length, enumerates.offset, Nat.mul_add]
  · simp only [Emission.chunk, slices, count, List.length_append, List.length_map, length, List.range_add]
    exact enumerates.perm.append (emits.map _)

/-- The slices of a chunk are scattered behind those before. -/
theorem descrambleChunk_scatters (chunk offset : ℕ) (state : Descrambling) (emission : Emission)
    (double : IsDouble 32 16 chunk) (related : Scatters state emission ∧ emission.Enumerates offset) :
    Scatters (descrambleChunk chunk offset state) (emission.chunk chunk offset) ∧
      (emission.chunk chunk offset).Enumerates (offset + chunk) := by
  obtain ⟨scatters, enumerates⟩ := related
  refine ⟨?_, enumerates.chunk double⟩
  obtain ⟨n, room, rfl⟩ := slices_of_isDouble double
  have slices : 32 * n / 32 = n := Nat.mul_div_cancel_left n (by decide)
  obtain ⟨count, rfl⟩ : ∃ count, offset = 32 * count := ⟨_, enumerates.offset⟩
  simp only [descrambleChunk, Emission.chunk, scrambleSlice, slices, Nat.mul_div_cancel_left count (show 0 < 32 by decide)]
  apply descrambleSlices_scatters count n room id _ emission
  refine ⟨scatters.seed, scatters.src, scatters.copies, scatters.inside.append ?_⟩
  exact accessesInside_range room

/-- The slices of a chunk are gathered behind those before. -/
theorem dcdiscScrambleChunk_gathers (chunk offset : ℕ) (state : Scrambling) (emission : Emission)
    (double : IsDouble 32 16 chunk) (related : Gathers state emission ∧ emission.Enumerates offset) :
    Gathers (dcdiscScrambleChunk chunk offset state) (emission.chunk chunk offset) ∧
      (emission.chunk chunk offset).Enumerates (offset + chunk) := by
  obtain ⟨gathers, enumerates⟩ := related
  refine ⟨?_, enumerates.chunk double⟩
  obtain ⟨n, -, rfl⟩ := slices_of_isDouble double
  have slices : 32 * n / 32 = n := Nat.mul_div_cancel_left n (by decide)
  obtain ⟨count, rfl⟩ : ∃ count, offset = 32 * count := ⟨_, enumerates.offset⟩
  simp only [dcdiscScrambleChunk, Emission.chunk, slices, Nat.mul_div_cancel_left count (show 0 < 32 by decide)]
  apply scrambleSlices_gathers count n n le_rfl id 0 _ emission enumerates.offset
  refine ⟨gathers.seed, gathers.copies, gathers.inside.append ?_⟩
  exact accessesInside_range le_rfl

/-- The rest behind the slices stays in place. -/
def restCopy (offset rest : ℕ) : List Memcpy := if rest = 0 then [] else [⟨offset, offset, rest⟩]

/-- Both programs move the slices of one order, and the rest stays in place. -/
structure Shuffles (size : ℕ) (order : List ℕ) : Prop where
  perm : order.Perm (List.range (size / 32))
  descramble : descrambleCopies size = scatter order ++ restCopy (32 * (size / 32)) (size % 32)
  scramble : scrambleCopies size = gather order ++ restCopy (32 * (size / 32)) (size % 32)
  inside : AccessesInside (descrambleAccesses size ++ scrambleAccesses size)

/-- What the chunks of a size emit: the offset reached, what remains, and the emission. -/
def emissionLoops (size : ℕ) : ℕ × ℕ × Emission :=
  descend 32 Emission.chunk (2048 * 1024) 0 size ⟨BitVec.ofNat 32 size &&& 0xffff#32, []⟩

theorem isDouble_first : IsDouble 32 16 (2048 * 1024) := ⟨16, le_rfl, rfl⟩

theorem enumerates_start (seed : BitVec 32) : Emission.Enumerates 0 ⟨seed, []⟩ := ⟨rfl, List.Perm.refl _⟩

theorem accessesInside_nil : AccessesInside [] := fun _ among => (List.not_mem_nil among).elim

/-- The loops of `dc_descramble` end with all slices scattered. -/
theorem descrambleLoops_scatters (size : ℕ) : ∃ stop rest state emission, descrambleLoops size = (stop, rest, state) ∧
    emissionLoops size = (stop, rest, emission) ∧ stop + rest = size ∧ rest < 32 ∧ Scatters state emission ∧
      emission.Enumerates stop := by
  obtain ⟨stop, rest, state, emission, descrambles, emits, total, small, scatters, enumerates⟩ :=
    descend_rel (R := fun offset state emission => Scatters state emission ∧ emission.Enumerates offset)
      (show 0 < 32 by decide) descrambleChunk_scatters (2048 * 1024) 0 size
      ⟨BitVec.ofNat 32 size &&& 0xffff#32, 0, [], []⟩ ⟨BitVec.ofNat 32 size &&& 0xffff#32, []⟩ (Or.inl isDouble_first)
      ⟨⟨rfl, rfl, rfl, accessesInside_nil⟩, enumerates_start _⟩
  exact ⟨stop, rest, state, emission, descrambles, emits, by omega, small, scatters, enumerates⟩

/-- The loops of `dcdisc_scramble_binary` end with all slices gathered. -/
theorem scrambleLoops_gathers (size : ℕ) : ∃ stop rest state emission, scrambleLoops size = (stop, rest, state) ∧
    emissionLoops size = (stop, rest, emission) ∧ Gathers state emission := by
  obtain ⟨stop, rest, state, emission, scrambles, emits, -, -, gathers, -⟩ :=
    descend_rel (R := fun offset state emission => Gathers state emission ∧ emission.Enumerates offset)
      (show 0 < 32 by decide) dcdiscScrambleChunk_gathers (2048 * 1024) 0 size
      ⟨BitVec.ofNat 32 size &&& 0xffff#32, [], []⟩ ⟨BitVec.ofNat 32 size &&& 0xffff#32, []⟩ (Or.inl isDouble_first)
      ⟨⟨rfl, rfl, accessesInside_nil⟩, enumerates_start _⟩
  exact ⟨stop, rest, state, emission, scrambles, emits, gathers⟩

theorem exists_shuffles (size : ℕ) : ∃ order, Shuffles size order := by
  obtain ⟨stop, rest, descrambled, emission, descrambles, emits, total, small, scatters, enumerates⟩ :=
    descrambleLoops_scatters size
  obtain ⟨stop', rest', scrambled, emission', scrambles, emits', gathers⟩ := scrambleLoops_gathers size
  rw [emits] at emits'
  cases emits'
  have length := enumerates.offset
  have slices : emission.order.length = size / 32 := by omega
  obtain rfl : stop = 32 * (size / 32) := by omega
  obtain rfl : rest = size % 32 := by omega
  refine ⟨emission.order, ?_, ?_, ?_, ?_⟩
  · rw [← slices]
    exact enumerates.perm
  · rw [descrambleCopies, descrambles]
    simp only [scatters.copies, scatters.src, slices, restCopy, ne_eq, ite_not]
  · rw [scrambleCopies, scrambles]
    simp only [gathers.copies, restCopy, Nat.pos_iff_ne_zero, ne_eq, ite_not]
  · rw [descrambleAccesses, descrambles, scrambleAccesses, scrambles]
    exact scatters.inside.append gathers.inside

section Copies

variable {order : List ℕ} {size : ℕ}

theorem getElem_scatter (k : ℕ) (inside : k < order.length) : ⟨32 * order[k], 32 * k, 32⟩ ∈ scatter order := by
  have entry : (order[k], k) ∈ order.zipIdx := List.mk_mem_zipIdx_iff_getElem?.mpr (List.getElem?_eq_getElem inside)
  exact List.mem_map.mpr ⟨_, entry, rfl⟩

theorem getElem_gather (k : ℕ) (inside : k < order.length) : ⟨32 * k, 32 * order[k], 32⟩ ∈ gather order := by
  have entry : (order[k], k) ∈ order.zipIdx := List.mk_mem_zipIdx_iff_getElem?.mpr (List.getElem?_eq_getElem inside)
  exact List.mem_map.mpr ⟨_, entry, rfl⟩

theorem mem_scatter {copy : Memcpy} (among : copy ∈ scatter order) :
    ∃ k, ∃ inside : k < order.length, copy = ⟨32 * order[k], 32 * k, 32⟩ := by
  obtain ⟨⟨slice, k⟩, entry, rfl⟩ := List.mem_map.mp among
  obtain ⟨inside, same⟩ := List.getElem?_eq_some_iff.mp (List.mk_mem_zipIdx_iff_getElem?.mp entry)
  exact ⟨k, inside, by rw [same]⟩

theorem mem_gather {copy : Memcpy} (among : copy ∈ gather order) :
    ∃ k, ∃ inside : k < order.length, copy = ⟨32 * k, 32 * order[k], 32⟩ := by
  obtain ⟨⟨slice, k⟩, entry, rfl⟩ := List.mem_map.mp among
  obtain ⟨inside, same⟩ := List.getElem?_eq_some_iff.mp (List.mk_mem_zipIdx_iff_getElem?.mp entry)
  exact ⟨k, inside, by rw [same]⟩

theorem mem_restCopy {offset rest : ℕ} {copy : Memcpy} (among : copy ∈ restCopy offset rest) :
    copy = ⟨offset, offset, rest⟩ := by
  unfold restCopy at among
  split at among
  · cases among
  · exact List.mem_singleton.mp among

/-- Copies of different slices write no byte in common. -/
theorem apart_of_ne {first second i j : ℕ} (different : first ≠ second) :
    Apart ⟨32 * first, i, 32⟩ ⟨32 * second, j, 32⟩ := by
  unfold Apart
  simp only
  omega

theorem pairwise_restCopy (offset rest : ℕ) : (restCopy offset rest).Pairwise Apart := by
  unfold restCopy
  split
  · exact List.Pairwise.nil
  · exact List.pairwise_singleton _ _

theorem scatter_pairwise (nodup : order.Nodup) : (scatter order).Pairwise Apart := by
  have entries : (order.zipIdx.map Prod.fst).Pairwise (· ≠ ·) := by
    rw [List.zipIdx_map_fst]
    exact nodup
  exact List.pairwise_map.mpr ((List.pairwise_map.mp entries).imp fun different => apart_of_ne different)

theorem gather_pairwise (order : List ℕ) : (gather order).Pairwise Apart := by
  have entries : (order.zipIdx.map Prod.snd).Pairwise (· ≠ ·) := by
    rw [List.zipIdx_map_snd]
    exact List.nodup_range'
  exact List.pairwise_map.mpr ((List.pairwise_map.mp entries).imp fun different => apart_of_ne different)

theorem Shuffles.length (shuffles : Shuffles size order) : order.length = size / 32 :=
  shuffles.perm.length_eq.trans List.length_range

theorem Shuffles.getElem_lt (shuffles : Shuffles size order) {k : ℕ} (inside : k < order.length) :
    order[k] < size / 32 := List.mem_range.mp (shuffles.perm.mem_iff.mp (List.getElem_mem inside))

theorem Shuffles.descramble_pairwise (shuffles : Shuffles size order) : (descrambleCopies size).Pairwise Apart := by
  rw [shuffles.descramble]
  refine List.pairwise_append.mpr ⟨?_, pairwise_restCopy _ _, ?_⟩
  · exact scatter_pairwise (shuffles.perm.nodup_iff.mpr List.nodup_range)
  · intro slice among rest last
    obtain ⟨k, inside, rfl⟩ := mem_scatter among
    rw [mem_restCopy last]
    have below := shuffles.getElem_lt inside
    exact Or.inl (by simp only; omega)

theorem Shuffles.scramble_pairwise (shuffles : Shuffles size order) : (scrambleCopies size).Pairwise Apart := by
  rw [shuffles.scramble]
  refine List.pairwise_append.mpr ⟨gather_pairwise order, pairwise_restCopy _ _, ?_⟩
  intro slice among rest last
  obtain ⟨k, inside, rfl⟩ := mem_gather among
  rw [mem_restCopy last]
  have below := shuffles.length
  exact Or.inl (by simp only; omega)

/-- Descrambling puts slice `k` to the place of the `k`th of the order. -/
theorem Shuffles.descramble_slice (shuffles : Shuffles size order) (input out : Buffer) {k j : ℕ}
    (inside : k < order.length) (byte : j < 32) :
    dcDescramble input out size (32 * order[k] + j) = input (32 * k + j) := by
  have among : ⟨32 * order[k], 32 * k, 32⟩ ∈ descrambleCopies size := by
    rw [shuffles.descramble]
    exact List.mem_append_left _ (getElem_scatter k inside)
  exact runAll_inside shuffles.descramble_pairwise among byte

/-- Scrambling puts the `k`th slice of the order to place `k`. -/
theorem Shuffles.scramble_slice (shuffles : Shuffles size order) (input out : Buffer) {k j : ℕ}
    (inside : k < order.length) (byte : j < 32) :
    dcdiscScrambleBinary input out size (32 * k + j) = input (32 * order[k] + j) := by
  have among : ⟨32 * k, 32 * order[k], 32⟩ ∈ scrambleCopies size := by
    rw [shuffles.scramble]
    exact List.mem_append_left _ (getElem_gather k inside)
  exact runAll_inside shuffles.scramble_pairwise among byte

theorem restCopy_mem (lower : 32 * (size / 32) ≤ i) (upper : i < size) :
    ⟨32 * (size / 32), 32 * (size / 32), size % 32⟩ ∈ restCopy (32 * (size / 32)) (size % 32) := by
  rw [restCopy, if_neg (by omega)]
  exact List.mem_singleton_self _

/-- Descrambling leaves the rest in place. -/
theorem Shuffles.descramble_rest (shuffles : Shuffles size order) (input out : Buffer) {i : ℕ}
    (lower : 32 * (size / 32) ≤ i) (upper : i < size) : dcDescramble input out size i = input i := by
  have among : ⟨32 * (size / 32), 32 * (size / 32), size % 32⟩ ∈ descrambleCopies size := by
    rw [shuffles.descramble]
    exact List.mem_append_right _ (restCopy_mem lower upper)
  have copied : dcDescramble input out size (32 * (size / 32) + (i - 32 * (size / 32))) =
      input (32 * (size / 32) + (i - 32 * (size / 32))) :=
    runAll_inside shuffles.descramble_pairwise among (by simp only; omega)
  rwa [Nat.add_sub_cancel' lower] at copied

/-- Scrambling leaves the rest in place. -/
theorem Shuffles.scramble_rest (shuffles : Shuffles size order) (input out : Buffer) {i : ℕ}
    (lower : 32 * (size / 32) ≤ i) (upper : i < size) : dcdiscScrambleBinary input out size i = input i := by
  have among : ⟨32 * (size / 32), 32 * (size / 32), size % 32⟩ ∈ scrambleCopies size := by
    rw [shuffles.scramble]
    exact List.mem_append_right _ (restCopy_mem lower upper)
  have copied : dcdiscScrambleBinary input out size (32 * (size / 32) + (i - 32 * (size / 32))) =
      input (32 * (size / 32) + (i - 32 * (size / 32))) :=
    runAll_inside shuffles.scramble_pairwise among (by simp only; omega)
  rwa [Nat.add_sub_cancel' lower] at copied

/-- Every copy stays inside the two buffers. -/
theorem Shuffles.copies_inside (shuffles : Shuffles size order) :
    ∀ copy ∈ descrambleCopies size ++ scrambleCopies size, Inside size copy := by
  have whole := Nat.div_add_mod size 32
  have length := shuffles.length
  intro copy among
  rw [shuffles.descramble, shuffles.scramble] at among
  simp only [List.mem_append] at among
  rcases among with (slice | rest) | (slice | rest)
  · obtain ⟨k, inside, rfl⟩ := mem_scatter slice
    have below := shuffles.getElem_lt inside
    exact ⟨by simp only; omega, by simp only; omega⟩
  · rw [mem_restCopy rest]
    exact ⟨by simp only; omega, by simp only; omega⟩
  · obtain ⟨k, inside, rfl⟩ := mem_gather slice
    have below := shuffles.getElem_lt inside
    exact ⟨by simp only; omega, by simp only; omega⟩
  · rw [mem_restCopy rest]
    exact ⟨by simp only; omega, by simp only; omega⟩

end Copies

/-- The output holds the slices of the input, permuted, and its rest in place. -/
structure PermutesSlices (size : ℕ) (perm : Equiv.Perm (Fin (size / 32))) (input output : Buffer) : Prop where
  slices : ∀ (slice : Fin (size / 32)) (j : ℕ), j < 32 → output (32 * slice + j) = input (32 * perm slice + j)
  rest : ∀ i, 32 * (size / 32) ≤ i → i < size → output i = input i

/-- Slices permuted and permuted back. -/
theorem PermutesSlices.round_trip {size : ℕ} {perm : Equiv.Perm (Fin (size / 32))} {input middle output : Buffer}
    (there : PermutesSlices size perm input middle) (back : PermutesSlices size perm.symm middle output) :
    ∀ i < size, output i = input i := by
  intro i inside
  by_cases sliced : i < 32 * (size / 32)
  · have place : i = 32 * (i / 32) + i % 32 := (Nat.div_add_mod i 32).symm
    have bound : i / 32 < size / 32 := by omega
    have byte : i % 32 < 32 := Nat.mod_lt _ (by decide)
    have second := back.slices ⟨i / 32, bound⟩ (i % 32) byte
    have first := there.slices (perm.symm ⟨i / 32, bound⟩) (i % 32) byte
    rw [Equiv.apply_symm_apply] at first
    rw [place]
    exact second.trans first
  · exact (back.rest i (Nat.not_lt.mp sliced) inside).trans (there.rest i (Nat.not_lt.mp sliced) inside)

/-- Scrambling permutes the slices, and descrambling permutes them back. -/
theorem exists_permutesSlices (size : ℕ) : ∃ perm : Equiv.Perm (Fin (size / 32)), ∀ input out,
    PermutesSlices size perm input (dcdiscScrambleBinary input out size) ∧
      PermutesSlices size perm.symm input (dcDescramble input out size) := by
  obtain ⟨order, shuffles⟩ := exists_shuffles size
  have length := shuffles.length
  refine ⟨permOfList order shuffles.perm, fun input out => ⟨⟨fun slice j byte => ?_, ?_⟩, ⟨fun slice j byte => ?_, ?_⟩⟩⟩
  · exact shuffles.scramble_slice input out (by omega) byte
  · exact fun i => shuffles.scramble_rest input out
  · obtain ⟨k, rfl⟩ := (permOfList order shuffles.perm).surjective slice
    rw [Equiv.symm_apply_apply]
    exact shuffles.descramble_slice input out (by omega) byte
  · exact fun i => shuffles.descramble_rest input out

/-- For every size, scrambling and descrambling undo each other, are inverse permutations of the slices that
leave the rest in place, and stay inside their buffers. -/
theorem scramble_round_trip (size : ℕ) :
    (∀ input scrambled out : Buffer, ∀ i < size,
      dcDescramble (dcdiscScrambleBinary input scrambled size) out size i = input i) ∧
    (∀ input descrambled dst : Buffer, ∀ i < size,
      dcdiscScrambleBinary (dcDescramble input descrambled size) dst size i = input i) ∧
    (∃ perm : Equiv.Perm (Fin (size / 32)), ∀ input out,
      PermutesSlices size perm input (dcdiscScrambleBinary input out size) ∧
        PermutesSlices size perm.symm input (dcDescramble input out size)) ∧
    (∀ copy ∈ descrambleCopies size ++ scrambleCopies size, Inside size copy) ∧
      AccessesInside (descrambleAccesses size ++ scrambleAccesses size) := by
  obtain ⟨perm, permutes⟩ := exists_permutesSlices size
  obtain ⟨order, shuffles⟩ := exists_shuffles size
  refine ⟨?_, ?_, ⟨perm, permutes⟩, shuffles.copies_inside, shuffles.inside⟩
  · intro input scrambled out
    exact (permutes input scrambled).1.round_trip (permutes _ out).2
  · intro input descrambled dst
    have back : PermutesSlices size perm.symm.symm (dcDescramble input descrambled size)
        (dcdiscScrambleBinary (dcDescramble input descrambled size) dst size) := (permutes _ dst).1
    exact (permutes input descrambled).2.round_trip back

end KosTool.Binary
