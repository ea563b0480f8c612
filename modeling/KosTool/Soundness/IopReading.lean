import KosTool.Model.Ps2.IopRead

/-! # What `ee_sif_iop_read` returns

Only the first word of a chunk is looked at, and the look at `D_STAT` that follows gives up in silence. The bytes are the
IOP's exactly if no chunk begins with the sentinel and every chunk is whole when the second loop is over.
-/

namespace KosTool.Ps2.IopRead

open ByteWord WordPatch

variable {answers : ℕ → Answer} {answer : Answer} {iop : Memory} {src : Word} {size time offset : ℕ} {out : Buffer}

section Polling

theorem pollFirst_eq_some_iff {shown : ℕ → Word} {left start : ℕ} : pollFirst shown left start = some time ↔
    (start ≤ time ∧ time < start + left) ∧ shown time ≠ sentinel ∧ ∀ earlier, start ≤ earlier → earlier < time →
      shown earlier = sentinel := by
  induction left generalizing start with
  | zero => exact iff_of_false (fun none => nomatch none) fun ⟨⟨low, high⟩, _⟩ => by omega
  | succ left ih =>
    rw [pollFirst]
    by_cases changed : shown start ≠ sentinel
    · rw [if_pos changed, Option.some.injEq]
      constructor
      · rintro rfl
        exact ⟨⟨Nat.le_refl _, by omega⟩, changed, fun earlier low high => absurd low (Nat.not_le.mpr high)⟩
      · rintro ⟨⟨low, high⟩, -, before⟩
        by_contra later
        exact changed (before start (Nat.le_refl _) (by omega))
    · rw [if_neg changed, ih]
      constructor
      · rintro ⟨⟨low, high⟩, differs, before⟩
        refine ⟨⟨by omega, by omega⟩, differs, fun earlier from' below => ?_⟩
        by_cases first : earlier = start
        · rw [first]
          exact not_not.mp changed
        · exact before earlier (by omega) below
      · rintro ⟨⟨low, high⟩, differs, before⟩
        have later : start ≠ time := fun same => changed (same ▸ differs)
        exact ⟨⟨by omega, by omega⟩, differs, fun earlier from' below => before earlier (by omega) below⟩

theorem pollFirst_isSome_iff {shown : ℕ → Word} {left : ℕ} : (∃ time, pollFirst shown left 0 = some time) ↔
    ∃ time < left, shown time ≠ sentinel := by
  constructor
  · rintro ⟨time, polled⟩
    obtain ⟨⟨-, high⟩, differs, -⟩ := pollFirst_eq_some_iff.mp polled
    exact ⟨time, by omega, differs⟩
  · rintro ⟨time, high, differs⟩
    have some : ∃ time, shown time ≠ sentinel := ⟨time, differs⟩
    classical
    refine ⟨Nat.find some, pollFirst_eq_some_iff.mpr ⟨⟨Nat.zero_le _, ?_⟩, Nat.find_spec some, ?_⟩⟩
    · have first := Nat.find_min' some differs
      omega
    · intro earlier _ below
      exact not_not.mp (Nat.find_min some below)

/-- The wait for `D_STAT` that begins behind a time is over at another. -/
def WaitEnds (dStat : ℕ → Bool) (count seen taken : ℕ) : Prop :=
  (∃ look, taken = look + 1 ∧ (seen < look ∧ look ≤ seen + count) ∧ dStat look ∧
    ∀ earlier, seen < earlier → earlier < look → ¬dStat earlier) ∨
  (taken = seen + 1 + count ∧ ∀ look, seen < look → look ≤ seen + count → ¬dStat look)

theorem pollStat_ends (dStat : ℕ → Bool) (left seen : ℕ) : WaitEnds dStat left seen (pollStat dStat left (seen + 1)) := by
  induction left generalizing seen with
  | zero => exact .inr ⟨rfl, fun look low high => by omega⟩
  | succ left ih =>
    rw [pollStat]
    by_cases shows : dStat (seen + 1)
    · rw [if_pos shows]
      exact .inl ⟨seen + 1, rfl, ⟨by omega, by omega⟩, shows, fun earlier low high => by omega⟩
    · rw [if_neg shows]
      rcases ih (seen + 1) with ⟨look, ends, ⟨low, high⟩, last, before⟩ | ⟨ends, never⟩
      · refine .inl ⟨look, ends, ⟨by omega, by omega⟩, last, fun earlier from' below => ?_⟩
        by_cases first : earlier = seen + 1
        · rwa [first]
        · exact before earlier (by omega) below
      · refine .inr ⟨by omega, fun look low high => ?_⟩
        by_cases first : look = seen + 1
        · rwa [first]
        · exact never look (by omega) (by omega)

/-- There is one such time. -/
theorem WaitEnds.unique {dStat : ℕ → Bool} {count seen first second : ℕ} (left : WaitEnds dStat count seen first)
    (right : WaitEnds dStat count seen second) : first = second := by
  rcases left with ⟨look, rfl, ⟨low, high⟩, shows, before⟩ | ⟨rfl, never⟩
  · rcases right with ⟨other, rfl, ⟨low', high'⟩, shows', before'⟩ | ⟨rfl, never'⟩
    · rcases Nat.lt_trichotomy look other with less | same | more
      · exact absurd shows (before' look low less)
      · rw [same]
      · exact absurd shows' (before other low' more)
    · exact absurd shows (never' look low high)
  · rcases right with ⟨other, rfl, ⟨low', high'⟩, shows', before'⟩ | ⟨rfl, never'⟩
    · exact absurd shows' (never other low' high')
    · rfl

end Polling

section Chunks

/-- The offsets of the chunks. -/
def Chunk (size offset : ℕ) : Prop := scratchSize ∣ offset ∧ offset < size

/-- The length of the chunk at an offset. -/
def chunkSize (size offset : ℕ) : ℕ := min (size - offset) scratchSize

/-- What a chunk begins with once it has arrived. -/
def firstWord (iop : Memory) (src : Word) (size : ℕ) : Word :=
  rd32 (fun i => if i < size then iop (src + BitVec.ofNat 32 i) else 0x5a) 0

/-- The whole answer is visible before the first loop gives up. -/
def Answered (answer : Answer) (size : ℕ) : Prop :=
  answer.sent ∧ ∃ time < pollTimeout, ∀ word, word * 4 < size → answer.visible time word

/-- The first word changes before the first loop gives up. -/
def Noticed (answer : Answer) (iop : Memory) (src : Word) (size : ℕ) : Prop :=
  answer.sent ∧ firstWord iop src size ≠ sentinel ∧ ∃ time < pollTimeout, answer.visible time 0

/-- The answer is whole when the wait for `D_STAT` is over that begins with the first word. -/
def WholeInTime (answer : Answer) (size : ℕ) : Prop :=
  ∀ seen taken, answer.visible seen 0 → (∀ earlier < seen, ¬answer.visible earlier 0) →
    WaitEnds answer.dStat (pollTimeout / 256) seen taken → ∀ word, word * 4 < size → answer.visible taken word

theorem firstWord_shown (time : ℕ) : rd32 (landing answer iop src size time) 0 =
    if answer.visible time 0 then firstWord iop src size else sentinel := by
  by_cases visible : answer.visible time 0
  · rw [if_pos visible]
    refine rd32_congr fun i inside => ?_
    have word : (0 + i) / 4 = 0 := by omega
    simp only [landing, word, visible, and_true]
  · rw [if_neg visible]
    have blank : ∀ i < 4, landing answer iop src size time (0 + i) = 0x5a := by
      intro i inside
      have word : (0 + i) / 4 = 0 := by omega
      rw [landing, word, if_neg fun both => visible both.2]
    calc rd32 (landing answer iop src size time) 0
      _ = rd32 (fun _ => 0x5a) 0 := rd32_congr blank
      _ = sentinel := rfl

/-- The first word has changed exactly if it is visible and not the sentinel. -/
theorem firstWord_ne_iff (answer : Answer) (iop : Memory) (src : Word) (size time : ℕ) :
    rd32 (landing answer iop src size time) 0 ≠ sentinel ↔ answer.visible time 0 ∧ firstWord iop src size ≠ sentinel := by
  rw [firstWord_shown]
  split_ifs with visible
  · rw [and_iff_right visible]
  · exact iff_of_false (fun differs => differs rfl) fun both => visible both.1

/-- A request succeeds exactly if its first word changes in time. -/
theorem getOtherData_isSome_iff (answer : Answer) (iop : Memory) (src : Word) (nonempty : 0 < size) (fits : size ≤ 1024) :
    (∃ taken, getOtherData answer iop src size = some taken) ↔ Noticed answer iop src size := by
  rw [getOtherData, if_neg (by omega)]
  by_cases sent : answer.sent
  · rw [if_pos sent]
    simp only [Option.map_eq_some_iff]
    constructor
    · rintro ⟨taken, time, polled, -⟩
      obtain ⟨time, bound, differs⟩ := pollFirst_isSome_iff.mp ⟨time, polled⟩
      obtain ⟨visible, other⟩ := (firstWord_ne_iff answer iop src size time).mp differs
      exact ⟨sent, other, time, bound, visible⟩
    · rintro ⟨-, other, time, bound, visible⟩
      have differs := (firstWord_ne_iff answer iop src size time).mpr ⟨visible, other⟩
      have changes : ∃ time < pollTimeout, rd32 (landing answer iop src size time) 0 ≠ sentinel := ⟨time, bound, differs⟩
      obtain ⟨seen, polled⟩ := pollFirst_isSome_iff.mpr changes
      exact ⟨_, seen, polled, rfl⟩
  · rw [if_neg sent]
    exact iff_of_false (fun ⟨_, fails⟩ => nomatch fails) fun noticed => sent noticed.1

/-- What a successful request has waited for. -/
theorem getOtherData_waits {taken : ℕ} (returns : getOtherData answer iop src size = some taken) :
    ∃ seen, (answer.visible seen 0 ∧ ∀ earlier < seen, ¬answer.visible earlier 0) ∧
      WaitEnds answer.dStat (pollTimeout / 256) seen taken := by
  unfold getOtherData at returns
  split_ifs at returns
  obtain ⟨seen, polled, rfl⟩ := Option.map_eq_some_iff.mp returns
  obtain ⟨-, differs, before⟩ := pollFirst_eq_some_iff.mp polled
  obtain ⟨visible, other⟩ := (firstWord_ne_iff answer iop src size seen).mp differs
  refine ⟨seen, ⟨visible, fun earlier below shown => ?_⟩, pollStat_ends _ _ seen⟩
  exact (firstWord_ne_iff answer iop src size earlier).mpr ⟨shown, other⟩ (before earlier (Nat.zero_le _) below)

/-- A request that succeeds returns a whole answer if it is whole in time, and then only. -/
theorem whole_iff {taken : ℕ} (returns : getOtherData answer iop src size = some taken) :
    (∀ word, word * 4 < size → answer.visible taken word) ↔ WholeInTime answer size := by
  obtain ⟨seen, ⟨visible, before⟩, ends⟩ := getOtherData_waits returns
  constructor
  · intro whole seen' taken' visible' before' ends' word inside
    have same : seen' = seen := by
      rcases Nat.lt_trichotomy seen' seen with less | same | more
      · exact absurd visible' (before seen' less)
      · exact same
      · exact absurd visible (before' seen more)
    rw [same] at ends'
    rw [ends'.unique ends]
    exact whole word inside
  · intro whole
    exact whole seen taken visible before ends

/-- A byte of a whole answer is taken as it is. -/
theorem takeChunk_byte {taken i : ℕ} (whole : ∀ word, word * 4 < size → answer.visible taken word)
    (inside : i < (takeChunk answer iop src size taken).length) :
    (takeChunk answer iop src size taken)[i] = iop (src + BitVec.ofNat 32 i) := by
  have bound : i < size := by rwa [takeChunk, List.length_map, List.length_range] at inside
  have visible := answer.stays taken (taken + i) (i / 4) (Nat.le_add_right _ _) (whole (i / 4) (by omega))
  simp only [takeChunk, List.getElem_map, List.getElem_range, landing, bound, visible, and_true, if_true]

end Chunks

section Loop

/-- What the loop does from an offset on: it succeeds exactly if every chunk is noticed; what was written before is left alone;
and the bytes are the IOP's if the chunks are whole in time. -/
structure LoopReads (answers : ℕ → Answer) (iop : Memory) (src : Word) (size offset : ℕ) (out : Buffer)
    (result : ℤ × Buffer) : Prop where
  succeeds : result.1 = 0 ↔ ∀ later, offset ≤ later → Chunk size later →
    Noticed (answers later) iop (src + BitVec.ofNat 32 later) (chunkSize size later)
  kept : ∀ i < offset, result.2 i = out i
  bytes : result.1 = 0 →
    (∀ later, offset ≤ later → Chunk size later → WholeInTime (answers later) (chunkSize size later)) →
    ∀ i, offset ≤ i → i < size → result.2 i = iop (src + BitVec.ofNat 32 i)

/-- The chunks from an offset on are the one at it and those behind it. -/
theorem chunk_iff {later : ℕ} (aligned : scratchSize ∣ offset) (more : offset < size) :
    offset ≤ later ∧ Chunk size later ↔ later = offset ∨ (offset + chunkSize size offset ≤ later ∧ Chunk size later) := by
  constructor
  · rintro ⟨from', chunk⟩
    by_cases here : later = offset
    · exact .inl here
    · obtain ⟨k, rfl⟩ := aligned
      obtain ⟨⟨l, rfl⟩, inside⟩ := chunk
      refine .inr ⟨?_, ⟨l, rfl⟩, inside⟩
      simp only [chunkSize, scratchSize] at *
      omega
  · rintro (rfl | ⟨behind, chunk⟩)
    · exact ⟨Nat.le_refl _, aligned, more⟩
    · exact ⟨Nat.le_of_add_right_le behind, chunk⟩

theorem loopReads_done (ends : size ≤ offset) : LoopReads answers iop src size offset out (0, out) where
  succeeds := iff_of_true rfl fun later from' chunk => by
    have inside := chunk.2
    omega
  kept _ _ := rfl
  bytes _ _ i low high := by omega

theorem iopReadLoop_reads {fuel : ℕ} (enough : size ≤ offset + fuel) (aligned : size ≤ offset ∨ scratchSize ∣ offset) :
    LoopReads answers iop src size offset out (iopReadLoop answers iop src size fuel offset out) := by
  induction fuel generalizing offset out with
  | zero => exact loopReads_done enough
  | succ fuel ih =>
    rw [iopReadLoop]
    by_cases more : offset < size
    · rw [if_pos more]
      have whole := aligned.resolve_left (Nat.not_le.mpr more)
      have size_chunk : min (size - offset) scratchSize = chunkSize size offset := rfl
      have nonempty : 0 < chunkSize size offset := by simp only [chunkSize, scratchSize]; omega
      have fits : chunkSize size offset ≤ 1024 := Nat.min_le_right _ _
      have noticed := getOtherData_isSome_iff (answers offset) iop (src + BitVec.ofNat 32 offset) nonempty fits
      dsimp only
      rw [size_chunk]
      cases returns : getOtherData (answers offset) iop (src + BitVec.ofNat 32 offset) (chunkSize size offset) with
      | none =>
        dsimp only
        have fails : (-1 : ℤ) ≠ 0 := by decide
        refine ⟨iff_of_false fails fun all => ?_, fun _ _ => rfl, fun zero => absurd zero fails⟩
        obtain ⟨taken, succeeds⟩ := noticed.mpr (all offset (Nat.le_refl _) ⟨whole, more⟩)
        rw [returns] at succeeds
        exact nomatch succeeds
      | some taken =>
        dsimp only
        have next : size ≤ offset + chunkSize size offset ∨ scratchSize ∣ offset + chunkSize size offset := by
          by_cases last : size - offset ≤ scratchSize
          · exact .inl (by rw [chunkSize, Nat.min_eq_left last]; omega)
          · exact .inr (by rw [chunkSize, Nat.min_eq_right (by omega)]; exact (Nat.dvd_add_right whole).mpr (dvd_refl _))
        have reads := @ih (offset + chunkSize size offset) (storeAt out offset
          (takeChunk (answers offset) iop (src + BitVec.ofNat 32 offset) (chunkSize size offset) taken)) (by omega) next
        refine ⟨?_, fun i below => ?_, fun zero inTime i low high => ?_⟩
        · rw [reads.succeeds]
          constructor
          · intro later' later from' chunk
            rcases (chunk_iff whole more).mp ⟨from', chunk⟩ with rfl | ⟨behind, chunk⟩
            · exact noticed.mp ⟨taken, returns⟩
            · exact later' later behind chunk
          · intro all later behind chunk
            exact all later (Nat.le_of_add_right_le behind) chunk
        · rw [reads.kept i (by omega), storeAt_outside _ (.inl below)]
        · by_cases here : i < offset + chunkSize size offset
          · have arrived := (whole_iff returns).mpr (inTime offset (Nat.le_refl _) ⟨whole, more⟩)
            have length : (takeChunk (answers offset) iop (src + BitVec.ofNat 32 offset) (chunkSize size offset) taken).length =
                chunkSize size offset := by rw [takeChunk, List.length_map, List.length_range]
            obtain ⟨k, rfl⟩ := Nat.exists_eq_add_of_le low
            rw [reads.kept _ here, storeAt_add, overlay_of_lt (by omega), takeChunk_byte arrived, BitVec.ofNat_add,
              BitVec.add_assoc]
          · exact reads.bytes zero (fun later behind chunk => inTime later (Nat.le_of_add_right_le behind) chunk) i (by omega) high
    · rw [if_neg more]
      exact loopReads_done (Nat.not_lt.mp more)

/-- What a call promises: once the IOP has answered it succeeds; it succeeds with the IOP's bytes only, and with no request
that returned before its answer was whole. -/
structure Reads (answers : ℕ → Answer) (iop : Memory) (src : Word) (size : ℕ) (out : Buffer) : Prop where
  answered : (∀ offset, Chunk size offset → Answered (answers offset) (chunkSize size offset)) →
    (iopRead answers iop src size out).1 = 0
  bytes : (iopRead answers iop src size out).1 = 0 → slice (iopRead answers iop src size out).2 0 size = iop.copyOut src size
  arrived : (iopRead answers iop src size out).1 = 0 → ∀ offset, Chunk size offset → ∃ taken,
    getOtherData (answers offset) iop (src + BitVec.ofNat 32 offset) (chunkSize size offset) = some taken ∧
      ∀ word, word * 4 < chunkSize size offset → (answers offset).visible taken word

theorem chunkSize_pos (chunk : Chunk size offset) : 0 < chunkSize size offset := by
  have inside := chunk.2
  simp only [chunkSize, scratchSize]
  omega

/-- The call keeps its promise exactly if no answered chunk begins with the sentinel, as long as all are answered, and every
chunk is whole in time, as long as all are noticed. -/
theorem iopRead_reads_iff (answers : ℕ → Answer) (iop : Memory) (src : Word) (size : ℕ) (out : Buffer) :
    Reads answers iop src size out ↔
    ((∀ offset, Chunk size offset → Answered (answers offset) (chunkSize size offset)) → ∀ offset, Chunk size offset →
      firstWord iop (src + BitVec.ofNat 32 offset) (chunkSize size offset) ≠ sentinel) ∧
    ((∀ offset, Chunk size offset → Noticed (answers offset) iop (src + BitVec.ofNat 32 offset) (chunkSize size offset)) →
      ∀ offset, Chunk size offset → WholeInTime (answers offset) (chunkSize size offset)) := by
  have loop : LoopReads answers iop src size 0 out (iopRead answers iop src size out) :=
    iopReadLoop_reads (Nat.le_of_eq (Nat.zero_add size).symm) (.inr (dvd_zero _))
  have succeeds : (iopRead answers iop src size out).1 = 0 ↔ ∀ offset, Chunk size offset →
      Noticed (answers offset) iop (src + BitVec.ofNat 32 offset) (chunkSize size offset) := by
    rw [loop.succeeds]
    exact ⟨fun all offset chunk => all offset (Nat.zero_le _) chunk, fun all offset _ chunk => all offset chunk⟩
  have request (offset : ℕ) (chunk : Chunk size offset) := getOtherData_isSome_iff (answers offset) iop
    (src + BitVec.ofNat 32 offset) (chunkSize_pos chunk) (Nat.min_le_right _ _)
  constructor
  · intro reads
    refine ⟨fun answered offset chunk => ?_, fun noticed offset chunk => ?_⟩
    · exact (succeeds.mp (reads.answered answered) offset chunk).2.1
    · obtain ⟨taken, returns, whole⟩ := reads.arrived (succeeds.mpr noticed) offset chunk
      exact (whole_iff returns).mp whole
  · rintro ⟨begins, inTime⟩
    refine ⟨fun answered => succeeds.mpr fun offset chunk => ?_, fun zero => ?_, fun zero offset chunk => ?_⟩
    · obtain ⟨sent, time, bound, visible⟩ := answered offset chunk
      exact ⟨sent, begins answered offset chunk, time, bound, visible 0 (by rw [Nat.zero_mul]; exact chunkSize_pos chunk)⟩
    · have whole := inTime (succeeds.mp zero)
      apply List.ext_getElem
      · rw [length_slice, Memory.length_copyOut]
      · intro i left right
        rw [length_slice] at left
        rw [getElem_slice, Memory.getElem_copyOut, Nat.zero_add]
        exact loop.bytes zero (fun later _ chunk => whole later chunk) i (Nat.zero_le i) left
    · obtain ⟨taken, returns⟩ := (request offset chunk).mpr (succeeds.mp zero offset chunk)
      exact ⟨taken, returns, (whole_iff returns).mpr (inTime (succeeds.mp zero) offset chunk)⟩

/-- An answer that is whole at once. -/
def atOnce : Answer := ⟨true, fun _ _ => true, fun _ => true, fun _ _ _ _ visible => visible⟩

/-- A word of memory that is the sentinel is never read. -/
theorem iopRead_misses_sentinel : ¬Reads (fun _ => atOnce) (fun _ => 0x5a) 0 4 (fun _ => 0) := by
  intro reads
  have answered : ∀ offset, Chunk 4 offset → Answered atOnce (chunkSize 4 offset) := fun _ _ =>
    ⟨rfl, 0, by decide, fun _ _ => rfl⟩
  have first : Chunk 4 0 := ⟨dvd_zero _, by decide⟩
  obtain ⟨taken, returns, -⟩ := reads.arrived (reads.answered answered) 0 first
  have noticed := (getOtherData_isSome_iff atOnce (fun _ => 0x5a) (0 + BitVec.ofNat 32 0) (by decide : 0 < 4) (by decide)).mp
    ⟨taken, returns⟩
  exact noticed.2.1 rfl

end Loop

end KosTool.Ps2.IopRead
