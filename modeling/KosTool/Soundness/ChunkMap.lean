import KosTool.Model.Client.Commands

/-! # Chunks and the bitmap, for either chunk size

An image of `loadSize` bytes is cut into chunks of 1024 or 1440 bytes. A `PBIN` at the start of a chunk
indexes that chunk. `DBIN` answers with the first chunk whose bit is clear, or, once the bit of every
chunk is set, with a size of zero or a range that does not lie inside the image.
-/

namespace KosTool.Client

open ByteWord DivUtil Protocol ReciprocalDivision

/-- The number of chunks. -/
def chunksOf (payload1024 : Bool) (loadSize : Word) : ℕ :=
  (loadSize.toNat + chunkSize payload1024 - 1) / chunkSize payload1024

/-- The length of a chunk: all but the last are full. -/
def lengthOf (payload1024 : Bool) (loadSize : Word) (k : ℕ) : ℕ :=
  min (loadSize.toNat - k * chunkSize payload1024) (chunkSize payload1024)

theorem chunkSize_true : chunkSize true = 1024 := rfl

theorem chunkSize_false : chunkSize false = 1440 := rfl

theorem chunkSize_pos (payload1024 : Bool) : 0 < chunkSize payload1024 := by
  cases payload1024 <;> decide

theorem chunkSize_le (payload1024 : Bool) : chunkSize payload1024 ≤ 1440 := by
  cases payload1024 <;> decide

theorem lt_chunksOf_iff (payload1024 : Bool) (loadSize : Word) (k : ℕ) :
    k < chunksOf payload1024 loadSize ↔ k * chunkSize payload1024 < loadSize.toNat := by
  cases payload1024 <;> simp only [chunksOf, chunkSize, if_true, Bool.false_eq_true, if_false] <;> omega

theorem lengthOf_pos {payload1024 : Bool} {loadSize : Word} {k : ℕ}
    (inside : k * chunkSize payload1024 < loadSize.toNat) : 0 < lengthOf payload1024 loadSize k :=
  Nat.lt_min.mpr ⟨by omega, chunkSize_pos payload1024⟩

/-- A `PBIN` at the start of a chunk indexes it. -/
theorem partbinIndex_mul (payload1024 : Bool) {k : ℕ} (small : k * chunkSize payload1024 < 2 ^ 32) :
    partbinIndex payload1024 (BitVec.ofNat 32 (k * chunkSize payload1024)) = k := by
  cases payload1024 with
  | true =>
    rw [chunkSize_true] at small ⊢
    rw [partbinIndex, if_pos rfl, BitVec.toNat_udiv, BitVec.toNat_ofNat, Nat.mod_eq_of_lt small]
    exact Nat.mul_div_cancel k (by decide)
  | false =>
    rw [chunkSize_false] at small ⊢
    rw [partbinIndex, if_neg Bool.false_ne_true]
    refine toNat_udivConst_of_dvd (by decide) ?_
    rw [BitVec.toNat_ofNat, Nat.mod_eq_of_lt small]
    rfl

theorem payloadSize_eq {toolVersion : Word} {legacy : Bool} (version : dctoolMajor toolVersion < 2#32 ↔ legacy) :
    payloadSize toolVersion = BitVec.ofNat 32 (chunkSize legacy) := by
  cases legacy with
  | true => rw [payloadSize, if_pos (version.mpr rfl)]; rfl
  | false => rw [payloadSize, if_neg fun old => Bool.false_ne_true (version.mp old)]; rfl

/-- The console cuts its chunks as the host does. -/
def ChunkSizeAgreed (legacyMode : Bool) (loader : Loader) : Prop :=
  dctoolMajor loader.toolVersion < 2#32 ↔ legacyMode = true

/-- If the datagram tells the tool's version, then one with the host's chunk size. -/
def KeepsChunkSize (legacyMode : Bool) (loader : Loader) (udp : Udp) : Prop :=
  loader.Takes udp netCmdVersion → (dctoolMajor (commandAddress loader.rx udp.data) < 2#32 ↔ legacyMode = true)

instance (legacyMode : Bool) (loader : Loader) : Decidable (ChunkSizeAgreed legacyMode loader) :=
  inferInstanceAs (Decidable (_ ↔ _))

instance (legacyMode : Bool) (loader : Loader) (udp : Udp) : Decidable (KeepsChunkSize legacyMode loader udp) :=
  inferInstanceAs (Decidable (_ → (_ ↔ _)))

/-- The chunk sizes stay agreed. -/
theorem chunkSizeAgreed_processUdp {legacyMode : Bool} {target : Target} {loader : Loader} {udp : Udp} {now : ℕ}
    (agreed : ChunkSizeAgreed legacyMode loader) (keeps : KeepsChunkSize legacyMode loader udp) :
    ChunkSizeAgreed legacyMode (loader.processUdp target udp now).1 := by
  unfold ChunkSizeAgreed
  by_cases version : loader.Takes udp netCmdVersion
  · rw [Loader.processUdp_version version]
    exact keeps version
  · rw [Loader.processUdp_toolVersion version]
    exact agreed

/-- The count of `DBIN` is the number of chunks, or one more. -/
theorem mapIndexVerify_cases {toolVersion loadSize : Word} {legacy : Bool}
    (version : dctoolMajor toolVersion < 2#32 ↔ legacy) (room : loadSize.toNat + chunkSize legacy ≤ 2 ^ 32) :
    mapIndexVerify toolVersion loadSize = chunksOf legacy loadSize ∨
      mapIndexVerify toolVersion loadSize = chunksOf legacy loadSize + 1 := by
  cases legacy with
  | true =>
    left
    rw [chunkSize_true] at room
    have total : (loadSize + 1023#32).toNat = loadSize.toNat + 1023 := by
      rw [BitVec.toNat_add, BitVec.toNat_ofNat]
      omega
    rw [mapIndexVerify, if_pos (version.mpr rfl), BitVec.toNat_udiv, total, chunksOf, chunkSize_true]
    rfl
  | false =>
    rw [chunkSize_false] at room
    have total : (loadSize + 1439#32).toNat = loadSize.toNat + 1439 := by
      rw [BitVec.toNat_add, BitVec.toNat_ofNat]
      omega
    rw [mapIndexVerify, if_neg fun old => Bool.false_ne_true (version.mp old),
      toNat_udivConst_eq _ (by decide), total]
    rw [chunksOf, chunkSize_false]
    split_ifs
    · exact Or.inr rfl
    · exact Or.inl rfl

/-- The count for at most one chunk is exact. -/
theorem mapIndexVerify_one {toolVersion size : Word} {legacy : Bool}
    (version : dctoolMajor toolVersion < 2#32 ↔ legacy) (nonempty : 0 < size.toNat)
    (short : size.toNat ≤ chunkSize legacy) : mapIndexVerify toolVersion size = 1 := by
  cases legacy with
  | true =>
    rw [chunkSize_true] at short
    have total : (size + 1023#32).toNat = size.toNat + 1023 := by
      rw [BitVec.toNat_add, BitVec.toNat_ofNat]
      omega
    rw [mapIndexVerify, if_pos (version.mpr rfl), BitVec.toNat_udiv, total]
    change (size.toNat + 1023) / 1024 = 1
    omega
  | false =>
    rw [chunkSize_false] at short
    have total : (size + 1439#32).toNat = size.toNat + 1439 := by
      rw [BitVec.toNat_add, BitVec.toNat_ofNat]
      omega
    rw [mapIndexVerify, if_neg fun old => Bool.false_ne_true (version.mp old),
      toNat_udivConst _ (by decide), total, show reciprocal (2 ^ 32) (1440#32).toNat = 2982617 by decide]
    omega

/-- Every packet of the stream is a piece of the range asked for, or lies empty at its end. -/
theorem mem_sendbinPackets {memory : Memory} {step address left : Word} {count : ℕ} {packet : List Byte}
    (among : packet ∈ sendbinPackets memory step count address left) :
    ∃ k < count, packet = netCommand netCmdSendbin (address + BitVec.ofNat 32 (min (k * step.toNat) left.toNat))
      (BitVec.ofNat 32 (min (left.toNat - k * step.toNat) step.toNat))
      (memory.copyOut (address + BitVec.ofNat 32 (min (k * step.toNat) left.toNat))
        (min (left.toNat - k * step.toNat) step.toNat)) := by
  induction count generalizing address left with
  | zero => cases among
  | succ count ih =>
    rw [sendbinPackets] at among
    have taken : (if step ≤ left then step else left) = BitVec.ofNat 32 (min left.toNat step.toNat) := by
      split <;> bv_omega
    have size : (BitVec.ofNat 32 (min left.toNat step.toNat)).toNat = min left.toNat step.toNat :=
      (BitVec.toNat_ofNat _ _).trans (Nat.mod_eq_of_lt (Nat.lt_of_le_of_lt (Nat.min_le_left _ _) left.isLt))
    rw [taken] at among
    rcases List.mem_cons.mp among with first | later
    · refine ⟨0, Nat.succ_pos count, ?_⟩
      rw [first, size, Nat.zero_mul, Nat.zero_min, Nat.sub_zero, BitVec.add_zero]
    · obtain ⟨k, below, rfl⟩ := ih later
      refine ⟨k + 1, Nat.succ_lt_succ below, ?_⟩
      have rest : (left - BitVec.ofNat 32 (min left.toNat step.toNat)).toNat =
          left.toNat - min left.toNat step.toNat := by
        bv_omega
      have place : min ((k + 1) * step.toNat) left.toNat = min left.toNat step.toNat +
          min (k * step.toNat) (left.toNat - min left.toNat step.toNat) := by
        rw [Nat.add_mul, Nat.one_mul]
        omega
      have length : left.toNat - (k + 1) * step.toNat =
          left.toNat - min left.toNat step.toNat - k * step.toNat := by
        rw [Nat.add_mul, Nat.one_mul]
        omega
      rw [rest, place, length, BitVec.ofNat_add, BitVec.add_assoc]

/-- The two kinds of answers to `DBIN`. -/
theorem donebinAnswer_cases {toolVersion : Word} (binInfo : BinInfo) {legacy : Bool}
    (version : dctoolMajor toolVersion < 2#32 ↔ legacy) (small : binInfo.loadSize.toNat + 2880 ≤ 2 ^ 32) :
    (∃ k < chunksOf legacy binInfo.loadSize, binInfo.map k = false ∧
      donebinAnswer toolVersion binInfo =
        (binInfo.loadAddress + BitVec.ofNat 32 (k * chunkSize legacy),
          BitVec.ofNat 32 (lengthOf legacy binInfo.loadSize k))) ∨
    (∀ k < chunksOf legacy binInfo.loadSize, binInfo.map k = true) ∧
      ((donebinAnswer toolVersion binInfo).2 = 0#32 ∨
        binInfo.loadSize < (donebinAnswer toolVersion binInfo).1 - binInfo.loadAddress +
          (donebinAnswer toolVersion binInfo).2) := by
  obtain ⟨upper, set, clear⟩ :=
    (mapScan_eq_iff binInfo.map (mapIndexVerify toolVersion binInfo.loadSize) _).mp rfl
  have full := chunkSize_le legacy
  have verify := mapIndexVerify_cases version (by omega : binInfo.loadSize.toNat + chunkSize legacy ≤ 2 ^ 32)
  generalize stops : mapScan binInfo.map 0 (mapIndexVerify toolVersion binInfo.loadSize) = stop at *
  have answer : stop ≠ mapIndexVerify toolVersion binInfo.loadSize →
      donebinAnswer toolVersion binInfo = (binInfo.loadAddress + BitVec.ofNat 32 (stop * chunkSize legacy),
        minWord (binInfo.loadSize - BitVec.ofNat 32 (stop * chunkSize legacy))
          (BitVec.ofNat 32 (chunkSize legacy))) := fun early => by
    simp only [donebinAnswer, stops, if_neg early, payloadSize_eq version, BitVec.ofNat_mul]
  by_cases inside : stop < chunksOf legacy binInfo.loadSize
  · left
    have chunk := (lt_chunksOf_iff _ _ _).mp inside
    refine ⟨stop, inside, clear (by omega), ?_⟩
    rw [answer (by omega)]
    congr 1
    apply BitVec.eq_of_toNat_eq
    rw [toNat_minWord, BitVec.toNat_sub, BitVec.toNat_ofNat, BitVec.toNat_ofNat, BitVec.toNat_ofNat, lengthOf]
    omega
  · right
    refine ⟨fun k below => set k (by omega), ?_⟩
    by_cases finished : stop = mapIndexVerify toolVersion binInfo.loadSize
    · left
      simp only [donebinAnswer, stops, finished, if_true]
    · -- The count is one too large, and the chunk asked for lies behind the image.
      have last : stop = chunksOf legacy binInfo.loadSize := by omega
      have behind : binInfo.loadSize.toNat ≤ stop * chunkSize legacy :=
        Nat.not_lt.mp fun less => inside ((lt_chunksOf_iff _ _ _).mpr less)
      have near : stop * chunkSize legacy ≤ binInfo.loadSize.toNat + chunkSize legacy - 1 := by
        rw [last]
        exact Nat.div_mul_le_self _ _
      have positive := chunkSize_pos legacy
      rw [answer finished]
      generalize stop * chunkSize legacy = offset at *
      generalize chunkSize legacy = chunk at *
      by_cases exact : binInfo.loadSize.toNat = offset
      · left
        apply BitVec.eq_of_toNat_eq
        rw [toNat_minWord, BitVec.toNat_sub, BitVec.toNat_ofNat, exact]
        change min ((2 ^ 32 - offset % 2 ^ 32 + offset) % 2 ^ 32) _ = 0
        omega
      · right
        have length : (minWord (binInfo.loadSize - BitVec.ofNat 32 offset) (BitVec.ofNat 32 chunk)).toNat =
            chunk := by
          rw [toNat_minWord, BitVec.toNat_sub, BitVec.toNat_ofNat, BitVec.toNat_ofNat]
          omega
        have start : (binInfo.loadAddress + BitVec.ofNat 32 offset - binInfo.loadAddress).toNat = offset := by
          bv_omega
        rw [BitVec.lt_def, BitVec.toNat_add, start, length]
        omega

end KosTool.Client
