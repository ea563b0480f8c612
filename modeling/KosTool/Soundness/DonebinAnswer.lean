import KosTool.Model.Client.Commands

/-! # What `DBIN` answers

After a `LBIN` and any `PBIN` datagrams, `DBIN` should name the lowest chunk still missing, or zero
when none is. The answer is read off a bitmap that both sides index by the reciprocal division, so it
is truthful exactly when the bitmap agrees with the bytes received up to the chunk it stops at, and
the chunk count has not come out one too large.
-/

namespace KosTool.Client

open ByteWord DivUtil Protocol ReciprocalDivision

/-- A `PBIN` as it arrives: header fields, data, and where and when it is processed. -/
structure Partbin where
  address : Word
  size : Word
  data : List Byte
  length : BitVec 16
  frame : ℕ
  now : ℕ

/-- A `LBIN` as it arrives. -/
structure Loadbin where
  address : Word
  size : Word
  length : BitVec 16
  frame : ℕ
  now : ℕ

namespace Partbin

def udp (partbin : Partbin) : Udp :=
  { length := partbin.length, checksumMatches := true, data := partbin.frame }

/-- The bit the `PBIN` sets. -/
def index (partbin : Partbin) (loadAddress : Word) : ℕ :=
  (udivConst (partbin.address - loadAddress) 1440#32).toNat

/-- The `PBIN` brings the byte at an offset above the load address. -/
def Brings (partbin : Partbin) (loadAddress : Word) (offset : ℕ) : Prop :=
  (loadAddress + BitVec.ofNat 32 offset - partbin.address).toNat <
    min partbin.size.toNat partbin.data.length

end Partbin

namespace Loader

/-- A `PBIN` arrives and is processed. -/
def partbin (target : Target) (loader : Loader) (partbin : Partbin) : Loader :=
  ((loader.receive partbin.frame (netCommand netCmdPartbin partbin.address partbin.size
    partbin.data)).cmdPartbin target partbin.udp partbin.now).1

/-- A `LBIN` arrives and is processed. -/
def loadbin (target : Target) (loader : Loader) (loadbin : Loadbin) : Loader × List Effect :=
  (loader.receive loadbin.frame (netCommand netCmdLoadbin loadbin.address loadbin.size [])).cmdLoadbin
    target { length := loadbin.length, checksumMatches := true, data := loadbin.frame } loadbin.now

/-- The loader after the `LBIN` and the `PBIN` datagrams. -/
def upload (target : Target) (loader : Loader) (loadbin : Loadbin) (partbins : List Partbin) : Loader :=
  partbins.foldl (partbin target) (loader.loadbin target loadbin).1

/-- A `DBIN` arriving now is answered with the address and the size. -/
def DonebinAnswers (loader : Loader) (address size : Word) : Prop :=
  ∀ (sent : Word × Word) (length : BitVec 16) (frame now : ℕ),
    ((loader.receive frame (netCommand netCmdDonebin sent.1 sent.2 [])).cmdDonebin
      { length, checksumMatches := true, data := frame } now).2 =
        [.tx (netCommand netCmdDonebin address size [])]

end Loader

/-- The number of 1440-byte chunks of an image. -/
def chunkCount (loadSize : Word) : ℕ := (loadSize.toNat + 1439) / 1440

/-- The length of a chunk: all but the last are full. -/
def chunkLength (loadSize : Word) (k : ℕ) : ℕ := min (loadSize.toNat - k * 1440) 1440

/-- Every byte of the chunk has arrived. -/
def ChunkReceived (loadbin : Loadbin) (partbins : List Partbin) (k : ℕ) : Prop :=
  ∀ i < chunkLength loadbin.size k, ∃ partbin ∈ partbins, partbin.Brings loadbin.address (k * 1440 + i)

/-- The chunk is the lowest one not received. -/
def LowestMissing (loadbin : Loadbin) (partbins : List Partbin) (k : ℕ) : Prop :=
  k * 1440 < loadbin.size.toNat ∧ ¬ ChunkReceived loadbin partbins k ∧
    ∀ j < k, ChunkReceived loadbin partbins j

/-- `DBIN` tells the truth: zero exactly when every chunk has arrived, otherwise the lowest missing
chunk with its length, which is inside the image. -/
structure DonebinTruthful (loader : Loader) (loadbin : Loadbin) (partbins : List Partbin) : Prop where
  complete : loader.DonebinAnswers 0#32 0#32 ↔
    ∀ k, k * 1440 < loadbin.size.toNat → ChunkReceived loadbin partbins k
  missing : ∀ k, LowestMissing loadbin partbins k →
    loader.DonebinAnswers (loadbin.address + BitVec.ofNat 32 (k * 1440))
        (BitVec.ofNat 32 (chunkLength loadbin.size k)) ∧
      0 < chunkLength loadbin.size k ∧ k * 1440 + chunkLength loadbin.size k ≤ loadbin.size.toNat

/-- Some `PBIN` points into the chunk. -/
def Indexed (loadbin : Loadbin) (partbins : List Partbin) (k : ℕ) : Prop :=
  ∃ partbin ∈ partbins, partbin.index loadbin.address = k

/-- The indices of the `PBIN` datagrams stop where the received chunks stop, and a count one too large
is harmless. -/
structure IndicesHonest (target : Target) (loadbin : Loadbin) (partbins : List Partbin) : Prop where
  complete : (∀ k, k * 1440 < loadbin.size.toNat → ChunkReceived loadbin partbins k) →
    (∀ k < chunkCount loadbin.size, Indexed loadbin partbins k) ∧
      (¬ Overshoots (2 ^ 32) 1440 (loadbin.size.toNat + 1439) ∨
        chunkCount loadbin.size < target.platform.binInfoMapEntries ∧
          Indexed loadbin partbins (chunkCount loadbin.size) ∨
        loadbin.size.toNat % 1440 = 0 ∧ loadbin.address + loadbin.size = 0#32)
  missing : ∀ k, LowestMissing loadbin partbins k →
    (∀ j < k, Indexed loadbin partbins j) ∧ ¬ Indexed loadbin partbins k

theorem donebinAnswers_iff {loader : Loader} {address size : Word} :
    loader.DonebinAnswers address size ↔
      donebinAnswer loader.toolVersion loader.binInfo = (address, size) := by
  have reply (sent : Word × Word) (length : BitVec 16) (frame now : ℕ) :
      ((loader.receive frame (netCommand netCmdDonebin sent.1 sent.2 [])).cmdDonebin
        { length, checksumMatches := true, data := frame } now).2 =
          [.tx (netCommand netCmdDonebin (donebinAnswer loader.toolVersion loader.binInfo).1
            (donebinAnswer loader.toolVersion loader.binInfo).2 [])] := by
    simp only [Loader.cmdDonebin, Loader.netBumpSyscallDeadline_rx, Loader.netBumpSyscallDeadline_binInfo,
      Loader.netBumpSyscallDeadline_toolVersion, Loader.receive, commandId_storeAt]
  constructor
  · intro answers
    have sent := (reply (0, 0) 0 0 0).symm.trans (answers (0, 0) 0 0 0)
    rw [List.cons.injEq, Effect.tx.injEq, netCommand_inj] at sent
    exact Prod.ext sent.1.2.1 sent.1.2.2.1
  · intro answer sent length frame now
    rw [reply, answer]

/-- What an upload with a current tool keeps: the announced range, and a bitmap of the indices. -/
structure Uploaded (target : Target) (loader : Loader) (loadbin : Loadbin) (partbins : List Partbin) :
    Prop where
  loadAddress : loader.binInfo.loadAddress = loadbin.address
  loadSize : loader.binInfo.loadSize = loadbin.size
  version : ¬ dctoolMajor loader.toolVersion < 2#32
  payload1024 : loader.payload1024 = false
  map : ∀ k < target.platform.binInfoMapBytes * 8,
    loader.binInfo.map k = true ↔ Indexed loadbin partbins k ∧ k < target.platform.binInfoMapEntries

variable {target : Target} {loader : Loader} {loadbin : Loadbin} {partbins : List Partbin}

theorem uploaded_loadbin (version : ¬ dctoolMajor loader.toolVersion < 2#32)
    (fits : loadbin.size.toNat ≤ loadLimit target loader.toolVersion) :
    Uploaded target (loader.loadbin target loadbin).1 loadbin [] := by
  rw [Loader.loadbin, Loader.cmdLoadbin_of_le (by simpa only [Loader.receive, commandSize_storeAt] using fits)]
  refine ⟨?_, ?_, ?_, ?_, fun k inside => ?_⟩
  · exact commandAddress_storeAt _ _ _ _ _ _
  · exact commandSize_storeAt _ _ _ _ _ _
  · rwa [Loader.netBumpSyscallDeadline_toolVersion]
  · exact decide_eq_false version
  · simp [mapClearAll, inside, Indexed]

theorem uploaded_partbin (uploaded : Uploaded target loader loadbin partbins) (partbin : Partbin) :
    Uploaded target (loader.partbin target partbin) loadbin (partbins ++ [partbin]) := by
  refine ⟨?_, ?_, ?_, ?_, fun k inside => ?_⟩
  · rw [Loader.partbin, Loader.cmdPartbin_loadAddress]
    exact uploaded.loadAddress
  · rw [Loader.partbin, Loader.cmdPartbin_loadSize]
    exact uploaded.loadSize
  · rw [Loader.partbin, Loader.cmdPartbin_toolVersion]
    exact uploaded.version
  · rw [Loader.partbin, Loader.cmdPartbin_payload1024]
    exact uploaded.payload1024
  · have index : partbinIndex loader.payload1024 ((loader.receive partbin.frame (netCommand netCmdPartbin
        partbin.address partbin.size partbin.data)).partbinOffset partbin.udp) =
        partbin.index loadbin.address := by
      simp only [Loader.partbinOffset, Loader.receive, Partbin.udp, commandAddress_storeAt, partbinIndex,
        uploaded.payload1024, uploaded.loadAddress, Partbin.index, Bool.false_eq_true, if_false]
    rw [Loader.partbin, Loader.cmdPartbin_map, Bool.or_eq_true_iff, decide_eq_true_iff]
    change loader.binInfo.map k = true ∨ k = partbinIndex loader.payload1024 _ ∧ _ ↔ _
    rw [index, uploaded.map k inside]
    simp only [Indexed, List.mem_append, List.mem_singleton]
    constructor
    · rintro (⟨⟨earlier, member, same⟩, below⟩ | ⟨same, below⟩)
      · exact ⟨⟨earlier, Or.inl member, same⟩, below⟩
      · exact ⟨⟨partbin, Or.inr rfl, same.symm⟩, below⟩
    · rintro ⟨⟨earlier, member | rfl, same⟩, below⟩
      · exact Or.inl ⟨⟨earlier, member, same⟩, below⟩
      · exact Or.inr ⟨same.symm, below⟩

/-- An upload keeps what it should, `PBIN` by `PBIN`. -/
theorem uploaded_upload (partbins : List Partbin) (version : ¬ dctoolMajor loader.toolVersion < 2#32)
    (fits : loadbin.size.toNat ≤ loadLimit target loader.toolVersion) :
    Uploaded target (loader.upload target loadbin partbins) loadbin partbins := by
  induction partbins using List.reverseRecOn with
  | nil => exact uploaded_loadbin version fits
  | append_singleton partbins partbin ih =>
    rw [Loader.upload, List.foldl_concat]
    exact uploaded_partbin ih partbin

theorem chunkCount_le (fits : loadbin.size.toNat ≤ target.platform.maxRamBytes) :
    chunkCount loadbin.size ≤ target.platform.binInfoMapEntries :=
  Nat.div_le_div_right (Nat.add_le_add_right fits 1439)

theorem lt_chunkCount_iff (size : Word) (k : ℕ) : k < chunkCount size ↔ k * 1440 < size.toNat := by
  unfold chunkCount
  omega

theorem chunkCount_mul_le (size : Word) : chunkCount size * 1440 ≤ size.toNat + 1439 := by
  unfold chunkCount
  omega

/-- The chunk count comes out right, or one too large. -/
theorem mapIndexVerify_eq {toolVersion : Word} (version : ¬ dctoolMajor toolVersion < 2#32)
    (fits : loadbin.size.toNat ≤ target.platform.maxRamBytes) :
    mapIndexVerify toolVersion loadbin.size = chunkCount loadbin.size +
      if Overshoots (2 ^ 32) 1440 (loadbin.size.toNat + 1439) then 1 else 0 := by
  have small := target.platform.maxRamBytes_lt
  have total : (loadbin.size + 1439#32).toNat = loadbin.size.toNat + 1439 := by
    rw [BitVec.toNat_add, BitVec.toNat_ofNat]
    omega
  rw [mapIndexVerify, if_neg version, toNat_udivConst_eq _ (by decide), total]
  rfl

section Answer

variable (uploaded : Uploaded target loader loadbin partbins)
include uploaded

/-- Where the scan of the bitmap stops. -/
theorem mapScan_uploaded_iff (fits : loadbin.size.toNat ≤ target.platform.maxRamBytes) (stop : ℕ) :
    mapScan loader.binInfo.map 0 (mapIndexVerify loader.toolVersion loadbin.size) = stop ↔
      stop ≤ mapIndexVerify loader.toolVersion loadbin.size ∧
        (∀ k < stop, Indexed loadbin partbins k ∧ k < target.platform.binInfoMapEntries) ∧
        (stop < mapIndexVerify loader.toolVersion loadbin.size →
          ¬ (Indexed loadbin partbins stop ∧ stop < target.platform.binInfoMapEntries)) := by
  have count := chunkCount_le fits
  have inside := target.platform.binInfoMapEntries_lt
  have verify := mapIndexVerify_eq uploaded.version fits
  rw [mapScan_eq_iff]
  refine and_congr_right fun upper => and_congr ?_ ?_
  · refine forall_congr' fun k => imp_congr_right fun below => uploaded.map k ?_
    split_ifs at verify <;> omega
  · refine imp_congr_right fun below => ?_
    rw [← Bool.not_eq_true, uploaded.map stop (by split_ifs at verify <;> omega)]

theorem donebinAnswer_of_complete
    (scan : mapScan loader.binInfo.map 0 (mapIndexVerify loader.toolVersion loadbin.size) =
      mapIndexVerify loader.toolVersion loadbin.size) :
    donebinAnswer loader.toolVersion loader.binInfo = (0#32, 0#32) := by
  simp only [donebinAnswer, uploaded.loadSize, scan, if_true]

theorem donebinAnswer_of_stop {stop : ℕ} (early : stop < mapIndexVerify loader.toolVersion loadbin.size)
    (scan : mapScan loader.binInfo.map 0 (mapIndexVerify loader.toolVersion loadbin.size) = stop) :
    donebinAnswer loader.toolVersion loader.binInfo =
      (loadbin.address + BitVec.ofNat 32 (stop * 1440),
        minWord (loadbin.size - BitVec.ofNat 32 (stop * 1440)) 1440#32) := by
  simp only [donebinAnswer, uploaded.loadSize, uploaded.loadAddress, scan, payloadSize, uploaded.version,
    if_false, Nat.ne_of_lt early, BitVec.ofNat_mul]

end Answer

/-- Inside the image the answered size is the length of the chunk. -/
theorem minWord_chunk {size : Word} {k : ℕ} (inside : k * 1440 < size.toNat) :
    minWord (size - BitVec.ofNat 32 (k * 1440)) 1440#32 = BitVec.ofNat 32 (chunkLength size k) := by
  have bound := size.isLt
  apply BitVec.eq_of_toNat_eq
  rw [toNat_minWord, BitVec.toNat_sub, BitVec.toNat_ofNat, BitVec.toNat_ofNat, BitVec.toNat_ofNat, chunkLength]
  omega

theorem load_add_chunk_inj {address : Word} {j k : ℕ} (first : j * 1440 < 2 ^ 32) (second : k * 1440 < 2 ^ 32)
    (same : address + BitVec.ofNat 32 (j * 1440) = address + BitVec.ofNat 32 (k * 1440)) : j = k := by
  have offset := congrArg BitVec.toNat ((BitVec.add_right_inj address).mp same)
  rw [BitVec.toNat_ofNat, BitVec.toNat_ofNat, Nat.mod_eq_of_lt first, Nat.mod_eq_of_lt second] at offset
  omega

theorem chunkLength_pos {size : Word} {k : ℕ} (inside : k * 1440 < size.toNat) : 0 < chunkLength size k := by
  unfold chunkLength
  omega

theorem chunkLength_word_ne_zero {size : Word} {k : ℕ} (inside : k * 1440 < size.toNat) :
    BitVec.ofNat 32 (chunkLength size k) ≠ 0#32 := by
  intro zero
  have length := congrArg BitVec.toNat zero
  have positive := chunkLength_pos inside
  have full : chunkLength size k ≤ 1440 := Nat.min_le_right _ _
  rw [BitVec.toNat_ofNat, Nat.mod_eq_of_lt (by omega)] at length
  exact Nat.ne_of_gt positive length

/-- The answer names a chunk of the image exactly when the indices stop there. -/
theorem donebinAnswer_chunk_iff (uploaded : Uploaded target loader loadbin partbins)
    (fits : loadbin.size.toNat ≤ target.platform.maxRamBytes) {k : ℕ} (inside : k * 1440 < loadbin.size.toNat) :
    donebinAnswer loader.toolVersion loader.binInfo =
        (loadbin.address + BitVec.ofNat 32 (k * 1440), BitVec.ofNat 32 (chunkLength loadbin.size k)) ↔
      (∀ j < k, Indexed loadbin partbins j) ∧ ¬ Indexed loadbin partbins k := by
  have small := target.platform.maxRamBytes_lt
  have below := (lt_chunkCount_iff _ _).mpr inside
  have count := chunkCount_le fits
  have verify := mapIndexVerify_eq uploaded.version fits
  have early : k < mapIndexVerify loader.toolVersion loadbin.size := by omega
  have stops := mapScan_uploaded_iff uploaded fits k
  have scanned : mapScan loader.binInfo.map 0 (mapIndexVerify loader.toolVersion loadbin.size) = k ↔
      (∀ j < k, Indexed loadbin partbins j) ∧ ¬ Indexed loadbin partbins k := by
    rw [stops]
    constructor
    · rintro ⟨-, set, clear⟩
      exact ⟨fun j less => (set j less).1, fun indexed => clear early ⟨indexed, by omega⟩⟩
    · rintro ⟨set, clear⟩
      exact ⟨early.le, fun j less => ⟨set j less, by omega⟩, fun _ both => clear both.1⟩
  rw [← scanned]
  constructor
  · intro answer
    have scan := (mapScan_uploaded_iff uploaded fits _).mp rfl
    by_cases complete : mapScan loader.binInfo.map 0 (mapIndexVerify loader.toolVersion loadbin.size) =
        mapIndexVerify loader.toolVersion loadbin.size
    · rw [donebinAnswer_of_complete uploaded complete] at answer
      exact absurd (Prod.mk.inj answer).2.symm (chunkLength_word_ne_zero inside)
    · rw [donebinAnswer_of_stop uploaded (Nat.lt_of_le_of_ne scan.1 complete) rfl] at answer
      generalize mapScan loader.binInfo.map 0 (mapIndexVerify loader.toolVersion loadbin.size) = stop at *
      have bound := loadbin.size.isLt
      have upper : stop ≤ chunkCount loadbin.size := by
        split_ifs at verify <;> omega
      have image := chunkCount_mul_le loadbin.size
      have chunkBelow : k * 1440 < 2 ^ 32 := Nat.lt_trans inside bound
      have stopBelow : stop * 1440 < 2 ^ 32 := by
        calc stop * 1440 ≤ chunkCount loadbin.size * 1440 := Nat.mul_le_mul_right _ upper
          _ ≤ loadbin.size.toNat + 1439 := image
          _ < 2 ^ 32 := by
            clear bound
            omega
      exact load_add_chunk_inj stopBelow chunkBelow (Prod.mk.inj answer).1
  · intro scan
    rw [donebinAnswer_of_stop uploaded early scan, minWord_chunk inside]

/-- The answer is zero exactly when every chunk is indexed and the count causes no harm. -/
theorem donebinAnswer_zero_iff (uploaded : Uploaded target loader loadbin partbins)
    (fits : loadbin.size.toNat ≤ target.platform.maxRamBytes) :
    donebinAnswer loader.toolVersion loader.binInfo = (0#32, 0#32) ↔
      (∀ k < chunkCount loadbin.size, Indexed loadbin partbins k) ∧
        (¬ Overshoots (2 ^ 32) 1440 (loadbin.size.toNat + 1439) ∨
          chunkCount loadbin.size < target.platform.binInfoMapEntries ∧
            Indexed loadbin partbins (chunkCount loadbin.size) ∨
          loadbin.size.toNat % 1440 = 0 ∧ loadbin.address + loadbin.size = 0#32) := by
  have small := target.platform.maxRamBytes_lt
  have count := chunkCount_le fits
  have verify := mapIndexVerify_eq uploaded.version fits
  have image := chunkCount_mul_le loadbin.size
  have stops := mapScan_uploaded_iff uploaded fits
  constructor
  · intro zero
    obtain ⟨upper, set, clear⟩ := (stops _).mp rfl
    by_cases complete : mapScan loader.binInfo.map 0 (mapIndexVerify loader.toolVersion loadbin.size) =
        mapIndexVerify loader.toolVersion loadbin.size
    · rw [complete] at set
      refine ⟨fun k below => (set k (by omega)).1, or_iff_not_imp_left.mpr fun overshoots => Or.inl ?_⟩
      rw [not_not] at overshoots
      rw [if_pos overshoots] at verify
      exact (set (chunkCount loadbin.size) (by omega)).symm
    · -- The scan stopped early, so the zero answer is that of an image ending at address zero.
      have early := Nat.lt_of_le_of_ne upper complete
      rw [donebinAnswer_of_stop uploaded early rfl] at zero
      obtain ⟨address, length⟩ := Prod.mk.inj zero
      generalize mapScan loader.binInfo.map 0 (mapIndexVerify loader.toolVersion loadbin.size) = stop at *
      have last : stop = chunkCount loadbin.size := by
        by_contra other
        have inside := (lt_chunkCount_iff loadbin.size stop).mp (by split_ifs at verify <;> omega)
        rw [minWord_chunk inside] at length
        exact chunkLength_word_ne_zero inside length
      subst last
      have whole : loadbin.size.toNat = chunkCount loadbin.size * 1440 := by
        have rest := congrArg BitVec.toNat length
        rw [toNat_minWord, BitVec.toNat_sub, BitVec.toNat_ofNat, BitVec.toNat_ofNat, BitVec.toNat_ofNat] at rest
        omega
      refine ⟨fun k below => (set k below).1, Or.inr (Or.inr ⟨by omega, ?_⟩)⟩
      rw [← address, ← whole, BitVec.ofNat_toNat, BitVec.setWidth_eq]
  · rintro ⟨indexed, harmless⟩
    have set (k : ℕ) (below : k < chunkCount loadbin.size) :
        Indexed loadbin partbins k ∧ k < target.platform.binInfoMapEntries := ⟨indexed k below, by omega⟩
    have finished (all : ∀ k < mapIndexVerify loader.toolVersion loadbin.size,
        Indexed loadbin partbins k ∧ k < target.platform.binInfoMapEntries) :=
      donebinAnswer_of_complete uploaded ((stops _).mpr ⟨le_rfl, all, fun less => absurd less (Nat.lt_irrefl _)⟩)
    by_cases overshoots : Overshoots (2 ^ 32) 1440 (loadbin.size.toNat + 1439)
    · rw [if_pos overshoots] at verify
      by_cases beyond : Indexed loadbin partbins (chunkCount loadbin.size) ∧
          chunkCount loadbin.size < target.platform.binInfoMapEntries
      · refine finished fun k below => ?_
        rcases Nat.lt_or_ge k (chunkCount loadbin.size) with inside | outside
        · exact set k inside
        · rwa [show k = chunkCount loadbin.size by omega]
      · obtain ⟨whole, wraps⟩ := (harmless.resolve_left (not_not.mpr overshoots)).resolve_left
          fun both => beyond both.symm
        have stop := (stops (chunkCount loadbin.size)).mpr ⟨by omega, set, fun _ => beyond⟩
        have exact : chunkCount loadbin.size * 1440 = loadbin.size.toNat := by
          unfold chunkCount
          omega
        rw [donebinAnswer_of_stop uploaded (by omega) stop, exact, BitVec.ofNat_toNat, BitVec.setWidth_eq,
          wraps, BitVec.sub_self]
        rfl
    · rw [if_neg overshoots, Nat.add_zero] at verify
      exact finished (verify ▸ set)

theorem exists_lowestMissing
    (incomplete : ¬ ∀ k, k * 1440 < loadbin.size.toNat → ChunkReceived loadbin partbins k) :
    ∃ k, LowestMissing loadbin partbins k := by
  classical
  have missing : ∃ k, k * 1440 < loadbin.size.toNat ∧ ¬ ChunkReceived loadbin partbins k := by
    by_contra none
    exact incomplete fun k inside => by_contra fun lost => none ⟨k, inside, lost⟩
  refine ⟨Nat.find missing, (Nat.find_spec missing).1, (Nat.find_spec missing).2, fun j below => ?_⟩
  by_contra lost
  have earlier := Nat.mul_lt_mul_of_pos_right below (show 0 < 1440 by decide)
  exact Nat.find_min missing below ⟨earlier.trans (Nat.find_spec missing).1, lost⟩

/-- The answer is truthful exactly when the indices are honest. -/
theorem donebinTruthful_of_uploaded (uploaded : Uploaded target loader loadbin partbins)
    (fits : loadbin.size.toNat ≤ target.platform.maxRamBytes) :
    DonebinTruthful loader loadbin partbins ↔ IndicesHonest target loadbin partbins := by
  constructor
  · intro truthful
    refine ⟨fun all => ?_, fun k lowest => ?_⟩
    · exact (donebinAnswer_zero_iff uploaded fits).mp (donebinAnswers_iff.mp (truthful.complete.mpr all))
    · exact (donebinAnswer_chunk_iff uploaded fits lowest.1).mp
        (donebinAnswers_iff.mp (truthful.missing k lowest).1)
  · intro honest
    have answer (k : ℕ) (lowest : LowestMissing loadbin partbins k) :=
      (donebinAnswer_chunk_iff uploaded fits lowest.1).mpr (honest.missing k lowest)
    refine ⟨⟨fun zero => ?_, fun all => ?_⟩, fun k lowest => ⟨donebinAnswers_iff.mpr (answer k lowest), ?_, ?_⟩⟩
    · by_contra incomplete
      obtain ⟨k, lowest⟩ := exists_lowestMissing incomplete
      have same := (answer k lowest).symm.trans (donebinAnswers_iff.mp zero)
      exact chunkLength_word_ne_zero lowest.1 (Prod.mk.inj same).2
    · exact donebinAnswers_iff.mpr ((donebinAnswer_zero_iff uploaded fits).mpr (honest.complete all))
    · exact chunkLength_pos lowest.1
    · have inside := lowest.1
      unfold chunkLength
      omega

theorem loadLimit_le (version : ¬ dctoolMajor loader.toolVersion < 2#32) :
    loadLimit target loader.toolVersion ≤ target.platform.maxRamBytes := by
  rw [loadLimit, if_neg version]
  exact Nat.min_le_left _ _

/-- After a `LBIN` acknowledged under a tool of version 2 or newer and any `PBIN` datagrams, `DBIN` tells
the truth exactly when the indices of the `PBIN` datagrams are honest. -/
theorem donebin_truthful_iff (target : Target) (loader : Loader) (loadbin : Loadbin) (partbins : List Partbin)
    (version : ¬ dctoolMajor loader.toolVersion < 2#32)
    (acknowledged : ∃ ack, (loader.loadbin target loadbin).2 = [.tx ack]) :
    DonebinTruthful (loader.upload target loadbin partbins) loadbin partbins ↔
      IndicesHonest target loadbin partbins := by
  obtain ⟨ack, acknowledged⟩ := acknowledged
  have fits : loadbin.size.toNat ≤ loadLimit target loader.toolVersion := by
    by_contra beyond
    rw [Loader.loadbin] at acknowledged
    refine Loader.cmdLoadbin_of_lt ?_ ack acknowledged
    rw [Loader.receive, commandSize_storeAt]
    exact Nat.not_le.mp beyond
  exact donebinTruthful_of_uploaded (uploaded_upload _ version fits) (fits.trans (loadLimit_le version))

/-- An upload of two bytes in one `PBIN`. -/
theorem donebin_truthful_iff_two_bytes :
    DonebinTruthful
        (({ Loader.start (fun _ => 0) fun _ => 0 with toolVersion := 0x00030000 } : Loader).upload .dreamcast
          ⟨0x8c010000, 2, 20, 0, 0⟩ [⟨0x8c010000, 2, [1, 2], 22, 0, 0⟩])
        ⟨0x8c010000, 2, 20, 0, 0⟩ [⟨0x8c010000, 2, [1, 2], 22, 0, 0⟩] ↔
      IndicesHonest .dreamcast ⟨0x8c010000, 2, 20, 0, 0⟩ [⟨0x8c010000, 2, [1, 2], 22, 0, 0⟩] :=
  donebin_truthful_iff _ _ _ _ (by decide) ⟨_, rfl⟩

/-- An image of 2520 full chunks. -/
def wholeLoadbin : Loadbin :=
  { address := 0x8c010000, size := 3628800, length := 20, frame := 0, now := 0 }

/-- Its chunks, in order and complete. -/
def wholePartbin (k : ℕ) : Partbin :=
  { address := 0x8c010000 + BitVec.ofNat 32 (k * 1440), size := 1440, data := List.replicate 1440 0,
    length := 1460, frame := 0, now := 0 }

theorem wholePartbin_index {k : ℕ} (inside : k < 2520) : (wholePartbin k).index wholeLoadbin.address = k := by
  refine toNat_udivConst_of_dvd (by decide) ?_
  change (0x8c010000#32 + BitVec.ofNat 32 (k * 1440) - 0x8c010000#32).toNat = k * 1440
  bv_omega

theorem whole_received {k : ℕ} (inside : k * 1440 < wholeLoadbin.size.toNat) :
    ChunkReceived wholeLoadbin ((List.range 2520).map wholePartbin) k := by
  have chunk : k < 2520 := by
    change k * 1440 < 3628800 at inside
    omega
  intro i within
  have short : i < 1440 := within.trans_le (Nat.min_le_right _ _)
  refine ⟨wholePartbin k, List.mem_map_of_mem (List.mem_range.mpr chunk), ?_⟩
  change (0x8c010000#32 + BitVec.ofNat 32 (k * 1440 + i) -
    (0x8c010000#32 + BitVec.ofNat 32 (k * 1440))).toNat < min 1440 (List.replicate 1440 (0 : Byte)).length
  rw [List.length_replicate]
  bv_omega

/-- All chunks of an image of 2520 have arrived, and `DBIN` asks for one more. -/
theorem donebin_untruthful :
    ¬ DonebinTruthful
      (({ Loader.start (fun _ => 0) fun _ => 0 with toolVersion := 0x00030000 } : Loader).upload .dreamcast
        wholeLoadbin ((List.range 2520).map wholePartbin))
      wholeLoadbin ((List.range 2520).map wholePartbin) := by
  have uploaded : Uploaded .dreamcast
      (({ Loader.start (fun _ => 0) fun _ => 0 with toolVersion := 0x00030000 } : Loader).upload .dreamcast
        wholeLoadbin ((List.range 2520).map wholePartbin)) wholeLoadbin ((List.range 2520).map wholePartbin) :=
    uploaded_upload _ (by decide) (by decide)
  rw [donebinTruthful_of_uploaded uploaded (by decide)]
  intro honest
  rcases (honest.complete fun k => whole_received).2 with exact | ⟨-, extra⟩ | ⟨-, wraps⟩
  · exact exact (by decide)
  · obtain ⟨partbin, member, index⟩ := extra
    obtain ⟨k, inside, rfl⟩ := List.mem_map.mp member
    rw [wholePartbin_index (List.mem_range.mp inside)] at index
    have below := List.mem_range.mp inside
    rw [index] at below
    exact absurd below (by decide)
  · exact absurd wraps (by decide)

end KosTool.Client
