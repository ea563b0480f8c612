import KosTool.Model.Client.SyscallWait

/-! # What a `PBIN` stores and what it marks

A `PBIN` is safe when every byte it stores is one the datagram carried, every address it stores to
lies in the announced range, and the bitmap bit it sets stands for a chunk it stored completely.
The handler checks none of this: safety is stated about the handler's effect on memory and bitmap,
and shown to hold exactly when the fields of the header happen to fit.
-/

namespace KosTool.Client

open ByteWord DivUtil Protocol

namespace Loader

variable (target : Target) (loader : Loader) (udp : Udp) (now : ℕ)

/-- The `PBIN` gives the address a new byte, whatever was there before. -/
def PartbinStores (address : Word) : Prop :=
  ∀ memory, (({ loader with memory } : Loader).cmdPartbin target udp now).1.memory address =
    (loader.cmdPartbin target udp now).1.memory address

/-- The byte stored at the address is the payload byte `i` of the datagram. -/
def PartbinCarries (address : Word) (i : ℕ) : Prop :=
  ∀ rx, commandAddress rx udp.data = commandAddress loader.rx udp.data →
    commandSize rx udp.data = commandSize loader.rx udp.data →
    (({ loader with rx } : Loader).cmdPartbin target udp now).1.memory address = rx (udp.data + i)

/-- The `PBIN` sets the bit, whatever it was before. -/
def PartbinSets (k : ℕ) : Prop :=
  ∀ map, (({ loader with binInfo := { loader.binInfo with map } } : Loader).cmdPartbin
    target udp now).1.binInfo.map k = true

/-- A `PBIN` stores only received bytes, only inside the announced range, and marks only a chunk
it has stored. -/
structure PartbinSafe : Prop where
  carried : ∀ address, loader.PartbinStores target udp now address →
    ∃ i < udp.length.toNat - udpHeaderLen, loader.PartbinCarries target udp now address i
  announced : ∀ address, loader.PartbinStores target udp now address →
    (address - loader.binInfo.loadAddress).toNat < loader.binInfo.loadSize.toNat
  complete : ∀ k, loader.PartbinSets target udp now k →
    ∀ offset, k * chunkSize loader.payload1024 ≤ offset → offset < (k + 1) * chunkSize loader.payload1024 →
      offset < loader.binInfo.loadSize.toNat →
      loader.PartbinStores target udp now (loader.binInfo.loadAddress + BitVec.ofNat 32 offset)

/-- The header fields fit the datagram, the announced range and the chunk they select. -/
structure PartbinFits : Prop where
  datagram : commandSize loader.rx udp.data = 0#32 ∨
    netCommandLen + (commandSize loader.rx udp.data).toNat ≤ udp.length.toNat - udpHeaderLen
  range : commandSize loader.rx udp.data = 0#32 ∨
    (loader.partbinOffset udp).toNat + (commandSize loader.rx udp.data).toNat ≤ loader.binInfo.loadSize.toNat
  chunk : partbinIndex loader.payload1024 (loader.partbinOffset udp) < target.platform.binInfoMapEntries →
    loader.binInfo.loadSize.toNat ≤
        partbinIndex loader.payload1024 (loader.partbinOffset udp) * chunkSize loader.payload1024 ∨
      (loader.partbinOffset udp).toNat ≤
          partbinIndex loader.payload1024 (loader.partbinOffset udp) * chunkSize loader.payload1024 ∧
        min ((partbinIndex loader.payload1024 (loader.partbinOffset udp) + 1) * chunkSize loader.payload1024)
            loader.binInfo.loadSize.toNat ≤
          (loader.partbinOffset udp).toNat + (commandSize loader.rx udp.data).toNat

instance : Decidable (loader.PartbinFits target udp) :=
  decidable_of_iff (_ ∧ _ ∧ _)
    ⟨fun ⟨datagram, range, chunk⟩ => ⟨datagram, range, chunk⟩, fun fits => ⟨fits.1, fits.2, fits.3⟩⟩

variable {target loader udp now}

theorem partbinStores_iff {address : Word} : loader.PartbinStores target udp now address ↔
    (address - commandAddress loader.rx udp.data).toNat < (commandSize loader.rx udp.data).toNat := by
  simp only [PartbinStores, cmdPartbin_memory]
  constructor
  · intro stores
    by_contra outside
    rw [Nat.not_lt] at outside
    have changed := stores fun query => loader.memory query + 1#8
    rw [Memory.copyIn_outside outside, Memory.copyIn_outside outside] at changed
    bv_omega
  · intro inside memory
    rw [Memory.copyIn_inside inside, Memory.copyIn_inside inside]

theorem partbinSets_iff {k : ℕ} : loader.PartbinSets target udp now k ↔
    k = partbinIndex loader.payload1024 (loader.partbinOffset udp) ∧ k < target.platform.binInfoMapEntries := by
  simp only [PartbinSets, cmdPartbin_map]
  constructor
  · intro sets
    have bit := sets fun _ => false
    rw [Bool.false_or] at bit
    exact of_decide_eq_true bit
  · intro marked map
    exact Bool.or_eq_true_iff.mpr (Or.inr (decide_eq_true marked))

/-- Stepping `offset` bytes up from the load address, seen from the address of the `PBIN`. -/
theorem load_add_sub_command (offset : ℕ) :
    loader.binInfo.loadAddress + BitVec.ofNat 32 offset - commandAddress loader.rx udp.data =
      BitVec.ofNat 32 offset - loader.partbinOffset udp := by
  unfold partbinOffset
  bv_omega

theorem partbinStores_load_add {offset : ℕ}
    (fits : (loader.partbinOffset udp).toNat + (commandSize loader.rx udp.data).toNat ≤ 2 ^ 32)
    (small : offset < 2 ^ 32) :
    loader.PartbinStores target udp now (loader.binInfo.loadAddress + BitVec.ofNat 32 offset) ↔
      (loader.partbinOffset udp).toNat ≤ offset ∧
        offset < (loader.partbinOffset udp).toNat + (commandSize loader.rx udp.data).toNat := by
  rw [partbinStores_iff, load_add_sub_command, BitVec.toNat_sub, BitVec.toNat_ofNat,
    Nat.mod_eq_of_lt small]
  have base := (loader.partbinOffset udp).isLt
  generalize (loader.partbinOffset udp).toNat = start at *
  by_cases below : start ≤ offset
  · rw [show 2 ^ 32 - start + offset = offset - start + 2 ^ 32 by omega, Nat.add_mod_right,
      Nat.mod_eq_of_lt (by omega)]
    omega
  · rw [Nat.mod_eq_of_lt (by omega)]
    omega

/-- A stored byte is the payload byte as far above the header as the address is above the command's. -/
theorem partbinCarries_iff {address : Word} (stored : loader.PartbinStores target udp now address) (i : ℕ) :
    loader.PartbinCarries target udp now address i ↔
      i = netCommandLen + (address - commandAddress loader.rx udp.data).toNat := by
  rw [partbinStores_iff] at stored
  have value (rx : Buffer) (sameAddress : commandAddress rx udp.data = commandAddress loader.rx udp.data)
      (sameSize : commandSize rx udp.data = commandSize loader.rx udp.data) :
      (({ loader with rx } : Loader).cmdPartbin target udp now).1.memory address =
        rx (udp.data + (netCommandLen + (address - commandAddress loader.rx udp.data).toNat)) := by
    rw [cmdPartbin_memory, sameAddress, sameSize, Memory.copyIn_inside stored, commandData, Nat.add_assoc]
  constructor
  · intro carries
    by_contra other
    -- Changing the one byte the copy reads changes the result, so it must be the byte named.
    let source := udp.data + (netCommandLen + (address - commandAddress loader.rx udp.data).toNat)
    let rx := Function.update loader.rx source (loader.rx source + 1#8)
    have elsewhere (p : ℕ) (apart : p ≠ source) : rx p = loader.rx p := Function.update_of_ne apart _ _
    have header (p : ℕ) (inside : p < udp.data + netCommandLen) : rx p = loader.rx p :=
      elsewhere p (by simp only [source]; omega)
    have sameAddress : commandAddress rx udp.data = commandAddress loader.rx udp.data :=
      readBe32_congr fun i bound => header _ (by simp only [netCommandLen]; omega)
    have sameSize : commandSize rx udp.data = commandSize loader.rx udp.data :=
      readBe32_congr fun i bound => header _ (by simp only [netCommandLen]; omega)
    have before := (carries loader.rx rfl rfl).symm.trans (value loader.rx rfl rfl)
    have after := (carries rx sameAddress sameSize).symm.trans (value rx sameAddress sameSize)
    rw [elsewhere _ (by simp only [source]; omega), before] at after
    have changed : rx source = loader.rx source + 1#8 := Function.update_self _ _ _
    rw [show rx (udp.data + (netCommandLen + (address - commandAddress loader.rx udp.data).toNat)) =
      loader.rx source + 1#8 from changed] at after
    change loader.rx source = loader.rx source + 1#8 at after
    bv_omega
  · rintro rfl rx sameAddress sameSize
    exact value rx sameAddress sameSize

theorem partbinStores_command_add (target : Target) (loader : Loader) (udp : Udp) (now : ℕ) {source : ℕ}
    (small : source < 2 ^ 32) :
    loader.PartbinStores target udp now (commandAddress loader.rx udp.data + BitVec.ofNat 32 source) ↔
      source < (commandSize loader.rx udp.data).toNat := by
  rw [partbinStores_iff, show commandAddress loader.rx udp.data + BitVec.ofNat 32 source -
    commandAddress loader.rx udp.data = BitVec.ofNat 32 source by bv_omega, BitVec.toNat_ofNat,
    Nat.mod_eq_of_lt small]

theorem partbinFits_datagram (safe : loader.PartbinSafe target udp now) :
    commandSize loader.rx udp.data = 0#32 ∨
      netCommandLen + (commandSize loader.rx udp.data).toNat ≤ udp.length.toNat - udpHeaderLen := by
  by_cases empty : commandSize loader.rx udp.data = 0#32
  · exact Or.inl empty
  have positive : 0 < (commandSize loader.rx udp.data).toNat := by bv_omega
  have bound := (commandSize loader.rx udp.data).isLt
  -- The last byte stored is the one farthest into the datagram.
  have last : (commandSize loader.rx udp.data).toNat - 1 < 2 ^ 32 := by omega
  have stored := (partbinStores_command_add target loader udp now last).mpr (by omega)
  obtain ⟨i, inside, carries⟩ := safe.carried _ stored
  have place := (partbinCarries_iff stored i).mp carries
  rw [show commandAddress loader.rx udp.data + BitVec.ofNat 32 ((commandSize loader.rx udp.data).toNat - 1) -
    commandAddress loader.rx udp.data = BitVec.ofNat 32 ((commandSize loader.rx udp.data).toNat - 1)
    by bv_omega, BitVec.toNat_ofNat, Nat.mod_eq_of_lt (by omega)] at place
  omega

theorem partbinFits_range (safe : loader.PartbinSafe target udp now) :
    commandSize loader.rx udp.data = 0#32 ∨
      (loader.partbinOffset udp).toNat + (commandSize loader.rx udp.data).toNat ≤
        loader.binInfo.loadSize.toNat := by
  by_cases empty : commandSize loader.rx udp.data = 0#32
  · exact Or.inl empty
  refine Or.inr (Nat.not_lt.mp fun beyond => ?_)
  have positive : 0 < (commandSize loader.rx udp.data).toNat := by bv_omega
  have bound := loader.binInfo.loadSize.isLt
  have first := safe.announced _ ((partbinStores_command_add target loader udp now (Nat.two_pow_pos 32)).mpr positive)
  rw [show commandAddress loader.rx udp.data + BitVec.ofNat 32 0 - loader.binInfo.loadAddress =
    loader.partbinOffset udp by unfold partbinOffset; bv_omega] at first
  -- The byte right behind the announced range is stored as well.
  have small : loader.binInfo.loadSize.toNat - (loader.partbinOffset udp).toNat < 2 ^ 32 := by omega
  have last := safe.announced _ ((partbinStores_command_add target loader udp now small).mpr (by omega))
  rw [show commandAddress loader.rx udp.data +
      BitVec.ofNat 32 (loader.binInfo.loadSize.toNat - (loader.partbinOffset udp).toNat) -
      loader.binInfo.loadAddress = loader.binInfo.loadSize by unfold partbinOffset at first ⊢; bv_omega] at last
  exact Nat.lt_irrefl _ last

theorem partbinFits_chunk (safe : loader.PartbinSafe target udp now)
    (inside : partbinIndex loader.payload1024 (loader.partbinOffset udp) < target.platform.binInfoMapEntries)
    (k c : ℕ) (index : partbinIndex loader.payload1024 (loader.partbinOffset udp) = k)
    (size : chunkSize loader.payload1024 = c) :
    loader.binInfo.loadSize.toNat ≤ k * c ∨ (loader.partbinOffset udp).toNat ≤ k * c ∧
      min ((k + 1) * c) loader.binInfo.loadSize.toNat ≤
        (loader.partbinOffset udp).toNat + (commandSize loader.rx udp.data).toNat := by
  refine or_iff_not_imp_left.mpr fun occupied => ?_
  rw [Nat.not_le] at occupied
  have fits : (loader.partbinOffset udp).toNat + (commandSize loader.rx udp.data).toNat ≤ 2 ^ 32 := by
    have bound := loader.binInfo.loadSize.isLt
    have start := (loader.partbinOffset udp).isLt
    rcases partbinFits_range safe with empty | range
    · rw [empty, BitVec.toNat_ofNat]
      omega
    · omega
  have bound := loader.binInfo.loadSize.isLt
  have positive : 0 < c := by
    rw [← size, chunkSize]
    split <;> decide
  have grows : (k + 1) * c = k * c + c := by ring
  have stored (offset : ℕ) (lower : k * c ≤ offset) (upper : offset < (k + 1) * c)
      (range : offset < loader.binInfo.loadSize.toNat) :=
    (partbinStores_load_add fits (by omega)).mp
      (safe.complete k (partbinSets_iff.mpr ⟨index.symm, index ▸ inside⟩) offset (size ▸ lower)
        (size ▸ upper) range)
  have first := stored (k * c) le_rfl (by omega) occupied
  have last := stored (min ((k + 1) * c) loader.binInfo.loadSize.toNat - 1) (by omega) (by omega) (by omega)
  exact ⟨first.1, by omega⟩

/-- A `PBIN` is safe exactly when its header fits. -/
theorem partbinSafe_iff_fits : loader.PartbinSafe target udp now ↔ loader.PartbinFits target udp := by
  constructor
  · intro safe
    exact ⟨partbinFits_datagram safe, partbinFits_range safe,
      fun inside => partbinFits_chunk safe inside _ _ rfl rfl⟩
  · intro fits
    have bound := loader.binInfo.loadSize.isLt
    refine ⟨fun address stored => ?_, fun address stored => ?_, fun k sets offset lower upper range => ?_⟩
    · refine ⟨_, ?_, (partbinCarries_iff stored _).mpr rfl⟩
      have inside := partbinStores_iff.mp stored
      rcases fits.datagram with empty | datagram
      · rw [empty] at inside
        exact absurd inside (Nat.not_lt_zero _)
      · omega
    · have inside := partbinStores_iff.mp stored
      rcases fits.range with empty | range
      · rw [empty] at inside
        exact absurd inside (Nat.not_lt_zero _)
      · unfold partbinOffset at range
        bv_omega
    · obtain ⟨rfl, below⟩ := partbinSets_iff.mp sets
      rcases fits.chunk below with behind | ⟨start, finish⟩
      · omega
      · refine (partbinStores_load_add ?_ (by omega)).mpr ⟨by omega, by omega⟩
        rcases fits.range with empty | range
        · rw [empty, BitVec.toNat_ofNat]
          have := (loader.partbinOffset udp).isLt
          omega
        · omega

end Loader

section Session

variable (target : Target)

/-- If the step takes a `PBIN`, it takes a safe one. -/
def PartbinStepSafe (loader : Loader) : SessionEvent → Prop
  | .datagram arrival now => (loader.receiving arrival).Takes arrival.udp netCmdPartbin →
      (loader.receiving arrival).PartbinSafe target arrival.udp now
  | _ => True

/-- If the step takes a `PBIN`, its header fits. -/
def PartbinStepFits (loader : Loader) : SessionEvent → Prop
  | .datagram arrival _ => (loader.receiving arrival).Takes arrival.udp netCmdPartbin →
      (loader.receiving arrival).PartbinFits target arrival.udp
  | _ => True

instance (loader : Loader) : (event : SessionEvent) → Decidable (PartbinStepFits target loader event)
  | .datagram _ _ => inferInstanceAs (Decidable (_ → _))
  | .sendPacket _ | .armWait _ _ | .leaveLoop | .giveUp | .executeReturns => isTrue trivial

theorem partbinStepSafe_iff_fits (loader : Loader) (event : SessionEvent) :
    PartbinStepSafe target loader event ↔ PartbinStepFits target loader event := by
  cases event with
  | datagram arrival now => exact imp_congr_right fun _ => Loader.partbinSafe_iff_fits
  | sendPacket | armWait | leaveLoop | giveUp | executeReturns => exact Iff.rfl

/-- Over a whole session, every `PBIN` is safe exactly if the header of every one of them fits. -/
theorem session_partbin_safe_iff_fits (source : Loader) (events : List SessionEvent) :
    (sessionMachine target).Along (PartbinStepSafe target) source events ↔
      (sessionMachine target).Along (PartbinStepFits target) source events :=
  Machine.LabeledMachine.along_congr (partbinStepSafe_iff_fits target) source events

end Session

/-- A tool of version 3.0.0 announces two bytes; a stray one-byte `PBIN` from an earlier upload marks
the only chunk. -/
def strayPartbinSession : List SessionEvent :=
  [.datagram (.intact (netCommand netCmdVersion 0x00030000 0 [])) 0,
    .datagram (.intact (netCommand netCmdLoadbin 0x8c010000 2 [])) 0,
    .datagram (.intact (netCommand netCmdPartbin 0x8c010000 1 [0x55])) 0]

theorem session_partbin_unsafe : ¬ (sessionMachine .dreamcast).Along (PartbinStepSafe .dreamcast)
    (.start (fun _ => 0) fun _ => 0) strayPartbinSession := by
  rw [Machine.LabeledMachine.along_congr (partbinStepSafe_iff_fits _)]
  decide +kernel

end KosTool.Client
