import KosTool.Model.Client.SyscallWait

/-! # The bitmap is indexed inside its bytes

`PBIN` sets a bit of the bitmap only if its index is inside, and the scan of `DBIN` stops at the bit right
behind the last entry, which is never set. A refused `LBIN` has still announced its range: what one leaves
behind is right exactly along the runs in which none is refused.
-/

namespace KosTool.Client

open Protocol Machine

/-- The bits the scan of `cmd_donebin` tests, in its order. -/
def mapTests (map : ℕ → Bool) : ℕ → ℕ → List ℕ
  | _, 0 => []
  | index, remaining + 1 => index :: if map index then mapTests map (index + 1) remaining else []

/-- The scan tests the bits up to the one it stops at. -/
theorem mem_mapTests (map : ℕ → Bool) (remaining : ℕ) : ∀ index k, k ∈ mapTests map index remaining ↔
    index ≤ k ∧ k ≤ mapScan map index remaining ∧ k < index + remaining := by
  induction remaining with
  | zero =>
    intro index k
    simp only [mapTests, List.not_mem_nil, false_iff]
    omega
  | succ remaining ih =>
    intro index k
    obtain ⟨lower, -⟩ := mapScan_spec map (index + 1) remaining
    rw [mapTests, mapScan, List.mem_cons]
    split
    · rw [ih]
      omega
    · simp only [List.not_mem_nil, or_false]
      omega

/-- No bit behind a clear one is tested. -/
theorem le_of_mem_mapTests {map : ℕ → Bool} {clear remaining k : ℕ} (isClear : map clear = false)
    (among : k ∈ mapTests map 0 remaining) : k ≤ clear := by
  obtain ⟨-, -, set, -⟩ := mapScan_spec map 0 remaining
  refine ((mem_mapTests map remaining 0 k).mp among).2.1.trans (Nat.not_lt.mp fun beyond => ?_)
  exact Bool.false_ne_true (isClear.symm.trans (set clear (Nat.zero_le _) beyond))

/-- The largest size the bitmap covers with the chunks of the tool's version. -/
def coveredSize (target : Target) (toolVersion : Word) : ℕ :=
  target.platform.binInfoMapEntries * chunkSize (dctoolMajor toolVersion < 2#32)

theorem loadLimit_le_coveredSize (target : Target) (toolVersion : Word) :
    loadLimit target toolVersion ≤ coveredSize target toolVersion := by
  unfold loadLimit coveredSize
  split
  · rename_i legacy
    rw [decide_eq_true legacy]
    exact le_rfl
  · rename_i current
    rw [decide_eq_false current]
    refine (Nat.min_le_left _ _).trans ?_
    cases target.platform <;> decide

namespace Loader

variable (target : Target) (loader : Loader) (udp : Udp) (now : ℕ)

/-- The indices with which a command sets and tests bits of the bitmap. -/
def mapAccesses : List ℕ :=
  if loader.Takes udp netCmdPartbin then
    [partbinIndex loader.payload1024 (loader.partbinOffset udp)].filter (· < target.platform.binInfoMapEntries)
  else if loader.Takes udp netCmdDonebin then
    mapTests loader.binInfo.map 0 (mapIndexVerify loader.toolVersion loader.binInfo.loadSize)
  else []

/-- The `LBIN`, if it is one, is not refused. -/
def LoadbinAccepted : Prop :=
  loader.Takes udp netCmdLoadbin → (commandSize loader.rx udp.data).toNat ≤ loadLimit target loader.toolVersion

/-- A command stays inside the bitmap, leaves an announced size the bitmap covers, and if it is a refused
`LBIN`, changes nothing of it. -/
structure ChunkSafe : Prop where
  inside : ∀ index ∈ loader.mapAccesses target udp, index < target.platform.binInfoMapBytes * 8
  covered : (loader.processUdp target udp now).1.binInfo.loadSize.toNat ≤ coveredSize target loader.toolVersion
  refused : ¬ loader.LoadbinAccepted target udp →
    (loader.processUdp target udp now).1.binInfo = loader.binInfo

/-- What is announced is within the limit, and the bit behind the last entry is clear. -/
structure ChunkInv : Prop where
  limit : loader.binInfo.loadSize.toNat ≤ loadLimit target loader.toolVersion
  clear : loader.binInfo.map target.platform.binInfoMapEntries = false

instance : Decidable (loader.LoadbinAccepted target udp) := inferInstanceAs (Decidable (_ → _))

variable {target loader udp now}

theorem cmdLoadbin_loadSize :
    (loader.cmdLoadbin target udp now).1.binInfo.loadSize = commandSize loader.rx udp.data := by
  simp only [cmdLoadbin, netBumpSyscallDeadline_rx]
  split_ifs <;> rfl

/-- All accesses of the bitmap are inside. -/
theorem ChunkInv.inside (inv : loader.ChunkInv target) {index : ℕ} (among : index ∈ loader.mapAccesses target udp) :
    index < target.platform.binInfoMapBytes * 8 := by
  have room := target.platform.binInfoMapEntries_lt
  unfold mapAccesses at among
  split_ifs at among
  · obtain ⟨-, below⟩ := List.mem_filter.mp among
    exact (of_decide_eq_true below).trans room
  · exact (le_of_mem_mapTests inv.clear among).trans_lt room
  · cases among

/-- A command that is not refused keeps what is announced within the limit. -/
theorem ChunkInv.processUdp (inv : loader.ChunkInv target) (noVersion : ¬ loader.Takes udp netCmdVersion)
    (accepted : loader.LoadbinAccepted target udp) : (loader.processUdp target udp now).1.ChunkInv target := by
  have version : (loader.processUdp target udp now).1.toolVersion = loader.toolVersion :=
    processUdp_toolVersion noVersion
  by_cases loadbin : loader.Takes udp netCmdLoadbin
  · have fits := accepted loadbin
    refine ⟨?_, ?_⟩
    · rw [version, processUdp_loadbin loadbin, cmdLoadbin_loadSize]
      exact fits
    · rw [processUdp_loadbin loadbin, cmdLoadbin_of_le fits]
      exact if_pos target.platform.binInfoMapEntries_lt
  by_cases partbin : loader.Takes udp netCmdPartbin
  · refine ⟨?_, ?_⟩
    · rw [version, processUdp_partbin partbin, cmdPartbin_loadSize]
      exact inv.limit
    · rw [processUdp_partbin partbin, cmdPartbin_map, inv.clear, Bool.false_or, decide_eq_false_iff_not]
      exact fun both => Nat.lt_irrefl _ both.2
  have kept : (loader.processUdp target udp now).1.transfer = loader.transfer := processUdp_transfer loadbin partbin
  have binInfo : (loader.processUdp target udp now).1.binInfo = loader.binInfo := (Prod.mk.inj kept).1
  exact ⟨by rw [binInfo, version]; exact inv.limit, by rw [binInfo]; exact inv.clear⟩

/-- A command is safe exactly if it is no refused `LBIN`. -/
theorem chunkSafe_iff_accepted (inv : loader.ChunkInv target) (noVersion : ¬ loader.Takes udp netCmdVersion) :
    loader.ChunkSafe target udp now ↔ loader.LoadbinAccepted target udp := by
  constructor
  · intro safe
    by_contra refusal
    have same := congrArg (fun binInfo => binInfo.loadSize.toNat) (safe.refused refusal)
    obtain ⟨takes, beyond⟩ := Classical.not_imp.mp refusal
    rw [processUdp_loadbin takes, cmdLoadbin_loadSize] at same
    exact beyond (same ▸ inv.limit)
  · intro accepted
    refine ⟨fun index => inv.inside, ?_, fun refusal => absurd accepted refusal⟩
    have after : (loader.processUdp target udp now).1.ChunkInv target := inv.processUdp noVersion accepted
    have limit := after.limit
    rw [processUdp_toolVersion noVersion] at limit
    exact limit.trans (loadLimit_le_coveredSize _ _)

end Loader

section Session

variable (target : Target)

/-- The step tells no other tool version. -/
def KeepsVersion (loader : Loader) : SessionEvent → Prop
  | .datagram arrival _ => ¬ (loader.receiving arrival).Takes arrival.udp netCmdVersion
  | _ => True

/-- The step, if it is a command, is safe for the bitmap. -/
def ChunkStepSafe (loader : Loader) : SessionEvent → Prop
  | .datagram arrival now => (loader.receiving arrival).ChunkSafe target arrival.udp now
  | _ => True

/-- The step is no refused `LBIN`. -/
def ChunkStepAccepted (loader : Loader) : SessionEvent → Prop
  | .datagram arrival _ => (loader.receiving arrival).LoadbinAccepted target arrival.udp
  | _ => True

instance (loader : Loader) : (event : SessionEvent) → Decidable (KeepsVersion loader event)
  | .datagram _ _ => inferInstanceAs (Decidable (¬ _))
  | .sendPacket _ | .armWait _ _ | .leaveLoop | .giveUp | .executeReturns => isTrue trivial

instance (loader : Loader) : (event : SessionEvent) → Decidable (ChunkStepAccepted target loader event)
  | .datagram _ _ => inferInstanceAs (Decidable (Loader.LoadbinAccepted _ _ _))
  | .sendPacket _ | .armWait _ _ | .leaveLoop | .giveUp | .executeReturns => isTrue trivial

/-- Nothing has been announced, and the bitmap is clear. -/
structure Loader.Unannounced (loader : Loader) : Prop where
  loadSize : loader.binInfo.loadSize = 0#32
  clear : ∀ index < target.platform.binInfoMapBytes * 8, loader.binInfo.map index = false

variable {target}

theorem Loader.Unannounced.chunkInv {loader : Loader} (unannounced : loader.Unannounced target) :
    loader.ChunkInv target where
  limit := by
    rw [unannounced.loadSize]
    exact Nat.zero_le _
  clear := unannounced.clear _ target.platform.binInfoMapEntries_lt

/-- A step that keeps the version and is not refused keeps the invariant. -/
theorem chunkInv_step (loader : Loader) (event : SessionEvent) (next : Loader) (inv : loader.ChunkInv target)
    (keeps : KeepsVersion loader event) (accepted : ChunkStepAccepted target loader event)
    (step : (sessionMachine target).step loader event = some next) : next.ChunkInv target := by
  cases event with
  | datagram arrival now =>
    cases step
    have received : (loader.receiving arrival).ChunkInv target := ⟨inv.limit, inv.clear⟩
    exact received.processUdp keeps accepted
  | sendPacket | armWait | leaveLoop | giveUp | executeReturns =>
    cases step
    exact ⟨inv.limit, inv.clear⟩

/-- Along every run of commands from a clear bitmap, all are safe for it exactly if no `LBIN` is refused. -/
theorem session_chunks_safe_iff_accepted (target : Target) (source : Loader) (events : List SessionEvent)
    (unannounced : source.Unannounced target) (keeps : (sessionMachine target).Along KeepsVersion source events) :
    (sessionMachine target).Along (ChunkStepSafe target) source events ↔
      (sessionMachine target).Along (ChunkStepAccepted target) source events := by
  refine (LabeledMachine.along_congr_of_guarded chunkInv_step ?_ unannounced.chunkInv keeps).symm
  intro loader event inv keeps
  cases event with
  | datagram arrival now =>
    have received : (loader.receiving arrival).ChunkInv target := ⟨inv.limit, inv.clear⟩
    exact (Loader.chunkSafe_iff_accepted received keeps).symm
  | sendPacket | armWait | leaveLoop | giveUp | executeReturns => exact Iff.rfl

end Session

/-- A loader that a tool of version 3.0.0 has told its version. -/
def versionedStart : Loader := { Loader.start (fun _ => 0) fun _ => 0 with toolVersion := 0x00030000 }

theorem versionedStart_unannounced : versionedStart.Unannounced .dreamcast := ⟨rfl, fun _ _ => rfl⟩

/-- Two bytes are announced, received and asked about. -/
def acceptedSession : List SessionEvent :=
  [.datagram (.intact (netCommand netCmdLoadbin 0x8c010000 2 [])) 0,
    .datagram (.intact (netCommand netCmdPartbin 0x8c010000 2 [0x55, 0x66])) 0,
    .datagram (.intact (netCommand netCmdDonebin 0 0 [])) 0]

theorem session_chunks_safe_accepted :
    (sessionMachine .dreamcast).Along (ChunkStepSafe .dreamcast) versionedStart acceptedSession := by
  refine (session_chunks_safe_iff_accepted .dreamcast versionedStart acceptedSession versionedStart_unannounced
    (by decide +kernel)).mpr ?_
  decide +kernel

/-- Seventeen megabytes are announced to a Dreamcast. -/
def refusedLoadbin : Arrival := .intact (netCommand netCmdLoadbin 0x8c010000 0x1100000 [])

/-- The refused range has replaced the announced one. -/
theorem session_chunks_unsafe : ¬ ∀ (target : Target) (source : Loader) (events : List SessionEvent),
    source.Unannounced target → (sessionMachine target).Along KeepsVersion source events →
      (sessionMachine target).Along (ChunkStepSafe target) source events := by
  intro safe
  have step := (safe .dreamcast versionedStart [.datagram refusedLoadbin 0] versionedStart_unannounced
    (by decide +kernel)).head
  have covered := Loader.ChunkSafe.covered step
  revert covered
  decide +kernel

end KosTool.Client
