import KosTool.Soundness.WaitReports

/-! # Two loaders that differ in the tool's version and in stale bytes

A handler reads a datagram's own bytes and, of the tool's version, whether it is older than 2.0.0 and whether it
is 3.0.0 or newer. Two loaders that agree on these do the same with the same datagram, whatever earlier ones
have left in the receive memory.
-/

namespace KosTool.Client

open ByteWord DivUtil Protocol

/-- Two versions of the tool the loader treats alike. -/
structure SameMode (first second : Word) : Prop where
  dedup : 0x00030000#32 ≤ second ↔ 0x00030000#32 ≤ first
  legacy : dctoolMajor second < 2#32 ↔ dctoolMajor first < 2#32

instance (first second : Word) : Decidable (SameMode first second) :=
  decidable_of_iff ((0x00030000#32 ≤ second ↔ 0x00030000#32 ≤ first) ∧
    (dctoolMajor second < 2#32 ↔ dctoolMajor first < 2#32)) ⟨fun both => ⟨both.1, both.2⟩, fun mode => ⟨mode.1, mode.2⟩⟩

theorem SameMode.refl (version : Word) : SameMode version version := ⟨Iff.rfl, Iff.rfl⟩

theorem SameMode.trans {first second third : Word} (left : SameMode first second) (right : SameMode second third) :
    SameMode first third := ⟨right.1.trans left.1, right.2.trans left.2⟩

theorem SameMode.symm {first second : Word} (mode : SameMode first second) : SameMode second first :=
  ⟨mode.1.symm, mode.2.symm⟩

namespace Loader

/-- The loader with another version of the tool and another receive memory. -/
def disturbed (loader : Loader) (toolVersion : Word) (rx : Buffer) : Loader := { loader with toolVersion, rx }

/-- Two receive memories agree on what the handlers read of a datagram: its header, what its length covers, and
the data of a `PBIN`. -/
structure SameDatagram (rx other : Buffer) (udp : Udp) : Prop where
  header : ∀ i < netCommandLen, other (udp.data + i) = rx (udp.data + i)
  covered : ∀ i < udp.length.toNat - udpHeaderLen, other (udp.data + i) = rx (udp.data + i)
  data : commandId rx udp.data = netCmdPartbin → ∀ i < (commandSize rx udp.data).toNat,
    other (commandData udp.data + i) = rx (commandData udp.data + i)

variable {target : Target} {loader : Loader} {udp : Udp} {now : ℕ} {version : Word} {rx : Buffer}

theorem SameDatagram.commandId (same : SameDatagram loader.rx rx udp) :
    commandId rx udp.data = commandId loader.rx udp.data :=
  readBe32_congr fun i inside => same.header i (by unfold netCommandLen; omega)

theorem SameDatagram.commandAddress (same : SameDatagram loader.rx rx udp) :
    commandAddress rx udp.data = commandAddress loader.rx udp.data :=
  readBe32_congr fun i inside => by
    rw [Nat.add_assoc]
    exact same.header (4 + i) (by unfold netCommandLen; omega)

theorem SameDatagram.commandSize (same : SameDatagram loader.rx rx udp) :
    commandSize rx udp.data = commandSize loader.rx udp.data :=
  readBe32_congr fun i inside => by
    rw [Nat.add_assoc]
    exact same.header (8 + i) (by unfold netCommandLen; omega)

theorem SameDatagram.slice_header (same : SameDatagram loader.rx rx udp) :
    slice rx udp.data netCommandLen = slice loader.rx udp.data netCommandLen := slice_congr same.header

theorem SameDatagram.takes_iff (same : SameDatagram loader.rx rx udp) (version id : Word) :
    (loader.disturbed version rx).Takes udp id ↔ loader.Takes udp id := by
  unfold Takes
  rw [show (loader.disturbed version rx).rx = rx from rfl, same.commandId]

theorem trailered_disturbed (mode : SameMode loader.toolVersion version) (same : SameDatagram loader.rx rx udp) :
    (loader.disturbed version rx).Trailered udp ↔ loader.Trailered udp := by
  refine and_congr mode.dedup (and_congr_right fun long => ?_)
  have word : readBe32 rx (udp.data + (udp.length.toNat - udpHeaderLen) - netSeqTrailerLen) =
      readBe32 loader.rx (udp.data + (udp.length.toNat - udpHeaderLen) - netSeqTrailerLen) := by
    refine readBe32_congr fun i inside => ?_
    have covered := same.covered (udp.length.toNat - udpHeaderLen - netSeqTrailerLen + i)
      (by simp only [netCommandLen, netSeqTrailerLen] at long ⊢; omega)
    rwa [show udp.data + (udp.length.toNat - udpHeaderLen - netSeqTrailerLen + i) =
      udp.data + (udp.length.toNat - udpHeaderLen) - netSeqTrailerLen + i by
        simp only [netCommandLen, netSeqTrailerLen] at long ⊢; omega] at covered
  rw [show (loader.disturbed version rx).rx = rx from rfl, word]

theorem echoed_disturbed (same : SameDatagram loader.rx rx udp) (trailered : loader.Trailered udp) :
    (loader.disturbed version rx).echoed udp = loader.echoed udp := by
  have long := trailered.2.1
  refine readBe32_congr fun i inside => ?_
  have covered := same.covered (udp.length.toNat - udpHeaderLen - netSeqTrailerLen + netSeqMagicLen + i)
    (by simp only [netCommandLen, netSeqTrailerLen, netSeqMagicLen] at long ⊢; omega)
  rwa [show udp.data + (udp.length.toNat - udpHeaderLen - netSeqTrailerLen + netSeqMagicLen + i) =
    udp.data + (udp.length.toNat - udpHeaderLen) - netSeqTrailerLen + netSeqMagicLen + i by
      simp only [netCommandLen, netSeqTrailerLen, netSeqMagicLen] at long ⊢; omega] at covered

theorem stale_disturbed (mode : SameMode loader.toolVersion version) (same : SameDatagram loader.rx rx udp) :
    ((loader.disturbed version rx).Trailered udp ∧
        (loader.disturbed version rx).echoed udp ≠ (loader.disturbed version rx).kosSyscallSeq) ↔
      (loader.Trailered udp ∧ loader.echoed udp ≠ loader.kosSyscallSeq) := by
  rw [trailered_disturbed mode same]
  exact and_congr_right fun trailered => by rw [echoed_disturbed same trailered]; rfl

/-- Both accept the same answers. -/
theorem acceptsRetval_disturbed (mode : SameMode loader.toolVersion version) (same : SameDatagram loader.rx rx udp) :
    (loader.disturbed version rx).AcceptsRetval udp ↔ loader.AcceptsRetval udp := by
  unfold AcceptsRetval
  rw [same.takes_iff, stale_disturbed mode same]
  rfl

theorem announced_disturbed (mode : SameMode loader.toolVersion version) (same : SameDatagram loader.rx rx udp) :
    (loader.disturbed version rx).announced udp = loader.announced udp := by
  unfold announced
  simp only [trailered_disturbed mode same]
  rw [show (loader.disturbed version rx).rx = rx from rfl, same.commandAddress]

theorem netBump_disturbed : (loader.disturbed version rx).netBumpSyscallDeadline now =
    (loader.netBumpSyscallDeadline now).disturbed version rx := by
  unfold netBumpSyscallDeadline
  rw [show (loader.disturbed version rx).loopDeadlineTicks = loader.loopDeadlineTicks from rfl]
  split <;> rfl

theorem payloadSize_congr (mode : SameMode loader.toolVersion version) :
    payloadSize version = payloadSize loader.toolVersion := by
  unfold payloadSize
  simp only [mode.legacy]

theorem mapIndexVerify_congr (mode : SameMode loader.toolVersion version) (size : Word) :
    mapIndexVerify version size = mapIndexVerify loader.toolVersion size := by
  unfold mapIndexVerify
  simp only [mode.legacy]

/-- What a handler does on both sides: the same, but for what differs. -/
def Agrees (done : Loader × List Effect) (version : Word) (rx : Buffer) (other : Loader × List Effect) : Prop :=
  other = (done.1.disturbed version rx, done.2)

section Fields

variable (loader : Loader) (version : Word) (rx : Buffer)

@[simp] theorem disturbed_rx : (loader.disturbed version rx).rx = rx := rfl
@[simp] theorem disturbed_toolVersion : (loader.disturbed version rx).toolVersion = version := rfl
@[simp] theorem disturbed_binInfo : (loader.disturbed version rx).binInfo = loader.binInfo := rfl
@[simp] theorem disturbed_payload1024 : (loader.disturbed version rx).payload1024 = loader.payload1024 := rfl
@[simp] theorem disturbed_memory : (loader.disturbed version rx).memory = loader.memory := rfl
@[simp] theorem disturbed_cachedDest : (loader.disturbed version rx).cachedDest = loader.cachedDest := rfl
@[simp] theorem disturbed_running : (loader.disturbed version rx).running = loader.running := rfl

end Fields

theorem copyIn_congr {memory : Memory} {address : Word} {count : ℕ} {source other : Buffer}
    (same : ∀ i < count, other i = source i) : memory.copyIn address count other = memory.copyIn address count source := by
  funext query
  unfold Memory.copyIn
  split
  · exact same _ (by assumption)
  · rfl

theorem cmdPartbin_disturbed (same : SameDatagram loader.rx rx udp)
    (partbin : commandId loader.rx udp.data = netCmdPartbin) :
    Agrees (loader.cmdPartbin target udp now) version rx ((loader.disturbed version rx).cmdPartbin target udp now) := by
  simp only [Agrees, cmdPartbin, netBump_disturbed, disturbed_rx, disturbed_binInfo, disturbed_payload1024,
    disturbed_memory, disturbed_cachedDest, netBumpSyscallDeadline_rx, same.commandAddress, same.commandSize,
    copyIn_congr (same.data partbin)]
  rfl

theorem cmdDonebin_disturbed (mode : SameMode loader.toolVersion version) (same : SameDatagram loader.rx rx udp) :
    Agrees (loader.cmdDonebin udp now) version rx ((loader.disturbed version rx).cmdDonebin udp now) := by
  simp only [Agrees, cmdDonebin, donebinAnswer, netBump_disturbed, disturbed_rx, disturbed_binInfo,
    disturbed_toolVersion, netBumpSyscallDeadline_rx, netBumpSyscallDeadline_toolVersion, same.commandId,
    mapIndexVerify_congr mode, payloadSize_congr mode]

theorem cmdSendbinq_disturbed (mode : SameMode loader.toolVersion version) (same : SameDatagram loader.rx rx udp) :
    Agrees (loader.cmdSendbinq udp now) version rx ((loader.disturbed version rx).cmdSendbinq udp now) := by
  simp only [Agrees, cmdSendbinq, sendbinqReply, netBump_disturbed, disturbed_rx, disturbed_memory,
    disturbed_toolVersion, netBumpSyscallDeadline_rx, netBumpSyscallDeadline_toolVersion, same.commandAddress,
    same.commandSize, mapIndexVerify_congr mode, payloadSize_congr mode]

theorem cmdLoadbin_disturbed (mode : SameMode loader.toolVersion version) (same : SameDatagram loader.rx rx udp) :
    Agrees (loader.cmdLoadbin target udp now) version rx ((loader.disturbed version rx).cmdLoadbin target udp now) := by
  simp only [Agrees, cmdLoadbin, netBump_disturbed, disturbed_rx, disturbed_binInfo, disturbed_toolVersion,
    netBumpSyscallDeadline_rx, netBumpSyscallDeadline_toolVersion, same.commandAddress, same.commandSize,
    same.slice_header, mode.legacy]
  split_ifs <;> rfl

theorem cmdRetval_disturbed (mode : SameMode loader.toolVersion version) (same : SameDatagram loader.rx rx udp) :
    Agrees (loader.cmdRetval udp) version rx ((loader.disturbed version rx).cmdRetval udp) := by
  have staleIff := stale_disturbed mode same
  unfold Agrees cmdRetval
  rw [disturbed_running]
  by_cases dropped : ¬ loader.running = true ∨ udp.length.toNat < udpHeaderLen
  · rw [if_pos dropped, if_pos dropped]
  · by_cases stale : loader.Trailered udp ∧ loader.echoed udp ≠ loader.kosSyscallSeq
    · rw [if_neg dropped, if_neg dropped, if_pos stale, if_pos (staleIff.mpr stale)]
    · rw [if_neg dropped, if_neg dropped, if_neg stale, if_neg (mt staleIff.mp stale)]
      simp only [trailered_disturbed mode same, disturbed_rx, same.commandAddress, same.slice_header]
      rfl

theorem cmdExecute_disturbed (same : SameDatagram loader.rx rx udp) :
    Agrees (loader.cmdExecute udp) version rx ((loader.disturbed version rx).cmdExecute udp) := by
  simp only [Agrees, cmdExecute, disturbed_running, disturbed_rx, same.commandAddress, same.slice_header]
  split_ifs <;> rfl

theorem cmdVersion_disturbed (same : SameDatagram loader.rx rx udp) :
    Agrees (loader.cmdVersion target udp) (loader.cmdVersion target udp).1.toolVersion rx
      ((loader.disturbed version rx).cmdVersion target udp) := by
  simp only [Agrees, cmdVersion, disturbed_rx, same.commandAddress, same.commandId]
  rfl

theorem cmdRetval_toolVersion : (loader.cmdRetval udp).1.toolVersion = loader.toolVersion := by
  unfold cmdRetval
  split_ifs <;> rfl

theorem cmdExecute_toolVersion : (loader.cmdExecute udp).1.toolVersion = loader.toolVersion := by
  unfold cmdExecute
  split <;> rfl

/-- A handler that leaves the version alone. -/
theorem agrees_of_keeps {done other : Loader × List Effect} (mode : SameMode loader.toolVersion version)
    (keeps : done.1.toolVersion = loader.toolVersion) (agrees : Agrees done version rx other) :
    ∃ next, SameMode done.1.toolVersion next ∧ Agrees done next rx other :=
  ⟨version, keeps ▸ mode, agrees⟩

theorem dispatch_disturbed (mode : SameMode loader.toolVersion version) (same : SameDatagram loader.rx rx udp) :
    ∃ next, SameMode (loader.dispatch target udp now).1.toolVersion next ∧
      Agrees (loader.dispatch target udp now) next rx ((loader.disturbed version rx).dispatch target udp now) := by
  unfold dispatch
  simp only [disturbed_rx, same.commandId]
  by_cases partbin : commandId loader.rx udp.data = netCmdPartbin
  · simp only [if_pos partbin]
    exact agrees_of_keeps mode cmdPartbin_toolVersion (cmdPartbin_disturbed same partbin)
  simp only [if_neg partbin]
  split_ifs
  · exact agrees_of_keeps mode rfl rfl
  · exact agrees_of_keeps mode netBumpSyscallDeadline_toolVersion (cmdDonebin_disturbed mode same)
  · exact agrees_of_keeps mode cmdRetval_toolVersion (cmdRetval_disturbed mode same)
  · exact agrees_of_keeps mode cmdLoadbin_toolVersion (cmdLoadbin_disturbed mode same)
  · exact agrees_of_keeps mode netBumpSyscallDeadline_toolVersion (cmdSendbinq_disturbed mode same)
  · exact agrees_of_keeps mode cmdExecute_toolVersion (cmdExecute_disturbed same)
  · exact ⟨_, SameMode.refl _, cmdVersion_disturbed same⟩
  · exact agrees_of_keeps mode rfl rfl
  · exact agrees_of_keeps mode rfl rfl
  · exact agrees_of_keeps mode rfl rfl

/-- Both do the same with a datagram they read alike, and end with versions they treat alike. -/
theorem processUdp_disturbed (mode : SameMode loader.toolVersion version) (same : SameDatagram loader.rx rx udp) :
    ∃ next, SameMode (loader.processUdp target udp now).1.toolVersion next ∧
      Agrees (loader.processUdp target udp now) next rx ((loader.disturbed version rx).processUdp target udp now) := by
  have op : rx udp.data = loader.rx udp.data := same.header 0 (by decide)
  unfold processUdp
  rw [disturbed_rx, op]
  by_cases dropped : udp.length.toNat < udpHeaderLen ∨ udp.checksumMatches = false
  · rw [if_pos dropped, if_pos dropped]
    exact agrees_of_keeps mode rfl rfl
  by_cases dhcp : loader.rx udp.data = 2#8
  · rw [if_neg dropped, if_neg dropped, if_pos dhcp, if_pos dhcp]
    exact agrees_of_keeps mode rfl rfl
  rw [if_neg dropped, if_neg dropped, if_neg dhcp, if_neg dhcp]
  exact dispatch_disturbed mode same

end Loader

end KosTool.Client
