import KosTool.Model.DivUtil
import KosTool.Model.Protocol

/-! # The loader's network command handlers

`client/common/core/commands.c` with the dispatch of `process_udp`. Every handler takes the
loader's state and returns the next state and what it does to the outside. The receive memory is
part of the state and a command is the offset of its UDP payload there. Tick counts are natural
numbers: the 64-bit time base does not wrap. Replies go back to the sender of the command, so
their Ethernet, IP and UDP headers are left out.
-/

namespace KosTool.Client

open ByteWord DivUtil Protocol

/-- The consoles whose loader links the network commands. -/
inductive Platform where
  | dreamcast
  | gamecube
  | playstation2
  | wii
  | xbox
deriving DecidableEq, Repr

/-- `MAX_RAM_BYTES`. -/
def Platform.maxRamBytes : Platform → ℕ
  | .dreamcast => 16777216
  | .gamecube => 25165824
  | .playstation2 => 33554432
  | .wii => 92274688
  | .xbox => 67108864

/-- `BIN_INFO_MAP_ENTRIES`. -/
def Platform.binInfoMapEntries (platform : Platform) : ℕ := (platform.maxRamBytes + 1439) / 1440

/-- `BIN_INFO_MAP_BYTES`. -/
def Platform.binInfoMapBytes (platform : Platform) : ℕ := (platform.binInfoMapEntries + 63) / 64 * 8

theorem Platform.maxRamBytes_lt (platform : Platform) : platform.maxRamBytes + 1440 < 2 ^ 32 := by
  cases platform <;> decide

/-- One more bit than there are entries still lies inside the map's bytes. -/
theorem Platform.binInfoMapEntries_lt (platform : Platform) :
    platform.binInfoMapEntries < platform.binInfoMapBytes * 8 := by
  cases platform <;> decide

/-- What the handlers ask of the console they run on. -/
structure Target where
  platform : Platform
  /-- `detect_ram_size()`. -/
  detectRamSize : Word
  /-- The loader's name and version as `VERS` reports them. -/
  loaderBanner : List Byte
  /-- `bb->name` with its terminator. -/
  adapterName : List Byte
  installedAdapter : Word

/-- A Dreamcast with its sixteen megabytes. -/
def Target.dreamcast : Target where
  platform := .dreamcast
  detectRamSize := 0x1000000
  loaderBanner := "dc-load-ip 3.1.0 using ".toList.map fun letter => BitVec.ofNat 8 letter.toNat
  adapterName := "Broadband Adapter (HIT-0400)".toList.map (fun letter => BitVec.ofNat 8 letter.toNat) ++ [0]
  installedAdapter := 0x0100

/-- A Wii on its internal Wi-Fi. -/
def Target.wii : Target where
  platform := .wii
  detectRamSize := 0x5800000
  loaderBanner := "wii-load-ip 3.1.0 using ".toList.map fun letter => BitVec.ofNat 8 letter.toNat
  adapterName := "Internal Wi-Fi".toList.map (fun letter => BitVec.ofNat 8 letter.toNat) ++ [0]
  installedAdapter := 0x0E59

/-- `bin_info_t`: the announced range and the bitmap of the chunks received. -/
structure BinInfo where
  loadAddress : Word
  loadSize : Word
  map : ℕ → Bool

/-- The loader's globals. -/
structure Loader where
  binInfo : BinInfo
  cachedDest : Bool
  payload1024 : Bool
  toolVersion : Word
  running : Bool
  escapeLoop : Bool
  syscallRetval : Word
  /-- Where in the receive memory the inline payload of the last `RETV` starts. -/
  syscallData : Option ℕ
  syscallDataLen : ℕ
  kosSyscallSeq : Word
  kosSyscallNextSeq : Word
  /-- The UDP payload kept for retransmission; empty when it was too long to keep. -/
  kosSyscallSavePkt : List Byte
  loopDeadlineTicks : ℕ
  kosSyscallTimeoutTicks : ℕ
  /-- Guest memory. -/
  memory : Memory
  /-- Receive memory. -/
  rx : Buffer

/-- The loader as it starts, whatever guest and receive memory hold. -/
def Loader.start (memory : Memory) (rx : Buffer) : Loader where
  binInfo := { loadAddress := 0, loadSize := 0, map := fun _ => false }
  cachedDest := false
  payload1024 := false
  toolVersion := 0
  running := false
  escapeLoop := false
  syscallRetval := 0
  syscallData := none
  syscallDataLen := 0
  kosSyscallSeq := 0
  kosSyscallNextSeq := 1
  kosSyscallSavePkt := []
  loopDeadlineTicks := 0
  kosSyscallTimeoutTicks := 0
  memory := memory
  rx := rx

/-- A UDP datagram in the receive memory: the header fields and where the payload starts. -/
structure Udp where
  length : BitVec 16
  /-- Whether `process_udp` finds the checksum right. -/
  checksumMatches : Bool
  data : ℕ

/-- What a handler does outside its own state. -/
inductive Effect where
  | tx (payload : List Byte)
  | write (fd : ℕ) (text : String) (count : ℕ)
  | progexit (code : Word)
  | execute (address : Word)
  | reboot
  | cacheBlockPurge (address : Word) (blocks : Word)
  | dhcpReply (udp : Udp)
  | handler (id : Word)

def udpHeaderLen : ℕ := 8

/-- `DCTOOL_MAJOR`. -/
def dctoolMajor (toolVersion : Word) : Word := (toolVersion &&& 0x00ff0000#32) >>> 16

/-- `map_clear_all`: clears the bytes of the map and nothing beyond them. -/
def mapClearAll (platform : Platform) (map : ℕ → Bool) : ℕ → Bool :=
  fun index => if index < platform.binInfoMapBytes * 8 then false else map index

/-- `map_set`. -/
def mapSet (map : ℕ → Bool) (index : ℕ) : ℕ → Bool := fun i => if i = index then true else map i

theorem mapSet_apply (map : ℕ → Bool) (index k : ℕ) :
    mapSet map index k = (map k || decide (k = index)) := by
  unfold mapSet
  by_cases same : k = index <;> simp [same]

/-- The scan of `cmd_donebin` from an index on: the first clear bit, or the end. -/
def mapScan (map : ℕ → Bool) : ℕ → ℕ → ℕ
  | index, 0 => index
  | index, remaining + 1 => if map index then mapScan map (index + 1) remaining else index

theorem mapScan_spec (map : ℕ → Bool) (index remaining : ℕ) :
    index ≤ mapScan map index remaining ∧ mapScan map index remaining ≤ index + remaining ∧
      (∀ k, index ≤ k → k < mapScan map index remaining → map k = true) ∧
      (mapScan map index remaining < index + remaining → map (mapScan map index remaining) = false) := by
  induction remaining generalizing index with
  | zero => exact ⟨le_rfl, le_rfl, fun k lower upper => absurd upper (Nat.not_lt.mpr lower),
      fun less => absurd less (Nat.lt_irrefl _)⟩
  | succ remaining ih =>
    rw [mapScan]
    cases bit : map index with
    | false =>
      rw [if_neg (by decide)]
      exact ⟨le_rfl, by omega, fun k lower upper => by omega, fun _ => bit⟩
    | true =>
      rw [if_pos rfl]
      obtain ⟨lower, upper, set, clear⟩ := ih (index + 1)
      refine ⟨by omega, by omega, fun k from_index below => ?_, fun less => clear (by omega)⟩
      rcases Nat.eq_or_lt_of_le from_index with rfl | later
      · exact bit
      · exact set k later below

/-- The scan stops at the first clear bit, or at the end. -/
theorem mapScan_eq_iff (map : ℕ → Bool) (verify stop : ℕ) :
    mapScan map 0 verify = stop ↔
      stop ≤ verify ∧ (∀ k < stop, map k = true) ∧ (stop < verify → map stop = false) := by
  obtain ⟨-, upper, set, clear⟩ := mapScan_spec map 0 verify
  rw [Nat.zero_add] at upper clear
  constructor
  · rintro rfl
    exact ⟨upper, fun k below => set k (Nat.zero_le k) below, clear⟩
  · rintro ⟨inside, below, atStop⟩
    rcases Nat.lt_trichotomy (mapScan map 0 verify) stop with early | same | late
    · have bit := below _ early
      rw [clear (by omega)] at bit
      exact absurd bit (by decide)
    · exact same
    · have bit := set stop (Nat.zero_le _) late
      rw [atStop (by omega)] at bit
      exact absurd bit (by decide)

/-- `min(a, b)`. -/
def minWord (a b : Word) : Word := if a < b then a else b

theorem toNat_minWord (a b : Word) : (minWord a b).toNat = min a.toNat b.toNat := by
  unfold minWord
  split <;> bv_omega

/-- The bitmap index of a `PBIN` at an offset above the load address. -/
def partbinIndex (payload1024 : Bool) (offset : Word) : ℕ :=
  if payload1024 then (offset / 1024#32).toNat else (udivConst offset 1440#32).toNat

/-- The chunk size a `PBIN` is indexed by. -/
def chunkSize (payload1024 : Bool) : ℕ := if payload1024 then 1024 else 1440

/-- The number of chunks `cmd_donebin` asks for. -/
def mapIndexVerify (toolVersion loadSize : Word) : ℕ :=
  if dctoolMajor toolVersion < 2#32 then ((loadSize + 1023#32) / 1024#32).toNat
  else (udivConst (loadSize + 1439#32) 1440#32).toNat

/-- The chunk size `cmd_donebin` and `cmd_sendbinq` work with. -/
def payloadSize (toolVersion : Word) : Word :=
  if dctoolMajor toolVersion < 2#32 then 1024#32 else 1440#32

/-- The address and size `cmd_donebin` answers with. -/
def donebinAnswer (toolVersion : Word) (binInfo : BinInfo) : Word × Word :=
  let verify := mapIndexVerify toolVersion binInfo.loadSize
  let i := mapScan binInfo.map 0 verify
  if i = verify then (0#32, 0#32)
  else
    let offset := BitVec.ofNat 32 i * payloadSize toolVersion
    (binInfo.loadAddress + offset, minWord (binInfo.loadSize - offset) (payloadSize toolVersion))

/-- The `SBIN` datagrams of `cmd_sendbinq` from an address on. -/
def sendbinPackets (memory : Memory) (payloadSize : Word) : ℕ → Word → Word → List (List Byte)
  | 0, _, _ => []
  | numpackets + 1, cmdAddr, bytesLeft =>
    let bytesThistime := if payloadSize ≤ bytesLeft then payloadSize else bytesLeft
    netCommand netCmdSendbin cmdAddr bytesThistime (memory.copyOut cmdAddr bytesThistime.toNat) ::
      sendbinPackets memory payloadSize numpackets (cmdAddr + bytesThistime)
        (bytesLeft - bytesThistime)

/-- The datagrams `cmd_sendbinq` answers with. -/
def sendbinqReply (toolVersion : Word) (memory : Memory) (cmdAddr size : Word) : List (List Byte) :=
  sendbinPackets memory (payloadSize toolVersion) (mapIndexVerify toolVersion size) cmdAddr size ++
    [netCommand netCmdDonebin 0#32 0#32 []]

/-- The size limit of `cmd_loadbin` for the tool's version. -/
def loadLimit (target : Target) (toolVersion : Word) : ℕ :=
  if dctoolMajor toolVersion < 2#32 then target.platform.binInfoMapEntries * 1024
  else min target.platform.maxRamBytes target.detectRamSize.toNat

namespace Loader

/-- A datagram arrives: its payload is stored in the receive memory. -/
def receive (loader : Loader) (frame : ℕ) (payload : List Byte) : Loader :=
  { loader with rx := storeAt loader.rx frame payload }

/-- `net_bump_syscall_deadline`. -/
def netBumpSyscallDeadline (loader : Loader) (now : ℕ) : Loader :=
  if loader.loopDeadlineTicks = 0 then loader
  else { loader with loopDeadlineTicks := now + loader.kosSyscallTimeoutTicks }

/-- `cmd_loadbin`. A refused request has already overwritten the announced range. -/
def cmdLoadbin (target : Target) (loader : Loader) (udp : Udp) (now : ℕ) : Loader × List Effect :=
  let loader := loader.netBumpSyscallDeadline now
  let loadAddress := commandAddress loader.rx udp.data
  let loadSize := commandSize loader.rx udp.data
  let loader := { loader with binInfo := { loader.binInfo with loadAddress, loadSize } }
  if dctoolMajor loader.toolVersion < 2#32 ∧
      BitVec.ofNat 32 (target.platform.binInfoMapEntries * 1024) < loadSize then
    (loader, [.write 1 "ERROR: Size >11656KB (legacy mode)\r\n" 37, .progexit (-1)])
  else if ¬ dctoolMajor loader.toolVersion < 2#32 ∧
      minWord (BitVec.ofNat 32 target.platform.maxRamBytes) target.detectRamSize < loadSize then
    (loader, [.write 1 "ERROR: Size exceeds RAM\r\n" 25, .progexit (-1)])
  else
    ({ loader with
        binInfo := { loader.binInfo with map := mapClearAll target.platform loader.binInfo.map }
        cachedDest := loadAddress >>> 29 ≠ 0x5#32 ∧ loadAddress >>> 29 ≠ 0x7#32
        payload1024 := dctoolMajor loader.toolVersion < 2#32 },
      [.tx (slice loader.rx udp.data netCommandLen)])

/-- How far above the load address the `PBIN` points. -/
def partbinOffset (loader : Loader) (udp : Udp) : Word :=
  commandAddress loader.rx udp.data - loader.binInfo.loadAddress

/-- `cmd_partbin`. The signed index is never negative. -/
def cmdPartbin (target : Target) (loader : Loader) (udp : Udp) (now : ℕ) : Loader × List Effect :=
  let cmdAddr := commandAddress loader.rx udp.data
  let cmdSize := commandSize loader.rx udp.data
  let loader := loader.netBumpSyscallDeadline now
  let memory := loader.memory.copyIn cmdAddr cmdSize.toNat fun i => loader.rx (commandData udp.data + i)
  let index := partbinIndex loader.payload1024 (cmdAddr - loader.binInfo.loadAddress)
  let map := if index < target.platform.binInfoMapEntries then mapSet loader.binInfo.map index
    else loader.binInfo.map
  ({ loader with memory, binInfo := { loader.binInfo with map } },
    if loader.cachedDest then [.cacheBlockPurge cmdAddr ((cmdSize + 31#32) / 32#32 + 2#32)] else [])

/-- `cmd_donebin`. -/
def cmdDonebin (loader : Loader) (udp : Udp) (now : ℕ) : Loader × List Effect :=
  let loader := loader.netBumpSyscallDeadline now
  let answer := donebinAnswer loader.toolVersion loader.binInfo
  (loader, [.tx (netCommand (commandId loader.rx udp.data) answer.1 answer.2 [])])

/-- `cmd_sendbinq`; `cmd_sendbin` differs in what it displays. -/
def cmdSendbinq (loader : Loader) (udp : Udp) (now : ℕ) : Loader × List Effect :=
  let loader := loader.netBumpSyscallDeadline now
  (loader, (sendbinqReply loader.toolVersion loader.memory (commandAddress loader.rx udp.data)
    (commandSize loader.rx udp.data)).map .tx)

/-- `cmd_version`. -/
def cmdVersion (target : Target) (loader : Loader) (udp : Udp) : Loader × List Effect :=
  let text := target.loaderBanner ++ target.adapterName
  ({ loader with toolVersion := commandAddress loader.rx udp.data },
    [.tx (netCommand (commandId loader.rx udp.data) target.installedAdapter
      (BitVec.ofNat 32 text.length) text)])

/-- The datagram is long enough for a trailer and ends in the magic of one. -/
def Trailered (loader : Loader) (udp : Udp) : Prop :=
  0x00030000#32 ≤ loader.toolVersion ∧
    netCommandLen + netSeqTrailerLen ≤ udp.length.toNat - udpHeaderLen ∧
    readBe32 loader.rx (udp.data + (udp.length.toNat - udpHeaderLen) - netSeqTrailerLen) = netSeqMagic

instance (loader : Loader) (udp : Udp) : Decidable (loader.Trailered udp) :=
  inferInstanceAs (Decidable (_ ∧ _ ∧ _))

/-- The sequence id at the end of the datagram. -/
def echoed (loader : Loader) (udp : Udp) : Word :=
  readBe32 loader.rx
    (udp.data + (udp.length.toNat - udpHeaderLen) - netSeqTrailerLen + netSeqMagicLen)

/-- `cmd_retval`. -/
def cmdRetval (loader : Loader) (udp : Udp) : Loader × List Effect :=
  let udpPayloadLen := udp.length.toNat - udpHeaderLen
  if ¬ loader.running ∨ udp.length.toNat < udpHeaderLen then (loader, [])
  else if loader.Trailered udp ∧ loader.echoed udp ≠ loader.kosSyscallSeq then (loader, [])
  else
    let dataLen := udpPayloadLen - netCommandLen
    ({ loader with
        syscallRetval := commandAddress loader.rx udp.data
        syscallData := some (commandData udp.data)
        syscallDataLen :=
          if loader.Trailered udp ∧ netSeqTrailerLen ≤ dataLen then dataLen - netSeqTrailerLen
          else dataLen
        escapeLoop := true },
      [.tx (slice loader.rx udp.data netCommandLen)])

/-- `cmd_execute` up to the jump into the program; the program's return is `executeReturns`. -/
def cmdExecute (loader : Loader) (udp : Udp) : Loader × List Effect :=
  if loader.running then (loader, [])
  else ({ loader with running := true },
    [.tx (slice loader.rx udp.data netCommandLen), .execute (commandAddress loader.rx udp.data)])

/-- The program has returned to `cmd_execute`. -/
def executeReturns (loader : Loader) : Loader := { loader with running := false }

/-- `cmd_reboot`. -/
def cmdReboot (loader : Loader) : Loader × List Effect := ({ loader with running := false }, [.reboot])

/-- The command dispatch of `process_udp`, most frequent command first. -/
def dispatch (target : Target) (loader : Loader) (udp : Udp) (now : ℕ) : Loader × List Effect :=
  let id := commandId loader.rx udp.data
  if id = netCmdPartbin then loader.cmdPartbin target udp now
  else if id = netCmdMaple ∨ id = netCmdPmcr then (loader, [.handler id])
  else if id = netCmdDonebin then loader.cmdDonebin udp now
  else if id = netCmdRetval then loader.cmdRetval udp
  else if id = netCmdLoadbin then loader.cmdLoadbin target udp now
  else if id = netCmdSendbinq ∨ id = netCmdSendbin then loader.cmdSendbinq udp now
  else if id = netCmdExecute then loader.cmdExecute udp
  else if id = netCmdVersion then loader.cmdVersion target udp
  else if id = netCmdCapabilities ∨ id = netCmdSetrtc then (loader, [.handler id])
  else if id = netCmdReboot then loader.cmdReboot
  else (loader, [])

/-- `process_udp`: drops what is too short or damaged, and hands `BOOTREPLY` datagrams to DHCP. -/
def processUdp (target : Target) (loader : Loader) (udp : Udp) (now : ℕ) : Loader × List Effect :=
  if udp.length.toNat < udpHeaderLen ∨ udp.checksumMatches = false then (loader, [])
  else if loader.rx udp.data = 2#8 then (loader, [.dhcpReply udp])
  else loader.dispatch target udp now

/-- The datagram gets through the checks of `process_udp` and carries the command id. -/
def Takes (loader : Loader) (udp : Udp) (id : Word) : Prop :=
  udpHeaderLen ≤ udp.length.toNat ∧ udp.checksumMatches = true ∧ commandId loader.rx udp.data = id

instance (loader : Loader) (udp : Udp) (id : Word) : Decidable (loader.Takes udp id) :=
  inferInstanceAs (Decidable (_ ∧ _ ∧ _))

variable {target : Target} {loader : Loader} {udp : Udp} {now : ℕ}

@[simp] theorem netBumpSyscallDeadline_memory : (loader.netBumpSyscallDeadline now).memory = loader.memory := by
  unfold netBumpSyscallDeadline; split <;> rfl

@[simp] theorem netBumpSyscallDeadline_rx : (loader.netBumpSyscallDeadline now).rx = loader.rx := by
  unfold netBumpSyscallDeadline; split <;> rfl

@[simp] theorem netBumpSyscallDeadline_binInfo :
    (loader.netBumpSyscallDeadline now).binInfo = loader.binInfo := by
  unfold netBumpSyscallDeadline; split <;> rfl

@[simp] theorem netBumpSyscallDeadline_payload1024 :
    (loader.netBumpSyscallDeadline now).payload1024 = loader.payload1024 := by
  unfold netBumpSyscallDeadline; split <;> rfl

@[simp] theorem netBumpSyscallDeadline_toolVersion :
    (loader.netBumpSyscallDeadline now).toolVersion = loader.toolVersion := by
  unfold netBumpSyscallDeadline; split <;> rfl

/-- The memory a `PBIN` leaves: the announced number of bytes, copied to its address. -/
theorem cmdPartbin_memory : (loader.cmdPartbin target udp now).1.memory =
    loader.memory.copyIn (commandAddress loader.rx udp.data) (commandSize loader.rx udp.data).toNat
      fun i => loader.rx (commandData udp.data + i) := by
  simp only [cmdPartbin, netBumpSyscallDeadline_memory, netBumpSyscallDeadline_rx]

/-- The bitmap a `PBIN` leaves: one more bit, if its index is inside. -/
theorem cmdPartbin_map (k : ℕ) : (loader.cmdPartbin target udp now).1.binInfo.map k =
    (loader.binInfo.map k || decide (k = partbinIndex loader.payload1024 (loader.partbinOffset udp) ∧
      k < target.platform.binInfoMapEntries)) := by
  simp only [cmdPartbin, netBumpSyscallDeadline_binInfo, netBumpSyscallDeadline_payload1024]
  rw [show commandAddress loader.rx udp.data - loader.binInfo.loadAddress = loader.partbinOffset udp
    from rfl]
  split_ifs with inside
  · rw [mapSet_apply]
    congr 1
    exact decide_eq_decide.mpr ⟨fun same => ⟨same, same ▸ inside⟩, And.left⟩
  · have beyond : ¬ (k = partbinIndex loader.payload1024 (loader.partbinOffset udp) ∧
        k < target.platform.binInfoMapEntries) := fun ⟨same, below⟩ => inside (same ▸ below)
    rw [decide_eq_false beyond, Bool.or_false]


theorem cmdPartbin_loadAddress :
    (loader.cmdPartbin target udp now).1.binInfo.loadAddress = loader.binInfo.loadAddress := by
  simp only [cmdPartbin, netBumpSyscallDeadline_binInfo]

theorem cmdPartbin_loadSize :
    (loader.cmdPartbin target udp now).1.binInfo.loadSize = loader.binInfo.loadSize := by
  simp only [cmdPartbin, netBumpSyscallDeadline_binInfo]

theorem cmdPartbin_payload1024 : (loader.cmdPartbin target udp now).1.payload1024 = loader.payload1024 := by
  simp only [cmdPartbin, netBumpSyscallDeadline_payload1024]

theorem cmdPartbin_toolVersion : (loader.cmdPartbin target udp now).1.toolVersion = loader.toolVersion := by
  simp only [cmdPartbin, netBumpSyscallDeadline_toolVersion]

theorem loadLimit_lt_iff (target : Target) (toolVersion size : Word) :
    loadLimit target toolVersion < size.toNat ↔
      dctoolMajor toolVersion < 2#32 ∧ BitVec.ofNat 32 (target.platform.binInfoMapEntries * 1024) < size ∨
        ¬ dctoolMajor toolVersion < 2#32 ∧
          minWord (BitVec.ofNat 32 target.platform.maxRamBytes) target.detectRamSize < size := by
  have entries : target.platform.binInfoMapEntries * 1024 < 2 ^ 32 := by
    cases target.platform <;> decide
  have ram : target.platform.maxRamBytes < 2 ^ 32 := by
    cases target.platform <;> decide
  unfold loadLimit
  by_cases legacy : dctoolMajor toolVersion < 2#32
  · rw [if_pos legacy, @BitVec.lt_def _ (BitVec.ofNat 32 _), BitVec.toNat_ofNat, Nat.mod_eq_of_lt entries]
    exact ⟨fun beyond => Or.inl ⟨legacy, beyond⟩, fun refused =>
      (refused.resolve_right fun current => current.1 legacy).2⟩
  · rw [if_neg legacy, @BitVec.lt_def _ (minWord _ _), toNat_minWord, BitVec.toNat_ofNat,
      Nat.mod_eq_of_lt ram]
    exact ⟨fun beyond => Or.inr ⟨legacy, beyond⟩, fun refused =>
      (refused.resolve_left fun old => legacy old.1).2⟩

/-- A `LBIN` within the limit is acknowledged and starts an empty map. -/
theorem cmdLoadbin_of_le
    (fits : (commandSize loader.rx udp.data).toNat ≤ loadLimit target loader.toolVersion) :
    loader.cmdLoadbin target udp now =
      ({ loader.netBumpSyscallDeadline now with
          binInfo :=
            { loadAddress := commandAddress loader.rx udp.data
              loadSize := commandSize loader.rx udp.data
              map := mapClearAll target.platform loader.binInfo.map }
          cachedDest := commandAddress loader.rx udp.data >>> 29 ≠ 0x5#32 ∧
            commandAddress loader.rx udp.data >>> 29 ≠ 0x7#32
          payload1024 := dctoolMajor loader.toolVersion < 2#32 },
        [.tx (slice loader.rx udp.data netCommandLen)]) := by
  have accepted := Nat.not_lt.mpr fits
  rw [loadLimit_lt_iff, not_or] at accepted
  simp only [cmdLoadbin, netBumpSyscallDeadline_rx, netBumpSyscallDeadline_toolVersion,
    netBumpSyscallDeadline_binInfo, if_neg accepted.1, if_neg accepted.2]

/-- A `LBIN` beyond the limit is not acknowledged. -/
theorem cmdLoadbin_of_lt
    (beyond : loadLimit target loader.toolVersion < (commandSize loader.rx udp.data).toNat) (ack : List Byte) :
    (loader.cmdLoadbin target udp now).2 ≠ [.tx ack] := by
  have refused := (loadLimit_lt_iff _ _ _).mp beyond
  simp only [cmdLoadbin, netBumpSyscallDeadline_rx, netBumpSyscallDeadline_toolVersion]
  rcases refused with legacy | current
  · rw [if_pos legacy]
    simp
  · rw [if_neg fun legacy => current.1 legacy.1, if_pos current]
    simp

theorem processUdp_of_takes {id : Word} (takes : loader.Takes udp id)
    (letter : id.extractLsb' 24 8 ≠ 2#8) : loader.processUdp target udp now = loader.dispatch target udp now := by
  obtain ⟨long, intact, rfl⟩ := takes
  rw [commandId, extract_readBe32] at letter
  unfold processUdp
  rw [if_neg (by rw [intact]; simp only [Bool.true_eq_false, or_false]; omega), if_neg letter]

theorem processUdp_partbin (takes : loader.Takes udp netCmdPartbin) :
    loader.processUdp target udp now = loader.cmdPartbin target udp now := by
  rw [processUdp_of_takes takes (by decide), dispatch, takes.2.2]
  rfl

theorem processUdp_donebin (takes : loader.Takes udp netCmdDonebin) :
    loader.processUdp target udp now = loader.cmdDonebin udp now := by
  rw [processUdp_of_takes takes (by decide), dispatch, takes.2.2]
  rfl

theorem processUdp_retval (takes : loader.Takes udp netCmdRetval) :
    loader.processUdp target udp now = loader.cmdRetval udp := by
  rw [processUdp_of_takes takes (by decide), dispatch, takes.2.2]
  rfl

theorem processUdp_loadbin (takes : loader.Takes udp netCmdLoadbin) :
    loader.processUdp target udp now = loader.cmdLoadbin target udp now := by
  rw [processUdp_of_takes takes (by decide), dispatch, takes.2.2]
  rfl

theorem processUdp_sendbinq (takes : loader.Takes udp netCmdSendbinq) :
    loader.processUdp target udp now = loader.cmdSendbinq udp now := by
  rw [processUdp_of_takes takes (by decide), dispatch, takes.2.2]
  rfl

theorem processUdp_sendbin (takes : loader.Takes udp netCmdSendbin) :
    loader.processUdp target udp now = loader.cmdSendbinq udp now := by
  rw [processUdp_of_takes takes (by decide), dispatch, takes.2.2]
  rfl

theorem processUdp_version (takes : loader.Takes udp netCmdVersion) :
    loader.processUdp target udp now = loader.cmdVersion target udp := by
  rw [processUdp_of_takes takes (by decide), dispatch, takes.2.2]
  rfl

/-- The range announced, the bitmap and guest memory; only `LBIN` and `PBIN` touch them. -/
def transfer (loader : Loader) : BinInfo × Bool × Memory := (loader.binInfo, loader.payload1024, loader.memory)

@[simp] theorem netBumpSyscallDeadline_transfer :
    (loader.netBumpSyscallDeadline now).transfer = loader.transfer := by
  unfold netBumpSyscallDeadline; split <;> rfl

@[simp] theorem cmdRetval_transfer : (loader.cmdRetval udp).1.transfer = loader.transfer := by
  unfold cmdRetval; split_ifs <;> rfl

@[simp] theorem cmdExecute_transfer : (loader.cmdExecute udp).1.transfer = loader.transfer := by
  unfold cmdExecute; split <;> rfl

/-- Every other command leaves the transfer as it is. -/
theorem processUdp_transfer (noLoadbin : ¬ loader.Takes udp netCmdLoadbin)
    (noPartbin : ¬ loader.Takes udp netCmdPartbin) :
    (loader.processUdp target udp now).1.transfer = loader.transfer := by
  unfold processUdp
  split_ifs with dropped dhcp
  · rfl
  · rfl
  · rw [not_or, Nat.not_lt, Bool.not_eq_false] at dropped
    have partbin : commandId loader.rx udp.data ≠ netCmdPartbin := fun id => noPartbin ⟨dropped.1, dropped.2, id⟩
    have loadbin : commandId loader.rx udp.data ≠ netCmdLoadbin := fun id => noLoadbin ⟨dropped.1, dropped.2, id⟩
    simp only [dispatch, partbin, loadbin, if_false, cmdDonebin, cmdSendbinq, cmdVersion, cmdReboot]
    split_ifs <;> first | rfl | exact netBumpSyscallDeadline_transfer | exact cmdRetval_transfer |
      exact cmdExecute_transfer

theorem cmdLoadbin_toolVersion : (loader.cmdLoadbin target udp now).1.toolVersion = loader.toolVersion := by
  simp only [cmdLoadbin]
  split_ifs <;> exact netBumpSyscallDeadline_toolVersion

/-- Only `VERS` changes the tool's version. -/
theorem processUdp_toolVersion (noVersion : ¬ loader.Takes udp netCmdVersion) :
    (loader.processUdp target udp now).1.toolVersion = loader.toolVersion := by
  unfold processUdp
  split_ifs with dropped dhcp
  · rfl
  · rfl
  · rw [not_or, Nat.not_lt, Bool.not_eq_false] at dropped
    have version : commandId loader.rx udp.data ≠ netCmdVersion := fun id => noVersion ⟨dropped.1, dropped.2, id⟩
    simp only [dispatch, version, if_false, cmdDonebin, cmdSendbinq, cmdRetval, cmdExecute, cmdReboot]
    split_ifs <;> first | rfl | exact netBumpSyscallDeadline_toolVersion | exact cmdPartbin_toolVersion |
      exact cmdLoadbin_toolVersion

end Loader

end KosTool.Client
