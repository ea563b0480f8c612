import KosTool.Model.GdbPacket
import KosTool.Soundness.BlockRoundTrip
import KosTool.Soundness.StatAgreement

/-! # The bounds of the debugger's packets

The answer of the debugger is bounded on both ends by what the program asks for. Its packet is not: the console copies it into the packet
buffer whatever its size, and over the line the host's buffer takes blocks as they come.
-/

namespace KosTool

open ByteWord Protocol Client Host KosTool.Serial Machine

/-! ### The host's end -/

namespace Host.GdbSockets

variable (sockets : GdbSockets) (context : GdbContext)

/-- What is received is in `gdb_buf`, and no more than asked for. -/
theorem receive_bounded (outSize : Word) :
    (∀ n ∈ (sockets.receive context outSize).1, n ≤ Serial.gdbBufSize) ∧
      (sockets.receive context outSize).2.1.length ≤ min outSize.toNat Serial.gdbBufSize := by
  rw [receive]
  split_ifs with none_wanted
  · exact ⟨fun n member => (nomatch member), Nat.zero_le _⟩
  · cases sockets.recv (min outSize.toNat Serial.gdbBufSize) with
    | none => exact ⟨fun n member => (nomatch member), Nat.zero_le _⟩
    | some reply =>
      have short := reply.2
      dsimp only
      split_ifs with empty
      · exact ⟨fun n member => by rw [List.mem_singleton.mp member]; exact Nat.zero_le _, Nat.zero_le _⟩
      · refine ⟨fun n member => ?_, short⟩
        rw [List.mem_singleton.mp member]
        exact short.trans (Nat.min_le_right _ _)

/-- The answer of a handler: `gdb_buf` holds what is stored in it, the debugger gets the packet or nothing, and the value is −1, or the
length of the data, of which there are no more than asked for. -/
structure Bounded (served : GdbServed) (packet : List Byte) (outSize : Word) : Prop where
  stored : ∀ n ∈ served.stored, n ≤ Serial.gdbBufSize
  forwarded : served.forwarded ≤ packet.length
  short : served.data.length ≤ min outSize.toNat Serial.gdbBufSize
  value : (served.retval = -1 ∧ served.data = []) ∨ served.retval = BitVec.ofNat 32 served.data.length

theorem bounded_refused (retval : Word) (refused : retval = -1 ∨ retval = 0) {forwarded : ℕ} {packet : List Byte}
    (among : forwarded ≤ packet.length) (outSize : Word) (context : GdbContext) :
    Bounded ⟨[], forwarded, retval, [], context⟩ packet outSize :=
  ⟨fun _ member => (nomatch member), among, Nat.zero_le _, refused.imp (fun same => ⟨same, rfl⟩) id⟩

theorem serve_bounded (packet : List Byte) (outSize : Word) : Bounded (sockets.serve context packet outSize) packet outSize := by
  rw [serve]
  by_cases server : ¬sockets.server
  · rw [if_pos server]
    exact bounded_refused _ (.inl rfl) (Nat.zero_le _) _ _
  rw [if_neg server]
  by_cases client : ¬context.clientSocket ∧ ¬sockets.accepts
  · rw [if_pos client]
    exact bounded_refused _ (.inl rfl) (Nat.zero_le _) _ _
  rw [if_neg client]
  by_cases failed : packet ≠ [] ∧ ¬sockets.sendAll packet
  · rw [if_pos failed]
    exact bounded_refused _ (.inr rfl) le_rfl _ _
  · rw [if_neg failed]
    dsimp only
    obtain ⟨stored, short⟩ := sockets.receive_bounded
      ⟨true, (if packet = [] then (context.state, false) else context.state.noteTargetBytes packet).1⟩ outSize
    exact ⟨stored, le_rfl, short, .inr rfl⟩

/-- The value of a bounded answer: −1 without data, or the length of the data, which the console may store. -/
theorem Bounded.retval {served : GdbServed} {packet : List Byte} {outSize : Word} (bounded : Bounded served packet outSize) :
    (served.retval = -1 ∧ served.data = []) ∨ (served.retval.toNat = served.data.length ∧ served.retval ≤ outSize) := by
  refine bounded.value.imp_right fun same => ?_
  have short := bounded.short
  have size : Serial.gdbBufSize = 1024 := rfl
  have value : served.retval.toNat = served.data.length := by
    rw [same, BitVec.toNat_ofNat]
    omega
  exact ⟨value, BitVec.le_def.mpr (by omega)⟩

end Host.GdbSockets

/-! ### Over the network -/

section Network

variable (target : Target) (ctx : NetContext) (sockets : GdbSockets) (context : GdbContext) (before : Buffer) (loader : Loader)
  (frame now : ℕ) (inBuf sizePack outBuf : Word)

/-- What the console's end stores is within what the program asks for, it leaves the rest of memory alone, and the result is how many
bytes are stored, or −1. -/
structure StoresBounded (memory : Memory) (outBuf outSize : Word) (outcome : ℕ × Memory × Word) : Prop where
  written : outcome.1 ≤ outSize.toNat
  elsewhere : ∀ query, outcome.1 ≤ (query - outBuf).toNat → outcome.2.1 query = memory query
  result : outcome.2.2.toNat = outcome.1 ∨ (outcome.2.2 = -1 ∧ outcome.1 = 0)

/-- `gdbpacket` over the network keeps its bounds: the request is within the packet buffer, the host reads within the request and stores
within `gdb_buf`, and its data and what the console stores are no more than asked for. -/
structure NetBounded : Prop where
  request : frameHeaderLen + (gdbpacketRequest loader inBuf sizePack).length + netSeqTrailerLen ≤ pktBufSize
  read : netCommandLen + (netGdbServed sockets context before (gdbpacketRequest loader inBuf sizePack)).forwarded ≤
    (gdbpacketRequest loader inBuf sizePack).length
  stored : ∀ n ∈ (netGdbServed sockets context before (gdbpacketRequest loader inBuf sizePack)).stored, n ≤ Host.Serial.gdbBufSize
  sent : (netGdbServed sockets context before (gdbpacketRequest loader inBuf sizePack)).data.length ≤ (gdbOutSize sizePack).toNat
  returns : StoresBounded loader.memory outBuf (gdbOutSize sizePack)
    (netGdbpacket target ctx sockets context before loader frame now inBuf sizePack outBuf)

theorem length_gdbpacketRequest :
    (gdbpacketRequest loader inBuf sizePack).length = netCommandLen + (gdbInSize sizePack).toNat := by
  rw [gdbpacketRequest, length_netCommand, Memory.length_copyOut]

/-- The host finds both sizes in the request. -/
theorem netGdbServed_bounded :
    GdbSockets.Bounded (netGdbServed sockets context before (gdbpacketRequest loader inBuf sizePack))
      (slice (storeAt before 0 (gdbpacketRequest loader inBuf sizePack)) netCommandLen (gdbInSize sizePack).toNat)
      (gdbOutSize sizePack) := by
  rw [netGdbServed, GdbSockets.netSyscallGdbpacket]
  have inSize : commandAddress (storeAt before 0 (gdbpacketRequest loader inBuf sizePack)) 0 = gdbInSize sizePack :=
    commandAddress_storeAt _ _ _ _ _ _
  have outSize : commandSize (storeAt before 0 (gdbpacketRequest loader inBuf sizePack)) 0 = gdbOutSize sizePack :=
    commandSize_storeAt _ _ _ _ _ _
  rw [inSize, outSize]
  exact GdbSockets.serve_bounded _ _ _ _

/-- What the console does with a value that is −1, or is no more than it asked for. -/
theorem gdbpacketReturns_bounded {memory : Memory} {outSize : Word} {after : Loader}
    (same : after.memory = memory) (value : after.syscallRetval = -1 ∨ after.syscallRetval ≤ outSize) :
    StoresBounded memory outBuf outSize (gdbpacketReturns after outBuf outSize) := by
  rw [gdbpacketReturns]
  by_cases fits : after.syscallRetval ≤ outSize
  · rw [if_pos fits, same]
    refine ⟨BitVec.le_def.mp fits, fun query outside => ?_, .inl rfl⟩
    dsimp only at outside ⊢
    exact Memory.copyIn_outside outside
  · rw [if_neg fits, same]
    exact ⟨Nat.zero_le _, fun query _ => rfl, .inr ⟨value.resolve_right fits, rfl⟩⟩

/-- Behind the host's answer, `syscall_retval` is its value and memory is as it was. -/
theorem netGdbpacket_bounded (running : loader.running = true) :
    StoresBounded loader.memory outBuf (gdbOutSize sizePack)
      (netGdbpacket target ctx sockets context before loader frame now inBuf sizePack outBuf) := by
  have bounded := netGdbServed_bounded sockets context before loader inBuf sizePack
  have size : Host.Serial.gdbBufSize = 1024 := rfl
  have short : (netGdbServed sockets context before (gdbpacketRequest loader inBuf sizePack)).data.length ≤ maxInlineRet :=
    bounded.short.trans (Nat.min_le_right _ _)
  refine gdbpacketReturns_bounded outBuf (memory_processed_retval short) ?_
  have value := @syscallRetval_processed_retval target (loader.buildSendPacket (gdbpacketRequest loader inBuf sizePack)).1 frame now
    (netGdbServed sockets context before (gdbpacketRequest loader inBuf sizePack)).retval
    (netGdbServed sockets context before (gdbpacketRequest loader inBuf sizePack)).retval _ _ running short rfl
  have returned : (exchange target ctx loader frame now (gdbpacketRequest loader inBuf sizePack) fun request =>
      GdbServed.answer (netGdbServed sockets context before request)).syscallRetval =
      (netGdbServed sockets context before (gdbpacketRequest loader inBuf sizePack)).retval := value
  rw [returned]
  exact bounded.retval.imp And.left And.right

/-- Over the network the bounds hold exactly if the packet fits into the console's packet buffer. -/
theorem netBounded_iff (running : loader.running = true) :
    NetBounded target ctx sockets context before loader frame now inBuf sizePack outBuf ↔
      (gdbInSize sizePack).toNat ≤ pktBufSize - frameHeaderLen - netCommandLen - netSeqTrailerLen := by
  have bounded := netGdbServed_bounded sockets context before loader inBuf sizePack
  have length := length_gdbpacketRequest loader inBuf sizePack
  have room : pktBufSize = 1534 := rfl
  have headers : frameHeaderLen = 42 := rfl
  have trailer : netSeqTrailerLen = 8 := rfl
  have command : netCommandLen = 12 := rfl
  constructor
  · intro kept
    have request := kept.request
    omega
  · intro small
    have read := bounded.forwarded
    rw [length_slice] at read
    exact ⟨by omega, by omega, bounded.stored, bounded.short.trans (Nat.min_le_left _ _),
      netGdbpacket_bounded target ctx sockets context before loader frame now inBuf sizePack outBuf running⟩

end Network

/-! ### Over the line -/

section Line

theorem blocksOf_short {size fuel : ℕ} {data : List Byte} (short : data.length ≤ size) (some_left : data.length ≤ fuel) :
    (blocksOf size fuel data).flatten = data ∧ (data ≠ [] → blocksOf size fuel data = [data]) := by
  cases fuel with
  | zero =>
    have empty := List.eq_nil_of_length_eq_zero (Nat.le_zero.mp some_left)
    exact ⟨empty.symm, fun other => absurd empty other⟩
  | succ fuel =>
    rw [blocksOf]
    by_cases empty : data = []
    · rw [if_pos empty]
      exact ⟨empty.symm, fun other => absurd empty other⟩
    · have last : blocksOf size fuel (data.drop size) = [] := by
        rw [List.drop_eq_nil_of_le short]
        cases fuel <;> rfl
      rw [if_neg empty, last, List.take_of_length_le short]
      exact ⟨List.append_nil _, fun _ => rfl⟩

/-- The first block of a packet that is not empty. -/
theorem clientBlocks_first (wrkmem : Bool) {data : List Byte} (some_data : data ≠ []) :
    ∃ block rest, clientBlocks wrkmem data = block :: rest ∧ min data.length clientChunkSize ≤ block.length ∧
      (data.length ≤ clientChunkSize → block = data ∧ rest = []) := by
  rw [clientBlocks]
  split_ifs with once
  · exact ⟨data, [], rfl, Nat.min_le_left _ _, fun _ => ⟨rfl, rfl⟩⟩
  · obtain ⟨fuel, length⟩ : ∃ fuel, data.length = fuel + 1 :=
      ⟨data.length - 1, by have positive := List.length_pos_iff.mpr some_data; omega⟩
    rw [length, blocksOf, if_neg some_data]
    refine ⟨_, _, rfl, ?_, fun short => ⟨List.take_of_length_le (by omega), ?_⟩⟩
    · rw [List.length_take]
      omega
    · rw [List.drop_eq_nil_of_le (by omega)]
      cases fuel <;> rfl

/-- Where the line harms no block, the loops of both sides come to where the host has stored what it stores of the blocks. -/
theorem reaches_serRecvData {lzo : Lzo} {line : BlockLine} (fuel : ℕ) {n : ℕ} {rest : List Byte}
    (harmless : Harmless lzo line clientChunkSize n rest) (recv : HostRecv) : ∃ rest' n' recv',
      Reaches (ToHost.Step lzo line) ⟨clientSender lzo line (.chunk rest, n), lzoRecvData lzo recv, [], []⟩
        ⟨clientSender lzo line (.chunk rest', n'), lzoRecvData lzo recv', [], []⟩ ∧
      recv'.out = recv.out ++ GdbSockets.serRecvData recv.total (blocksOf clientChunkSize fuel rest) := by
  induction fuel generalizing n rest recv with
  | zero => exact ⟨rest, n, recv, .refl _, (List.append_nil _).symm⟩
  | succ fuel ih =>
    rw [blocksOf]
    by_cases empty : rest = []
    · rw [if_pos empty]
      exact ⟨rest, n, recv, .refl _, (List.append_nil _).symm⟩
    · rw [if_neg empty, GdbSockets.serRecvData]
      by_cases complete : recv.total = 0#32
      · rw [if_pos complete]
        exact ⟨rest, n, recv, .refl _, (List.append_nil _).symm⟩
      · obtain ⟨rest', n', recv', reached, stored⟩ := ih harmless.tail (recv.take (rest.take clientChunkSize))
        refine ⟨rest', n', recv', (ToHost.reaches_accepted complete empty (harmless.head empty)).trans reached, ?_⟩
        rw [if_neg complete, stored, HostRecv.take, List.append_assoc]

variable (wrkmem : Bool) (sockets : GdbSockets) (context : GdbContext) (gdbBuf inBuf : Buffer) (sizePack : Word)

/-- `gdbpacket` over the line keeps its bounds: the host stores and reads within `gdb_buf`, and its data and what the console stores are
no more than asked for, and the result is how many bytes are stored, or −1. -/
structure LineBounded : Prop where
  stored : ∀ n ∈ (serialGdbServed wrkmem sockets context gdbBuf inBuf sizePack).stored, n ≤ Host.Serial.gdbBufSize
  read : (serialGdbServed wrkmem sockets context gdbBuf inBuf sizePack).forwarded ≤ Host.Serial.gdbBufSize
  sent : (serialGdbServed wrkmem sockets context gdbBuf inBuf sizePack).data.length ≤ (gdbOutSize sizePack).toNat
  written : (serialGdbReturns (serialGdbServed wrkmem sockets context gdbBuf inBuf sizePack) (gdbOutSize sizePack)).1.length ≤
    (gdbOutSize sizePack).toNat
  result : (serialGdbReturns (serialGdbServed wrkmem sockets context gdbBuf inBuf sizePack) (gdbOutSize sizePack)).2.toNat =
      (serialGdbReturns (serialGdbServed wrkmem sockets context gdbBuf inBuf sizePack) (gdbOutSize sizePack)).1.length ∨
    ((serialGdbReturns (serialGdbServed wrkmem sockets context gdbBuf inBuf sizePack) (gdbOutSize sizePack)).2 = -1 ∧
      (serialGdbReturns (serialGdbServed wrkmem sockets context gdbBuf inBuf sizePack) (gdbOutSize sizePack)).1 = [])

/-- What is copied into `gdb_buf` of a packet: all of one that fits, and too much of another. -/
theorem serRecvData_clientBlocks {data : List Byte} (some_data : data ≠ []) :
    (GdbSockets.serRecvData (BitVec.ofNat 32 (min data.length Host.Serial.gdbBufSize)) (clientBlocks wrkmem data)).length ≤
      Host.Serial.gdbBufSize ↔ data.length ≤ Host.Serial.gdbBufSize := by
  have size : Host.Serial.gdbBufSize = 1024 := rfl
  have chunk : clientChunkSize = 8192 := rfl
  have positive := List.length_pos_iff.mpr some_data
  obtain ⟨block, rest, split, long, whole⟩ := clientBlocks_first wrkmem some_data
  have pending : BitVec.ofNat 32 (min data.length Host.Serial.gdbBufSize) ≠ 0#32 := fun zero => by
    have value := congrArg BitVec.toNat zero
    rw [BitVec.toNat_ofNat, BitVec.toNat_ofNat, Nat.zero_mod] at value
    omega
  rw [split, GdbSockets.serRecvData, if_neg pending, List.length_append]
  constructor
  · intro fits
    omega
  · intro fits
    obtain ⟨rfl, rfl⟩ := whole (by omega)
    rw [GdbSockets.serRecvData, List.length_nil]
    exact fits

/-- What the console stores of the data of a bounded answer is the data. -/
theorem serialGdbReturns_bounded {served : GdbServed} {packet : List Byte} {outSize : Word}
    (bounded : GdbSockets.Bounded served packet outSize) :
    (serialGdbReturns served outSize).1.length ≤ outSize.toNat ∧
      ((serialGdbReturns served outSize).2.toNat = (serialGdbReturns served outSize).1.length ∨
        ((serialGdbReturns served outSize).2 = -1 ∧ (serialGdbReturns served outSize).1 = [])) := by
  have short := bounded.short
  have size : Host.Serial.gdbBufSize = 1024 := rfl
  have buffer : serialBufferSize = 16384 := rfl
  have value := bounded.retval
  rw [serialGdbReturns]
  by_cases empty : served.data = []
  · have stored : loadBlocks served.retval.toNat (blocksOf serialBufferSize served.data.length served.data) = [] := by
      rw [empty]
      rfl
    have result : served.retval = -1 ∨ served.retval.toNat = 0 := by
      rw [empty] at value
      exact value.imp And.left And.left
    have ended : served.retval.toNat = 0 ∨ served.retval = -1 ∧ ([] : List Byte) = [] :=
      result.symm.imp_right fun same => ⟨same, rfl⟩
    rw [stored]
    split_ifs with loads
    · exact ⟨Nat.zero_le _, ended⟩
    · exact ⟨Nat.zero_le _, ended⟩
  · obtain ⟨-, none_sent⟩ | ⟨length, fits⟩ := value
    · exact absurd none_sent empty
    · have positive := List.length_pos_iff.mpr empty
      have nonzero : served.retval ≠ 0#32 := fun zero => by
        rw [zero] at length
        exact absurd length.symm (Nat.ne_of_gt positive)
      have one := (blocksOf_short (by omega : served.data.length ≤ serialBufferSize) (le_refl served.data.length)).2 empty
      rw [if_pos ⟨nonzero, fits⟩, one, loadBlocks, if_neg (by omega), loadBlocks, List.append_nil]
      refine ⟨?_, .inl length⟩
      dsimp only
      omega

/-- Over the line the bounds hold exactly if the packet fits into `gdb_buf`. -/
theorem lineBounded_iff : LineBounded wrkmem sockets context gdbBuf inBuf sizePack ↔
    (gdbInSize sizePack).toNat ≤ Host.Serial.gdbBufSize := by
  have length : (slice inBuf 0 (gdbInSize sizePack).toNat).length = (gdbInSize sizePack).toNat := length_slice _ _ _
  generalize same : slice inBuf 0 (gdbInSize sizePack).toNat = data at length
  generalize copies : (if gdbInSize sizePack = 0#32 then [] else GdbSockets.serRecvData
    (BitVec.ofNat 32 (min (gdbInSize sizePack).toNat Host.Serial.gdbBufSize)) (clientBlocks wrkmem data)) = copied
  have fits : copied.length ≤ Host.Serial.gdbBufSize ↔ (gdbInSize sizePack).toNat ≤ Host.Serial.gdbBufSize := by
    rw [← copies]
    by_cases empty : gdbInSize sizePack = 0#32
    · rw [if_pos empty, empty]
      exact iff_of_true (Nat.zero_le _) (Nat.zero_le _)
    · have some_data : data ≠ [] := fun none => empty (BitVec.eq_of_toNat_eq (by rw [← length, none]; rfl))
      rw [if_neg empty, ← length]
      exact serRecvData_clientBlocks wrkmem some_data
  have bounded := sockets.serve_bounded context (slice (overlay copied gdbBuf) 0 (gdbInSize sizePack).toNat) (gdbOutSize sizePack)
  have served : serialGdbServed wrkmem sockets context gdbBuf inBuf sizePack =
      { sockets.serve context (slice (overlay copied gdbBuf) 0 (gdbInSize sizePack).toNat) (gdbOutSize sizePack) with
        stored := copied.length ::
          (sockets.serve context (slice (overlay copied gdbBuf) 0 (gdbInSize sizePack).toNat) (gdbOutSize sizePack)).stored } := by
    rw [serialGdbServed, GdbSockets.serSyscallGdbpacket, same, copies]
  constructor
  · intro kept
    exact fits.mp (kept.stored _ (by rw [served]; exact List.mem_cons_self))
  · intro small
    have forwarded := bounded.forwarded
    rw [length_slice] at forwarded
    have returns := serialGdbReturns_bounded bounded
    refine ⟨?_, ?_, ?_, ?_, ?_⟩
    · rw [served]
      exact List.forall_mem_cons.mpr ⟨fits.mpr small, bounded.stored⟩
    · rw [served]
      exact forwarded.trans small
    · rw [served]
      exact bounded.short.trans (Nat.min_le_left _ _)
    · rw [served]
      exact returns.1
    · rw [served]
      exact returns.2

end Line

/-- `gdbpacket` keeps its bounds over the line exactly if the packet is at most 1024 bytes long, and over the network exactly if it is
at most 1472 bytes long. -/
theorem gdbpacket_bounded_iff (target : Target) (ctx : NetContext) (sockets : GdbSockets) (context : GdbContext)
    (wrkmem : Bool) (gdbBuf line before : Buffer) (loader : Loader) (frame now : ℕ) (inBuf sizePack outBuf : Word)
    (running : loader.running = true) :
    (LineBounded wrkmem sockets context gdbBuf line sizePack ↔ (gdbInSize sizePack).toNat ≤ 1024) ∧
      (NetBounded target ctx sockets context before loader frame now inBuf sizePack outBuf ↔ (gdbInSize sizePack).toNat ≤ 1472) :=
  ⟨lineBounded_iff wrkmem sockets context gdbBuf line sizePack,
    netBounded_iff target ctx sockets context before loader frame now inBuf sizePack outBuf running⟩

/-- A debugger that takes every packet and leaves. -/
def leavingDebugger : GdbSockets := ⟨true, true, fun _ => true, fun _ => none⟩

/-- A program that runs. -/
def runningLoader : Loader := { Loader.start (fun _ => 0) (fun _ => 0) with running := true }

/-- A packet of 16 bytes keeps the bounds. -/
theorem gdbpacket_bounded_short :
    LineBounded true leavingDebugger .closed (fun _ => 0) (fun _ => 0) 0x00100100 ∧
      NetBounded .dreamcast ⟨.little, false, false, false⟩ leavingDebugger .closed (fun _ => 0) runningLoader 0 0 0x8c010000
        0x00100100 0x8c020000 :=
  have bounded := gdbpacket_bounded_iff .dreamcast ⟨.little, false, false, false⟩ leavingDebugger .closed true (fun _ => 0) (fun _ => 0)
    (fun _ => 0) runningLoader 0 0 0x8c010000 0x00100100 0x8c020000 rfl
  ⟨bounded.1.mpr (by decide), bounded.2.mpr (by decide)⟩

/-- One of 2000 bytes does not. -/
theorem gdbpacket_unbounded :
    ¬(LineBounded true leavingDebugger .closed (fun _ => 0) (fun _ => 0) 0x07d00100 ∨
      NetBounded .dreamcast ⟨.little, false, false, false⟩ leavingDebugger .closed (fun _ => 0) runningLoader 0 0 0x8c010000
        0x07d00100 0x8c020000) := by
  rintro (onLine | onNet)
  · exact absurd ((lineBounded_iff _ _ _ _ _ _).mp onLine) (by decide)
  · exact absurd ((netBounded_iff _ _ _ _ _ _ _ _ _ _ _ rfl).mp onNet) (by decide)

end KosTool
