import KosTool.Machine.Run
import KosTool.Math.RingWindow
import KosTool.Model.Protocol

/-! # The rings of the NVnet adapter

`nvnet_rx` and `nvnet_tx` of `client/xbox/net/nvnet.c`. The adapter fills a receive descriptor that it owns and gives it
to the driver, and sends a transmit descriptor that it was given and returns it, each ring in its order. A call of
`nvnet_rx` is taken apart where the adapter may come in between, and calls nest where `process_pkt` makes a syscall. What
the adapter has received, what `process_pkt` was given, what was put up for sending, what was sent and what the calls of
`nvnet_tx` returned is kept beside the variables of the driver.
-/

namespace KosTool.Xbox

open ByteWord Machine Protocol

/-- `RX_RING` and `TX_RING`. -/
abbrev rxRingSize : ℕ := 16
abbrev txRingSize : ℕ := 4
/-- `NV_BUFSZ`. -/
abbrev nvBufsz : ℕ := 2048
/-- `RX_PKT_BUF_SIZE`. -/
abbrev rxPktBufSize : ℕ := 1514

/-- A descriptor with its buffer. -/
structure NvDesc where
  data : Buffer
  length : BitVec 16
  flags : BitVec 16

namespace NvDesc

/-- `NV_RX_AVAIL`, which is `NV_TX_VALID`: the adapter owns the descriptor. -/
def owned (desc : NvDesc) : Bool := desc.flags &&& 0x8000 ≠ 0

/-- The length of a frame that was received, less what `NV_RX_SUBTRACT1` says. -/
def rxLen (desc : NvDesc) : ℕ :=
  if desc.flags &&& 0x0004 ≠ 0 ∧ desc.length ≠ 0 then desc.length.toNat - 1 else desc.length.toNat

/-- `NV_RX_DESCRIPTORVALID` without any of `NV_RX_ERROR_MASK`, and a reasonable length. -/
def deliver (desc : NvDesc) : Bool :=
  desc.flags &&& 0x0001 ≠ 0 && desc.flags &&& 0x1f80 = 0 && decide (14 ≤ desc.rxLen ∧ desc.rxLen ≤ rxPktBufSize)

/-- The frame that was received, unless it is to be passed by. -/
def frame (desc : NvDesc) : Option (List Byte) := if desc.deliver then some (slice desc.data 0 desc.rxLen) else none

end NvDesc

/-- Where a call of `nvnet_rx` stands, with `processed`. -/
inductive NvRxCall where
  | check (processed : ℕ)
  /-- The frame is read and copied to `current_pkt`; before the descriptor is handed back, and behind that. -/
  | giveBack (processed : ℕ) (len : Option ℕ)
  | advance (processed : ℕ) (len : Option ℕ)
  /-- In `process_pkt`. -/
  | handling (processed : ℕ)
deriving DecidableEq

/-- The receive half of the adapter and its driver. -/
structure NvRx where
  rxRing : ℕ → NvDesc
  /-- The descriptor that the adapter fills next. -/
  hwRx : ℕ
  curRx : ℕ
  currentPkt : Buffer
  /-- The calls of `nvnet_rx`, innermost first. -/
  calls : List NvRxCall
  /-- What the adapter has put into descriptors. -/
  arrived : List NvDesc
  /-- What `process_pkt` was given. -/
  handed : List (List Byte)

namespace NvRx

/-- A descriptor as it is handed back. -/
def emptied (desc : NvDesc) : NvDesc := { desc with length := BitVec.ofNat 16 nvBufsz, flags := 0x8000 }

/-- Once more round the loop of `nvnet_rx`, or back to its caller. -/
def again (processed : ℕ) (outer : List NvRxCall) : List NvRxCall :=
  if rxRingSize < processed then outer else .check processed :: outer

/-- The innermost call goes on. -/
def rxStep (rx : NvRx) : Option NvRx :=
  match rx.calls with
  | .check processed :: outer =>
    let desc := rx.rxRing rx.curRx
    if desc.owned = true then some { rx with calls := outer }
    else if desc.deliver = true then
      some { rx with
        currentPkt := storeAt rx.currentPkt 0 (slice desc.data 0 desc.rxLen)
        calls := .giveBack processed (some desc.rxLen) :: outer }
    else some { rx with calls := .giveBack processed none :: outer }
  | .giveBack processed len :: outer =>
    some { rx with
      rxRing := Function.update rx.rxRing rx.curRx (emptied (rx.rxRing rx.curRx))
      calls := .advance processed len :: outer }
  | .advance processed len :: outer =>
    match len with
    | some len =>
      some { rx with
        curRx := (rx.curRx + 1) % rxRingSize
        handed := rx.handed ++ [slice rx.currentPkt 0 len]
        calls := .handling (processed + 1) :: outer }
    | none => some { rx with curRx := (rx.curRx + 1) % rxRingSize, calls := again (processed + 1) outer }
  | _ => none

/-- What happens to the adapter and the driver. -/
inductive Event where
  /-- The adapter fills its next descriptor, if it owns it. -/
  | arrive (desc : NvDesc)
  /-- `nvnet_rx` is called, from the main loop or for a syscall of the innermost handler. -/
  | poll
  | rx
  /-- The innermost `process_pkt` returns. -/
  | returns

/-- One event. -/
def step (rx : NvRx) : Event → Option NvRx
  | .arrive desc =>
    if (rx.rxRing rx.hwRx).owned = true ∧ desc.owned = false then
      some { rx with
        rxRing := Function.update rx.rxRing rx.hwRx desc
        hwRx := (rx.hwRx + 1) % rxRingSize
        arrived := rx.arrived ++ [desc] }
    else none
  | .poll =>
    match rx.calls with
    | [] | .handling _ :: _ => some { rx with calls := .check 0 :: rx.calls }
    | _ => none
  | .rx => rx.rxStep
  | .returns =>
    match rx.calls with
    | .handling processed :: outer => some { rx with calls := again processed outer }
    | _ => none

/-- Behind `nvnet_setup_rings`, whatever the buffers hold. -/
def initial (buffers : ℕ → Buffer) (currentPkt : Buffer) : NvRx where
  rxRing idx := ⟨buffers idx, BitVec.ofNat 16 nvBufsz, 0x8000⟩
  hwRx := 0
  curRx := 0
  currentPkt := currentPkt
  calls := []
  arrived := []
  handed := []

end NvRx

/-- The machine of the receive half. -/
def nvRx : LabeledMachine NvRx NvRx.Event where
  step := NvRx.step

/-- What `nvnet_tx` puts into a buffer: the packet, cut at the size of the buffer and padded to 60 bytes. -/
def nvFrame (pkt : List Byte) : List Byte :=
  pkt.take nvBufsz ++ List.replicate (60 - (pkt.take nvBufsz).length) 0

/-- `nvnet_is_firmware_exec_ack`. -/
def nvnetIsFirmwareExecAck (pkt : List Byte) : Bool :=
  let bytes : Buffer := fun i => pkt.getD i 0
  let commandOffset := 14 + 20 + 8
  decide (commandOffset + netCommandLen ≤ pkt.length) && bytes (14 + 9) == 17 &&
    decide (8 + netCommandLen ≤ (bytes (14 + 20 + 4) ++ bytes (14 + 20 + 5)).toNat) &&
    commandId bytes commandOffset == netCmdExecute && (commandSize bytes commandOffset &&& 0x4 : Word) != 0

/-- Where a call of `nvnet_tx` stands. -/
inductive NvTxCall where
  | idle
  /-- It waits for its descriptor, and for the adapter to return it. -/
  | release (pkt : List Byte)
  | sent
deriving DecidableEq

/-- The transmit half of the adapter and its driver. -/
structure NvTx where
  txRing : ℕ → NvDesc
  /-- The descriptor that the adapter sends next. -/
  hwTx : ℕ
  curTx : ℕ
  call : NvTxCall
  /-- What was put up for sending, and what was sent. -/
  queued : List (List Byte)
  wire : List (List Byte)
  /-- The results of the calls that put up a frame, with its number. -/
  returned : List (ℕ × Bool)

namespace NvTx

/-- A descriptor with a frame. -/
def filled (desc : NvDesc) (pkt : List Byte) : NvDesc where
  data := storeAt desc.data 0 (nvFrame pkt)
  length := BitVec.ofNat 16 ((nvFrame pkt).length - 1)
  flags := 0x8001

/-- The bytes that the adapter sends. -/
def payload (desc : NvDesc) : List Byte := slice desc.data 0 (desc.length.toNat + 1)

/-- A wait of `nvnet_tx` is over: because time is up, or because the descriptor was returned. -/
def txStep (tx : NvTx) (timeout : Bool) : Option NvTx :=
  match tx.call with
  | .release pkt =>
    if timeout then some { tx with call := .idle }
    else if (tx.txRing tx.curTx).owned = true then none
    else
      some { tx with
        txRing := Function.update tx.txRing tx.curTx (filled (tx.txRing tx.curTx) pkt)
        queued := tx.queued ++ [nvFrame pkt]
        call := .sent }
  | .sent =>
    if timeout = false ∧ (tx.txRing tx.curTx).owned = true then none
    else
      some { tx with
        curTx := (tx.curTx + 1) % txRingSize
        returned := tx.returned ++ [(tx.queued.length - 1, !timeout)]
        call := .idle }
  | .idle => none

/-- What happens to the adapter and the driver. -/
inductive Event where
  | tx (pkt : List Byte)
  | resume (timeout : Bool)
  /-- The adapter sends its next descriptor and returns it. -/
  | transmit (status : BitVec 16)
deriving DecidableEq

/-- One event. -/
def step (tx : NvTx) : Event → Option NvTx
  | .tx pkt =>
    match tx.call with
    | .idle => if pkt = [] ∨ nvnetIsFirmwareExecAck pkt = true then some tx else some { tx with call := .release pkt }
    | _ => none
  | .resume timeout => tx.txStep timeout
  | .transmit status =>
    let desc := tx.txRing tx.hwTx
    if desc.owned = true ∧ status &&& 0x8000 = 0 then
      some { tx with
        txRing := Function.update tx.txRing tx.hwTx { desc with flags := status }
        hwTx := (tx.hwTx + 1) % txRingSize
        wire := tx.wire ++ [payload desc] }
    else none

/-- Behind `nvnet_setup_rings`, whatever the buffers hold. -/
def initial (buffers : ℕ → Buffer) : NvTx where
  txRing idx := ⟨buffers idx, 0, 0⟩
  hwTx := 0
  curTx := 0
  call := .idle
  queued := []
  wire := []
  returned := []

end NvTx

/-- The machine of the transmit half. -/
def nvTx : LabeledMachine NvTx NvTx.Event where
  step := NvTx.step

end KosTool.Xbox
