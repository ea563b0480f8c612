import KosTool.Machine.Run
import KosTool.Math.ByteWord

/-! # The receive ring of the SMAP driver

`client/playstation2/iop/smap_irx.c` and `client/playstation2/iop_smap.c`: the frame pump and the release handler of
the one processor, the poll and the release batches of the other, and the ring they share. Both sides are taken apart
between any two accesses to what they share: the words and bytes of a slot, its descriptor, the two counters of the
ring and the sequence numbers. A release call is lost on its way, or it is executed and its answer arrives or is
lost. What the pump has put into the ring and what the polls have returned is kept beside the variables of the driver.
-/

namespace KosTool.Ps2

open ByteWord Machine

/-- `PS2_SMAP_RX_SLOTS`. -/
abbrev ps2SmapRxSlots : ℕ := 16
/-- `PS2_SMAP_SLOT_SIZE`. -/
abbrev ps2SmapSlotSize : ℕ := 1536
/-- `PS2_SMAP_FRAME_MAX`. -/
abbrev ps2SmapFrameMax : ℕ := 1518
/-- `PS2_SMAP_RELEASE_BATCH_MAX`. -/
abbrev ps2SmapReleaseBatchMax : ℕ := 16
/-- `PS2_SMAP_RELEASE_FLUSH_WATERMARK`. -/
abbrev ps2SmapReleaseFlushWatermark : ℕ := 4
/-- `SMAP_RXMINSIZE` and `SMAP_RXMAXSIZE`. -/
abbrev smapRxMinSize : ℕ := 14
abbrev smapRxMaxSize : ℕ := 1518
/-- `SMAP_BD_MAX_ENTRY`. -/
abbrev smapBdMaxEntry : ℕ := 64

/-- `enum ps2_smap_rc`, as far as the ring calls answer with it. -/
inductive SmapRc where
  | ok
  | badSlot
  | badLen
  | badSeq
  | badState
deriving DecidableEq, Repr

/-- The value of an `enum ps2_smap_rc`. -/
def SmapRc.code : SmapRc → ℤ
  | .ok => 0
  | .badSlot => -2
  | .badLen => -3
  | .badSeq => -4
  | .badState => -5

/-- `smap_bd_next`. -/
def smapBdNext (idx : ℕ) : ℕ := if idx = smapBdMaxEntry - 1 then 0 else idx + 1

/-- A receive descriptor of the adapter, and what `SMAP_RXFIFO_DATA` hands out from its pointer on. -/
structure RxBd where
  ctrlStat : BitVec 16
  length : BitVec 16
  bytes : Buffer

namespace RxBd

/-- `SMAP_BD_RX_EMPTY_BIT`. -/
def empty (bd : RxBd) : Bool := bd.ctrlStat &&& 0x8000 ≠ 0

/-- `SMAP_BD_RX_ERRMASK`. -/
def error (bd : RxBd) : Bool := bd.ctrlStat &&& 0x7FFF ≠ 0

/-- The frame that the adapter received. -/
def frame (bd : RxBd) : List Byte := slice bd.bytes 0 bd.length.toNat

/-- What `smap_iop_drain_rx` takes: a frame without an error and of a good length. -/
def good (bd : RxBd) : Bool :=
  !bd.empty && !bd.error && decide (smapRxMinSize ≤ bd.length.toNat ∧ bd.length.toNat ≤ smapRxMaxSize)

/-- How many words the FIFO is read for. -/
def words (bd : RxBd) : ℕ := (bd.length.toNat + 3) / 4

/-- The descriptor after it has been given back to the adapter. -/
def cleared (bd : RxBd) : RxBd := { bd with ctrlStat := 0x8000, length := 0 }

end RxBd

/-- `ps2_smap_rx_desc_t`. -/
structure RxDesc where
  len : Word
  status : Word
  seq : Word
deriving DecidableEq, Repr

/-- An entry of a release batch. -/
structure RxRelease where
  slot : Word
  seq : Word
deriving DecidableEq, Repr

/-- Where `smap_iop_drain_rx` stands. -/
inductive RxPump where
  | idle
  /-- At the descriptor of `rxbdi`, after so many empty ones in a row. -/
  | scan (emptySkips : ℕ)
  /-- Before the first look at `rx_tail_iop_view`, and before the second. -/
  | gate
  | regate
  /-- So many words are in the slot. -/
  | write (words : ℕ)
  | describe
  | count
  | stamp
  | publish
  | advance
deriving DecidableEq, Repr

/-- Where a call to `ps2_smap_release_pending` returns to. -/
inductive ReleaseCaller where
  /-- The caller of the driver. -/
  | outside
  /-- `ps2_smap_stage_release` with a full batch, before it stages the slot. -/
  | full (seq : Word) (taken : Option (List Byte))
  /-- `ps2_smap_stage_release` at the watermark, with the slot staged. -/
  | watermark (taken : Option (List Byte))

/-- Where the other processor stands in `ps2_smap_poll` and in what it calls. A slot is taken with its frame, or without
one if its descriptor is bad. -/
inductive RxCall where
  | idle
  | readLen (bufSize : ℕ)
  | readSeq (bufSize : ℕ) (len : Word)
  | copy (len seq : Word) (dst : List Byte)
  | stage (seq : Word) (taken : Option (List Byte))
  | release (caller : ReleaseCaller)
  | calling (caller : ReleaseCaller)
  | flushTx (rcRelease : ℤ) (caller : ReleaseCaller)
  | finish (taken : Option (List Byte))

/-- Where the handler stands with the batch of a release call. -/
inductive ReleaseRpc where
  | idle
  | asked (batch : List RxRelease)
  | checking (batch : List RxRelease) (i : ℕ)
  | answered (batch : List RxRelease) (rc : SmapRc)

/-- The receive half of the driver. -/
structure SmapRx where
  bds : ℕ → RxBd
  rxbdi : ℕ
  rxHead : Word
  rxTailIopView : Word
  rxRing : ℕ → RxDesc
  rxData : Buffer
  rxSeq : ℕ → Word
  pump : RxPump
  rpc : ReleaseRpc
  rxTail : Word
  pendingReleases : List RxRelease
  call : RxCall
  /-- The frames that the pump has put into the ring. -/
  delivered : List (List Byte)
  /-- What was in the slots that the polls have taken. -/
  returned : List (Option (List Byte))
  /-- How many slots the handler has taken back, and how many were in batches that were lost. -/
  released : ℕ
  lost : ℕ

namespace SmapRx

/-- The descriptor that the pump is at. -/
def bd (rx : SmapRx) : RxBd := rx.bds rx.rxbdi

/-- The slot that the pump fills, and the one that the poll is at. -/
def headSlot (rx : SmapRx) : ℕ := rx.rxHead.toNat % ps2SmapRxSlots
def tailSlot (rx : SmapRx) : ℕ := rx.rxTail.toNat % ps2SmapRxSlots

/-- The descriptor of the slot that the pump fills is written. -/
def setDesc (rx : SmapRx) (desc : RxDesc) : ℕ → RxDesc := Function.update rx.rxRing rx.headSlot desc

/-- One step of `smap_iop_drain_rx`, with what `SMAP_RXFIFO_FRAME_CNT` reads. A frame is drained into nowhere if the
slot behind `rx_head` is the one at the tail and the ring is not empty. -/
def pumpStep (rx : SmapRx) (frameCnt : Byte) : SmapRx :=
  match rx.pump with
  | .idle => { rx with pump := .scan 0 }
  | .scan emptySkips =>
    if rx.bd.empty then
      if frameCnt = 0 ∨ smapBdMaxEntry ≤ emptySkips + 1 then { rx with pump := .idle }
      else { rx with rxbdi := smapBdNext rx.rxbdi, pump := .scan (emptySkips + 1) }
    else if rx.bd.good then { rx with pump := .gate }
    else { rx with pump := .advance }
  | .gate =>
    if (rx.rxHead + 1).toNat % ps2SmapRxSlots = rx.rxTailIopView.toNat % ps2SmapRxSlots then { rx with pump := .regate }
    else { rx with pump := .write 0 }
  | .regate => if rx.rxHead ≠ rx.rxTailIopView then { rx with pump := .advance } else { rx with pump := .write 0 }
  | .write words =>
    if words < rx.bd.words then
      { rx with
        rxData := storeAt rx.rxData (rx.headSlot * ps2SmapSlotSize + 4 * words) (slice rx.bd.bytes (4 * words) 4)
        pump := .write (words + 1) }
    else { rx with pump := .describe }
  | .describe =>
    { rx with
      rxRing := rx.setDesc { rx.rxRing rx.headSlot with len := rx.bd.length.setWidth 32, status := 0 }, pump := .count }
  | .count =>
    { rx with rxSeq := Function.update rx.rxSeq rx.headSlot (rx.rxSeq rx.headSlot + 1), pump := .stamp }
  | .stamp =>
    { rx with
      rxRing := rx.setDesc { rx.rxRing rx.headSlot with seq := rx.rxSeq rx.headSlot }, pump := .publish }
  | .publish =>
    { rx with rxHead := rx.rxHead + 1, delivered := rx.delivered ++ [rx.bd.frame], pump := .advance }
  | .advance =>
    { rx with
      bds := Function.update rx.bds rx.rxbdi rx.bd.cleared, rxbdi := smapBdNext rx.rxbdi, pump := .scan 0 }

/-- The check of an entry of a release batch. -/
def checkRelease (rx : SmapRx) (entry : RxRelease) : SmapRc :=
  if ps2SmapRxSlots ≤ entry.slot.toNat then .badSlot
  else if entry.seq ≠ rx.rxSeq entry.slot.toNat then .badSeq
  else .ok

/-- One step of the handler of `PS2_SMAP_FNO_RELEASE_RX_BATCH`. -/
def serveStep (rx : SmapRx) : Option SmapRx :=
  match rx.rpc with
  | .asked batch =>
    if batch.length = 0 ∨ ps2SmapReleaseBatchMax < batch.length then some { rx with rpc := .answered batch .badLen }
    else some { rx with rpc := .checking batch 0 }
  | .checking batch i =>
    match batch[i]? with
    | some entry =>
      match rx.checkRelease entry with
      | .ok => some { rx with rpc := .checking batch (i + 1) }
      | rc => some { rx with rpc := .answered batch rc }
    | none =>
      some { rx with
        rxTailIopView := rx.rxTailIopView + BitVec.ofNat 32 batch.length
        released := rx.released + batch.length
        rpc := .answered batch .ok }
  | _ => none

/-- `ps2_smap_stage_release` with room in the batch. -/
def stageStep (rx : SmapRx) (seq : Word) (taken : Option (List Byte)) : SmapRx :=
  let pending := rx.pendingReleases ++ [⟨BitVec.ofNat 32 rx.tailSlot, seq⟩]
  if ps2SmapReleaseFlushWatermark ≤ pending.length then
    { rx with pendingReleases := pending, call := .release (.watermark taken) }
  else { rx with pendingReleases := pending, call := .finish taken }

/-- `ps2_smap_release_pending` returns. -/
def releaseReturns (rx : SmapRx) (rc : ℤ) : ReleaseCaller → SmapRx
  | .outside => { rx with call := .idle }
  | .full seq taken => (if rc < 0 then { rx with pendingReleases := [] } else rx).stageStep seq taken
  | .watermark taken => { rx with call := .finish taken }

/-- What `ps2_smap_release_pending` goes on with after its call. -/
def called (rx : SmapRx) (rcRelease : ℤ) (caller : ReleaseCaller) : SmapRx :=
  { rx with pendingReleases := [], rpc := .idle, call := .flushTx rcRelease caller }

/-- One step of the other processor in a call that goes on. -/
def callStep (rx : SmapRx) : Option SmapRx :=
  match rx.call with
  | .readLen bufSize => some { rx with call := .readSeq bufSize (rx.rxRing rx.tailSlot).len }
  | .readSeq bufSize len =>
    let seq := (rx.rxRing rx.tailSlot).seq
    if len.toNat < 14 ∨ ps2SmapFrameMax < len.toNat then some { rx with call := .stage seq none }
    else if bufSize < len.toNat then some { rx with call := .idle }
    else some { rx with call := .copy len seq [] }
  | .copy len seq dst =>
    if dst.length < len.toNat then
      some { rx with call := .copy len seq (dst ++ [rx.rxData (rx.tailSlot * ps2SmapSlotSize + dst.length)]) }
    else some { rx with call := .stage seq (some dst) }
  | .stage seq taken =>
    if ps2SmapReleaseBatchMax ≤ rx.pendingReleases.length then some { rx with call := .release (.full seq taken) }
    else some (rx.stageStep seq taken)
  | .release caller =>
    if rx.pendingReleases = [] then some { rx with call := .flushTx 0 caller }
    else some { rx with rpc := .asked rx.pendingReleases, call := .calling caller }
  | .calling caller =>
    match rx.rpc with
    | .answered _ rc => some (rx.called rc.code caller)
    | _ => none
  | .finish taken => some { rx with rxTail := rx.rxTail + 1, returned := rx.returned ++ [taken], call := .idle }
  | _ => none

/-- What happens to both processors. -/
inductive Event where
  /-- The adapter has filled a descriptor. -/
  | arrive (idx : ℕ) (bd : RxBd)
  | pump (frameCnt : Byte)
  | serve
  | poll (bufSize : ℕ)
  | releasePending
  | resume
  /-- `ps2_smap_flush_tx` returns. -/
  | flushedTx (rcSubmit : ℤ)
  /-- The release call is lost before the handler sees it, or behind the handler. -/
  | loseRequest
  | loseReply

/-- One event. -/
def step (rx : SmapRx) : Event → Option SmapRx
  | .arrive idx bd =>
    if idx < smapBdMaxEntry ∧ (rx.bds idx).empty = true ∧ bd.empty = false then
      some { rx with bds := Function.update rx.bds idx bd }
    else none
  | .pump frameCnt => some (rx.pumpStep frameCnt)
  | .serve => rx.serveStep
  | .poll bufSize =>
    match rx.call with
    | .idle => if rx.rxHead = rx.rxTail then some rx else some { rx with call := .readLen bufSize }
    | _ => none
  | .releasePending =>
    match rx.call with
    | .idle => some { rx with call := .release .outside }
    | _ => none
  | .resume => rx.callStep
  | .flushedTx rcSubmit =>
    match rx.call with
    | .flushTx rcRelease caller => some (rx.releaseReturns (if rcRelease < 0 then rcRelease else rcSubmit) caller)
    | _ => none
  | .loseRequest =>
    match rx.call, rx.rpc with
    | .calling caller, .asked batch => some { rx.called (-2) caller with lost := rx.lost + batch.length }
    | _, _ => none
  | .loseReply =>
    match rx.call, rx.rpc with
    | .calling caller, .answered _ _ => some (rx.called (-2) caller)
    | _, _ => none

/-- After `smap_alloc_shared_region`, `smap_iop_chan_init` and `ps2_smap_init`. -/
def initial (bds : ℕ → RxBd) : SmapRx where
  bds := bds
  rxbdi := 0
  rxHead := 0
  rxTailIopView := 0
  rxRing _ := ⟨0, 0, 0⟩
  rxData _ := 0
  rxSeq _ := 0
  pump := .idle
  rpc := .idle
  rxTail := 0
  pendingReleases := []
  call := .idle
  delivered := []
  returned := []
  released := 0
  lost := 0

end SmapRx

/-- The machine of both processors. -/
def smapRx : LabeledMachine SmapRx SmapRx.Event where
  step := SmapRx.step

end KosTool.Ps2
