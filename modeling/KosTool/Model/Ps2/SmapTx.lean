import KosTool.Math.RingStore
import KosTool.Model.Ps2.SmapRx

/-! # The transmit path of the SMAP driver

`ps2_smap_send` and `ps2_smap_flush_tx` of `client/playstation2/iop_smap.c`; the submit handlers, the transmit half of
the frame pump, `smap_iop_send` and `smap_iop_tx_intr` of `client/playstation2/iop/smap_irx.c`. The scan for a slot, a
batch in the handler and the scan of the pump are taken apart slot by slot, and everything else happens in between. A
call is lost on its way, or it is executed and its answer arrives or is lost. The frames that were staged, which of
them are in the slots, what went into the FIFO and what was dropped is kept beside the variables of the driver.
-/

namespace KosTool.Ps2

open ByteWord RingStore Machine

/-- `PS2_SMAP_TX_SLOTS`. -/
abbrev ps2SmapTxSlots : ℕ := 16
/-- `PS2_SMAP_SUBMIT_BATCH_MAX`. -/
abbrev ps2SmapSubmitBatchMax : ℕ := 8
/-- `SMAP_TXMAXSIZE`. -/
abbrev smapTxMaxSize : ℕ := 1514
/-- `SMAP_TXBUFBASE` and `SMAP_TXBUFSIZE`. -/
abbrev smapTxBufBase : ℕ := 4096
abbrev smapTxBufSize : ℕ := 4096
/-- `SMAP_TX_STALL_LIMIT`. -/
abbrev smapTxStallLimit : ℕ := 64

/-- A transmit descriptor of the adapter. -/
structure TxBd where
  ctrlStat : BitVec 16
  length : BitVec 16
  pointer : BitVec 16
deriving DecidableEq

/-- `SMAP_BD_TX_READY`. -/
def TxBd.ready (bd : TxBd) : Bool := bd.ctrlStat &&& 0x8000 ≠ 0

/-- `SMAP_BD_TX_ERRMASK`. -/
def TxBd.error (bd : TxBd) : Bool := bd.ctrlStat &&& 0x03FF ≠ 0

/-- An entry of a submit batch, and of a single submit. -/
structure TxSubmit where
  slot : Word
  len : Word
  seq : Word
deriving DecidableEq, Repr

/-- How many bytes of the FIFO a frame takes. -/
def txLen (totalLen : ℕ) : ℕ := (totalLen + 3) / 4 * 4

/-- The slot behind a slot, as `tx_scan_free_slot` and `ps2_smap_send` step. -/
def txSlotNext (slot : ℕ) : ℕ := if ps2SmapTxSlots ≤ slot + 1 then 0 else slot + 1

/-- Where a call to `ps2_smap_flush_tx` returns to. -/
inductive TxCaller where
  /-- The caller of `ps2_smap_release_pending`. -/
  | outside
  /-- `ps2_smap_send` with a full batch, before it looks for a slot. -/
  | full (frame : List Byte)
  /-- `ps2_smap_send` with no free slot. -/
  | drain (frame : List Byte)
  /-- `ps2_smap_send` with the frame staged. -/
  | staged

/-- Where the other processor stands in `ps2_smap_send` and in `ps2_smap_flush_tx`. -/
inductive TxCall where
  | idle
  /-- `tx_scan_free_slot` at a slot, after so many; before the wait for the pump, or in it. -/
  | scan (frame : List Byte) (slot scanned : ℕ) (waits : Bool)
  | flush (caller : TxCaller)
  | batch (caller : TxCaller)
  /-- Before the single submit of an entry, and in it. -/
  | fallback (caller : TxCaller) (i : ℕ) (rcFallback : ℤ)
  | single (caller : TxCaller) (i : ℕ) (rcFallback : ℤ)

/-- Where the handler stands with a submit call. -/
inductive SubmitRpc where
  | idle
  | asked (batch : List TxSubmit)
  | checking (batch : List TxSubmit) (i : ℕ)
  | commit (batch : List TxSubmit) (i : ℕ)
  | askedSingle (entry : TxSubmit)
  | answered (rc : SmapRc)

/-- Where the frame pump stands. -/
inductive TxPump where
  | idle
  /-- `smap_iop_tx_intr`. -/
  | reclaim
  /-- The scan at a slot, with `tx_progress` and `tx_waiting`. -/
  | scan (slot : ℕ) (txProgress txWaiting : Bool)
  /-- The slots are released after a stall. -/
  | release (slot : ℕ)
deriving DecidableEq

/-- The transmit half of the driver. -/
structure SmapTx where
  pendingSubmits : List TxSubmit
  /-- The bits of `g_tx_claimed_mask`. -/
  txClaimed : ℕ → Bool
  eeTxSeq : ℕ → Word
  txNextSlot : ℕ
  call : TxCall
  rpc : SubmitRpc
  txSeq : ℕ → Word
  txSlotLen : ℕ → Word
  /-- Whether `tx_slot_state` is `PS2_SMAP_TX_BUSY`. -/
  txBusy : ℕ → Bool
  txData : Buffer
  pump : TxPump
  txStallIters : ℕ
  txUnderruns : ℕ
  txPackets : ℕ
  txBds : ℕ → TxBd
  txbds : ℕ
  txbdi : ℕ
  txbdusedcnt : ℕ
  txfreebufsize : ℕ
  txbwp : ℕ
  fifo : Buffer
  /-- The frames that were staged, and which of them was last put into a slot. -/
  sent : List (List Byte)
  slotFrame : ℕ → ℕ
  /-- What went into the FIFO, with the number of the frame, and the frames that were dropped. -/
  written : List (ℕ × List Byte)
  dropped : List ℕ

namespace SmapTx

/-- The bytes of a slot that its frame is read from. -/
def slotBytes (tx : SmapTx) (slot : ℕ) : List Byte := slice tx.txData (slot * ps2SmapSlotSize) (tx.txSlotLen slot).toNat

/-- The check of an entry in the submit handlers. -/
def checkSubmit (tx : SmapTx) (entry : TxSubmit) : SmapRc :=
  if ps2SmapTxSlots ≤ entry.slot.toNat then .badSlot
  else if entry.len.toNat < smapRxMinSize ∨ ps2SmapFrameMax < entry.len.toNat then .badLen
  else if entry.seq ≠ tx.txSeq entry.slot.toNat then .badSeq
  else if tx.txBusy entry.slot.toNat = true then .badState
  else .ok

/-- The handler takes over a slot. -/
def commitSubmit (tx : SmapTx) (entry : TxSubmit) : SmapTx :=
  { tx with
    txSlotLen := Function.update tx.txSlotLen entry.slot.toNat entry.len
    txSeq := Function.update tx.txSeq entry.slot.toNat (tx.txSeq entry.slot.toNat + 1)
    txBusy := Function.update tx.txBusy entry.slot.toNat true }

/-- One step of the handlers of `PS2_SMAP_FNO_SUBMIT_TX_BATCH` and `PS2_SMAP_FNO_SUBMIT_TX`. -/
def serveStep (tx : SmapTx) : Option SmapTx :=
  match tx.rpc with
  | .asked batch =>
    if batch.length = 0 ∨ ps2SmapSubmitBatchMax < batch.length then some { tx with rpc := .answered .badLen }
    else some { tx with rpc := .checking batch 0 }
  | .checking batch i =>
    match batch[i]? with
    | some entry =>
      match tx.checkSubmit entry with
      | .ok => some { tx with rpc := .checking batch (i + 1) }
      | rc => some { tx with rpc := .answered rc }
    | none => some { tx with rpc := .commit batch 0 }
  | .commit batch i =>
    match batch[i]? with
    | some entry => some { tx.commitSubmit entry with rpc := .commit batch (i + 1) }
    | none => some { tx with rpc := .answered .ok }
  | .askedSingle entry =>
    match tx.checkSubmit entry with
    | .ok => some { tx.commitSubmit entry with rpc := .answered .ok }
    | rc => some { tx with rpc := .answered rc }
  | _ => none

/-- `tx_scan_free_slot` begins. -/
def scanFrom (tx : SmapTx) (frame : List Byte) (waits : Bool) : SmapTx :=
  { tx with call := .scan frame tx.txNextSlot 0 waits }

/-- `ps2_smap_flush_tx` returns. -/
def flushReturns (tx : SmapTx) (rc : ℤ) : TxCaller → SmapTx
  | .outside | .staged => { tx with call := .idle }
  | .full frame => if rc < 0 then { tx with call := .idle } else tx.scanFrom frame false
  | .drain frame => tx.scanFrom frame true

/-- The queue is empty behind a flush. -/
def clearSubmits (tx : SmapTx) : SmapTx := { tx with pendingSubmits := [], txClaimed := fun _ => false }

/-- What `ps2_smap_send` does with the slot it has found: the frame is written into it and staged, or the write fails
behind some of its bytes. -/
def takeSlot (tx : SmapTx) (frame : List Byte) (slot : ℕ) (fails : Option ℕ) : SmapTx :=
  match fails with
  | some count =>
    { tx with
      txNextSlot := txSlotNext slot
      txData := storeAt tx.txData (slot * ps2SmapSlotSize) (frame.take count)
      call := .idle }
  | none =>
    let pending := tx.pendingSubmits ++ [⟨BitVec.ofNat 32 slot, BitVec.ofNat 32 frame.length, tx.eeTxSeq slot⟩]
    { tx with
      txNextSlot := txSlotNext slot
      txData := storeAt tx.txData (slot * ps2SmapSlotSize) frame
      pendingSubmits := pending
      txClaimed := Function.update tx.txClaimed slot true
      eeTxSeq := Function.update tx.eeTxSeq slot (tx.eeTxSeq slot + 1)
      sent := tx.sent ++ [frame]
      slotFrame := Function.update tx.slotFrame slot tx.sent.length
      call := if ps2SmapSubmitBatchMax ≤ pending.length then .flush .staged else .idle }

/-- The result of a single submit is taken down. -/
def singleReturns (tx : SmapTx) (caller : TxCaller) (i : ℕ) (rcFallback rcOne : ℤ) : SmapTx :=
  { tx with
    rpc := .idle
    call := .fallback caller (i + 1) (if rcOne < 0 ∧ rcFallback = 0 then rcOne else rcFallback) }

/-- One step of the other processor in a call that goes on: whether the wait is over, and whether the write fails. -/
def callStep (tx : SmapTx) (elapsed : Bool) (fails : Option ℕ) : Option SmapTx :=
  match tx.call with
  | .scan frame slot scanned waits =>
    if scanned < ps2SmapTxSlots then
      if tx.txClaimed slot = false ∧ tx.txBusy slot = false then some (tx.takeSlot frame slot fails)
      else some { tx with call := .scan frame (txSlotNext slot) (scanned + 1) waits }
    else if waits then
      if elapsed then some { tx with call := .idle } else some (tx.scanFrom frame true)
    else if tx.pendingSubmits = [] then some (tx.scanFrom frame true)
    else some { tx with call := .flush (.drain frame) }
  | .flush caller =>
    if tx.pendingSubmits = [] then some (tx.flushReturns 0 caller)
    else some { tx with rpc := .asked tx.pendingSubmits, call := .batch caller }
  | .batch caller =>
    match tx.rpc with
    | .answered .ok => some ({ tx with rpc := .idle }.clearSubmits.flushReturns 0 caller)
    | .answered _ => some { tx with rpc := .idle, call := .fallback caller 0 0 }
    | _ => none
  | .fallback caller i rcFallback =>
    match tx.pendingSubmits[i]? with
    | some entry => some { tx with rpc := .askedSingle entry, call := .single caller i rcFallback }
    | none => some (tx.clearSubmits.flushReturns rcFallback caller)
  | .single caller i rcFallback =>
    match tx.rpc with
    | .answered rc => some (tx.singleReturns caller i rcFallback rc.code)
    | _ => none
  | .idle => none

/-- `smap_iop_send`: whether `SMAP_TXMODE0_GNP_0` stays set. -/
def smapIopSend (tx : SmapTx) (frame : List Byte) (gnp : Bool) : Option SmapTx :=
  if smapTxMaxSize < frame.length ∨ frame.length = 0 then none
  else if tx.txfreebufsize < txLen frame.length then none
  else if smapBdMaxEntry - 1 ≤ tx.txbdusedcnt then none
  else if (tx.txBds tx.txbds).ready = true then none
  else if gnp = true then none
  else
    some { tx with
      fifo := put smapTxBufSize tx.fifo (tx.txbwp &&& 0x0FFC)
        (frame ++ List.replicate (txLen frame.length - frame.length) 0)
      txfreebufsize := tx.txfreebufsize - txLen frame.length
      txBds := Function.update tx.txBds tx.txbds ⟨0x8300, BitVec.ofNat 16 frame.length, BitVec.ofNat 16 tx.txbwp⟩
      txbdusedcnt := tx.txbdusedcnt + 1
      txbwp := smapTxBufBase + (tx.txbwp + txLen frame.length) % smapTxBufSize
      txbds := smapBdNext tx.txbds }

/-- The slot of a frame that went out is free again. -/
def freeWritten (tx : SmapTx) (slot : ℕ) : SmapTx :=
  { tx with
    txBusy := Function.update tx.txBusy slot false
    written := tx.written ++ [(tx.slotFrame slot, tx.slotBytes slot)] }

/-- The frame of a slot is dropped. -/
def dropSlot (tx : SmapTx) (slot : ℕ) : SmapTx :=
  { tx with
    txBusy := Function.update tx.txBusy slot false
    txUnderruns := tx.txUnderruns + 1
    dropped := tx.dropped ++ [tx.slotFrame slot] }

/-- A descriptor that is done is taken back. -/
def reclaimBd (tx : SmapTx) : SmapTx :=
  let bd := tx.txBds tx.txbdi
  { tx with
    txUnderruns := if bd.error then tx.txUnderruns + 1 else tx.txUnderruns
    txPackets := if bd.error then tx.txPackets else tx.txPackets + 1
    txfreebufsize := tx.txfreebufsize + txLen bd.length.toNat
    txbdusedcnt := tx.txbdusedcnt - 1
    txBds := Function.update tx.txBds tx.txbdi ⟨0, 0, 0⟩
    txbdi := smapBdNext tx.txbdi }

/-- One step of the frame pump. -/
def pumpStep (tx : SmapTx) (gnp : Bool) : SmapTx :=
  match tx.pump with
  | .idle => { tx with pump := .reclaim }
  | .reclaim =>
    if 0 < tx.txbdusedcnt ∧ (tx.txBds tx.txbdi).ready = false then tx.reclaimBd
    else { tx with pump := .scan 0 false false }
  | .scan slot txProgress txWaiting =>
    if slot < ps2SmapTxSlots then
      if tx.txBusy slot = true then
        if smapRxMinSize ≤ (tx.txSlotLen slot).toNat ∧ (tx.txSlotLen slot).toNat ≤ smapTxMaxSize then
          match tx.smapIopSend (tx.slotBytes slot) gnp with
          | some next => { next.freeWritten slot with pump := .scan (slot + 1) true txWaiting }
          | none => { tx with pump := .scan (slot + 1) txProgress true }
        else { tx.dropSlot slot with pump := .scan (slot + 1) txProgress txWaiting }
      else { tx with pump := .scan (slot + 1) txProgress txWaiting }
    else if txProgress = true ∨ txWaiting = false then { tx with txStallIters := 0, pump := .idle }
    else if smapTxStallLimit ≤ tx.txStallIters + 1 then
      { tx with txStallIters := tx.txStallIters + 1, pump := .release 0 }
    else { tx with txStallIters := tx.txStallIters + 1, pump := .idle }
  | .release slot =>
    if slot < ps2SmapTxSlots then
      if tx.txBusy slot = true then { tx.dropSlot slot with pump := .release (slot + 1) }
      else { tx with pump := .release (slot + 1) }
    else { tx with txStallIters := 0, pump := .idle }

/-- What happens to both processors. -/
inductive Event where
  | send (frame : List Byte)
  /-- `ps2_smap_release_pending` gets to `ps2_smap_flush_tx`. -/
  | flush
  | resume (elapsed : Bool) (fails : Option ℕ)
  | serve
  | pump (gnp : Bool)
  /-- The adapter is done with a descriptor. -/
  | complete (idx : ℕ) (status : BitVec 16)
  /-- A submit call is lost before the handler sees it, or behind the handler. -/
  | loseRequest
  | loseReply
deriving DecidableEq

/-- The result of a lost call is taken down. -/
def lost (tx : SmapTx) : Option SmapTx :=
  match tx.call with
  | .batch caller => some { tx with rpc := .idle, call := .fallback caller 0 0 }
  | .single caller i rcFallback => some (tx.singleReturns caller i rcFallback (-5))
  | _ => none

/-- One event. -/
def step (tx : SmapTx) : Event → Option SmapTx
  | .send frame =>
    match tx.call with
    | .idle =>
      if frame.length < 14 ∨ ps2SmapFrameMax < frame.length then some tx
      else if ps2SmapSubmitBatchMax ≤ tx.pendingSubmits.length then some { tx with call := .flush (.full frame) }
      else some (tx.scanFrom frame false)
    | _ => none
  | .flush =>
    match tx.call with
    | .idle => some { tx with call := .flush .outside }
    | _ => none
  | .resume elapsed fails => tx.callStep elapsed fails
  | .serve => tx.serveStep
  | .pump gnp => some (tx.pumpStep gnp)
  | .complete idx status =>
    if (tx.txBds idx).ready = true ∧ status &&& 0x8000 = 0 then
      some { tx with txBds := Function.update tx.txBds idx { tx.txBds idx with ctrlStat := status } }
    else none
  | .loseRequest =>
    match tx.rpc with
    | .asked _ | .askedSingle _ => tx.lost
    | _ => none
  | .loseReply =>
    match tx.rpc with
    | .answered _ => tx.lost
    | _ => none

/-- After `smap_alloc_shared_region`, `smap_iop_chan_init` and `ps2_smap_init`. -/
def initial : SmapTx where
  pendingSubmits := []
  txClaimed _ := false
  eeTxSeq _ := 0
  txNextSlot := 0
  call := .idle
  rpc := .idle
  txSeq _ := 0
  txSlotLen _ := 0
  txBusy _ := false
  txData _ := 0
  pump := .idle
  txStallIters := 0
  txUnderruns := 0
  txPackets := 0
  txBds _ := ⟨0, 0, 0⟩
  txbds := 0
  txbdi := 0
  txbdusedcnt := 0
  txfreebufsize := smapTxBufSize
  txbwp := smapTxBufBase
  fifo _ := 0
  sent := []
  slotFrame _ := 0
  written := []
  dropped := []

end SmapTx

/-- The machine of the transmit path. -/
def smapTx : LabeledMachine SmapTx SmapTx.Event where
  step := SmapTx.step

end KosTool.Ps2

/-! # Both halves of the SMAP driver

The two processors with the receive ring and the transmit slots. The other processor is in one call at a time: a poll or
a release is under way only outside `ps2_smap_send` and `ps2_smap_flush_tx`, and `ps2_smap_release_pending` gets to
`ps2_smap_flush_tx` behind its own batch.
-/

namespace KosTool.Ps2

open Machine

structure SmapDriver where
  rx : SmapRx
  tx : SmapTx

namespace SmapDriver

inductive Event where
  | rx (event : SmapRx.Event)
  | tx (event : SmapTx.Event)

/-- Whether no `ps2_smap_send` and no `ps2_smap_flush_tx` is under way. -/
def txIdle (driver : SmapDriver) : Bool :=
  match driver.tx.call with
  | .idle => true
  | _ => false

/-- Whether no poll and no release is under way. -/
def rxIdle (driver : SmapDriver) : Bool :=
  match driver.rx.call with
  | .idle => true
  | _ => false

/-- Whether the other processor may do its part of an event. -/
def allowed (driver : SmapDriver) : Event → Bool
  | .rx (.poll _) | .rx .releasePending | .rx .resume | .rx (.flushedTx _) | .rx .loseRequest | .rx .loseReply =>
    driver.txIdle
  | .tx (.send _) => driver.rxIdle
  | .tx .flush =>
    match driver.rx.call with
    | .flushTx _ _ => true
    | _ => false
  | _ => true

/-- One event. -/
def step (driver : SmapDriver) (event : Event) : Option SmapDriver :=
  if driver.allowed event then
    match event with
    | .rx event => (driver.rx.step event).map fun rx => { driver with rx := rx }
    | .tx event => (driver.tx.step event).map fun tx => { driver with tx := tx }
  else none

/-- The driver as it starts. -/
def initial (bds : ℕ → RxBd) : SmapDriver where
  rx := .initial bds
  tx := .initial

end SmapDriver

/-- The machine of both halves. -/
def smapDriver : LabeledMachine SmapDriver SmapDriver.Event where
  step := SmapDriver.step

end KosTool.Ps2
