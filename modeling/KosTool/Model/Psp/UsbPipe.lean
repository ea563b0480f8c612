import KosTool.Machine.Run
import KosTool.Math.ByteWord
import KosTool.Math.RingWindow

/-! # The byte pipe of the USB device

`client/psp/usb/usb_dev.c`: the two rings, the two bulk endpoints with their descriptors, and the controller, which
fills an OUT descriptor that is armed and sends an IN descriptor that has been submitted. Every loop that waits by
polling is taken apart into its passes. What the host has sent and what the loader has queued so far is kept beside
the variables of the driver.
-/

namespace KosTool.Psp

open ByteWord Machine

/-- `RING_SZ`. -/
abbrev ringSz : ℕ := 4096
/-- `KOSLOAD_USB_MAXPKT`. -/
abbrev kosloadUsbMaxpkt : ℕ := 512

/-- The control word of `struct usb_dma_desc`: its owner, its result and its length. -/
structure UsbDesc where
  owner : BitVec 2
  result : BitVec 2
  length : BitVec 16
deriving DecidableEq, Repr

namespace UsbDesc

/-- `desc_clear`. -/
def clear : UsbDesc := ⟨3, 0, 0⟩

/-- `desc_prepare`. -/
def prepare (length : BitVec 16) : UsbDesc := ⟨0, 0, length⟩

/-- `desc_finished`. -/
def finished (desc : UsbDesc) : Bool := desc.owner = 2

/-- `desc_succeeded`. -/
def succeeded (desc : UsbDesc) : Bool := desc.owner = 2 ∧ desc.result = 0

/-- `desc_reclaim`. -/
def reclaim (desc : UsbDesc) : UsbDesc := { desc with owner := 3 }

/-- The controller is done with a descriptor. -/
def complete (result : BitVec 2) (length : BitVec 16) : UsbDesc := ⟨2, result, length⟩

end UsbDesc

/-- `enum usb_dev_diag_error`. -/
inductive UsbDiagError where
  | inResult
  | outResult
  | inLength
  | outLength
  | bulkOutResult
deriving DecidableEq, Repr

/-- `diag_fail`: the first error stays; `USB_DEV_DIAG_ERROR` is set when there is one. -/
def diagFail (latched : Option UsbDiagError) (error : UsbDiagError) : Option UsbDiagError :=
  match latched with
  | some first => some first
  | none => some error

/-- The bulk path of the driver, its endpoints, and what went through it. -/
structure UsbPipe where
  configured : Bool
  bulkOutArmed : Bool
  bulkInBusy : Bool
  rx : CounterRing Byte
  tx : CounterRing Byte
  bulkOutDesc : UsbDesc
  bulkOutBuf : Buffer
  /-- `EP_STATUS_OUT_DATA` of the OUT endpoint. -/
  outData : Bool
  bulkInDesc : UsbDesc
  bulkInBuf : Buffer
  /-- `EP_STATUS_IN_TDC` of the IN endpoint. -/
  inTdc : Bool
  diagError : Option UsbDiagError
  /-- What the host has sent, and what `usb_dev_rx_byte` has handed out. -/
  hostSent : List Byte
  handedOut : List Byte
  /-- What `usb_dev_tx_byte` has queued, and the payloads of the IN transfers that are complete. -/
  queued : List Byte
  transferred : List Byte

/-- The copy of a packet into the receive ring, which stops when the ring is full. -/
def rxCopy (ring : CounterRing Byte) : List Byte → CounterRing Byte
  | [] => ring
  | byte :: rest => if ringSz ≤ ring.used then ring else rxCopy (ring.push ringSz byte) rest

/-- The copy of at most so many bytes out of the transmit ring. -/
def txCopy (ring : CounterRing Byte) : ℕ → List Byte × CounterRing Byte
  | 0 => ([], ring)
  | room + 1 =>
    if ring.tail = ring.head then ([], ring)
    else
      let rest := txCopy ring.pop room
      (ring.front ringSz :: rest.1, rest.2)

namespace UsbPipe

/-- A packet that the controller is done with: what `usb_hw_rx` finds to do. -/
def Arrived (pipe : UsbPipe) : Prop :=
  pipe.configured = true ∧ pipe.bulkOutArmed = true ∧ pipe.outData = true ∧ pipe.bulkOutDesc.finished = true

instance (pipe : UsbPipe) : Decidable pipe.Arrived := inferInstanceAs (Decidable (_ ∧ _))

/-- The bytes of the packet that `usb_hw_rx` copies. -/
def packet (pipe : UsbPipe) : List Byte :=
  slice pipe.bulkOutBuf 0 (min pipe.bulkOutDesc.length.toNat kosloadUsbMaxpkt)

/-- `usb_hw_rx`. -/
def usbHwRx (pipe : UsbPipe) : UsbPipe :=
  if pipe.configured = false then pipe
  else if pipe.bulkOutArmed = false then
    { pipe with bulkOutDesc := .prepare 0, bulkOutArmed := true }
  else if pipe.outData = true ∧ pipe.bulkOutDesc.finished = true then
    if pipe.bulkOutDesc.succeeded = false then
      { pipe with
        outData := false
        diagError := diagFail pipe.diagError .bulkOutResult
        bulkOutDesc := pipe.bulkOutDesc.reclaim
        bulkOutArmed := false }
    else
      { pipe with
        outData := false
        rx := rxCopy pipe.rx pipe.packet
        bulkOutDesc := pipe.bulkOutDesc.reclaim
        bulkOutArmed := false }
  else pipe

/-- The first half of `usb_hw_tx`: a transfer that is complete is reclaimed. -/
def reclaimIn (pipe : UsbPipe) : UsbPipe :=
  if pipe.bulkInBusy = true ∧ pipe.inTdc = true ∧ pipe.bulkInDesc.finished = true then
    { pipe with inTdc := false, bulkInDesc := pipe.bulkInDesc.reclaim, bulkInBusy := false }
  else pipe

/-- The second half: what waits is submitted, up to a packet of it. -/
def submitIn (pipe : UsbPipe) : UsbPipe :=
  if pipe.bulkInBusy = true ∨ pipe.tx.head = pipe.tx.tail then pipe
  else
    let taken := txCopy pipe.tx kosloadUsbMaxpkt
    { pipe with
      tx := taken.2
      bulkInBuf := overlay taken.1 pipe.bulkInBuf
      bulkInDesc := .prepare (BitVec.ofNat 16 taken.1.length)
      bulkInBusy := true }

/-- `usb_hw_tx`. -/
def usbHwTx (pipe : UsbPipe) : UsbPipe :=
  if pipe.configured = false then pipe else pipe.reclaimIn.submitIn

/-- The part of `usb_dev_poll` that is about the pipe. -/
def usbDevPoll (pipe : UsbPipe) : UsbPipe := pipe.usbHwRx.usbHwTx

/-- One pass of `usb_dev_rx_byte`: the ring is polled while it is empty. -/
def usbDevRxByte (pipe : UsbPipe) : UsbPipe :=
  if pipe.rx.head = pipe.rx.tail then pipe.usbDevPoll
  else { pipe with rx := pipe.rx.pop, handedOut := pipe.handedOut ++ [pipe.rx.front ringSz] }

/-- One pass of `usb_dev_tx_byte`: the ring is polled while it is full. -/
def usbDevTxByte (pipe : UsbPipe) (byte : Byte) : UsbPipe :=
  if ringSz ≤ pipe.tx.used then pipe.usbDevPoll
  else
    let put := { pipe with tx := pipe.tx.push ringSz byte, queued := pipe.queued ++ [byte] }
    if kosloadUsbMaxpkt ≤ put.tx.used then put.usbHwTx else put

end UsbPipe

/-- A packet on a bulk endpoint. -/
structure BulkPacket where
  bytes : List Byte
  short : bytes.length ≤ kosloadUsbMaxpkt

/-- What happens to the pipe. -/
inductive UsbEvent where
  /-- The host configures the device. -/
  | configure
  | poll
  | rxByte
  | txByte (byte : Byte)
  | txFlush
  /-- The controller has taken a packet from the host, with a result. -/
  | hostOut (packet : BulkPacket) (result : BitVec 2)
  /-- The controller has sent the packet that was submitted. -/
  | hostIn

namespace UsbPipe

/-- One event: the controller takes a packet only while a descriptor is armed, and sends one only when it has one. -/
def step (pipe : UsbPipe) : UsbEvent → Option UsbPipe
  | .configure => some { pipe with configured := true }
  | .poll => some pipe.usbDevPoll
  | .rxByte => some pipe.usbDevRxByte
  | .txByte byte => some (pipe.usbDevTxByte byte)
  | .txFlush => some pipe.usbHwTx
  | .hostOut packet result =>
    if pipe.bulkOutArmed = true ∧ pipe.bulkOutDesc.owner = 0 then
      some { pipe with
        bulkOutBuf := overlay packet.bytes pipe.bulkOutBuf
        bulkOutDesc := .complete result (BitVec.ofNat 16 packet.bytes.length)
        outData := true
        hostSent := pipe.hostSent ++ packet.bytes }
    else none
  | .hostIn =>
    if pipe.bulkInBusy = true ∧ pipe.bulkInDesc.owner = 0 then
      some { pipe with
        bulkInDesc := .complete 0 pipe.bulkInDesc.length
        inTdc := true
        transferred := pipe.transferred ++ slice pipe.bulkInBuf 0 pipe.bulkInDesc.length.toNat }
    else none

/-- After `usb_dev_init`. -/
def initial (rx tx : ℕ → Byte) (bulkOutBuf bulkInBuf : Buffer) : UsbPipe where
  configured := false
  bulkOutArmed := false
  bulkInBusy := false
  rx := ⟨rx, 0, 0⟩
  tx := ⟨tx, 0, 0⟩
  bulkOutDesc := .clear
  bulkOutBuf := bulkOutBuf
  outData := false
  bulkInDesc := .clear
  bulkInBuf := bulkInBuf
  inTdc := false
  diagError := none
  hostSent := []
  handedOut := []
  queued := []
  transferred := []

end UsbPipe

/-- The machine of the driver's pipe, the controller and the host. -/
def usbPipe : LabeledMachine UsbPipe UsbEvent where
  step := UsbPipe.step

end KosTool.Psp
