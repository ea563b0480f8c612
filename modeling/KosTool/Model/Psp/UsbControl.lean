import KosTool.Model.Psp.UsbPipe

/-! # The control endpoint of the USB device

`client/psp/usb/usb_dev.c`: the endpoint-0 state machine with the requests it serves, over the byte pipe whose
errors it shares. The host sends SETUP packets whenever it likes, asks for the data with IN tokens, ends a transfer
with an empty OUT packet, which the controller accepts once the endpoint has been released, and resets the bus.
-/

namespace KosTool.Psp

open ByteWord Machine

/-- The eight bytes of a SETUP packet. -/
structure SetupPacket where
  bmRequestType : Byte
  bRequest : Byte
  wValue : BitVec 16
  wIndex : BitVec 16
  wLength : BitVec 16
deriving DecidableEq, Repr

namespace SetupPacket

/-- The type of a request, in bits 5 and 6. -/
def isClass (setup : SetupPacket) : Bool := setup.bmRequestType &&& 0x60 = 0x20
def isVendor (setup : SetupPacket) : Bool := setup.bmRequestType &&& 0x60 = 0x40

/-- `wValue >> 8`. -/
def descriptorType (setup : SetupPacket) : BitVec 16 := setup.wValue >>> 8

end SetupPacket

/-- `MSOS2_VENDOR_CODE` and `MSOS2_INDEX_DESCRIPTOR_SET`. -/
abbrev msos2VendorCode : Byte := 0x20
abbrev msos2IndexDescriptorSet : BitVec 16 := 7

/-- `KOSLOAD_USB_VID`, `KOSLOAD_USB_PID` and the two bulk endpoints. -/
abbrev kosloadUsbVid : BitVec 16 := 0x1209
abbrev kosloadUsbPid : BitVec 16 := 0x4b53
abbrev kosloadUsbEpIn : Byte := 0x81
abbrev kosloadUsbEpOut : Byte := 0x01

/-- `dev_desc`. -/
def devDesc : List Byte :=
  [18, 0x01, 0x01, 0x02, 0xff, 0x00, 0x00, 64, kosloadUsbVid.setWidth 8, (kosloadUsbVid >>> 8).setWidth 8,
    kosloadUsbPid.setWidth 8, (kosloadUsbPid >>> 8).setWidth 8, 0x01, 0x01, 0, 0, 0, 1]

/-- `qualifier_desc`. -/
def qualifierDesc : List Byte := [10, 0x06, 0x01, 0x02, 0xff, 0x00, 0x00, 64, 1, 0]

/-- `msos2_desc`. -/
def msos2Desc : List Byte :=
  [0x0a, 0x00, 0x00, 0x00, 0x00, 0x00, 0x03, 0x06, 30, 0x00, 0x14, 0x00, 0x03, 0x00, 0x57, 0x49, 0x4e, 0x55, 0x53,
    0x42, 0x00, 0x00, 0x00, 0x00, 0x00, 0x00, 0x00, 0x00, 0x00, 0x00]

/-- `bos_desc`. -/
def bosDesc : List Byte :=
  [0x05, 0x0f, 33, 0x00, 0x01, 0x1c, 0x10, 0x05, 0x00, 0xdf, 0x60, 0xdd, 0xd8, 0x89, 0x45, 0xc7, 0x4c, 0x9c, 0xd2,
    0x65, 0x9d, 0x9e, 0x64, 0x8a, 0x9f, 0x00, 0x00, 0x03, 0x06, 30, 0x00, msos2VendorCode, 0x00]

/-- `usb_bulk_maxpkt`. -/
def usbBulkMaxpkt (speed : ℕ) : BitVec 16 := if speed = 1 then 64 else 512

/-- `cfg_desc`, as `usb_refresh_cfg_desc` leaves it. -/
def cfgDesc (speed : ℕ) : List Byte :=
  let low : Byte := (usbBulkMaxpkt speed).setWidth 8
  let high : Byte := (usbBulkMaxpkt speed >>> 8).setWidth 8
  [9, 0x02, 32, 0, 1, 1, 0, 0xc0, 0, 9, 0x04, 0, 0, 2, 0xff, 0, 0, 0, 7, 0x05, kosloadUsbEpIn, 0x02, low, high, 0, 7,
    0x05, kosloadUsbEpOut, 0x02, low, high, 0]

/-- The descriptors a host can ask for. -/
inductive DescriptorKind where
  | device
  | configuration
  | qualifier
  | bos
deriving DecidableEq, Repr

/-- What `handle_setup` makes of a packet: one of the standard requests, the one vendor request, or a stall. -/
inductive ControlRequest where
  | getDescriptor (kind : DescriptorKind)
  | setAddress
  | setConfiguration
  | getStatus
  | getConfiguration
  | getInterface
  | setInterface
  | msos2
  | stall
deriving DecidableEq, Repr

/-- The request is one of the standard ones. -/
def ControlRequest.standard : ControlRequest → Bool
  | .msos2 => false
  | .stall => false
  | _ => true

/-- The dispatch of `handle_setup`. -/
def dispatch (setup : SetupPacket) : ControlRequest :=
  if setup.isVendor then
    if setup.bmRequestType = 0xc0 ∧ setup.bRequest = msos2VendorCode ∧ setup.wIndex = msos2IndexDescriptorSet then
      .msos2
    else .stall
  else if setup.bRequest = 6 then
    if setup.descriptorType = 1 then .getDescriptor .device
    else if setup.descriptorType = 2 then .getDescriptor .configuration
    else if setup.descriptorType = 6 then .getDescriptor .qualifier
    else if setup.descriptorType = 0x0f then .getDescriptor .bos
    else .stall
  else if setup.bRequest = 5 then .setAddress
  else if setup.bRequest = 9 then .setConfiguration
  else if setup.bRequest = 0 then .getStatus
  else if setup.bRequest = 8 then .getConfiguration
  else if setup.bRequest = 10 then .getInterface
  else if setup.bRequest = 11 then .setInterface
  else .stall

/-- `enum ep0_phase`. -/
inductive Ep0Phase where
  | waitSetup
  | waitInToken
  | waitInData
  | waitOutStatus
deriving DecidableEq, Repr

/-- The control endpoint of the driver and the controller, with the byte pipe. -/
structure UsbDevice where
  pipe : UsbPipe
  /-- `usb_speed`. -/
  speed : ℕ
  phase : Ep0Phase
  /-- The SETUP mailbox. -/
  setupDesc : UsbDesc
  setup : SetupPacket
  inDesc : UsbDesc
  outDesc : UsbDesc
  ep0Buf : Buffer
  /-- `ep0_in_expected`. -/
  inExpected : BitVec 16
  /-- `EP_STATUS_OUT_DATA`, `EP_STATUS_OUT_SETUP`, `EP_STATUS_IN_TOKEN` and `EP_STATUS_IN_TDC` of endpoint 0. -/
  outData : Bool
  outSetup : Bool
  inToken : Bool
  inTdc : Bool
  /-- The OUT side accepts the status packet: `EP_CNAK` was written since the last SETUP packet. -/
  outReleased : Bool
  /-- The IN side holds a packet that was submitted and not flushed. -/
  inLoaded : Bool
  stalled : Bool
  /-- `USB_DEV_DIAG_SETUP` of `diag_events`. -/
  diagSetup : Bool
  /-- `diag_track_first_data`. -/
  diagTrackFirstData : Bool

namespace UsbDevice

/-- `ep0_setup_done`, gated by the SETUP event. -/
def setupPending (device : UsbDevice) : Bool := device.outSetup && device.setupDesc.succeeded

/-- `ep0_send`. -/
def ep0Send (device : UsbDevice) (data : List Byte) (wLength : BitVec 16) : UsbDevice :=
  let sent := data.take (min (min data.length wLength.toNat) 64)
  { device with
    ep0Buf := overlay sent device.ep0Buf
    outDesc := .prepare 0
    inExpected := BitVec.ofNat 16 sent.length
    phase := .waitInToken }

/-- `ep0_send_status`. -/
def ep0SendStatus (device : UsbDevice) : UsbDevice := { device with phase := .waitSetup }

/-- `ep0_stall`. -/
def ep0Stall (device : UsbDevice) : UsbDevice :=
  { device with inLoaded := false, stalled := true, phase := .waitSetup }

/-- `usb_apply_configuration`. -/
def applyConfiguration (device : UsbDevice) (value : BitVec 16) : UsbDevice :=
  if value ≠ 0 then { device with pipe := { device.pipe with configured := true } }
  else { device with pipe := { device.pipe with configured := false, bulkOutArmed := false, bulkInBusy := false } }

/-- What is done for a request. -/
def serve (device : UsbDevice) (setup : SetupPacket) : ControlRequest → UsbDevice
  | .getDescriptor .device => device.ep0Send devDesc setup.wLength
  | .getDescriptor .configuration => device.ep0Send (cfgDesc device.speed) setup.wLength
  | .getDescriptor .qualifier => device.ep0Send qualifierDesc setup.wLength
  | .getDescriptor .bos => device.ep0Send bosDesc setup.wLength
  | .setAddress => device.ep0SendStatus
  | .setConfiguration => (device.applyConfiguration (setup.wValue &&& 0xff)).ep0SendStatus
  | .getStatus => device.ep0Send [0, 0] setup.wLength
  | .getConfiguration => device.ep0Send [if device.pipe.configured then 1 else 0] setup.wLength
  | .getInterface => device.ep0Send [0] setup.wLength
  | .setInterface => device.ep0SendStatus
  | .msos2 => device.ep0Send msos2Desc setup.wLength
  | .stall => device.ep0Stall

/-- `handle_setup`: the very first packet decides whether its transfer is tracked. -/
def handleSetup (device : UsbDevice) (setup : SetupPacket) : UsbDevice :=
  let tracked :=
    if device.diagSetup then device
    else
      { device with
        diagSetup := true
        diagTrackFirstData := decide (setup.bmRequestType = 0x80 ∧ setup.bRequest = 6 ∧ setup.wValue = 0x0100 ∧
          setup.wLength ≠ 0) }
  tracked.serve setup (dispatch setup)

/-- The part of `ep0_take_setup` before the request is handled: what was pending is dropped, the IN side is flushed
and the mailbox is armed again. -/
def abort (device : UsbDevice) : UsbDevice :=
  let dropped :=
    if device.phase ≠ .waitSetup then
      { device with inDesc := device.inDesc.reclaim, outDesc := device.outDesc.reclaim, phase := .waitSetup }
    else device
  { dropped with
    outSetup := false
    inLoaded := false
    setupDesc := { dropped.setupDesc with owner := 0, result := 0 } }

/-- `ep0_take_setup`. -/
def takeSetup (device : UsbDevice) : UsbDevice :=
  if device.setupPending then device.abort.handleSetup device.setup else device

/-- An IN data stage that is over. -/
def inDone (device : UsbDevice) : Bool := device.inTdc && device.inDesc.finished

/-- The error that a tracked data stage latches. -/
def inError (device : UsbDevice) : Option UsbDiagError :=
  if device.diagTrackFirstData then
    if device.inDesc.succeeded = false then diagFail device.pipe.diagError .inResult
    else if device.inDesc.length ≠ device.inExpected then diagFail device.pipe.diagError .inLength
    else device.pipe.diagError
  else device.pipe.diagError

/-- `EP0_WAIT_IN_DATA` with a data stage that is over. -/
def finishIn (device : UsbDevice) : UsbDevice :=
  let acked :=
    { device with
      pipe := { device.pipe with diagError := device.inError }
      inTdc := false
      inToken := false
      inDesc := device.inDesc.reclaim }
  if device.inError = none then { acked with outReleased := true, phase := .waitOutStatus } else acked

/-- The error that a tracked status stage latches. -/
def outError (device : UsbDevice) : Option UsbDiagError :=
  if device.diagTrackFirstData then
    if device.outDesc.succeeded = false then diagFail device.pipe.diagError .outResult
    else if device.outDesc.length ≠ 0 then diagFail device.pipe.diagError .outLength
    else device.pipe.diagError
  else device.pipe.diagError

/-- `EP0_WAIT_OUT_STATUS` with a status stage that is over. -/
def finishOut (device : UsbDevice) : UsbDevice :=
  { device with
    pipe := { device.pipe with diagError := device.outError }
    outData := false
    outDesc := device.outDesc.reclaim
    diagTrackFirstData := false
    phase := .waitSetup }

/-- A status stage that is over. -/
def outDone (device : UsbDevice) : Bool := device.outData && device.outDesc.finished

/-- `usb_ep0_restart` and the part of `usb_ep0_reconfigure` that releases endpoint 0: the descriptors are dropped, the
latched error is not. -/
def usbEp0Restart (device : UsbDevice) (speed : ℕ) : UsbDevice :=
  { device with
    pipe := { device.pipe with configured := false, bulkOutArmed := false, bulkInBusy := false }
    speed := speed
    setupDesc := ⟨0, 0, 0⟩
    inDesc := .clear
    outDesc := .clear
    inExpected := 0
    phase := .waitSetup
    outReleased := true }

/-- `usb_ep0_poll`. -/
def usbEp0Poll (device : UsbDevice) : UsbDevice :=
  match device.phase with
  | .waitSetup => device.takeSetup
  | .waitInToken =>
    if device.setupPending then device.takeSetup
    else if device.inToken then
      { device with inDesc := .prepare device.inExpected, inLoaded := true, inToken := false, phase := .waitInData }
    else device
  | .waitInData =>
    if device.setupPending then device.takeSetup
    else if device.inDone then device.finishIn
    else device
  | .waitOutStatus =>
    if device.outDone then device.finishOut
    else if device.setupPending then device.takeSetup
    else device

/-- `usb_dev_poll`, after `usb_global_events`. -/
def usbDevPoll (device : UsbDevice) : UsbDevice :=
  { device.usbEp0Poll with pipe := device.usbEp0Poll.pipe.usbDevPoll }

/-- One pass of `usb_dev_rx_byte`. -/
def usbDevRxByte (device : UsbDevice) : UsbDevice :=
  if device.pipe.rx.head = device.pipe.rx.tail then device.usbDevPoll
  else { device with pipe := device.pipe.usbDevRxByte }

/-- One pass of `usb_dev_tx_byte`. -/
def usbDevTxByte (device : UsbDevice) (byte : Byte) : UsbDevice :=
  if ringSz ≤ device.pipe.tx.used then device.usbDevPoll
  else { device with pipe := device.pipe.usbDevTxByte byte }

end UsbDevice

/-- What happens to the device. -/
inductive UsbDeviceEvent where
  | poll
  | rxByte
  | txByte (byte : Byte)
  | txFlush
  /-- `usb_global_events` finds the SET_CONFIGURATION that the controller has answered itself. -/
  | setConfig (value : BitVec 16)
  /-- `usb_global_events` finds a bus reset, or an enumeration at another speed. -/
  | reset (speed : ℕ)
  /-- The controller takes a bulk packet from the host, or has sent one. -/
  | hostOut (packet : BulkPacket) (result : BitVec 2)
  | hostIn
  /-- A SETUP packet is in the mailbox. -/
  | setup (packet : SetupPacket)
  /-- The host asks for data. -/
  | token
  /-- The controller is done with the data stage, or with the status stage. -/
  | dataDone (result : BitVec 2) (length : BitVec 16)
  | statusDone (result : BitVec 2) (length : BitVec 16)

namespace UsbDevice

/-- One event: a SETUP packet needs the mailbox armed, a data stage a descriptor that was submitted, and a status
stage one that was posted on an endpoint that was released. -/
def step (device : UsbDevice) : UsbDeviceEvent → Option UsbDevice
  | .poll => some device.usbDevPoll
  | .rxByte => some device.usbDevRxByte
  | .txByte byte => some (device.usbDevTxByte byte)
  | .txFlush => some { device with pipe := device.pipe.usbHwTx }
  | .setConfig value => some (device.applyConfiguration value)
  | .reset speed => some (device.usbEp0Restart speed)
  | .hostOut packet result => (device.pipe.step (.hostOut packet result)).map fun pipe => { device with pipe := pipe }
  | .hostIn => (device.pipe.step .hostIn).map fun pipe => { device with pipe := pipe }
  | .setup packet =>
    if device.setupDesc.owner = 0 then
      some { device with
        setup := packet, setupDesc := .complete 0 8, outSetup := true, outReleased := false, stalled := false }
    else none
  | .token => some { device with inToken := true }
  | .dataDone result length =>
    if device.inDesc.owner = 0 then
      some { device with inDesc := .complete result length, inTdc := true, inLoaded := false }
    else none
  | .statusDone result length =>
    if device.outDesc.owner = 0 ∧ device.outReleased then
      some { device with outDesc := .complete result length, outData := true }
    else none

/-- After `usb_dev_init`. -/
def initial (pipe : UsbPipe) (setup : SetupPacket) (ep0Buf : Buffer) : UsbDevice where
  pipe := { pipe with configured := false, bulkOutArmed := false, bulkInBusy := false, diagError := none }
  speed := 0
  phase := .waitSetup
  setupDesc := ⟨0, 0, 0⟩
  setup := setup
  inDesc := .clear
  outDesc := .clear
  ep0Buf := ep0Buf
  inExpected := 0
  outData := false
  outSetup := false
  inToken := false
  inTdc := false
  outReleased := true
  inLoaded := false
  stalled := false
  diagSetup := false
  diagTrackFirstData := false

end UsbDevice

/-- The machine of the device and the host. -/
def usbDevice : LabeledMachine UsbDevice UsbDeviceEvent where
  step := UsbDevice.step

end KosTool.Psp
