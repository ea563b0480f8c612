import KosTool.Machine.Run
import KosTool.Model.Psp.UsbPipe

/-! # The receive side of the USB transport

`host/src/transport/usb.c`: the receive buffer with its two ways of being filled. Of a bulk transfer only the bytes that it
stored and the kind of its result are known; it stores no more than it was asked for. What the transfers have reported and
what `usb_read` has handed out is kept beside the variables of the handle.
-/

namespace KosTool.Host

open ByteWord Machine
open Psp (kosloadUsbMaxpkt)

/-- `sizeof(h->rxbuf)`. -/
abbrev usbRxbufSize : ℕ := kosloadUsbMaxpkt * 2

/-- `LIBUSB_SUCCESS`, `LIBUSB_ERROR_TIMEOUT`, or any other result of `libusb_bulk_transfer`. -/
inductive LibusbResult where
  | success
  | timeout
  | failed
deriving DecidableEq, Repr

/-- A bulk transfer: its result, and what it would store in a buffer that is long enough. -/
structure BulkTransfer where
  result : LibusbResult
  bytes : List Byte

/-- `usb_handle_t`. -/
structure UsbHandle where
  rxbuf : Buffer
  rxlen : ℕ
  rxpos : ℕ
  /-- The bytes that the transfers have reported. -/
  received : List Byte
  /-- The bytes that `usb_read` has handed out. -/
  handedOut : List Byte

namespace UsbHandle

/-- What is in the buffer. -/
def buffered (h : UsbHandle) : List Byte := slice h.rxbuf h.rxpos (h.rxlen - h.rxpos)

/-- A transfer into the buffer, from an offset to its end. -/
def bulkTransfer (h : UsbHandle) (offset : ℕ) (transfer : BulkTransfer) : UsbHandle :=
  let stored := transfer.bytes.take (usbRxbufSize - offset)
  { h with rxbuf := storeAt h.rxbuf offset stored, received := h.received ++ stored }

/-- `*transferred` of a transfer from an offset of the buffer to its end. -/
def transferred (offset : ℕ) (transfer : BulkTransfer) : ℕ := (transfer.bytes.take (usbRxbufSize - offset)).length

/-- `usb_fill` with an empty buffer. -/
def usbFill (h : UsbHandle) (transfer : BulkTransfer) : ℤ × UsbHandle :=
  let filled := h.bulkTransfer 0 transfer
  if transfer.result ≠ .failed ∧ 0 < transferred 0 transfer then
    (transferred 0 transfer, { filled with rxpos := 0, rxlen := transferred 0 transfer })
  else if transfer.result ≠ .failed then (0, filled)
  else (-1, filled)

/-- The move of what is left to the front of the buffer. -/
def compact (h : UsbHandle) : UsbHandle :=
  if 0 < h.rxpos then { h with rxbuf := storeAt h.rxbuf 0 h.buffered, rxlen := h.rxlen - h.rxpos, rxpos := 0 } else h

/-- `usb_topup`. -/
def usbTopup (h : UsbHandle) (transfer : BulkTransfer) : ℤ × UsbHandle :=
  let h := h.compact
  if usbRxbufSize - h.rxlen < kosloadUsbMaxpkt then (h.rxlen - h.rxpos, h)
  else
    let grown := { h.bulkTransfer h.rxlen transfer with rxlen := h.rxlen + transferred h.rxlen transfer }
    if transfer.result = .failed ∧ transferred h.rxlen transfer = 0 then (-1, grown)
    else (grown.rxlen - grown.rxpos, grown)

/-- The loop of `usb_read` over what is in the buffer. -/
def drain : ℕ → UsbHandle → List Byte → List Byte × UsbHandle
  | 0, h, out => (out, h)
  | count + 1, h, out =>
    if h.rxlen ≤ h.rxpos then (out, h) else drain count { h with rxpos := h.rxpos + 1 } (out ++ [h.rxbuf h.rxpos])

/-- What `usb_read` goes on with once there is something in the buffer: it returns the bytes it hands out. -/
def readBuffered (h : UsbHandle) (count : ℕ) : Option (List Byte) × UsbHandle :=
  let drained := drain count h []
  (some drained.1, { drained.2 with handedOut := h.handedOut ++ drained.1 })

/-- The wait of `usb_read` for a transfer that is not idle, and what follows it. A failure hands out nothing. -/
def awaitFill (count : ℕ) : UsbHandle → List BulkTransfer → Option (Option (List Byte) × UsbHandle)
  | _, [] => none
  | h, transfer :: transfers =>
    let filled := h.usbFill transfer
    if filled.1 = 0 then awaitFill count filled.2 transfers
    else if filled.1 < 0 then some (none, filled.2)
    else some (filled.2.readBuffered count)

/-- `usb_read` with the transfers that it makes; it has no result as long as it waits. -/
def usbRead (h : UsbHandle) (count : ℕ) (transfers : List BulkTransfer) : Option (Option (List Byte) × UsbHandle) :=
  if count = 0 then some (some [], h)
  else if h.rxlen ≤ h.rxpos then awaitFill count h transfers
  else some (h.readBuffered count)

/-- The calls of the layer above. -/
inductive Event where
  | read (count : ℕ) (transfers : List BulkTransfer)
  | bytesAvailable (transfer : BulkTransfer)

/-- One call. -/
def step (h : UsbHandle) : Event → Option UsbHandle
  | .read count transfers => (h.usbRead count transfers).map Prod.snd
  | .bytesAvailable transfer => some (h.usbTopup transfer).2

/-- After `usb_open`. -/
def opened : UsbHandle := ⟨fun _ => 0, 0, 0, [], []⟩

end UsbHandle

/-- The machine of the calls. -/
def usbTransport : LabeledMachine UsbHandle UsbHandle.Event where
  step := UsbHandle.step

end KosTool.Host
