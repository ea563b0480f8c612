import KosTool.Machine.Duplex
import KosTool.Math.ByteWord
import KosTool.Model.KosloadTypes

/-! # Data blocks on the serial line

The senders and receivers of LZO blocks: `lzo_send_data` and `lzo_recv_data` of `host/src/transport/serial.c`, whose
exchanges `ser_send_data` and `ser_recv_data` of `console.c` repeat, and the block functions of
`client/common/serial/serial_transport.c`. A loop of the source is a loop head here. The data of a block are
payload, which the line may change; type, size, checksum and acknowledgement get through. Compression is a
parameter.
-/

namespace KosTool.Serial

open ByteWord Machine

/-- `lzo1x_1_compress` and `lzo1x_decompress`. -/
structure Lzo where
  compress : List Byte → List Byte
  decompress : List Byte → Option (List Byte)
  decompress_compress : ∀ data, decompress (compress data) = some data
  length_compress : ∀ data, (compress data).length ≤ data.length + data.length / 64 + 19

/-- What the line makes of the `n`th payload: as many bytes. -/
structure BlockLine where
  carry : ℕ → List Byte → List Byte
  length_carry : ∀ n data, (carry n data).length = data.length

/-- `SERIAL_BUFFER_SIZE`. -/
def serialBufferSize : ℕ := 16384

/-- How much the console compresses at once. -/
def clientChunkSize : ℕ := 8192

/-- The size of `compress_buffer`. -/
def compressBufferSize : ℕ := 16384 + 256 + 19

/-- `SERIAL_DATA_UNCOMPRESSED`. -/
def serialDataUncompressed : Byte := 0x55

/-- `SERIAL_DATA_COMPRESSED`. -/
def serialDataCompressed : Byte := 0x43

/-- `SERIAL_DATA_GOOD`. -/
def serialDataGood : Byte := 0x47

/-- `SERIAL_DATA_BAD`. -/
def serialDataBad : Byte := 0x42

/-- The checksum of a block. -/
def xorSum (data : List Byte) : Byte := data.foldl (· ^^^ ·) 0

/-- The four bytes of a word, lowest first. -/
def uintBytes (value : Word) : List Byte := ByteOrder.bytes32 .little value

/-- The word of four bytes, lowest first. -/
def bytesUint : List Byte → Word
  | [b0, b1, b2, b3] => ofBe32 b3 b2 b1 b0
  | _ => 0

@[simp] theorem bytesUint_uintBytes (value : Word) : bytesUint (uintBytes value) = value := by
  have swapped := ByteOrder.bswap32_ofBe32 (value.extractLsb' 24 8) (value.extractLsb' 16 8)
    (value.extractLsb' 8 8) (value.extractLsb' 0 8)
  rw [ofBe32_extract] at swapped
  rw [uintBytes, ByteOrder.bytes32, ByteOrder.htonl, swapped, be32_ofBe32]
  exact ofBe32_extract value

@[simp] theorem length_uintBytes (value : Word) : (uintBytes value).length = 4 := rfl

section Words

variable {Loop Result : Type}

/-- `send_uint` of the host, which reads the echo and goes on whatever it is. -/
def sendUint (value : Word) (next : Talk Byte Loop Result) : Talk Byte Loop Result :=
  .write (uintBytes value) (.readMany 4 fun _ => next)

/-- `recv_uint` of the host. -/
def recvUint (next : Word → Talk Byte Loop Result) : Talk Byte Loop Result :=
  .readMany 4 fun bytes => next (bytesUint bytes)

/-- `put_uint` of the console. -/
def clientPutUint (value : Word) (next : Talk Byte Loop Result) : Talk Byte Loop Result :=
  .write (uintBytes value) next

/-- `get_uint` of the console, with the echo. -/
def clientGetUint (next : Word → Talk Byte Loop Result) : Talk Byte Loop Result :=
  .readMany 4 fun bytes => .write (uintBytes (bytesUint bytes)) (next (bytesUint bytes))

end Words

/-- A block's data, its checksum and the acknowledgement. -/
def sendBlockData {Loop Result : Type} (data : List Byte) (next : Byte → Talk Byte Loop Result) :
    Talk Byte Loop Result :=
  .payload data (.write [xorSum data] (.read next))

/-- A block's data and its checksum, which nobody tests. -/
def recvBlockData {Loop Result : Type} (count : ℕ) (next : List Byte → Talk Byte Loop Result) :
    Talk Byte Loop Result :=
  .readMany count fun data => .read fun _ => next data

section HostToConsole

variable (lzo : Lzo)

/-- The loops of `lzo_send_data`: over the chunks, and over the attempts at a compressed one. -/
inductive HostSend where
  | chunk (rest : List Byte)
  | attempt (rest compressed : List Byte)

/-- `lzo_send_data`, and `ser_send_data`. -/
def lzoSendData : HostSend → Talk Byte HostSend Unit
  | .chunk rest =>
    if rest = [] then .done ()
    else
      let data := rest.take serialBufferSize
      let buffer := lzo.compress data
      if buffer.length < data.length then
        .write [serialDataCompressed] (sendUint (BitVec.ofNat 32 buffer.length)
          (.again (.attempt (rest.drop serialBufferSize) buffer)))
      else
        .write [serialDataUncompressed] (sendUint (BitVec.ofNat 32 data.length)
          (sendBlockData data fun _ => .again (.chunk (rest.drop serialBufferSize))))
  | .attempt rest buffer =>
    sendBlockData buffer fun ack =>
      if ack = serialDataGood then .again (.chunk rest) else .again (.attempt rest buffer)

/-- The loop of `load_data_block_general`: what remains, and what has been stored. -/
structure ClientLoad where
  total : Word
  data : List Byte

/-- `load_data_block_general`. -/
def loadDataBlockGeneral (load : ClientLoad) : Talk Byte ClientLoad (List Byte) :=
  if load.total = 0#32 then .done load.data
  else
    .read fun type => clientGetUint fun size =>
      if type = serialDataUncompressed then
        recvBlockData size.toNat fun data =>
          .write [serialDataGood] (.again
            { total := if load.total ≤ size then 0 else load.total - size
              data := load.data ++ data })
      else if type = serialDataCompressed then
        recvBlockData size.toNat fun tmp =>
          match lzo.decompress tmp with
          | some data =>
            .write [serialDataGood] (.again
              { total := if load.total.toNat ≤ data.length then 0 else load.total - BitVec.ofNat 32 data.length
                data := load.data ++ data })
          | none => .write [serialDataBad] (.again load)
      else .again load

end HostToConsole

section ConsoleToHost

variable (lzo : Lzo)

/-- The loops of the console's senders; a block of `send_data_block_uncompressed` is one attempt, which
`send_data_block_compressed` repeats or not. -/
inductive ClientSend where
  | once (data : List Byte)
  | chunk (rest : List Byte)
  | attempt (rest compressed : List Byte)
  | plain (rest data : List Byte)

/-- `send_data_block_uncompressed`. -/
def sendDataBlockUncompressed (data : List Byte) (next : Byte → Talk Byte ClientSend Unit) :
    Talk Byte ClientSend Unit :=
  .write [serialDataUncompressed] (clientPutUint (BitVec.ofNat 32 data.length) (sendBlockData data next))

/-- The body of `send_data_block_compressed` behind its first tests. -/
def sendDataBlocks : ClientSend → Talk Byte ClientSend Unit
  | .once data => sendDataBlockUncompressed data fun _ => .done ()
  | .chunk rest =>
    if rest = [] then .done ()
    else
      let data := rest.take clientChunkSize
      let compressBuffer := lzo.compress data
      if compressBuffer.length < data.length then
        .write [serialDataCompressed] (clientPutUint (BitVec.ofNat 32 compressBuffer.length)
          (.again (.attempt (rest.drop clientChunkSize) compressBuffer)))
      else .again (.plain (rest.drop clientChunkSize) data)
  | .attempt rest compressBuffer =>
    sendBlockData compressBuffer fun ack =>
      if ack = serialDataGood then .again (.chunk rest) else .again (.attempt rest compressBuffer)
  | .plain rest data =>
    sendDataBlockUncompressed data fun ack =>
      if ack = serialDataGood then .again (.chunk rest) else .again (.plain rest data)

/-- `send_data_block_compressed`, with work memory or without; without it is `send_data_block_uncompressed`. -/
def sendDataBlockCompressed (wrkmem : Bool) (data : List Byte) : ClientSend :=
  if wrkmem = false ∨ data.length < 19 then .once data else .chunk data

/-- The loop of `lzo_recv_data`: what remains, what has been stored, and whether more has been taken off what
remains than there was. -/
structure HostRecv where
  total : Word
  out : List Byte
  wrapped : Bool

/-- How many bytes `blread` reads for a size: its count is signed. -/
def blreadCount (size : Word) : ℕ := size.toInt.toNat

/-- `lzo_recv_data`, and `ser_recv_data`. -/
def lzoRecvData (recv : HostRecv) : Talk Byte HostRecv (List Byte × Bool) :=
  if recv.total = 0#32 then .done (recv.out, recv.wrapped)
  else
    .read fun type => recvUint fun size =>
      if type = serialDataUncompressed then
        recvBlockData (blreadCount size) fun data =>
          .write [serialDataGood] (.again
            { total := recv.total - size
              out := recv.out ++ data
              wrapped := recv.wrapped || decide (recv.total < size) })
      else if type = serialDataCompressed then
        recvBlockData (blreadCount size) fun tmp =>
          match lzo.decompress tmp with
          | some data =>
            .write [serialDataGood] (.again
              { total := recv.total - BitVec.ofNat 32 data.length
                out := recv.out ++ data
                wrapped := recv.wrapped || decide (recv.total.toNat < data.length) })
          | none => .write [serialDataBad] (.again recv)
      else .again recv

end ConsoleToHost

section Transfers

variable (lzo : Lzo) (line : BlockLine)

/-- A host that sends to a console. -/
abbrev ToConsole := Duplex Byte (HostSend × ℕ) Unit ClientLoad (List Byte)

/-- A console that sends to a host. -/
abbrev ToHost := Duplex Byte (ClientSend × ℕ) Unit HostRecv (List Byte × Bool)

/-- The host's sender over the line. -/
def hostSender (head : HostSend × ℕ) : Talk Byte (HostSend × ℕ) Unit :=
  (lzoSendData lzo head.1).overLine line.carry head.2

/-- The console's sender over the line. -/
def clientSender (head : ClientSend × ℕ) : Talk Byte (ClientSend × ℕ) Unit :=
  (sendDataBlocks lzo head.1).overLine line.carry head.2

/-- One action of either side. -/
abbrev ToConsole.Step : ToConsole → ToConsole → Prop := Duplex.Step (hostSender lzo line) (loadDataBlockGeneral lzo)

/-- One action of either side. -/
abbrev ToHost.Step : ToHost → ToHost → Prop := Duplex.Step (clientSender lzo line) (lzoRecvData lzo)

/-- The host is about to send, the console to receive as many bytes. -/
def ToConsole.start (data : List Byte) : ToConsole where
  left := hostSender lzo line (.chunk data, 0)
  right := loadDataBlockGeneral lzo { total := BitVec.ofNat 32 data.length, data := [] }
  toRight := []
  toLeft := []

/-- Both are done, the console has the data, and nothing is left on the line. -/
def ToConsole.aligned (data : List Byte) : ToConsole where
  left := .done ()
  right := .done data
  toRight := []
  toLeft := []

/-- The console is about to send, the host to receive as many bytes. -/
def ToHost.start (wrkmem : Bool) (data : List Byte) : ToHost where
  left := clientSender lzo line (sendDataBlockCompressed wrkmem data, 0)
  right := lzoRecvData lzo { total := BitVec.ofNat 32 data.length, out := [], wrapped := false }
  toRight := []
  toLeft := []

/-- Both are done, the host has the data and never took off more than remained, and nothing is left on the line. -/
def ToHost.aligned (data : List Byte) : ToHost where
  left := .done ()
  right := .done (data, false)
  toRight := []
  toLeft := []

/-- Whatever the speeds of the two sides, the transfer ends aligned. -/
def ToConsole.RoundTrip (data : List Byte) : Prop := Settles (Step lzo line) (start lzo line data) (aligned data)

/-- Whatever the speeds of the two sides, the transfer ends aligned. -/
def ToHost.RoundTrip (wrkmem : Bool) (data : List Byte) : Prop :=
  Settles (Step lzo line) (start lzo line wrkmem data) (aligned data)

end Transfers

end KosTool.Serial

/-! # Where a serial download is compressed

`serial_recv_data` of `host/src/transport/serial.c` up to the words that it sends, with the addresses of
`include/kosload/protocol.h` as `mk/memory.mk` sets them; and the memory that an address names on the consoles, whose
segments differ in caching only.
-/

namespace KosTool.Host

/-- `console_type_t` -/
inductive ConsoleType where
  | unknown
  | dc
  | gc
  | ps2
  | wii
  | xbox
  | psp
deriving DecidableEq, Repr

/-- `LZO_WRKMEM_SIZE` -/
abbrev lzoWrkmemSize : Word := 0x10000

/-- `DC_RAM_TOP` -/
abbrev dcRamTop : Word := 0x8d000000

/-- `GC_LOADER_BASE` -/
abbrev gcLoaderBase : Word := 0x817ec000

/-- `PSP_LOADER_BASE` -/
abbrev pspLoaderBase : Word := 0x08000000

/-- `PSP_LOADER_SIZE` -/
abbrev pspLoaderSize : Word := 0x00100000

/-- `DC_LZO_WRKMEM_ADDR`, `GC_LZO_WRKMEM_ADDR` and `PSP_LZO_WRKMEM_ADDR`; no other console has work memory. -/
def lzoWrkmemAddr : ConsoleType → Word
  | .dc => dcRamTop - lzoWrkmemSize
  | .gc => gcLoaderBase - lzoWrkmemSize
  | .psp => pspLoaderBase + pspLoaderSize - lzoWrkmemSize
  | _ => 0

/-- The words that follow the command. -/
structure DownloadRequest where
  srcAddr : Word
  size : Word
  wrkmemAddr : Word

/-- What `serial_recv_data` sends. -/
def serialRecvData (consoleType : ConsoleType) (srcAddr size : Word) : DownloadRequest :=
  let wrkmemAddr := lzoWrkmemAddr consoleType
  { srcAddr, size
    wrkmemAddr := if srcAddr < wrkmemAddr + lzoWrkmemSize ∧ wrkmemAddr < srcAddr + size then 0 else wrkmemAddr }

/-- The memory that an address names, whichever segment it is in. -/
def physical (addr : Word) : Word := addr &&& 0x1fffffff

end KosTool.Host
