import KosTool.Machine.Dialogue
import KosTool.Math.ByteWord

/-! # What goes over the serial line

Bytes, words and data blocks, as `serial_io_putchar`, `put_uint` and the block transfers of
`client/common/serial/serial_transport.c` and `host/src/console.c` exchange them. The echo of a word and the
frames of a block belong to the exchange of that word or block. Neither receiver and not the host's sender spend
a byte on a block of length zero; the console's sender does.
-/

namespace KosTool.Serial

open ByteWord Machine Party

/-- What is exchanged at once. -/
inductive SerialKind where
  | byte
  | word
  | block (length : ℕ)
deriving DecidableEq, Repr

/-- What an exchange carries. -/
def SerialKind.Content : SerialKind → Type
  | .byte => Byte
  | .word => Word
  | .block length => { data : List Byte // data.length = length }

/-- One end of the line. -/
abbrev SerialParty := Party SerialKind.Content

/-- `serial_io_putchar`. -/
def serialIoPutchar (data : Byte) : SerialParty Unit := speak SerialKind.byte data

/-- `ser_blread` of one byte. -/
def serBlreadByte : SerialParty Byte := hear SerialKind.byte

/-- `put_uint` of the console and `ser_send_uint` of the host. -/
def putUint (value : Word) : SerialParty Unit := speak SerialKind.word value

/-- `get_uint` of the console and `ser_recv_uint` of the host. -/
def getUint : SerialParty Word := hear SerialKind.word

/-- `send_data_block_compressed`. -/
def sendDataBlock (data : List Byte) : SerialParty Unit := speak (SerialKind.block data.length) ⟨data, rfl⟩

/-- `ser_send_data`. -/
def serSendData (data : List Byte) : SerialParty Unit := if data = [] then pure () else sendDataBlock data

/-- `load_data_block_general` of the console and `ser_recv_data` of the host. -/
def loadDataBlock (total : ℕ) : SerialParty (List Byte) :=
  if total = 0 then pure [] else (hear (SerialKind.block total) : SerialParty _) >>= fun block => pure block.1

section Exchanges

variable {α β : Type}

@[simp] theorem converse_byte (data : Byte) (next : Unit → SerialParty α) (listen : Byte → SerialParty β) :
    converse (serialIoPutchar data >>= next) (serBlreadByte >>= listen) = converse (next ()) (listen data) :=
  @converse_speak SerialKind SerialKind.Content _ _ _ .byte data next listen

@[simp] theorem converse_word (value : Word) (next : Unit → SerialParty α) (listen : Word → SerialParty β) :
    converse (putUint value >>= next) (getUint >>= listen) = converse (next ()) (listen value) :=
  @converse_speak SerialKind SerialKind.Content _ _ _ .word value next listen

@[simp] theorem converse_reply (value : Word) (listen : Word → SerialParty α) (next : Unit → SerialParty β) :
    converse (getUint >>= listen) (putUint value >>= next) = converse (listen value) (next ()) :=
  @converse_hear SerialKind SerialKind.Content _ _ _ .word value listen next

/-- A block the console sends reaches a host that waits for as many bytes. -/
theorem converse_upload {data : List Byte} {total : ℕ} (same : data.length = total) (some : total ≠ 0)
    (next : Unit → SerialParty α) (listen : List Byte → SerialParty β) :
    converse (sendDataBlock data >>= next) (loadDataBlock total >>= listen) = converse (next ()) (listen data) := by
  subst same
  rw [loadDataBlock, if_neg some, Party.bind_assoc]
  exact converse_speak _ _ _ _

/-- A block the host sends reaches a console that waits for as many bytes. -/
theorem converse_download {data : List Byte} {total : ℕ} (same : data.length = total)
    (listen : List Byte → SerialParty α) (next : Unit → SerialParty β) :
    converse (loadDataBlock total >>= listen) (serSendData data >>= next) = converse (listen data) (next ()) := by
  subst same
  by_cases empty : data = []
  · subst empty
    rfl
  · rw [loadDataBlock, if_neg (mt List.length_eq_zero_iff.mp empty), serSendData, if_neg empty, Party.bind_assoc]
    exact converse_hear _ _ _ _

/-- Both sides send. -/
@[simp] theorem converse_block_word (data : List Byte) (value : Word) (next : Unit → SerialParty α)
    (follow : Unit → SerialParty β) :
    converse (sendDataBlock data >>= next) (putUint value >>= follow) = none := rfl

/-- The host waits for fewer or more bytes than the console sends. -/
theorem converse_upload_of_ne {data : List Byte} {total : ℕ} (other : data.length ≠ total) (some : total ≠ 0)
    (next : Unit → SerialParty α) (listen : List Byte → SerialParty β) :
    converse (sendDataBlock data >>= next) (loadDataBlock total >>= listen) = none := by
  rw [loadDataBlock, if_neg some, Party.bind_assoc]
  exact converse_speak_of_ne (fun same => other (SerialKind.block.inj same)) _ _ _

/-- The console waits for a block, the host sends a word. -/
theorem converse_block_reply {total : ℕ} (some : total ≠ 0) (listen : List Byte → SerialParty α) (value : Word)
    (next : Unit → SerialParty β) :
    converse (loadDataBlock total >>= listen) (putUint value >>= next) = none := by
  rw [loadDataBlock, if_neg some, Party.bind_assoc]
  exact converse_hear_of_ne (by simp) _ _ _

end Exchanges

end KosTool.Serial
