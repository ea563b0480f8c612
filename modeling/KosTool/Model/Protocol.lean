import KosTool.Math.ByteWord

/-! # The UDP command protocol

A command is a twelve-byte header (four-byte id, address, size) and its data; a sequence trailer
may close the datagram. Constants keep the values of `include/kosload/protocol.h`. Readers take a
receive buffer and the offset where the UDP payload starts, so a datagram shorter than its header
is read together with whatever the buffer held before.
-/

namespace KosTool.Protocol

open ByteWord

/-- The word of a four-character identifier. -/
def fourCC (first second third fourth : Char) : Word :=
  ofBe32 (BitVec.ofNat 8 first.toNat) (BitVec.ofNat 8 second.toNat) (BitVec.ofNat 8 third.toNat)
    (BitVec.ofNat 8 fourth.toNat)

def netCmdExecute : Word := fourCC 'E' 'X' 'E' 'C'
def netCmdLoadbin : Word := fourCC 'L' 'B' 'I' 'N'
def netCmdPartbin : Word := fourCC 'P' 'B' 'I' 'N'
def netCmdDonebin : Word := fourCC 'D' 'B' 'I' 'N'
def netCmdSendbin : Word := fourCC 'S' 'B' 'I' 'N'
def netCmdSendbinq : Word := fourCC 'S' 'B' 'I' 'Q'
def netCmdVersion : Word := fourCC 'V' 'E' 'R' 'S'
def netCmdCapabilities : Word := fourCC 'C' 'A' 'P' 'S'
def netCmdRetval : Word := fourCC 'R' 'E' 'T' 'V'
def netCmdReboot : Word := fourCC 'R' 'B' 'O' 'T'
def netCmdMaple : Word := fourCC 'M' 'A' 'P' 'L'
def netCmdPmcr : Word := fourCC 'P' 'M' 'C' 'R'
def netCmdSetrtc : Word := fourCC 'S' 'R' 'T' 'C'

def netCommandLen : ℕ := 12
def netLegacyPayloadSize : ℕ := 1024
def netPayloadSize : ℕ := 1440
def netPacketTimeoutUsec : ℕ := 250000

def netSeqMagic : Word := fourCC 'K' 'S' 'Q' '0'
def netSeqMagicLen : ℕ := 4
def netSeqTrailerLen : ℕ := 8
def netInlineRetMagic : Word := fourCC 'K' 'I' 'R' '0'
def netInlineRetMagicLen : ℕ := 4

/-- `net_command_t` on the wire. -/
def netCommand (id address size : Word) (data : List Byte) : List Byte :=
  be32 id ++ be32 address ++ be32 size ++ data

/-- The `KSQ0` trailer: magic and sequence id. -/
def seqTrailer (seq : Word) : List Byte := be32 netSeqMagic ++ be32 seq

/-- `command->id` of the payload at an offset of the receive buffer. -/
def commandId (buffer : Buffer) (command : ℕ) : Word := readBe32 buffer command

/-- `ntohl(command->address)`. -/
def commandAddress (buffer : Buffer) (command : ℕ) : Word := readBe32 buffer (command + 4)

/-- `ntohl(command->size)`. -/
def commandSize (buffer : Buffer) (command : ℕ) : Word := readBe32 buffer (command + 8)

/-- `command->data`. -/
def commandData (command : ℕ) : ℕ := command + netCommandLen

@[simp] theorem length_netCommand (id address size : Word) (data : List Byte) :
    (netCommand id address size data).length = netCommandLen + data.length := by
  simp only [netCommand, List.length_append, length_be32, netCommandLen]

@[simp] theorem length_seqTrailer (seq : Word) : (seqTrailer seq).length = netSeqTrailerLen := rfl

section Received

variable (buffer : Buffer) (command : ℕ) (id address size : Word) (data : List Byte)


@[simp] theorem commandId_storeAt :
    commandId (storeAt buffer command (netCommand id address size data)) command = id := by
  have read := readBe32_overlay [] (be32 address ++ be32 size ++ data) id fun j => buffer (command + j)
  have place := readBe32_storeAt buffer command (netCommand id address size data) 0
  rw [Nat.add_zero] at place
  rw [commandId, place, netCommand]
  simpa only [List.nil_append, List.append_assoc, List.length_nil] using read

@[simp] theorem commandAddress_storeAt :
    commandAddress (storeAt buffer command (netCommand id address size data)) command = address := by
  have read := readBe32_overlay (be32 id) (be32 size ++ data) address fun j => buffer (command + j)
  rw [commandAddress, readBe32_storeAt, netCommand]
  simpa only [List.append_assoc, length_be32] using read

@[simp] theorem commandSize_storeAt :
    commandSize (storeAt buffer command (netCommand id address size data)) command = size := by
  have read := readBe32_overlay (be32 id ++ be32 address) data size fun j => buffer (command + j)
  rw [commandSize, readBe32_storeAt, netCommand]
  simpa only [List.append_assoc, List.length_append, length_be32] using read

theorem commandData_storeAt {i : ℕ} (inside : i < data.length) :
    storeAt buffer command (netCommand id address size data) (commandData command + i) = data[i] := by
  rw [commandData, Nat.add_assoc, storeAt_add, netCommand]
  exact overlay_append_right (be32 id ++ be32 address ++ be32 size) inside _

/-- The first twelve bytes of a command are its header. -/
theorem slice_header : slice buffer command netCommandLen =
    netCommand (commandId buffer command) (commandAddress buffer command) (commandSize buffer command) [] := by
  rw [netCommand, commandId, commandAddress, commandSize, be32_readBe32, be32_readBe32, be32_readBe32]
  rfl

/-- What follows a command in a datagram counts as its data. -/
theorem netCommand_append (rest : List Byte) :
    netCommand id address size data ++ rest = netCommand id address size (data ++ rest) := by
  simp only [netCommand, List.append_assoc]

theorem netCommand_inj {id id' address address' size size' : Word} {data data' : List Byte} :
    netCommand id address size data = netCommand id' address' size' data' ↔
      id = id' ∧ address = address' ∧ size = size' ∧ data = data' := by
  constructor
  · intro same
    have place := congrArg (storeAt (fun _ => 0) 0) same
    have rest := congrArg (List.drop netCommandLen) same
    refine ⟨?_, ?_, ?_, ?_⟩
    · simpa only [commandId_storeAt] using congrArg (commandId · 0) place
    · simpa only [commandAddress_storeAt] using congrArg (commandAddress · 0) place
    · simpa only [commandSize_storeAt] using congrArg (commandSize · 0) place
    · exact rest
  · rintro ⟨rfl, rfl, rfl, rfl⟩
    rfl

end Received

end KosTool.Protocol
