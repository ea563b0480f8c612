import KosTool.Math.OnesComplement
import KosTool.Model.Protocol

/-! # Checksums and the packets built with them

`client/common/network/checksum.c`, and `make_ip` and `make_udp` of `packet_helpers.c`. The sums are 32-bit
accumulators of half-words in the order of the machine; the headers are built as the bytes they are in memory.
-/

namespace KosTool.Client

open ByteWord

/-- The rounds of `fold`. -/
def foldLoop : ℕ → Word → Word
  | 0, sum => sum
  | fuel + 1, sum => if sum >>> 16 = 0#32 then sum else foldLoop fuel ((sum >>> 16) + (sum &&& 0xffff#32))

/-- `fold`; two rounds are all a 32-bit sum takes. -/
def fold (sum : Word) : BitVec 16 := (~~~ foldLoop 2 sum).setWidth 16

/-- `odd_byte`. -/
def oddByte (order : ByteOrder) (buffer : Buffer) (offset : ℕ) : Word :=
  match order with
  | .little => (buffer offset).setWidth 32
  | .big => (buffer offset).setWidth 32 <<< 8

/-- `sum += *buf++`, a number of times. -/
def sumWords (order : ByteOrder) (buffer : Buffer) : ℕ → ℕ → Word → Word
  | 0, _, sum => sum
  | count + 1, offset, sum => sumWords order buffer count (offset + 2) (sum + (order.load16 buffer offset).setWidth 32)

/-- The turns of `while(count--)`: a negative count is decremented until it comes round to zero. -/
def loopTurns (count : ℤ) : ℕ := (BitVec.ofInt 32 count).toNat

/-- Half-words and the odd byte behind them, added to a sum. -/
def sumBuffer (order : ByteOrder) (buffer : Buffer) (offset : ℕ) (count : ℤ) (isOdd : Bool) (sum : Word) : Word :=
  if isOdd then
    sumWords order buffer (loopTurns count) offset sum + oddByte order buffer (offset + 2 * loopTurns count)
  else sumWords order buffer (loopTurns count) offset sum

/-- `checksum`. -/
def checksum (order : ByteOrder) (buffer : Buffer) (offset : ℕ) (count : ℤ) (isOdd : Bool) : BitVec 16 :=
  fold (sumBuffer order buffer offset count isOdd 0)

def pseudoHLen : ℕ := 20

/-- `checksum_udp`. -/
def checksumUdp (order : ByteOrder) (pseudo : List Byte) (buffer : Buffer) (data : ℕ) (dataCount : ℤ)
    (isOdd : Bool) : BitVec 16 :=
  fold (sumBuffer order buffer data dataCount isOdd (sumWords order (overlay pseudo fun _ => 0) (pseudoHLen / 2) 0 0))

/-- The `ip_udp_pseudo_header_t` of an IP header and a UDP header, given by their fields in memory. -/
def pseudoHeader (addresses : List Byte) (protocol : Byte) (ports length : List Byte) : List Byte :=
  addresses ++ [0, protocol] ++ length ++ ports ++ length ++ [0, 0]

def ipHLen : ℕ := 20
def ipTosDscpEf : Byte := 0xB8
def ipUdpProtocol : Byte := 17
def ipIcmpProtocol : Byte := 1
def etherHLen : ℕ := 14
def udpHLen : ℕ := 8

/-- A half-word in network order. -/
def be16 (half : BitVec 16) : List Byte := ByteOrder.big.bytes16 half

/-- The `ip_header_t` that `make_ip` fills in, with a checksum field. -/
def ipHeader (order : ByteOrder) (dest src : Word) (length : ℕ) (protocol : Byte) (pktId : BitVec 16)
    (checksumField : List Byte) : List Byte :=
  [0x45, ipTosDscpEf] ++ be16 (BitVec.ofNat 16 (20 + length)) ++ order.bytes16 pktId ++ be16 0x4000#16 ++
    [64, protocol] ++ checksumField ++ be32 src ++ be32 dest

/-- `make_ip`. -/
def makeIp (order : ByteOrder) (dest src : Word) (length : ℕ) (protocol : Byte) (pktId : BitVec 16) : List Byte :=
  ipHeader order dest src length protocol pktId (order.bytes16
    (checksum order (overlay (ipHeader order dest src length protocol pktId [0, 0]) fun _ => 0) 0 (ipHLen / 2) false))

/-- The checksum `make_udp` stores: zero is sent as all ones. -/
def udpChecksum (order : ByteOrder) (dest src : BitVec 16) (length : ℕ) (ip data : List Byte) : BitVec 16 :=
  let sum := checksumUdp order
    (pseudoHeader ((ip.drop 12).take 8) (ip.getD 9 0) (be16 src ++ be16 dest) (be16 (BitVec.ofNat 16 (length + udpHLen))))
    (overlay data fun _ => 0) 0 (length / 2 : ℕ) (length % 2 = 1)
  if sum = 0 then 0xffff else sum

/-- `make_udp` in front of its data, behind an IP header. -/
def makeUdp (order : ByteOrder) (dest src : BitVec 16) (length : ℕ) (ip data : List Byte) : List Byte :=
  be16 src ++ be16 dest ++ be16 (BitVec.ofNat 16 (length + udpHLen)) ++
    order.bytes16 (udpChecksum order dest src length ip data)

/-- `make_ether`. -/
def makeEther (dest src : List Byte) : List Byte := dest ++ src ++ [0x08, 0x00]

/-- A datagram to send, with what its frame is built from. -/
structure Outgoing where
  etherDest : List Byte
  etherSrc : List Byte
  dest : Word
  src : Word
  destPort : BitVec 16
  srcPort : BitVec 16
  pktId : BitVec 16
  payload : List Byte
  etherDest_length : etherDest.length = 6
  etherSrc_length : etherSrc.length = 6
  fits : ipHLen + udpHLen + payload.length < 2 ^ 16

namespace Outgoing

variable (order : ByteOrder) (packet : Outgoing)

/-- `make_ip(dest, src, UDP_H_LEN + length, IP_UDP_PROTOCOL, ip, pkt_id)`. -/
def ip : List Byte :=
  makeIp order packet.dest packet.src (udpHLen + packet.payload.length) ipUdpProtocol packet.pktId

/-- `make_udp(dest, src, length, ip, udp)`. -/
def udp : List Byte :=
  makeUdp order packet.destPort packet.srcPort packet.payload.length (packet.ip order) packet.payload

/-- The frame the commands pass to `bb->tx`. -/
def bytes : List Byte :=
  makeEther packet.etherDest packet.etherSrc ++ packet.ip order ++ packet.udp order ++ packet.payload

end Outgoing

end KosTool.Client
