import KosTool.Model.Client.Checksum
import KosTool.Model.Client.Dhcp

/-! # The parser of received frames

`client/common/network/net.c` up to the command handlers, with what it reads of a frame. A frame is the memory
it has been received into, from its first byte on: nothing tells the parser where it ends. The parsers return
the reads they make and the lengths they pass to the checksum loop, in order.
-/

namespace KosTool.Client

open ByteWord

/-- What a parser does to a frame. -/
inductive Access where
  | read (offset count : ℕ)
  | sum (count : ℤ)
deriving DecidableEq, Repr

/-- The accesses of `checksum` and `checksum_udp`. -/
def sumAccesses (offset : ℕ) (count : ℤ) (isOdd : Bool) : List Access :=
  [.sum count, .read offset (2 * loopTurns count + isOdd.toNat)]

def etherBroadcast : List Byte := List.replicate 6 0xff

namespace Frame

variable (frame : Buffer)

def dest : List Byte := slice frame 0 6
def src : List Byte := slice frame 6 6
def type0 : Byte := frame 12
def type1 : Byte := frame 13

/-- `ip->version_ihl & 0x0f`. -/
def ipIhl : ℕ := (frame 14 &&& 0x0f#8).toNat

/-- `ntohs(ip->length)`. -/
def ipLength : ℕ := (ByteOrder.big.load16 frame 16).toNat

/-- `ntohs(ip->flags_frag_offset)`. -/
def ipFlagsFragOffset : BitVec 16 := ByteOrder.big.load16 frame 20

def ipProtocol : Byte := frame 23

/-- `ip->checksum`. -/
def ipChecksum (order : ByteOrder) : BitVec 16 := order.load16 frame 24

/-- Behind the IP header. -/
def ipData : ℕ := etherHLen + 4 * ipIhl frame

/-- The IP header checksum `process_mine` computes, its field set to zero. -/
def ipHeaderSum (order : ByteOrder) : BitVec 16 :=
  checksum order (storeAt frame 24 [0, 0]) etherHLen (2 * ipIhl frame : ℕ) false

/-- The test of the IP header checksum. -/
def IpPasses (order : ByteOrder) : Prop := ipChecksum frame order = ipHeaderSum frame order

instance (order : ByteOrder) : Decidable (IpPasses frame order) := inferInstanceAs (Decidable (_ = _))

/-- `udp_total` of a UDP header. -/
def udpTotal (udp : ℕ) : ℕ := (ByteOrder.big.load16 frame (udp + 4)).toNat

/-- `udp->checksum`. -/
def udpChecksumField (order : ByteOrder) (udp : ℕ) : BitVec 16 := order.load16 frame (udp + 6)

/-- The pseudo header `process_udp` fills in. -/
def udpPseudo (udp : ℕ) : List Byte :=
  pseudoHeader (slice frame 26 8) (ipProtocol frame) (slice frame udp 4) (slice frame (udp + 4) 2)

/-- The UDP checksum `process_udp` computes: none for a datagram without one. -/
def udpSum (order : ByteOrder) (udp : ℕ) : BitVec 16 :=
  if udpChecksumField frame order udp = 0 then 0
  else checksumUdp order (udpPseudo frame udp) frame (udp + udpHLen)
    ((udpTotal frame udp - udpHLen) / 2 : ℕ) ((udpTotal frame udp - udpHLen) % 2 = 1)

/-- The tests of the UDP length and checksum, all ones standing for zero. -/
def UdpPasses (order : ByteOrder) (udp : ℕ) : Prop :=
  udpHLen ≤ udpTotal frame udp ∧ udpSum frame order udp =
    if udpChecksumField frame order udp = 0xffff then 0 else udpChecksumField frame order udp

instance (order : ByteOrder) (udp : ℕ) : Decidable (UdpPasses frame order udp) := inferInstanceAs (Decidable (_ ∧ _))

/-- The count `process_icmp` passes to the checksum loop. -/
def icmpCount : ℤ := (ipLength frame / 2 : ℕ) - 2 * (ipIhl frame : ℤ)

/-- The test of the ICMP checksum. -/
def IcmpPasses (order : ByteOrder) (icmp : ℕ) : Prop :=
  order.load16 frame (icmp + 2) =
    checksum order (storeAt frame (icmp + 2) [0, 0]) icmp (icmpCount frame) (ipLength frame % 2 = 1)

instance (order : ByteOrder) (icmp : ℕ) : Decidable (IcmpPasses frame order icmp) := inferInstanceAs (Decidable (_ = _))

/-- The DHCP packet in a datagram. -/
def dhcpReply (udp : ℕ) : DhcpReply where
  routerSrcMac := src frame
  packet i := frame (udp + udpHLen + i)
  length := udpTotal frame udp - udpHLen

end Frame

namespace DhcpReply

variable (reply : DhcpReply)

/-- The options a walk reads. -/
def walkReads (opt : Byte) : ℕ → ℕ → List ℕ
  | 0, _ => []
  | fuel + 1, i =>
    if i < reply.length - dhcpHLen then
      if reply.options i = opt then [i]
      else if reply.options i = dhcpOptionPad then i :: walkReads opt fuel (i + 1)
      else if reply.options i = dhcpOptionEnd then [i]
      else if reply.length - dhcpHLen ≤ i + 1 then [i]
      else i :: (i + 1) :: walkReads opt fuel (i + (reply.options (i + 1)).toNat + 2)
    else []

/-- The options `kos_net_dhcp_get_message_type` reads. -/
def messageTypeReads : List ℕ :=
  reply.walkReads dhcpOptionMessageType reply.length 4 ++
    match reply.findOption dhcpOptionMessageType reply.length 4 with
    | some i => if i + 2 < reply.length - dhcpHLen then [i + 2] else []
    | none => []

/-- The options `kos_net_dhcp_get_32bit` reads. -/
def get32bitReads (opt : Byte) : List ℕ :=
  reply.walkReads opt reply.length 4 ++
    match reply.findOption opt reply.length 4 with
    | some i =>
      if reply.length - dhcpHLen ≤ i + 5 then []
      else if reply.options (i + 1) < 4 then [i + 1]
      else [i + 1, i + 2, i + 3, i + 4, i + 5]
    | none => []

/-- The bytes of a DHCP packet `handle_dhcp_reply` reads. -/
def handlerReads (console : DhcpConsole) (client : DhcpClient) : List ℕ :=
  reply.messageTypeReads.map (dhcpHLen + ·) ++
    match reply.getMessageType with
    | none => []
    | some msgType =>
      if msgType = dhcpMsgOffer then
        (reply.get32bitReads dhcpOptionServerId).map (dhcpHLen + ·) ++ List.range' 16 4 ++ List.range' 4 4
      else if msgType = dhcpMsgAck then
        List.range' 4 4 ++
        if reply.xid console.order = client.dhcpofferXid then
          List.range' 16 4 ++
          if client.dhcpRenewal ∨ reply.yiaddr console.order = client.dhcpofferIp then
            (reply.get32bitReads dhcpOptionIpLeaseTime).map (dhcpHLen + ·)
          else []
        else []
      else []

end DhcpReply

namespace Frame

variable (console : DhcpConsole) (client : DhcpClient) (frame : Buffer)

/-- `process_icmp`. -/
def processIcmp (icmp : ℕ) : List Access :=
  .read icmp 1 ::
  if frame icmp = 8 then
    [.read 16 2, .read 14 1, .read (icmp + 2) 2] ++ sumAccesses icmp (icmpCount frame) (ipLength frame % 2 = 1) ++
    if IcmpPasses frame console.order icmp then
      [.read 6 6, .read 26 4] ++ sumAccesses etherHLen (2 * ipIhl frame : ℕ) false ++
        sumAccesses icmp (icmpCount frame) (ipLength frame % 2 = 1)
    else []
  else []

/-- `process_udp` up to the handlers of the commands. -/
def processUdp (udp : ℕ) : List Access :=
  .read (udp + 4) 2 ::
  if udpTotal frame udp < udpHLen then []
  else
    [.read 26 8, .read 23 1, .read (udp + 4) 2, .read udp 4, .read (udp + 6) 2] ++
    (if udpChecksumField frame console.order udp = 0 then []
      else sumAccesses (udp + udpHLen) ((udpTotal frame udp - udpHLen) / 2 : ℕ)
        ((udpTotal frame udp - udpHLen) % 2 = 1)) ++
    if UdpPasses frame console.order udp then
      .read (udp + udpHLen) 1 ::
      if (dhcpReply frame udp).op = dhcpOpBootreply then
        .read 6 6 :: ((dhcpReply frame udp).handlerReads console client).map fun byte => .read (udp + udpHLen + byte) 1
      else [.read (udp + 2) 2, .read 0 6, .read (udp + udpHLen) 4, .read 6 6]
    else []

/-- The answer to an ARP request in `process_broadcast`. -/
def processArp : List Access :=
  .read 14 2 ::
  if ByteOrder.big.load16 frame 14 = 0x0001 then
    .read 16 2 ::
    if ByteOrder.big.load16 frame 16 = 0x0800 then
      .read 20 2 ::
      if ByteOrder.big.load16 frame 20 = 0x0001 ∧ client.ourIp ≠ 0 then
        .read 38 4 :: if readBe32 frame 38 = client.ourIp then [.read 6 6, .read 22 10] else []
      else []
    else []
  else []

/-- The rest of `process_mine` behind the frame type. -/
def processIp : List Access :=
  .read 20 2 ::
  if ipFlagsFragOffset frame &&& 0x3fff = 0 then
    [.read 14 1, .read 24 2] ++ sumAccesses etherHLen (2 * ipIhl frame : ℕ) false ++
    if IpPasses frame console.order then
      .read 23 1 ::
      if ipProtocol frame = ipUdpProtocol then processUdp console client frame (ipData frame)
      else if ipProtocol frame = ipIcmpProtocol then processIcmp console frame (ipData frame)
      else []
    else []
  else []

mutual

/-- `process_mine`; `none` when it has called back and forth too often. -/
def processMine : ℕ → Option (List Access)
  | 0 => none
  | fuel + 1 =>
    if type1 frame = 0x00 then some (.read 13 1 :: processIp console client frame)
    else if type1 frame = 0x06 then (processBroadcast fuel).map (.read 13 1 :: ·)
    else some [.read 13 1]

/-- `process_broadcast`. -/
def processBroadcast : ℕ → Option (List Access)
  | 0 => none
  | fuel + 1 =>
    if type1 frame = 0x00 then (processMine fuel).map fun mine => .read 13 1 :: mine ++ [.read 13 1]
    else if type1 frame = 0x06 then some (.read 13 1 :: .read 13 1 :: processArp client frame)
    else some [.read 13 1, .read 13 1]

end

/-- `process_pkt`. -/
def processPkt (fuel : ℕ) : Option (List Access) :=
  if type0 frame = 0x08 then
    if dest frame = console.mac then (processMine console client frame fuel).map (.read 12 1 :: .read 0 6 :: ·)
    else if dest frame = etherBroadcast then
      (processBroadcast console client frame fuel).map (.read 12 1 :: .read 0 6 :: .read 0 6 :: ·)
    else some [.read 12 1, .read 0 6, .read 0 6]
  else some [.read 12 1]

end Frame

end KosTool.Client
