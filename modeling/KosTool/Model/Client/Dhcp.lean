import KosTool.Math.ByteOrder

/-! # The DHCP client

`client/common/network/dhcp.c` and the branch of `process_udp` that calls it. `dhcp_go` and `dhcp_renew`
wait inside `bb->loop`, so each is cut there: what comes before a wait leaves the request it waits on in
the program counter. Of a request only the fields that differ between the three kinds are kept.
-/

namespace KosTool.Client

open ByteWord

def dhcpOpBootreply : Byte := 2
def dhcpOptionPad : Byte := 0
def dhcpOptionIpLeaseTime : Byte := 51
def dhcpOptionMessageType : Byte := 53
def dhcpOptionServerId : Byte := 54
def dhcpOptionEnd : Byte := 255
def dhcpMsgDiscover : Byte := 1
def dhcpMsgOffer : Byte := 2
def dhcpMsgRequest : Byte := 3
def dhcpMsgAck : Byte := 5
def dhcpMsgNak : Byte := 6

/-- `DHCP_H_LEN`, where the options start. -/
def dhcpHLen : ℕ := 236
def dhcpHlenEthernet : ℕ := 6
def dhcpMaxAttempts : ℕ := 30
def dhcpMaxNaks : ℕ := 5

/-- What the client asks of the console it runs on. -/
structure DhcpConsole where
  order : ByteOrder
  /-- `bb->mac`. -/
  mac : List Byte
  ticksPerSecond : ℕ
  ticks_pos : 0 < ticksPerSecond

/-- A datagram as `handle_dhcp_reply` gets it: the payload is followed by whatever memory holds. -/
structure DhcpReply where
  routerSrcMac : List Byte
  packet : Buffer
  length : ℕ

/-- The `dhcp_pkt_t` of a request, without what is the same in all. -/
structure DhcpRequest where
  msgtype : Byte
  /-- As it stands in the packet. -/
  xid : Word
  ciaddr : Word
  chaddr : List Byte
  serverid : Word
  reqip : Word
deriving DecidableEq, Repr

/-- Where `dhcp_poll` stands: outside the DHCP client, or in one of the three waits for an answer. -/
inductive DhcpPc where
  | idle
  | offerWait (request : DhcpRequest) (nakCount : ℕ)
  | ackWait (request : DhcpRequest) (nakCount : ℕ)
  | renewWait (request : DhcpRequest) (savedLeaseTime : Word)
deriving DecidableEq, Repr

/-- An address in use: when it was granted and for how long, by the clock, and when its renewal was refused. -/
structure Grant where
  rtc : ℕ
  leaseTime : Word
  nakRtc : Option ℕ
deriving DecidableEq, Repr

/-- The globals of `dhcp.c` and `entry.c`, those of the adapter they use, and the clock. The grant is what
the code does not know. -/
@[ext] structure DhcpClient where
  dhcpofferServerIp : Word
  dhcpofferIp : Word
  dhcpofferXid : Word
  dhcpLeaseTime : Word
  renewalIncrement : Word
  dhcpAcked : Bool
  dhcpRenewal : Bool
  dhcpRenewalNak : Bool
  dhcpNakReceived : Bool
  dhcpNestCounterMaxed : Bool
  dhcpAttempts : ℕ
  routerMac : List Byte
  ourIp : Word
  escapeLoop : Bool
  timeoutLoop : ℤ
  booted : Bool
  dontRenew : Bool
  leaseExpiryRtc : Word
  leaseDisplaySecs : Word
  renewThreshold : Word
  lastDisplayTick : ℕ
  /-- `get_ticks()`. -/
  ticks : ℕ
  /-- How far the RTC is ahead of the tick counter, in ticks. -/
  rtcEpoch : ℕ
  pc : DhcpPc
  granted : Option Grant
deriving DecidableEq

namespace DhcpReply

variable (reply : DhcpReply)

/-- `pkt->op`. -/
def op : Byte := reply.packet 0

/-- `pkt->xid`, not swapped. -/
def xid (order : ByteOrder) : Word := order.load32 reply.packet 4

/-- `ntohl(pkt->yiaddr)`. -/
def yiaddr (order : ByteOrder) : Word := order.htonl (order.load32 reply.packet 16)

/-- The Ethernet part of `pkt->chaddr`. -/
def chaddr : List Byte := slice reply.packet 28 dhcpHlenEthernet

/-- `pkt->options[i]`. -/
def options (i : ℕ) : Byte := reply.packet (dhcpHLen + i)

/-- The walk over the options from an index, up to the first with the given tag. -/
def findOption (opt : Byte) : ℕ → ℕ → Option ℕ
  | 0, _ => none
  | fuel + 1, i =>
    if i < reply.length - dhcpHLen then
      if reply.options i = opt then some i
      else if reply.options i = dhcpOptionPad then findOption opt fuel (i + 1)
      else if reply.options i = dhcpOptionEnd then none
      else if reply.length - dhcpHLen ≤ i + 1 then none
      else findOption opt fuel (i + (reply.options (i + 1)).toNat + 2)
    else none

/-- `kos_net_dhcp_get_message_type`; `none` is its −1. -/
def getMessageType : Option Byte :=
  match reply.findOption dhcpOptionMessageType reply.length 4 with
  | some i => if i + 2 < reply.length - dhcpHLen then some (reply.options (i + 2)) else none
  | none => none

/-- `kos_net_dhcp_get_32bit`. -/
def get32bit (opt : Byte) : Word :=
  match reply.findOption opt reply.length 4 with
  | some i =>
    if reply.length - dhcpHLen ≤ i + 5 then 0
    else if reply.options (i + 1) < 4 then 0
    else readBe32 reply.packet (dhcpHLen + (i + 2))
  | none => 0

/-- The walk ends before the fuel does: more of it changes nothing. -/
theorem findOption_fuel (opt : Byte) {fuel more i : ℕ} (enough : reply.length - dhcpHLen ≤ i + fuel)
    (le : fuel ≤ more) : reply.findOption opt more i = reply.findOption opt fuel i := by
  induction more generalizing fuel i with
  | zero =>
    obtain rfl := Nat.le_zero.mp le
    rfl
  | succ more ih =>
    cases fuel with
    | zero => rw [findOption, findOption, if_neg (by omega)]
    | succ fuel =>
      have next (step : ℕ) : reply.findOption opt more (i + (step + 1)) = reply.findOption opt fuel (i + (step + 1)) :=
        ih (by omega) (Nat.le_of_succ_le_succ le)
      rw [findOption, findOption, next 0, Nat.add_assoc, next]

end DhcpReply

namespace DhcpClient

variable (console : DhcpConsole) (client : DhcpClient)

/-- `handle_dhcp_reply`; the flag is its zero. -/
def handleDhcpReply (reply : DhcpReply) : DhcpClient × Bool :=
  match reply.getMessageType with
  | none => (client, false)
  | some msgType =>
    if msgType = dhcpMsgOffer then
      ({ client with
          dhcpofferServerIp := reply.get32bit dhcpOptionServerId
          dhcpofferIp := reply.yiaddr console.order
          dhcpofferXid := reply.xid console.order
          routerMac := reply.routerSrcMac }, true)
    else if msgType = dhcpMsgAck then
      if reply.xid console.order = client.dhcpofferXid ∧
          (client.dhcpRenewal ∨ reply.yiaddr console.order = client.dhcpofferIp) then
        ({ client with
            dhcpofferIp := if client.dhcpRenewal then reply.yiaddr console.order else client.dhcpofferIp
            dhcpLeaseTime := reply.get32bit dhcpOptionIpLeaseTime
            dhcpAcked := true }, true)
      else (client, false)
    else if msgType = dhcpMsgNak then
      if client.dhcpRenewal then ({ client with dhcpRenewalNak := true }, true)
      else ({ client with dhcpNakReceived := true }, true)
    else (client, false)

/-- The end of `process_udp` on a datagram that has passed its checks: no command is looked at here. -/
def processUdp (reply : DhcpReply) : DhcpClient :=
  if reply.op = dhcpOpBootreply then
    if (client.handleDhcpReply console reply).2 then
      { (client.handleDhcpReply console reply).1 with escapeLoop := true }
    else (client.handleDhcpReply console reply).1
  else client

/-- `(uint32_t)get_ticks() ^ 0xDEADBEEF`. -/
def tickXid : Word := BitVec.ofNat 32 client.ticks ^^^ 0xDEADBEEF#32

/-- `kos_net_dhcp_fill_options` for a `DHCPDISCOVER`. -/
def discoverRequest : DhcpRequest where
  msgtype := dhcpMsgDiscover
  xid := console.order.htonl client.tickXid
  ciaddr := 0
  chaddr := console.mac
  serverid := 0
  reqip := 0

/-- `kos_net_dhcp_fill_options` for a `DHCPREQUEST`. -/
def requestRequest : DhcpRequest where
  msgtype := dhcpMsgRequest
  xid := client.dhcpofferXid
  ciaddr := 0
  chaddr := console.mac
  serverid := client.dhcpofferServerIp
  reqip := client.dhcpofferIp

/-- `kos_net_dhcp_fill_options` for a renewal, whose transaction id it has stored. -/
def renewRequest : DhcpRequest where
  msgtype := dhcpMsgRequest
  xid := client.dhcpofferXid
  ciaddr := console.order.htonl client.ourIp
  chaddr := console.mac
  serverid := 0
  reqip := client.ourIp

/-- The seconds `dhcp_go` waits on its attempt after one that timed out. -/
def retryTimeout (attempts : ℕ) : ℤ :=
  if attempts ≤ 2 then 3 else if 11 < attempts then 30 else 3 * (attempts - 1)

/-- What `dhcp_go` comes to between two waits: the next wait, or its return value. -/
inductive GoOutcome where
  | waits (client : DhcpClient)
  | returns (client : DhcpClient) (result : ℤ)

/-- What `dhcp_go` returns. -/
def dhcpGoResult : GoOutcome :=
  if client.dhcpAcked then .returns { client with ourIp := client.dhcpofferIp } 0
  else if client.dhcpNestCounterMaxed then .returns client 0
  else .returns client (-1)

/-- `dhcp_go` behind its loop. -/
def dhcpGoDone : GoOutcome := dhcpGoResult { client with dhcpAttempts := 0, timeoutLoop := 0 }

/-- The head of the loop of `dhcp_go`, up to the wait for an offer. -/
def dhcpGoLoop (nakCount : ℕ) : GoOutcome :=
  if client.dhcpAcked then client.dhcpGoDone
  else if dhcpMaxAttempts < client.dhcpAttempts + 1 then
    dhcpGoDone { client with dhcpAttempts := client.dhcpAttempts + 1, dhcpNestCounterMaxed := true }
  else .waits { client with
    dhcpAttempts := client.dhcpAttempts + 1
    timeoutLoop := if client.timeoutLoop < 0 then retryTimeout (client.dhcpAttempts + 1) else client.timeoutLoop
    pc := .offerWait (client.discoverRequest console) nakCount }

/-- `dhcp_go` up to its first wait. -/
def dhcpGo : GoOutcome :=
  dhcpGoLoop console { client with
    dhcpAcked := false, dhcpNakReceived := false, dhcpAttempts := 0, timeoutLoop := 1 } 0

/-- `dhcp_go` after the wait for an offer. -/
def dhcpGoOffered (nakCount : ℕ) : GoOutcome :=
  if client.timeoutLoop < 0 then client.dhcpGoLoop console nakCount
  else .waits { client with pc := .ackWait (client.requestRequest console) nakCount }

/-- `dhcp_go` after the wait for an acknowledgement. -/
def dhcpGoAnswered (nakCount : ℕ) : GoOutcome :=
  if client.timeoutLoop < 0 then client.dhcpGoLoop console nakCount
  else if client.dhcpNakReceived then
    if dhcpMaxNaks ≤ nakCount + 1 then
      dhcpGoDone { client with dhcpNakReceived := false, dhcpNestCounterMaxed := true }
    else dhcpGoLoop console { client with dhcpNakReceived := false } (nakCount + 1)
  else client.dhcpGoLoop console nakCount

/-- `dhcp_renew` with the transaction id that `kos_net_dhcp_fill_options` stores for a renewal. -/
def openRenewal : DhcpClient :=
  { client with
    dhcpAcked := false
    dhcpRenewal := true
    dhcpRenewalNak := false
    dhcpofferXid := client.tickXid + client.renewalIncrement
    renewalIncrement := client.renewalIncrement + 0x1000#32 }

/-- `dhcp_renew` up to its wait. -/
def dhcpRenew (savedLeaseTime : Word) : DhcpClient :=
  { client.openRenewal with pc := .renewWait (client.openRenewal.renewRequest console) savedLeaseTime }

/-- `dhcp_renew` after its wait. -/
def dhcpRenewed : DhcpClient × ℤ :=
  if client.dhcpRenewalNak then ({ client with dhcpRenewal := false }, -2)
  else if client.dhcpAcked then ({ client with dhcpRenewal := false, ourIp := client.dhcpofferIp }, 0)
  else ({ client with dhcpRenewal := false }, -1)

end DhcpClient

end KosTool.Client

/-! # The scans of the DHCP options

`kos_net_dhcp_get_message_type` and `kos_net_dhcp_get_32bit` of `client/common/network/dhcp.c` over the options area alone, the
`len - DHCP_H_LEN` bytes of a packet from its options on: a byte that is read outside the area is a fault, and so is a loop
that is not through after the turns it is given. A packet that is shorter than `DHCP_H_LEN` has an empty area.
-/

namespace KosTool.Client.DhcpOptions

open ByteWord

/-- Why a scan has no result. -/
inductive ScanFault where
  | outside
  | endless
deriving DecidableEq

/-- `pkt->options[i]` -/
def fetch (area : List Byte) (i : ℕ) : Except ScanFault Byte :=
  match area[i]? with
  | some byte => .ok byte
  | none => .error .outside

section Scan

variable {β : Type} (area : List Byte) (opt : Byte) (hit : ℕ → Except ScanFault β) (missing : β)

/-- The loop of both functions from an index on, with what is done at the option that is looked for. -/
def scanOptions : ℕ → ℕ → Except ScanFault β
  | 0, _ => .error .endless
  | turns + 1, i =>
    if i < area.length then do
      let tag ← fetch area i
      if tag = opt then hit i
      else if tag = dhcpOptionPad then scanOptions turns (i + 1)
      else if tag = dhcpOptionEnd then .ok missing
      else if area.length ≤ i + 1 then .ok missing
      else do
        let length ← fetch area (i + 1)
        scanOptions turns (i + length.toNat + 2)
    else .ok missing

end Scan

/-- What `kos_net_dhcp_get_message_type` returns at the option. -/
def messageTypeAt (area : List Byte) (i : ℕ) : Except ScanFault (Option Byte) :=
  if i + 2 < area.length then do
    let value ← fetch area (i + 2)
    return some value
  else .ok none

/-- `kos_net_dhcp_get_message_type`; `none` is its −1. -/
def getMessageType (area : List Byte) : Except ScanFault (Option Byte) :=
  scanOptions area dhcpOptionMessageType (messageTypeAt area) none (area.length + 1) 4

/-- The four bytes of the value. -/
def word32At (area : List Byte) (i : ℕ) : Except ScanFault Word := do
  let b2 ← fetch area (i + 2)
  let b3 ← fetch area (i + 3)
  let b4 ← fetch area (i + 4)
  let b5 ← fetch area (i + 5)
  return ofBe32 b2 b3 b4 b5

/-- What `kos_net_dhcp_get_32bit` returns at the option. -/
def get32bitAt (area : List Byte) (i : ℕ) : Except ScanFault Word :=
  if area.length ≤ i + 5 then .ok 0
  else do
    let length ← fetch area (i + 1)
    if length < 4 then .ok 0 else word32At area i

/-- `kos_net_dhcp_get_32bit` -/
def get32bit (area : List Byte) (opt : Byte) : Except ScanFault Word :=
  scanOptions area opt (get32bitAt area) 0 (area.length + 1) 4

end KosTool.Client.DhcpOptions
