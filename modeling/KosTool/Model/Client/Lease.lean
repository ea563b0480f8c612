import KosTool.Machine.Run
import KosTool.Model.Client.Dhcp

/-! # The lease and the machine around the DHCP client

`lease_resync_from_rtc`, `dhcp_tick`, `dhcp_poll` and the lease part of `disp_info`, from
`client/common/network/entry.c`, with what the adapters' loops do to a wait. The RTC and the tick counter
run at one rate; the RTC may be set forward. Only the main loop ticks and polls, so neither happens in a wait;
datagrams arrive and the screen is redrawn at any time.
-/

namespace KosTool.Client

open ByteWord

def dhcpRenewRetryFloorSecs : Word := 4

namespace DhcpClient

variable (console : DhcpConsole) (client : DhcpClient)

/-- The seconds of the RTC at a tick. -/
def rtcAt (ticks : ℕ) : ℕ := (client.rtcEpoch + ticks) / console.ticksPerSecond

/-- The seconds of the RTC now. -/
def rtc : ℕ := client.rtcAt console client.ticks

/-- `get_rtc()`. -/
def getRtc : Word := BitVec.ofNat 32 (client.rtc console)

/-- `lease_resync_from_rtc`. -/
def leaseResyncFromRtc : DhcpClient :=
  if client.leaseExpiryRtc = 0#32 then { client with leaseDisplaySecs := 0 }
  else { client with
    leaseDisplaySecs :=
      if client.getRtc console < client.leaseExpiryRtc then client.leaseExpiryRtc - client.getRtc console else 0
    lastDisplayTick := client.ticks }

/-- The screen has been drawn. -/
def redrawn : DhcpClient := { client with lastDisplayTick := client.ticks, booted := true }

/-- `disp_info`, as far as it touches the lease. -/
def dispInfo : DhcpClient :=
  if client.leaseExpiryRtc = 0#32 then client.redrawn else client.redrawn.leaseResyncFromRtc console

/-- `dhcp_tick`. -/
def dhcpTick : DhcpClient :=
  if client.leaseDisplaySecs = 0#32 then client
  else if client.ticks - client.lastDisplayTick < console.ticksPerSecond then client
  else { client with
    lastDisplayTick := client.ticks
    leaseDisplaySecs := client.leaseDisplaySecs - 1#32 }

/-- The lease as it is set from a fresh `dhcp_lease_time`. -/
def freshLease : DhcpClient :=
  { client with
    leaseExpiryRtc := client.getRtc console + client.dhcpLeaseTime
    leaseDisplaySecs := client.dhcpLeaseTime
    renewThreshold := client.dhcpLeaseTime / 2#32
    lastDisplayTick := client.ticks
    granted := some { rtc := client.rtc console, leaseTime := client.dhcpLeaseTime, nakRtc := none } }

/-- `dhcp_poll` behind `dhcp_go`. -/
def pollDiscovered (result : ℤ) : DhcpClient :=
  if result = -1 ∨ client.dhcpNestCounterMaxed then
    { client with
      pc := .idle
      ourIp := 0
      dhcpNestCounterMaxed := false
      leaseExpiryRtc := 0
      leaseDisplaySecs := 0
      granted := none }
  else freshLease console { client with pc := .idle }

/-- `dhcp_poll` goes on after, or waits in, `dhcp_go`. -/
def resumeGo : GoOutcome → DhcpClient
  | .waits client => client
  | .returns client result => client.pollDiscovered console result

/-- `dhcp_poll` looks for an address if it has none or a refused one. -/
def NeedsDiscovery : Prop :=
  client.ourIp &&& 0xff000000#32 = 0#32 ∨ (client.dontRenew ∧ client.leaseDisplaySecs = 0#32)

instance : Decidable client.NeedsDiscovery := inferInstanceAs (Decidable (_ ∨ _))

/-- The discovery check of `dhcp_poll`. -/
def pollDiscovery : DhcpClient :=
  if client.NeedsDiscovery then resumeGo console (dhcpGo console { client with dontRenew := false })
  else { client with pc := .idle }

/-- `nak_remaining`. -/
def nakRemaining (savedLeaseTime : Word) : Word := (savedLeaseTime * 3#32 + 4#32) / 8#32

/-- `dhcp_poll` after a renewal that the server refused. -/
def renewalRefused (savedLeaseTime : Word) : DhcpClient :=
  { client with
    dontRenew := true
    leaseExpiryRtc := client.getRtc console + nakRemaining savedLeaseTime
    leaseDisplaySecs := nakRemaining savedLeaseTime
    lastDisplayTick := client.ticks
    granted := client.granted.map fun grant => { grant with nakRtc := some (client.rtc console) } }

/-- Half of what is left of the lease, or the floor. -/
def flooredHalf (leaseDisplaySecs : Word) : Word :=
  if dhcpRenewRetryFloorSecs < leaseDisplaySecs / 2#32 then leaseDisplaySecs / 2#32 else dhcpRenewRetryFloorSecs

/-- `renew_threshold` after a renewal that got no answer. -/
def backedOffThreshold (leaseDisplaySecs : Word) : Word :=
  if leaseDisplaySecs ≤ flooredHalf leaseDisplaySecs then leaseDisplaySecs - 1#32 else flooredHalf leaseDisplaySecs

/-- `dhcp_poll` after a renewal that got no answer. -/
def renewalLost (savedLeaseTime : Word) : DhcpClient :=
  if client.leaseDisplaySecs = 0#32 then
    { client with ourIp := 0, dhcpLeaseTime := 0, leaseExpiryRtc := 0, renewThreshold := 0, granted := none }
  else
    { client with
      dhcpLeaseTime := savedLeaseTime
      renewThreshold := backedOffThreshold client.leaseDisplaySecs
      lastDisplayTick := client.ticks }

/-- `dhcp_poll` behind `dhcp_renew`, up to the discovery check. -/
def pollRenewed (savedLeaseTime : Word) : DhcpClient :=
  match client.dhcpRenewed with
  | (client, -2) => client.renewalRefused console savedLeaseTime
  | (client, -1) => client.renewalLost savedLeaseTime
  | (client, _) => client.freshLease console

/-- `dhcp_poll` starts a renewal. -/
def NeedsRenewal : Prop :=
  client.dhcpLeaseTime ≠ 0#32 ∧ client.dontRenew = false ∧ client.leaseDisplaySecs ≤ client.renewThreshold

instance : Decidable client.NeedsRenewal := inferInstanceAs (Decidable (_ ∧ _))

/-- The renewal check of `dhcp_poll`. -/
def pollRenewal : DhcpClient :=
  if client.NeedsRenewal then dhcpRenew console { client with dhcpLeaseTime := 0 } client.dhcpLeaseTime
  else client.pollDiscovery console

/-- `dhcp_poll`, up to the first wait there is. -/
def dhcpPoll : DhcpClient :=
  pollRenewal console (if client.booted then client else client.dispInfo console)

/-- The caller of `bb->loop` goes on. -/
def resume : DhcpClient :=
  match client.pc with
  | .idle => client
  | .offerWait _ nakCount => resumeGo console (client.dhcpGoOffered console nakCount)
  | .ackWait _ nakCount => resumeGo console (client.dhcpGoAnswered console nakCount)
  | .renewWait _ savedLeaseTime => (client.pollRenewed console savedLeaseTime).pollDiscovery console

/-- `bb->loop` has returned. -/
def loopReturns : DhcpClient := resume console { client with escapeLoop := false }

/-- Time passes. -/
def advance (ticks : ℕ) : DhcpClient := { client with ticks := client.ticks + ticks }

/-- The RTC is set forward. -/
def setRtc (forward : ℕ) : DhcpClient := { client with rtcEpoch := client.rtcEpoch + forward }

/-- The adapter gives up a wait. -/
def timesOut : DhcpClient := { client with timeoutLoop := -1, escapeLoop := true }

end DhcpClient

/-- What can happen to a DHCP client. -/
inductive DhcpEvent where
  | advance (ticks : ℕ)
  | setRtc (forward : ℕ)
  | reply (reply : DhcpReply)
  | setEscape (value : Bool)
  | timeout
  | linkUp
  | programReturns
  | dispInfo
  | tick
  | poll
  | loopReturns

/-- The DHCP client and everything that can happen to it, while the RTC does not wrap. -/
def dhcpMachine (console : DhcpConsole) : Machine.LabeledMachine DhcpClient DhcpEvent where
  step client
    | .advance ticks => if (client.advance ticks).rtc console < 2 ^ 32 then some (client.advance ticks) else none
    | .setRtc forward => if (client.setRtc forward).rtc console < 2 ^ 32 then some (client.setRtc forward) else none
    | .reply reply => some (client.processUdp console reply)
    | .setEscape value => some { client with escapeLoop := value }
    | .timeout => if 0 < client.timeoutLoop then some client.timesOut else none
    | .linkUp => if 0 < client.timeoutLoop then some { client.timesOut with dhcpAttempts := 0 } else none
    | .programReturns => some { client with booted := false }
    | .dispInfo => some (client.dispInfo console)
    | .tick => if client.pc = .idle then some (client.dhcpTick console) else none
    | .poll => if client.pc = .idle then some (client.dhcpPoll console) else none
    | .loopReturns => if client.escapeLoop then some (client.loopReturns console) else none

end KosTool.Client
