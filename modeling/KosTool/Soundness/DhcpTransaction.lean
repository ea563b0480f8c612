import KosTool.Model.Client.Lease

/-! # The replies a DHCP client acts on

`handle_dhcp_reply` compares the transaction id of an acknowledgement with the one it has stored, and nothing
of an offer or a refusal. While a request is waiting for its acknowledgement the stored id is that of the
request, so every reply that changes anything answers the outstanding request exactly along the runs in which
what the handler takes without looking is what it waits for, or says nothing new.
-/

namespace KosTool.Client

open ByteWord Machine

/-- The reply carries the transaction id and the hardware address of the request. -/
structure DhcpReply.Answers (order : ByteOrder) (reply : DhcpReply) (request : DhcpRequest) : Prop where
  xid : reply.xid order = request.xid
  chaddr : reply.chaddr = request.chaddr

instance (order : ByteOrder) (reply : DhcpReply) (request : DhcpRequest) :
    Decidable (reply.Answers order request) :=
  decidable_of_iff (reply.xid order = request.xid ∧ reply.chaddr = request.chaddr)
    ⟨fun both => ⟨both.1, both.2⟩, fun answers => ⟨answers.xid, answers.chaddr⟩⟩

namespace DhcpClient

variable (console : DhcpConsole) (client : DhcpClient) (reply : DhcpReply)

/-- The reply answers the outstanding request and is of a type expected now. -/
def Expects : Prop :=
  match client.pc with
  | .idle => False
  | .offerWait request _ => reply.getMessageType = some dhcpMsgOffer ∧ reply.Answers console.order request
  | .ackWait request _ | .renewWait request _ =>
    (reply.getMessageType = some dhcpMsgAck ∨ reply.getMessageType = some dhcpMsgNak) ∧
      reply.Answers console.order request

/-- The tests of `handle_dhcp_reply` let the reply through. -/
def Takes : Prop :=
  reply.getMessageType = some dhcpMsgOffer ∨
  (reply.getMessageType = some dhcpMsgAck ∧ reply.xid console.order = client.dhcpofferXid ∧
    (client.dhcpRenewal ∨ reply.yiaddr console.order = client.dhcpofferIp)) ∨
  reply.getMessageType = some dhcpMsgNak

/-- The reply is what the client waits for, where it is an acknowledgement by the hardware address alone. -/
def Awaits : Prop :=
  match client.pc with
  | .idle => False
  | .offerWait request _ => reply.getMessageType = some dhcpMsgOffer ∧ reply.Answers console.order request
  | .ackWait request _ | .renewWait request _ =>
    (reply.getMessageType = some dhcpMsgAck ∧ reply.chaddr = request.chaddr) ∨
    (reply.getMessageType = some dhcpMsgNak ∧ reply.Answers console.order request)

/-- What the reply says is stored already, and the loop is about to be left. -/
structure Knows : Prop where
  escape : client.escapeLoop = true
  offer : reply.getMessageType = some dhcpMsgOffer →
    client.dhcpofferServerIp = reply.get32bit dhcpOptionServerId ∧
      client.dhcpofferIp = reply.yiaddr console.order ∧
      client.dhcpofferXid = reply.xid console.order ∧ client.routerMac = reply.routerSrcMac
  ack : reply.getMessageType = some dhcpMsgAck →
    client.dhcpofferIp = (if client.dhcpRenewal then reply.yiaddr console.order else client.dhcpofferIp) ∧
      client.dhcpLeaseTime = reply.get32bit dhcpOptionIpLeaseTime ∧ client.dhcpAcked = true
  nak : reply.getMessageType = some dhcpMsgNak →
    (if client.dhcpRenewal then client.dhcpRenewalNak else client.dhcpNakReceived) = true

instance : Decidable (client.Expects console reply) :=
  match pc : client.pc with
  | .idle => isFalse (by simp only [Expects, pc, not_false_eq_true])
  | .offerWait request _ => decidable_of_iff (reply.getMessageType = some dhcpMsgOffer ∧ reply.Answers console.order request)
      (by simp only [Expects, pc])
  | .ackWait request _ | .renewWait request _ => decidable_of_iff
      ((reply.getMessageType = some dhcpMsgAck ∨ reply.getMessageType = some dhcpMsgNak) ∧
        reply.Answers console.order request) (by simp only [Expects, pc])

instance : Decidable (client.Awaits console reply) :=
  match pc : client.pc with
  | .idle => isFalse (by simp only [Awaits, pc, not_false_eq_true])
  | .offerWait request _ => decidable_of_iff (reply.getMessageType = some dhcpMsgOffer ∧ reply.Answers console.order request)
      (by simp only [Awaits, pc])
  | .ackWait request _ | .renewWait request _ => decidable_of_iff
      ((reply.getMessageType = some dhcpMsgAck ∧ reply.chaddr = request.chaddr) ∨
        (reply.getMessageType = some dhcpMsgNak ∧ reply.Answers console.order request)) (by simp only [Awaits, pc])

instance : Decidable (client.Takes console reply) := inferInstanceAs (Decidable (_ ∨ _))

instance : Decidable (client.Knows console reply) :=
  decidable_of_iff (client.escapeLoop = true ∧ _ ∧ _ ∧ _)
    ⟨fun all => ⟨all.1, all.2.1, all.2.2.1, all.2.2.2⟩, fun knows => ⟨knows.escape, knows.offer, knows.ack, knows.nak⟩⟩

/-- The reply changes something only if it answers the outstanding request, and nothing if there is none. -/
structure ReplyRight : Prop where
  expected : client.processUdp console reply ≠ client → client.Expects console reply
  idle : client.pc = .idle → client.processUdp console reply = client

/-- A reply the handler takes is awaited, or known. -/
def ReplyAwaited : Prop :=
  reply.op = dhcpOpBootreply → client.Takes console reply → client.Awaits console reply ∨ client.Knows console reply

/-- While an acknowledgement is waited for, the stored transaction id is that of the request. -/
def TransactionInv : Prop :=
  match client.pc with
  | .idle | .offerWait _ _ => True
  | .ackWait request _ | .renewWait request _ => client.dhcpofferXid = request.xid

instance : Decidable (client.ReplyAwaited console reply) := inferInstanceAs (Decidable (_ → _ → _))

variable {console client reply}

theorem handleDhcpReply_of_offer (offer : reply.getMessageType = some dhcpMsgOffer) :
    client.handleDhcpReply console reply =
      ({ client with
          dhcpofferServerIp := reply.get32bit dhcpOptionServerId
          dhcpofferIp := reply.yiaddr console.order
          dhcpofferXid := reply.xid console.order
          routerMac := reply.routerSrcMac }, true) := by
  rw [handleDhcpReply, offer]
  exact if_pos rfl

theorem handleDhcpReply_of_ack (ack : reply.getMessageType = some dhcpMsgAck)
    (same : reply.xid console.order = client.dhcpofferXid)
    (address : client.dhcpRenewal ∨ reply.yiaddr console.order = client.dhcpofferIp) :
    client.handleDhcpReply console reply =
      ({ client with
          dhcpofferIp := if client.dhcpRenewal then reply.yiaddr console.order else client.dhcpofferIp
          dhcpLeaseTime := reply.get32bit dhcpOptionIpLeaseTime
          dhcpAcked := true }, true) := by
  rw [handleDhcpReply, ack]
  have accepted : reply.xid console.order = client.dhcpofferXid ∧
      (client.dhcpRenewal ∨ reply.yiaddr console.order = client.dhcpofferIp) := ⟨same, address⟩
  exact if_pos accepted

theorem handleDhcpReply_of_nak (nak : reply.getMessageType = some dhcpMsgNak) :
    client.handleDhcpReply console reply =
      (if client.dhcpRenewal then { client with dhcpRenewalNak := true }
        else { client with dhcpNakReceived := true }, true) := by
  rw [handleDhcpReply, nak, apply_ite (fun next : DhcpClient => (next, true))]
  rfl

/-- What the handler does not take, it leaves. -/
theorem handleDhcpReply_of_not_takes (untaken : ¬ client.Takes console reply) :
    client.handleDhcpReply console reply = (client, false) := by
  unfold handleDhcpReply
  cases type : reply.getMessageType with
  | none => rfl
  | some msgType =>
    rw [Takes, type] at untaken
    simp only [Option.some.injEq, not_or, not_and_or] at untaken
    obtain ⟨offer, ack, nak⟩ := untaken
    simp only [offer, nak, if_false]
    split
    · rename_i isAck
      refine if_neg fun both => ?_
      exact ack.elim (absurd isAck) fun rest => rest.elim (absurd both.1) fun neither =>
        both.2.elim neither.1 neither.2
    · rfl

/-- A taken reply changes nothing exactly if it is known. -/
theorem processUdp_eq_self_iff (isReply : reply.op = dhcpOpBootreply) (takes : client.Takes console reply) :
    client.processUdp console reply = client ↔ client.Knows console reply := by
  obtain offer | ⟨ack, same, address⟩ | nak := takes
  · have others : client.Knows console reply ↔ client.escapeLoop = true ∧
        client.dhcpofferServerIp = reply.get32bit dhcpOptionServerId ∧
        client.dhcpofferIp = reply.yiaddr console.order ∧
        client.dhcpofferXid = reply.xid console.order ∧ client.routerMac = reply.routerSrcMac :=
      ⟨fun knows => ⟨knows.escape, knows.offer offer⟩, fun both => ⟨both.1, fun _ => both.2,
        fun type => absurd (offer.symm.trans type) (by decide), fun type => absurd (offer.symm.trans type) (by decide)⟩⟩
    rw [processUdp, if_pos isReply, handleDhcpReply_of_offer offer, if_pos rfl, others, DhcpClient.ext_iff]
    grind
  · have others : client.Knows console reply ↔ client.escapeLoop = true ∧
        client.dhcpofferIp = (if client.dhcpRenewal then reply.yiaddr console.order else client.dhcpofferIp) ∧
        client.dhcpLeaseTime = reply.get32bit dhcpOptionIpLeaseTime ∧ client.dhcpAcked = true :=
      ⟨fun knows => ⟨knows.escape, knows.ack ack⟩, fun both => ⟨both.1,
        fun type => absurd (ack.symm.trans type) (by decide), fun _ => both.2,
        fun type => absurd (ack.symm.trans type) (by decide)⟩⟩
    rw [processUdp, if_pos isReply, handleDhcpReply_of_ack ack same address, if_pos rfl, others, DhcpClient.ext_iff]
    grind
  · have others : client.Knows console reply ↔ client.escapeLoop = true ∧
        (if client.dhcpRenewal then client.dhcpRenewalNak else client.dhcpNakReceived) = true :=
      ⟨fun knows => ⟨knows.escape, knows.nak nak⟩, fun both => ⟨both.1,
        fun type => absurd (nak.symm.trans type) (by decide), fun type => absurd (nak.symm.trans type) (by decide),
        fun _ => both.2⟩⟩
    rw [processUdp, if_pos isReply, handleDhcpReply_of_nak nak, if_pos rfl, others]
    cases renewal : client.dhcpRenewal <;> simp only [DhcpClient.ext_iff] <;> grind

theorem processUdp_of_not_takes (untaken : ¬ client.Takes console reply) :
    client.processUdp console reply = client := by
  rw [processUdp, handleDhcpReply_of_not_takes untaken]
  exact ite_self client

/-- With the transaction id stored, the handler's test of an acknowledgement makes up for the missing one. -/
theorem expects_of_awaits (inv : client.TransactionInv) (takes : client.Takes console reply)
    (awaits : client.Awaits console reply) : client.Expects console reply := by
  unfold TransactionInv at inv
  unfold Awaits at awaits
  unfold Expects
  have answers {request : DhcpRequest} (stored : client.dhcpofferXid = request.xid)
      (reaches : (reply.getMessageType = some dhcpMsgAck ∧ reply.chaddr = request.chaddr) ∨
        (reply.getMessageType = some dhcpMsgNak ∧ reply.Answers console.order request)) :
      (reply.getMessageType = some dhcpMsgAck ∨ reply.getMessageType = some dhcpMsgNak) ∧
        reply.Answers console.order request := by
    obtain ⟨ack, chaddr⟩ | ⟨nak, answers⟩ := reaches
    · obtain offer | ⟨-, same, -⟩ | nak := takes
      · exact absurd (ack.symm.trans offer) (by decide)
      · exact ⟨.inl ack, same.trans stored, chaddr⟩
      · exact absurd (ack.symm.trans nak) (by decide)
    · exact ⟨.inr nak, answers⟩
  cases pc : client.pc with
  | idle =>
    rw [pc] at awaits
    exact awaits
  | offerWait request nakCount =>
    rw [pc] at awaits
    exact awaits
  | ackWait request nakCount =>
    rw [pc] at inv awaits
    exact answers inv awaits
  | renewWait request savedLeaseTime =>
    rw [pc] at inv awaits
    exact answers inv awaits

theorem awaits_of_expects (expects : client.Expects console reply) : client.Awaits console reply := by
  unfold Expects at expects
  unfold Awaits
  have reaches {request : DhcpRequest}
      (answers : (reply.getMessageType = some dhcpMsgAck ∨ reply.getMessageType = some dhcpMsgNak) ∧
        reply.Answers console.order request) :
      (reply.getMessageType = some dhcpMsgAck ∧ reply.chaddr = request.chaddr) ∨
        (reply.getMessageType = some dhcpMsgNak ∧ reply.Answers console.order request) :=
    answers.1.imp (⟨·, answers.2.chaddr⟩) (⟨·, answers.2⟩)
  cases pc : client.pc with
  | idle =>
    rw [pc] at expects
    exact expects
  | offerWait request nakCount =>
    rw [pc] at expects
    exact expects
  | ackWait request nakCount =>
    rw [pc] at expects
    exact reaches expects
  | renewWait request savedLeaseTime =>
    rw [pc] at expects
    exact reaches expects

/-- A reply is acted on rightly exactly if it is awaited or known, or the handler turns it away. -/
theorem replyRight_iff_awaited (inv : client.TransactionInv) :
    client.ReplyRight console reply ↔ client.ReplyAwaited console reply := by
  constructor
  · intro right isReply takes
    by_contra neither
    obtain ⟨unawaited, unknown⟩ := not_or.mp neither
    have changes : client.processUdp console reply ≠ client := fun same =>
      unknown ((processUdp_eq_self_iff isReply takes).mp same)
    exact unawaited (awaits_of_expects (right.expected changes))
  · intro awaited
    have unchanged (unawaited : ¬ client.Awaits console reply) : client.processUdp console reply = client := by
      apply Classical.by_contradiction
      intro changes
      have takes : client.Takes console reply := Classical.by_contradiction fun untaken =>
        changes (processUdp_of_not_takes untaken)
      have isReply : reply.op = dhcpOpBootreply := Classical.by_contradiction fun command =>
        changes (if_neg command)
      have knows := (awaited isReply takes).resolve_left unawaited
      exact changes ((processUdp_eq_self_iff isReply takes).mpr knows)
    refine ⟨fun changes => ?_, fun idle => unchanged ?_⟩
    · have takes : client.Takes console reply := Classical.by_contradiction fun untaken =>
        changes (processUdp_of_not_takes untaken)
      have awaits : client.Awaits console reply := Classical.by_contradiction fun unawaited =>
        changes (unchanged unawaited)
      exact expects_of_awaits inv takes awaits
    · rw [Awaits, idle]
      exact id

section Steps

theorem TransactionInv.of_idle (idle : client.pc = .idle) : client.TransactionInv := by
  rw [TransactionInv, idle]
  trivial

theorem handleDhcpReply_pc : (client.handleDhcpReply console reply).1.pc = client.pc := by
  unfold handleDhcpReply
  split
  · rfl
  · split_ifs <;> rfl

@[simp] theorem processUdp_pc : (client.processUdp console reply).pc = client.pc := by
  unfold processUdp
  split_ifs
  · exact handleDhcpReply_pc
  · exact handleDhcpReply_pc
  · rfl

/-- Only an offer stores another transaction id. -/
theorem processUdp_dhcpofferXid (noOffer : reply.getMessageType ≠ some dhcpMsgOffer) :
    (client.processUdp console reply).dhcpofferXid = client.dhcpofferXid := by
  have handled : (client.handleDhcpReply console reply).1.dhcpofferXid = client.dhcpofferXid := by
    unfold handleDhcpReply
    split
    · rfl
    · rename_i msgType type
      rw [if_neg fun offer : msgType = dhcpMsgOffer => noOffer (type.trans (congrArg some offer))]
      split_ifs <;> rfl
  unfold processUdp
  split_ifs
  · exact handled
  · exact handled
  · rfl

/-- An awaited or known reply keeps the stored transaction id while an acknowledgement is waited for. -/
theorem TransactionInv.processUdp (inv : client.TransactionInv) (awaited : client.ReplyAwaited console reply) :
    (client.processUdp console reply).TransactionInv := by
  have right := (replyRight_iff_awaited inv).mpr awaited
  apply Classical.by_contradiction
  intro broken
  have expects := right.expected fun same => broken (same.symm ▸ inv)
  revert broken
  unfold TransactionInv at inv ⊢
  unfold Expects at expects
  rw [processUdp_pc]
  cases pc : client.pc with
  | idle => exact fun broken => broken trivial
  | offerWait => exact fun broken => broken trivial
  | ackWait request nakCount | renewWait request savedLeaseTime =>
    rw [pc] at inv expects
    have noOffer : reply.getMessageType ≠ some dhcpMsgOffer := by
      rintro offer
      rw [offer] at expects
      exact absurd expects.1 (by decide)
    exact fun broken => broken ((processUdp_dhcpofferXid noOffer).trans inv)

theorem pollDiscovered_pc (result : ℤ) : (client.pollDiscovered console result).pc = .idle := by
  unfold pollDiscovered
  split_ifs <;> rfl

theorem dhcpGoDone_inv : (resumeGo console client.dhcpGoDone).TransactionInv := by
  unfold dhcpGoDone dhcpGoResult
  split_ifs <;> exact .of_idle (pollDiscovered_pc _)

theorem dhcpGoLoop_inv (nakCount : ℕ) : (resumeGo console (client.dhcpGoLoop console nakCount)).TransactionInv := by
  unfold dhcpGoLoop
  split
  · exact dhcpGoDone_inv
  · split
    · exact dhcpGoDone_inv
    · trivial

theorem pollDiscovery_inv : (client.pollDiscovery console).TransactionInv := by
  unfold pollDiscovery
  split_ifs
  · exact dhcpGoLoop_inv 0
  · trivial

theorem pollRenewal_inv : (client.pollRenewal console).TransactionInv := by
  unfold pollRenewal
  split_ifs
  · rfl
  · exact pollDiscovery_inv

theorem resume_inv : (client.resume console).TransactionInv := by
  unfold resume
  split
  · rename_i idle
    exact .of_idle idle
  · unfold dhcpGoOffered
    split_ifs
    · exact dhcpGoLoop_inv _
    · rfl
  · unfold dhcpGoAnswered
    split_ifs
    · exact dhcpGoLoop_inv _
    · exact dhcpGoDone_inv
    · exact dhcpGoLoop_inv _
    · exact dhcpGoLoop_inv _
  · exact pollDiscovery_inv

theorem leaseResyncFromRtc_inv (inv : client.TransactionInv) :
    (client.leaseResyncFromRtc console).TransactionInv := by
  unfold leaseResyncFromRtc
  split_ifs <;> exact inv

theorem dispInfo_inv (inv : client.TransactionInv) : (client.dispInfo console).TransactionInv := by
  unfold dispInfo
  split_ifs
  · exact inv
  · exact leaseResyncFromRtc_inv inv

theorem dhcpTick_inv (inv : client.TransactionInv) : (client.dhcpTick console).TransactionInv := by
  unfold dhcpTick
  split_ifs <;> exact inv

end Steps

end DhcpClient

section Session

variable (console : DhcpConsole)

/-- The step, if it is a reply, is acted on rightly. -/
def DhcpStepRight (client : DhcpClient) : DhcpEvent → Prop
  | .reply reply => client.ReplyRight console reply
  | _ => True

/-- The step, if it is a reply, is awaited or known, or turned away. -/
def DhcpStepAwaited (client : DhcpClient) : DhcpEvent → Prop
  | .reply reply => client.ReplyAwaited console reply
  | _ => True

instance (client : DhcpClient) : (event : DhcpEvent) → Decidable (DhcpStepAwaited console client event)
  | .reply _ => inferInstanceAs (Decidable (DhcpClient.ReplyAwaited _ _ _))
  | .advance _ | .setRtc _ | .setEscape _ | .timeout | .linkUp | .programReturns | .dispInfo | .tick | .poll
  | .loopReturns => isTrue trivial

variable {console}

/-- A step that is awaited keeps the invariant. -/
theorem transactionInv_step (client : DhcpClient) (event : DhcpEvent) (next : DhcpClient)
    (inv : client.TransactionInv) (awaited : DhcpStepAwaited console client event)
    (step : (dhcpMachine console).step client event = some next) : next.TransactionInv := by
  cases event with
  | reply reply =>
    cases step
    exact inv.processUdp awaited
  | setEscape value | programReturns =>
    cases step
    exact inv
  | dispInfo =>
    cases step
    exact DhcpClient.dispInfo_inv inv
  | advance ticks | setRtc forward | timeout | linkUp =>
    obtain ⟨-, taken⟩ := Option.ite_none_right_eq_some.mp step
    cases taken
    exact inv
  | tick =>
    obtain ⟨-, taken⟩ := Option.ite_none_right_eq_some.mp step
    cases taken
    exact DhcpClient.dhcpTick_inv inv
  | poll =>
    obtain ⟨-, taken⟩ := Option.ite_none_right_eq_some.mp step
    cases taken
    exact DhcpClient.pollRenewal_inv
  | loopReturns =>
    obtain ⟨-, taken⟩ := Option.ite_none_right_eq_some.mp step
    cases taken
    exact DhcpClient.resume_inv

/-- From a console outside the DHCP client, every reply of a run is acted on rightly exactly if each is awaited
or known, or turned away. -/
theorem dhcp_replies_right_iff_awaited (console : DhcpConsole) (source : DhcpClient) (events : List DhcpEvent)
    (idle : source.pc = .idle) :
    (dhcpMachine console).Along (DhcpStepRight console) source events ↔
      (dhcpMachine console).Along (DhcpStepAwaited console) source events := by
  have equivalent (client : DhcpClient) (event : DhcpEvent) (inv : client.TransactionInv) :
      DhcpStepAwaited console client event ↔ DhcpStepRight console client event := by
    cases event with
    | reply reply => exact (DhcpClient.replyRight_iff_awaited inv).symm
    | advance | setRtc | setEscape | timeout | linkUp | programReturns | dispInfo | tick | poll | loopReturns =>
      exact Iff.rfl
  exact (LabeledMachine.along_congr_of_kept transactionInv_step equivalent events (.of_idle idle)).symm

end Session

/-- A console whose byte order is that of the network. -/
def gamecubeDhcp : DhcpConsole where
  order := .big
  mac := [0x00, 0x09, 0xbf, 0x01, 0x02, 0x03]
  ticksPerSecond := 40500000
  ticks_pos := by decide

/-- A console after power-on, at a time of its RTC. -/
def DhcpClient.powerOn (rtcEpoch : ℕ) : DhcpClient where
  dhcpofferServerIp := 0
  dhcpofferIp := 0
  dhcpofferXid := 0
  dhcpLeaseTime := 0
  renewalIncrement := 0
  dhcpAcked := false
  dhcpRenewal := false
  dhcpRenewalNak := false
  dhcpNakReceived := false
  dhcpNestCounterMaxed := false
  dhcpAttempts := 0
  routerMac := []
  ourIp := 0
  escapeLoop := false
  timeoutLoop := 0
  booted := false
  dontRenew := false
  leaseExpiryRtc := 0
  leaseDisplaySecs := 0
  renewThreshold := 0
  lastDisplayTick := 0
  ticks := 0
  rtcEpoch
  pc := .idle
  granted := none

/-- What a server at 192.168.1.1 sends: a message of a type for 192.168.1.5, with a lease time. -/
def DhcpReply.fromServer (msgType : Byte) (xid : Word) (chaddr : List Byte) (leaseTime : Word) : DhcpReply :=
  let payload : List Byte := [dhcpOpBootreply, 1, 6, 0] ++ be32 xid ++ List.replicate 8 0 ++ [192, 168, 1, 5] ++
    List.replicate 8 0 ++ chaddr ++ List.replicate 202 0 ++
    [0x63, 0x82, 0x53, 0x63, dhcpOptionMessageType, 1, msgType, dhcpOptionServerId, 4, 192, 168, 1, 1,
      dhcpOptionIpLeaseTime, 4] ++ be32 leaseTime ++ [dhcpOptionEnd]
  { routerSrcMac := [0x02, 0, 0, 0, 0, 1]
    packet := fun i => payload.getD i 0
    length := payload.length }

/-- An address is discovered and granted for an hour. -/
def grantedSession : List DhcpEvent :=
  [.poll, .reply (.fromServer dhcpMsgOffer 0xdeadbeef gamecubeDhcp.mac 3600), .loopReturns,
    .reply (.fromServer dhcpMsgAck 0xdeadbeef gamecubeDhcp.mac 3600), .loopReturns]

theorem dhcp_replies_right_granted :
    (dhcpMachine gamecubeDhcp).Along (DhcpStepRight gamecubeDhcp) (.powerOn 0) grantedSession := by
  refine (dhcp_replies_right_iff_awaited gamecubeDhcp (.powerOn 0) grantedSession rfl).mpr ?_
  decide +kernel

/-- An offer to another console, while this one asks for nothing. -/
def strayOffer : DhcpReply := .fromServer dhcpMsgOffer 0x12345678 [0, 1, 2, 3, 4, 5] 3600

/-- A stray offer replaces the server and the address, and ends the loop. -/
theorem dhcp_replies_wrong : ¬ ∀ (console : DhcpConsole) (source : DhcpClient) (events : List DhcpEvent),
    source.pc = .idle → (dhcpMachine console).Along (DhcpStepRight console) source events := by
  intro right
  have step := (right gamecubeDhcp (.powerOn 0) [.reply strayOffer] rfl).head
  have unchanged := congrArg DhcpClient.escapeLoop (DhcpClient.ReplyRight.idle step rfl)
  revert unchanged
  decide +kernel

end KosTool.Client
