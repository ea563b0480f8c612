import KosTool.Model.Client.NetStack
import KosTool.Soundness.DhcpTransaction
import KosTool.Soundness.PacketChecksums
import Mathlib.Logic.Relation

/-! # When the parser stays inside the frame

Nothing tells the parser how long a frame is; it goes by the lengths in the frame. What they have to fit is
collected here header by header, in the order in which the parser gets to it. The options of a DHCP packet are a
chain: each tells where the next one starts.
-/

namespace KosTool.Client

open ByteWord

/-- An access that stays inside a frame of a length. -/
def Access.Inside (length : ℕ) : Access → Prop
  | .read offset count => ∀ i < count, offset + i < length
  | .sum count => 0 ≤ count ∧ count ≤ length

/-- Accesses that all stay inside. -/
def AllInside (length : ℕ) (accesses : List Access) : Prop := ∀ access ∈ accesses, access.Inside length

section AllInside

variable {length : ℕ}

@[simp] theorem allInside_nil : AllInside length [] := fun _ member => absurd member List.not_mem_nil

@[simp] theorem allInside_cons (access : Access) (rest : List Access) :
    AllInside length (access :: rest) ↔ access.Inside length ∧ AllInside length rest := List.forall_mem_cons

@[simp] theorem allInside_append (first second : List Access) :
    AllInside length (first ++ second) ↔ AllInside length first ∧ AllInside length second := List.forall_mem_append

theorem forall_mem_ite_nil {α : Type*} {P : α → Prop} (condition : Prop) [Decidable condition] (elements : List α) :
    (∀ element ∈ if condition then elements else [], P element) ↔ (condition → ∀ element ∈ elements, P element) := by
  split
  · rename_i holds
    exact (imp_iff_right holds).symm
  · rename_i fails
    exact iff_of_true (fun element member => absurd member List.not_mem_nil) fun holds => absurd holds fails

theorem allInside_ite_nil (condition : Prop) [Decidable condition] (accesses : List Access) :
    AllInside length (if condition then accesses else []) ↔ (condition → AllInside length accesses) :=
  forall_mem_ite_nil condition accesses

theorem allInside_ite (condition : Prop) [Decidable condition] (first second : List Access) :
    AllInside length (if condition then first else second) ↔
      (condition → AllInside length first) ∧ (¬ condition → AllInside length second) := by
  split
  · rename_i holds
    exact ⟨fun inside => ⟨fun _ => inside, fun fails => absurd holds fails⟩, fun both => both.1 holds⟩
  · rename_i fails
    exact ⟨fun inside => ⟨fun holds => absurd holds fails, fun _ => inside⟩, fun both => both.2 fails⟩

theorem inside_read {offset count : ℕ} (some : 0 < count) :
    (Access.read offset count).Inside length ↔ offset + count ≤ length := by
  constructor
  · intro inside
    have last := inside (count - 1) (by omega)
    omega
  · intro fits i bound
    omega

/-- What a checksum over a buffer has to fit. -/
theorem allInside_sumAccesses {offset count : ℕ} (inRange : count < 2 ^ 32) (isOdd : Bool)
    (start : offset ≤ length) : AllInside length (sumAccesses offset count isOdd) ↔
      offset + (2 * count + isOdd.toNat) ≤ length := by
  rw [sumAccesses, loopTurns_natCast inRange, allInside_cons, allInside_cons]
  rcases Nat.eq_zero_or_pos (2 * count + isOdd.toNat) with none | some
  · rw [none]
    refine iff_of_true ⟨⟨Int.natCast_nonneg count, ?_⟩, fun i bound => absurd bound (Nat.not_lt_zero i), allInside_nil⟩
      start
    have zero : count = 0 := by omega
    rw [zero]
    exact Int.natCast_nonneg length
  · rw [inside_read some]
    constructor
    · intro inside
      exact inside.2.1
    · intro fits
      refine ⟨⟨Int.natCast_nonneg count, ?_⟩, fits, allInside_nil⟩
      exact_mod_cast (show count ≤ length by omega)

end AllInside

namespace DhcpReply

variable (reply : DhcpReply)

/-- Behind an option that is not the one looked for the next one starts: after a pad byte at once, else behind
the length byte and as many bytes as it says. -/
def NextOption (opt : Byte) (i next : ℕ) : Prop :=
  i < reply.length - dhcpHLen ∧ reply.options i ≠ opt ∧
    (reply.options i = dhcpOptionPad ∧ next = i + 1 ∨
      reply.options i ≠ dhcpOptionPad ∧ reply.options i ≠ dhcpOptionEnd ∧ i + 1 < reply.length - dhcpHLen ∧
        next = i + (reply.options (i + 1)).toNat + 2)

/-- An option starts here, before or at the one looked for, and before the end of the packet. -/
def OptionStart (opt : Byte) (first i : ℕ) : Prop :=
  Relation.ReflTransGen (reply.NextOption opt) first i ∧ i < reply.length - dhcpHLen

/-- An option that is skipped by its length. -/
def SkippedByLength (opt : Byte) (i : ℕ) : Prop :=
  reply.options i ≠ opt ∧ reply.options i ≠ dhcpOptionPad ∧ reply.options i ≠ dhcpOptionEnd ∧
    i + 1 < reply.length - dhcpHLen

/-- The first option, or one of those from the next one on. -/
theorem exists_optionStart {opt : Byte} {first : ℕ} {P : ℕ → Prop} : (∃ i, reply.OptionStart opt first i ∧ P i) ↔
    (first < reply.length - dhcpHLen ∧ P first) ∨
      ∃ next, reply.NextOption opt first next ∧ ∃ i, reply.OptionStart opt next i ∧ P i := by
  unfold OptionStart
  constructor
  · rintro ⟨i, ⟨path, inside⟩, holds⟩
    rcases Relation.ReflTransGen.cases_head path with rfl | ⟨next, step, rest⟩
    · exact .inl ⟨inside, holds⟩
    · exact .inr ⟨next, step, i, ⟨rest, inside⟩, holds⟩
  · rintro (⟨inside, holds⟩ | ⟨next, step, i, ⟨rest, inside⟩, holds⟩)
    · exact ⟨first, ⟨.refl, inside⟩, holds⟩
    · exact ⟨i, ⟨.head step rest, inside⟩, holds⟩

/-- Where the walk goes on. -/
theorem exists_nextOption {opt : Byte} {first : ℕ} {P : ℕ → Prop} (inside : first < reply.length - dhcpHLen)
    (other : reply.options first ≠ opt) : (∃ next, reply.NextOption opt first next ∧ P next) ↔
      if reply.options first = dhcpOptionPad then P (first + 1)
      else reply.SkippedByLength opt first ∧ P (first + (reply.options (first + 1)).toNat + 2) := by
  unfold NextOption SkippedByLength
  split
  · rename_i pad
    constructor
    · rintro ⟨next, ⟨-, -, ⟨-, rfl⟩ | ⟨notPad, -⟩⟩, holds⟩
      · exact holds
      · exact absurd pad notPad
    · intro holds
      exact ⟨first + 1, ⟨inside, other, .inl ⟨pad, rfl⟩⟩, holds⟩
  · rename_i notPad
    constructor
    · rintro ⟨next, ⟨-, -, ⟨pad, -⟩ | ⟨-, notEnd, long, rfl⟩⟩, holds⟩
      · exact absurd pad notPad
      · exact ⟨⟨other, notPad, notEnd, long⟩, holds⟩
    · rintro ⟨⟨-, -, notEnd, long⟩, holds⟩
      exact ⟨_, ⟨inside, other, .inr ⟨notPad, notEnd, long, rfl⟩⟩, holds⟩

/-- The walk reads where options start, and the length of those it skips by it. -/
theorem mem_walkReads {opt : Byte} {fuel first : ℕ} (enough : reply.length - dhcpHLen ≤ first + fuel) (byte : ℕ) :
    byte ∈ reply.walkReads opt fuel first ↔
      ∃ i, reply.OptionStart opt first i ∧ (byte = i ∨ byte = i + 1 ∧ reply.SkippedByLength opt i) := by
  induction fuel generalizing first with
  | zero =>
    have outside : ¬ first < reply.length - dhcpHLen := by omega
    rw [exists_optionStart]
    refine iff_of_false List.not_mem_nil ?_
    rintro (⟨inside, -⟩ | ⟨next, ⟨inside, -⟩, -⟩)
    · exact outside inside
    · exact outside inside
  | succ fuel ih =>
    rw [exists_optionStart, walkReads]
    split
    · rename_i inside
      rw [and_iff_right inside]
      by_cases found : reply.options first = opt
      · have stops : ¬ ∃ next, reply.NextOption opt first next ∧ ∃ i, reply.OptionStart opt next i ∧
            (byte = i ∨ byte = i + 1 ∧ reply.SkippedByLength opt i) := by
          rintro ⟨next, ⟨-, other, -⟩, -⟩
          exact other found
        have kept : ¬ reply.SkippedByLength opt first := fun skipped => skipped.1 found
        rw [if_pos found, List.mem_singleton, or_iff_left stops]
        exact (or_iff_left fun both => kept both.2).symm
      · rw [if_neg found, exists_nextOption reply inside found]
        by_cases pad : reply.options first = dhcpOptionPad
        · have kept : ¬ (byte = first + 1 ∧ reply.SkippedByLength opt first) := fun both => both.2.2.1 pad
          rw [if_pos pad, if_pos pad, List.mem_cons, ih (by omega), or_iff_left kept]
        · rw [if_neg pad, if_neg pad]
          by_cases atEnd : reply.options first = dhcpOptionEnd
          · have kept : ¬ reply.SkippedByLength opt first := fun skipped => skipped.2.2.1 atEnd
            rw [if_pos atEnd, List.mem_singleton, or_iff_left fun both => kept both.1,
              or_iff_left fun both => kept both.2]
          · rw [if_neg atEnd]
            by_cases last : reply.length - dhcpHLen ≤ first + 1
            · have kept : ¬ reply.SkippedByLength opt first := fun skipped => Nat.not_lt.mpr last skipped.2.2.2
              rw [if_pos last, List.mem_singleton, or_iff_left fun both => kept both.1,
                or_iff_left fun both => kept both.2]
            · have skipped : reply.SkippedByLength opt first := ⟨found, pad, atEnd, Nat.not_le.mp last⟩
              rw [if_neg last, List.mem_cons, List.mem_cons, ih (by omega), and_iff_left skipped, and_iff_right skipped,
                or_assoc]
    · rename_i outside
      refine iff_of_false List.not_mem_nil ?_
      rintro (⟨inside, -⟩ | ⟨next, ⟨inside, -⟩, -⟩)
      · exact outside inside
      · exact outside inside

/-- What the walk finds is where an option with the tag starts. -/
theorem findOption_eq_some {opt : Byte} {fuel first i : ℕ} (enough : reply.length - dhcpHLen ≤ first + fuel) :
    reply.findOption opt fuel first = some i ↔
      ∃ start, reply.OptionStart opt first start ∧ reply.options start = opt ∧ start = i := by
  induction fuel generalizing first with
  | zero =>
    have outside : ¬ first < reply.length - dhcpHLen := by omega
    rw [exists_optionStart, DhcpReply.findOption]
    refine iff_of_false (Option.some_ne_none i).symm ?_
    rintro (⟨inside, -⟩ | ⟨next, ⟨inside, -⟩, -⟩)
    · exact outside inside
    · exact outside inside
  | succ fuel ih =>
    rw [exists_optionStart, DhcpReply.findOption]
    split
    · rename_i inside
      rw [and_iff_right inside]
      by_cases found : reply.options first = opt
      · have stops : ¬ ∃ next, reply.NextOption opt first next ∧ ∃ start, reply.OptionStart opt next start ∧
            reply.options start = opt ∧ start = i := by
          rintro ⟨next, ⟨-, other, -⟩, -⟩
          exact other found
        rw [if_pos found, or_iff_left stops, and_iff_right found, Option.some.injEq]
      · rw [if_neg found, exists_nextOption reply inside found, or_iff_right fun both => found both.1]
        by_cases pad : reply.options first = dhcpOptionPad
        · rw [if_pos pad, if_pos pad, ih (by omega)]
        · rw [if_neg pad, if_neg pad]
          by_cases atEnd : reply.options first = dhcpOptionEnd
          · rw [if_pos atEnd]
            exact iff_of_false (Option.some_ne_none i).symm fun both => both.1.2.2.1 atEnd
          · rw [if_neg atEnd]
            by_cases last : reply.length - dhcpHLen ≤ first + 1
            · rw [if_pos last]
              exact iff_of_false (Option.some_ne_none i).symm fun both => Nat.not_lt.mpr last both.1.2.2.2
            · have skipped : reply.SkippedByLength opt first := ⟨found, pad, atEnd, Nat.not_le.mp last⟩
              rw [if_neg last, ih (by omega), and_iff_right skipped]
    · rename_i outside
      refine iff_of_false (Option.some_ne_none i).symm ?_
      rintro (⟨inside, -⟩ | ⟨next, ⟨inside, -⟩, -⟩)
      · exact outside inside
      · exact outside inside

/-- The options from the fourth on. -/
theorem findOption_iff {opt : Byte} {i : ℕ} : reply.findOption opt reply.length 4 = some i ↔
    reply.OptionStart opt 4 i ∧ reply.options i = opt := by
  rw [findOption_eq_some reply (Nat.le_trans (Nat.sub_le _ _) (Nat.le_add_left _ _))]
  constructor
  · rintro ⟨start, isStart, tag, rfl⟩
    exact ⟨isStart, tag⟩
  · rintro ⟨isStart, tag⟩
    exact ⟨i, isStart, tag, rfl⟩

/-- The options the walk reads have been received. -/
def WalkFits (opt : Byte) (received : ℕ) : Prop :=
  ∀ i, reply.OptionStart opt 4 i →
    dhcpHLen + i < received ∧ (reply.SkippedByLength opt i → dhcpHLen + i + 1 < received)

/-- The message type has been received. -/
def MessageTypeFits (received : ℕ) : Prop :=
  reply.WalkFits dhcpOptionMessageType received ∧
    ∀ i, reply.OptionStart dhcpOptionMessageType 4 i → reply.options i = dhcpOptionMessageType →
      i + 2 < reply.length - dhcpHLen → dhcpHLen + i + 2 < received

/-- A word option has been received. -/
def WordOptionFits (opt : Byte) (received : ℕ) : Prop :=
  reply.WalkFits opt received ∧
    ∀ i, reply.OptionStart opt 4 i → reply.options i = opt → i + 5 < reply.length - dhcpHLen →
      dhcpHLen + i + 1 < received ∧ (4 ≤ reply.options (i + 1) → dhcpHLen + i + 5 < received)

/-- What is looked at of a DHCP packet has been received: the message type, the server of an offer, and the lease
time of an acknowledgement that is waited for. -/
def HandlerFits (console : DhcpConsole) (client : DhcpClient) (received : ℕ) : Prop :=
  reply.MessageTypeFits received ∧
    (reply.getMessageType = some dhcpMsgOffer → reply.WordOptionFits dhcpOptionServerId received) ∧
    (reply.getMessageType = some dhcpMsgAck → reply.xid console.order = client.dhcpofferXid →
      client.dhcpRenewal ∨ reply.yiaddr console.order = client.dhcpofferIp →
        reply.WordOptionFits dhcpOptionIpLeaseTime received)

theorem walkReads_received (opt : Byte) (received : ℕ) :
    (∀ byte ∈ reply.walkReads opt reply.length 4, dhcpHLen + byte < received) ↔ reply.WalkFits opt received := by
  have reads (byte : ℕ) : byte ∈ reply.walkReads opt reply.length 4 ↔
      ∃ i, reply.OptionStart opt 4 i ∧ (byte = i ∨ byte = i + 1 ∧ reply.SkippedByLength opt i) :=
    reply.mem_walkReads (by omega) byte
  simp only [reads]
  constructor
  · intro fits i start
    refine ⟨fits i ⟨i, start, .inl rfl⟩, fun skipped => ?_⟩
    exact fits (i + 1) ⟨i, start, .inr ⟨rfl, skipped⟩⟩
  · rintro fits byte ⟨i, start, rfl | ⟨rfl, skipped⟩⟩
    · exact (fits byte start).1
    · exact (fits i start).2 skipped

/-- An option that has been found, or none. -/
theorem forall_findOption {opt : Byte} {P : ℕ → Prop} :
    (∀ i, reply.findOption opt reply.length 4 = some i → P i) ↔
      ∀ i, reply.OptionStart opt 4 i → reply.options i = opt → P i := by
  simp only [findOption_iff, and_imp]

theorem messageTypeReads_received (received : ℕ) :
    (∀ byte ∈ reply.messageTypeReads, dhcpHLen + byte < received) ↔ reply.MessageTypeFits received := by
  rw [messageTypeReads, List.forall_mem_append, walkReads_received, MessageTypeFits, ← forall_findOption]
  refine and_congr_right' ?_
  cases found : reply.findOption dhcpOptionMessageType reply.length 4 with
  | none => simp
  | some i =>
    simp only [Option.some.injEq, forall_eq']
    split
    · rename_i inside
      simp [inside, Nat.add_assoc]
    · rename_i outside
      simp [outside]

theorem get32bitReads_received (opt : Byte) (received : ℕ) :
    (∀ byte ∈ reply.get32bitReads opt, dhcpHLen + byte < received) ↔ reply.WordOptionFits opt received := by
  rw [get32bitReads, List.forall_mem_append, walkReads_received, WordOptionFits, ← forall_findOption]
  refine and_congr_right' ?_
  cases found : reply.findOption opt reply.length 4 with
  | none => simp
  | some i =>
    simp only [Option.some.injEq, forall_eq']
    by_cases short : reply.length - dhcpHLen ≤ i + 5
    · rw [if_pos short]
      exact iff_of_true (fun byte member => absurd member List.not_mem_nil) fun inside => absurd inside (by omega)
    · rw [if_neg short]
      by_cases small : reply.options (i + 1) < 4
      · rw [if_pos small, List.forall_mem_singleton]
        constructor
        · intro tag _
          exact ⟨tag, fun large => absurd small (BitVec.not_lt.mpr large)⟩
        · intro fits
          exact (fits (by omega)).1
      · rw [if_neg small]
        simp only [List.forall_mem_cons]
        constructor
        · rintro ⟨tag, -, -, -, last, -⟩ _
          exact ⟨tag, fun _ => last⟩
        · intro fits
          have last := (fits (by omega)).2 (BitVec.not_lt.mp small)
          exact ⟨by omega, by omega, by omega, by omega, last, fun _ member => absurd member List.not_mem_nil⟩

/-- A message type stands behind the fixed fields. -/
theorem fixed_received {msgType : Byte} {received : ℕ} (typed : reply.getMessageType = some msgType)
    (fits : reply.MessageTypeFits received) : dhcpHLen < received := by
  rw [getMessageType] at typed
  split at typed
  · rename_i i found
    split at typed
    · rename_i inside
      have start := reply.findOption_iff.mp found
      have last := fits.2 i start.1 start.2 inside
      omega
    · exact absurd typed (Option.some_ne_none msgType).symm
  · exact absurd typed (Option.some_ne_none msgType).symm

/-- `handle_dhcp_reply` reads what has been received exactly if what it looks at has been. -/
theorem handlerReads_received (console : DhcpConsole) (client : DhcpClient) (received : ℕ) :
    (∀ byte ∈ reply.handlerReads console client, byte < received) ↔ reply.HandlerFits console client received := by
  have fixed (start : ℕ) (inside : start + 4 ≤ dhcpHLen) (past : dhcpHLen < received) :
      ∀ byte ∈ List.range' start 4, byte < received := by
    intro byte member
    have bounds := List.mem_range'_1.mp member
    omega
  rw [handlerReads, List.forall_mem_append, List.forall_mem_map, messageTypeReads_received, HandlerFits]
  refine and_congr_right fun typeFits => ?_
  cases typed : reply.getMessageType with
  | none => simp
  | some msgType =>
    have past := reply.fixed_received typed typeFits
    have xidFits := fixed 4 (by decide) past
    have yiaddrFits := fixed 16 (by decide) past
    simp only [Option.some.injEq]
    by_cases offer : msgType = dhcpMsgOffer
    · have notAck : msgType ≠ dhcpMsgAck := by
        rw [offer]
        decide
      rw [if_pos offer, List.forall_mem_append, List.forall_mem_append, List.forall_mem_map, get32bitReads_received,
        and_iff_left xidFits, and_iff_left yiaddrFits, imp_iff_right offer]
      exact (and_iff_left fun ack => absurd ack notAck).symm
    · rw [if_neg offer, and_iff_right fun same => absurd same offer, forall_mem_ite_nil]
      refine imp_congr_right fun _ => ?_
      rw [List.forall_mem_append, and_iff_right xidFits, forall_mem_ite_nil]
      refine imp_congr_right fun _ => ?_
      rw [List.forall_mem_append, and_iff_right yiaddrFits, forall_mem_ite_nil]
      refine imp_congr_right fun _ => ?_
      rw [List.forall_mem_map, get32bitReads_received]

end DhcpReply

namespace Frame

variable (console : DhcpConsole) (client : DhcpClient) (frame : Buffer) (length : ℕ)

/-- An ARP packet: each field that the ones before it lead to has to be there. -/
def ArpFits : Prop :=
  16 ≤ length ∧ (ByteOrder.big.load16 frame 14 = 0x0001 →
    18 ≤ length ∧ (ByteOrder.big.load16 frame 16 = 0x0800 →
      22 ≤ length ∧ (ByteOrder.big.load16 frame 20 = 0x0001 ∧ client.ourIp ≠ 0 → 42 ≤ length)))

/-- An ICMP packet: the length of an echo request by its IP header covers the header and ends in the frame. -/
def IcmpFits (icmp : ℕ) : Prop :=
  icmp + 1 ≤ length ∧ (frame icmp = 8 →
    icmp + 4 ≤ length ∧ 2 * ipIhl frame ≤ ipLength frame / 2 ∧ etherHLen + ipLength frame ≤ length ∧
      (IcmpPasses frame console.order icmp → 30 ≤ length))

/-- A UDP datagram: its length ends in the frame where there is a checksum, and what is looked at has been
received where there is none. -/
def UdpFits (udp : ℕ) : Prop :=
  udp + 6 ≤ length ∧ (udpHLen ≤ udpTotal frame udp →
    34 ≤ length ∧ udp + udpHLen ≤ length ∧
      (udpChecksumField frame console.order udp ≠ 0 → udp + udpTotal frame udp ≤ length) ∧
      (UdpPasses frame console.order udp → udp + udpHLen + 1 ≤ length ∧
        ((dhcpReply frame udp).op = dhcpOpBootreply →
          (dhcpReply frame udp).HandlerFits console client (length - (udp + udpHLen))) ∧
        ((dhcpReply frame udp).op ≠ dhcpOpBootreply → udp + udpHLen + 4 ≤ length)))

/-- An IP packet: its header is as long as it says and ends in the frame. -/
def IpFits : Prop :=
  22 ≤ length ∧ (ipFlagsFragOffset frame &&& 0x3fff = 0 →
    26 ≤ length ∧ ipData frame ≤ length ∧ (IpPasses frame console.order →
      (ipProtocol frame = ipUdpProtocol → UdpFits console client frame length (ipData frame)) ∧
      (ipProtocol frame = ipIcmpProtocol → IcmpFits console frame length (ipData frame))))

/-- A frame for this machine or for all. -/
def PayloadFits : Prop :=
  14 ≤ length ∧ (type1 frame = 0x00 → IpFits console client frame length) ∧
    (type1 frame = 0x06 → ArpFits client frame length)

/-- A frame. -/
def FrameFits : Prop :=
  13 ≤ length ∧ (type0 frame = 0x08 → dest frame = console.mac ∨ dest frame = etherBroadcast →
    PayloadFits console client frame length)

variable {console client frame length}

theorem processArp_inside :
    AllInside length (processArp client frame) ↔ ArpFits client frame length := by
  rw [processArp, ArpFits, allInside_cons, inside_read (by decide), allInside_ite_nil]
  refine and_congr_right fun _ => imp_congr_right fun _ => ?_
  rw [allInside_cons, inside_read (by decide), allInside_ite_nil]
  refine and_congr_right fun _ => imp_congr_right fun _ => ?_
  rw [allInside_cons, inside_read (by decide), allInside_ite_nil]
  refine and_congr_right fun _ => imp_congr_right fun _ => ?_
  rw [allInside_cons, inside_read (by decide), allInside_ite_nil]
  refine and_iff_left_of_imp fun target _ => ?_
  rw [allInside_cons, allInside_cons, inside_read (by decide), inside_read (by decide)]
  exact ⟨by omega, by omega, allInside_nil⟩

/-- The checksum over an ICMP packet: its length is taken less that of the IP header. -/
theorem sumAccesses_icmp_inside (header : ipData frame ≤ length) :
    AllInside length (sumAccesses (ipData frame) (icmpCount frame) (ipLength frame % 2 = 1)) ↔
      2 * ipIhl frame ≤ ipLength frame / 2 ∧ etherHLen + ipLength frame ≤ length := by
  have small : ipLength frame < 65536 := (ByteOrder.big.load16 frame 16).isLt
  by_cases covered : 2 * ipIhl frame ≤ ipLength frame / 2
  · have count : icmpCount frame = (ipLength frame / 2 - 2 * ipIhl frame : ℕ) := by
      rw [icmpCount]
      omega
    have total : ipData frame + (2 * (ipLength frame / 2 - 2 * ipIhl frame) +
        (decide (ipLength frame % 2 = 1)).toNat) = etherHLen + ipLength frame := by
      rw [ipData]
      rcases Nat.mod_two_eq_zero_or_one (ipLength frame) with even | odd
      · simp only [even, zero_ne_one, decide_false, Bool.toNat_false]
        omega
      · simp only [odd, decide_true, Bool.toNat_true]
        omega
    rw [count, allInside_sumAccesses (by omega) _ header, total, and_iff_right covered]
  · refine iff_of_false (fun inside => ?_) fun fits => covered fits.1
    have nonneg : 0 ≤ icmpCount frame := (inside _ List.mem_cons_self).1
    rw [icmpCount] at nonneg
    omega

theorem processIcmp_inside (past : 26 ≤ length) (header : ipData frame ≤ length) :
    AllInside length (processIcmp console frame (ipData frame)) ↔ IcmpFits console frame length (ipData frame) := by
  have headerSum : AllInside length (sumAccesses etherHLen (2 * ipIhl frame : ℕ) false) := by
    have nibble := ipIhl_lt frame
    rw [allInside_sumAccesses (by omega) false (by rw [etherHLen]; omega)]
    rw [ipData] at header
    simp only [Bool.toNat_false]
    omega
  rw [processIcmp, IcmpFits, allInside_cons, inside_read (by decide), allInside_ite_nil]
  refine and_congr_right fun _ => imp_congr_right fun _ => ?_
  simp only [allInside_append, allInside_cons, allInside_ite_nil, allInside_nil, and_true, headerSum,
    sumAccesses_icmp_inside header]
  rw [inside_read (by decide), inside_read (by decide), inside_read (by decide), inside_read (by decide),
    inside_read (by decide)]
  constructor
  · rintro ⟨⟨⟨-, -, checksum⟩, covered, total⟩, reply⟩
    exact ⟨checksum, covered, total, fun passes => (reply passes).1.2⟩
  · rintro ⟨checksum, covered, total, reply⟩
    exact ⟨⟨⟨by omega, by omega, checksum⟩, covered, total⟩, fun passes => ⟨⟨by omega, reply passes⟩, covered, total⟩⟩

/-- The DHCP packet in a datagram, read from where it starts in the frame. -/
theorem handlerReads_inside {udp : ℕ} (past : udp + udpHLen ≤ length) :
    AllInside length (((dhcpReply frame udp).handlerReads console client).map fun byte =>
        .read (udp + udpHLen + byte) 1) ↔
      (dhcpReply frame udp).HandlerFits console client (length - (udp + udpHLen)) := by
  rw [← DhcpReply.handlerReads_received, AllInside, List.forall_mem_map]
  refine forall₂_congr fun byte _ => ?_
  rw [inside_read (by decide)]
  omega

/-- The checksum over a datagram. -/
theorem sumAccesses_udp_inside {udp : ℕ} (long : udpHLen ≤ udpTotal frame udp) (past : udp + udpHLen ≤ length) :
    AllInside length (sumAccesses (udp + udpHLen) ((udpTotal frame udp - udpHLen) / 2 : ℕ)
        ((udpTotal frame udp - udpHLen) % 2 = 1)) ↔ udp + udpTotal frame udp ≤ length := by
  have small : udpTotal frame udp < 65536 := (ByteOrder.big.load16 frame (udp + 4)).isLt
  have total : udp + udpHLen + (2 * ((udpTotal frame udp - udpHLen) / 2) +
      (decide ((udpTotal frame udp - udpHLen) % 2 = 1)).toNat) = udp + udpTotal frame udp := by
    rcases Nat.mod_two_eq_zero_or_one (udpTotal frame udp - udpHLen) with even | odd
    · simp only [even, zero_ne_one, decide_false, Bool.toNat_false]
      omega
    · simp only [odd, decide_true, Bool.toNat_true]
      omega
  rw [allInside_sumAccesses (by omega) _ past, total]

theorem processUdp_inside {udp : ℕ} :
    AllInside length (processUdp console client frame udp) ↔ UdpFits console client frame length udp := by
  rw [processUdp, UdpFits, allInside_cons, inside_read (by decide), allInside_ite]
  refine and_congr_right fun _ => ?_
  rw [and_iff_right fun _ => allInside_nil, Nat.not_lt]
  refine imp_congr_right fun long => ?_
  simp only [allInside_append, allInside_cons, allInside_ite, allInside_nil, and_true]
  rw [inside_read (by decide), inside_read (by decide), inside_read (by decide), inside_read (by decide),
    inside_read (by decide), inside_read (by decide)]
  constructor
  · rintro ⟨⟨⟨addresses, -, -, -, header⟩, -, checksum⟩, data, -⟩
    refine ⟨addresses, header, fun stored => (sumAccesses_udp_inside long header).mp (checksum stored), fun passes => ?_⟩
    obtain ⟨op, reply, command⟩ := data passes
    refine ⟨op, fun isReply => (handlerReads_inside header).mp (reply isReply).2, fun notReply => ?_⟩
    exact (inside_read (by decide)).mp (command notReply).2.2.1
  · rintro ⟨addresses, header, checksum, data⟩
    rw [udpHLen] at header
    refine ⟨⟨⟨addresses, by omega, by omega, by omega, header⟩, fun _ => trivial, fun stored => ?_⟩, fun passes => ?_,
      fun _ => trivial⟩
    · exact (sumAccesses_udp_inside long header).mpr (checksum stored)
    · obtain ⟨op, reply, command⟩ := data passes
      have macs : 12 ≤ length := by omega
      refine ⟨op, fun isReply => ⟨(inside_read (by decide)).mpr macs, (handlerReads_inside header).mpr (reply isReply)⟩,
        fun notReply => ⟨(inside_read (by decide)).mpr (by omega), (inside_read (by decide)).mpr (by omega),
          (inside_read (by decide)).mpr (command notReply), (inside_read (by decide)).mpr macs⟩⟩

theorem processIp_inside :
    AllInside length (processIp console client frame) ↔ IpFits console client frame length := by
  have nibble := ipIhl_lt frame
  have protocols : ipUdpProtocol ≠ ipIcmpProtocol := by decide
  rw [processIp, IpFits, allInside_cons, inside_read (by decide), allInside_ite_nil]
  refine and_congr_right fun _ => imp_congr_right fun _ => ?_
  rw [allInside_append, allInside_append, allInside_cons, allInside_cons, inside_read (by decide),
    inside_read (by decide), allInside_ite_nil, allInside_cons, inside_read (by decide), allInside_ite,
    allInside_ite_nil, and_iff_left allInside_nil, processUdp_inside]
  have headerSum (start : etherHLen ≤ length) :
      AllInside length (sumAccesses etherHLen (2 * ipIhl frame : ℕ) false) ↔ ipData frame ≤ length := by
    rw [allInside_sumAccesses (by omega) false start, ipData, Bool.toNat_false]
    omega
  constructor
  · rintro ⟨⟨⟨-, checksum⟩, header⟩, rest⟩
    have header := (headerSum (Nat.le_trans (by decide) checksum)).mp header
    refine ⟨checksum, header, fun passes => ⟨(rest passes).2.1, fun icmp => ?_⟩⟩
    have notUdp : ipProtocol frame ≠ ipUdpProtocol := icmp ▸ protocols.symm
    exact (processIcmp_inside checksum header).mp ((rest passes).2.2 notUdp icmp)
  · rintro ⟨checksum, header, rest⟩
    refine ⟨⟨⟨by omega, checksum⟩, (headerSum (Nat.le_trans (by decide) checksum)).mpr header⟩, fun passes => ?_⟩
    refine ⟨by omega, (rest passes).1, fun _ icmp => ?_⟩
    exact (processIcmp_inside checksum header).mpr ((rest passes).2 icmp)

theorem processMine_inside : ∃ accesses,
    (∀ fuel, processMine console client frame (fuel + 2) = some accesses) ∧
      (AllInside length accesses ↔ PayloadFits console client frame length) := by
  have notBoth : (0x00 : Byte) ≠ 0x06 := by decide
  by_cases ip : type1 frame = 0x00
  · have notArp : type1 frame ≠ 0x06 := ip ▸ notBoth
    refine ⟨.read 13 1 :: processIp console client frame, fun fuel => ?_, ?_⟩
    · rw [processMine, if_pos ip]
    · rw [PayloadFits, allInside_cons, inside_read (by decide), processIp_inside, imp_iff_right ip,
        and_iff_left fun arp => absurd arp notArp]
  by_cases arp : type1 frame = 0x06
  · refine ⟨.read 13 1 :: .read 13 1 :: .read 13 1 :: processArp client frame, fun fuel => ?_, ?_⟩
    · rw [processMine, if_neg ip, if_pos arp, processBroadcast, if_neg ip, if_pos arp]
      rfl
    · rw [PayloadFits, allInside_cons, allInside_cons, allInside_cons, inside_read (by decide), processArp_inside,
        imp_iff_right arp, and_iff_right fun isIp => absurd isIp ip, and_self_left, and_self_left]
  · refine ⟨[.read 13 1], fun fuel => ?_, ?_⟩
    · rw [processMine, if_neg ip, if_neg arp]
    · rw [PayloadFits, allInside_cons, inside_read (by decide), and_iff_left allInside_nil]
      exact (and_iff_left ⟨fun isIp => absurd isIp ip, fun isArp => absurd isArp arp⟩).symm

theorem processBroadcast_inside : ∃ accesses,
    (∀ fuel, processBroadcast console client frame (fuel + 2) = some accesses) ∧
      (AllInside length accesses ↔ PayloadFits console client frame length) := by
  have notBoth : (0x00 : Byte) ≠ 0x06 := by decide
  by_cases ip : type1 frame = 0x00
  · have notArp : type1 frame ≠ 0x06 := ip ▸ notBoth
    refine ⟨.read 13 1 :: (.read 13 1 :: processIp console client frame) ++ [.read 13 1], fun fuel => ?_, ?_⟩
    · rw [processBroadcast, if_pos ip, processMine, if_pos ip]
      rfl
    · rw [PayloadFits, allInside_append, allInside_cons, allInside_cons, allInside_cons, inside_read (by decide),
        and_iff_left allInside_nil, processIp_inside, imp_iff_right ip, and_iff_left fun arp => absurd arp notArp,
        and_self_left]
      exact and_iff_left_of_imp And.left
  by_cases arp : type1 frame = 0x06
  · refine ⟨.read 13 1 :: .read 13 1 :: processArp client frame, fun fuel => ?_, ?_⟩
    · rw [processBroadcast, if_neg ip, if_pos arp]
    · rw [PayloadFits, allInside_cons, allInside_cons, inside_read (by decide), processArp_inside,
        imp_iff_right arp, and_iff_right fun isIp => absurd isIp ip, and_self_left]
  · refine ⟨[.read 13 1, .read 13 1], fun fuel => ?_, ?_⟩
    · rw [processBroadcast, if_neg ip, if_neg arp]
    · rw [PayloadFits, allInside_cons, allInside_cons, inside_read (by decide), and_iff_left allInside_nil, and_self]
      exact (and_iff_left ⟨fun isIp => absurd isIp ip, fun isArp => absurd isArp arp⟩).symm

end Frame

/-- The parser always ends, calling back at most once; and it stays inside the frame exactly if the frame fits
what its headers say. -/
theorem processPkt_inside_iff (console : DhcpConsole) (client : DhcpClient) (bytes : List Byte) (old : Buffer) :
    ∃ accesses, (∀ fuel, Frame.processPkt console client (overlay bytes old) (fuel + 2) = some accesses) ∧
      (AllInside bytes.length accesses ↔ Frame.FrameFits console client (overlay bytes old) bytes.length) := by
  have macs (past : 13 ≤ bytes.length) : Access.Inside bytes.length (.read 0 6) := (inside_read (by decide)).mpr (by omega)
  by_cases type : Frame.type0 (overlay bytes old) = 0x08
  swap
  · refine ⟨[.read 12 1], fun fuel => ?_, ?_⟩
    · rw [Frame.processPkt, if_neg type]
    · rw [Frame.FrameFits, allInside_cons, inside_read (by decide), and_iff_left allInside_nil]
      exact (and_iff_left fun isIp => absurd isIp type).symm
  have mine : ∃ accesses, (∀ fuel, Frame.processMine console client (overlay bytes old) (fuel + 2) = some accesses) ∧
      (AllInside bytes.length accesses ↔ Frame.PayloadFits console client (overlay bytes old) bytes.length) :=
    Frame.processMine_inside
  have all : ∃ accesses,
      (∀ fuel, Frame.processBroadcast console client (overlay bytes old) (fuel + 2) = some accesses) ∧
        (AllInside bytes.length accesses ↔ Frame.PayloadFits console client (overlay bytes old) bytes.length) :=
    Frame.processBroadcast_inside
  by_cases ours : Frame.dest (overlay bytes old) = console.mac
  · obtain ⟨accesses, runs, inside⟩ := mine
    refine ⟨.read 12 1 :: .read 0 6 :: accesses, fun fuel => ?_, ?_⟩
    · rw [Frame.processPkt, if_pos type, if_pos ours, runs]
      rfl
    · rw [Frame.FrameFits, allInside_cons, allInside_cons, inside_read (by decide), inside, imp_iff_right type,
        imp_iff_right (.inl ours)]
      exact and_congr_right fun past => and_iff_right (macs past)
  by_cases broadcast : Frame.dest (overlay bytes old) = etherBroadcast
  · obtain ⟨accesses, runs, inside⟩ := all
    refine ⟨.read 12 1 :: .read 0 6 :: .read 0 6 :: accesses, fun fuel => ?_, ?_⟩
    · rw [Frame.processPkt, if_pos type, if_neg ours, if_pos broadcast, runs]
      rfl
    · rw [Frame.FrameFits, allInside_cons, allInside_cons, allInside_cons, inside_read (by decide), inside,
        imp_iff_right type, imp_iff_right (.inr broadcast), and_self_left]
      exact and_congr_right fun past => and_iff_right (macs past)
  · refine ⟨[.read 12 1, .read 0 6, .read 0 6], fun fuel => ?_, ?_⟩
    · rw [Frame.processPkt, if_pos type, if_neg ours, if_neg broadcast]
    · rw [Frame.FrameFits, allInside_cons, allInside_cons, allInside_cons, inside_read (by decide),
        and_iff_left allInside_nil, and_self]
      refine and_congr_right fun past => iff_of_true (macs past) fun _ addressed => ?_
      rcases addressed with isOurs | isAll
      · exact absurd isOurs ours
      · exact absurd isAll broadcast

/-- An echo request of the smallest size whose IP header gives its length as zero. -/
def emptyEcho : List Byte :=
  [0x00, 0x09, 0xbf, 0x01, 0x02, 0x03, 0x02, 0, 0, 0, 0, 0x02, 0x08, 0x00,
    0x45, 0x00, 0x00, 0x00, 0x00, 0x00, 0x40, 0x00, 0x40, 0x01, 0x26, 0xfb, 0x0a, 0x00, 0x00, 0x01, 0x0a, 0x00, 0x00, 0x02,
    0x08, 0x00, 0x00, 0x00] ++ List.replicate 22 0

/-- The checksum loop is given a negative length. -/
theorem parser_leaves_frame : ¬ ∀ (console : DhcpConsole) (client : DhcpClient) (bytes : List Byte) (old : Buffer),
    ∃ accesses, (∀ fuel, Frame.processPkt console client (overlay bytes old) (fuel + 2) = some accesses) ∧
      AllInside bytes.length accesses := by
  intro stays
  obtain ⟨accesses, runs, inside⟩ := stays gamecubeDhcp (.powerOn 0) emptyEcho fun _ => 0
  have mine : ∃ accesses, (∀ fuel, Frame.processMine gamecubeDhcp (.powerOn 0) (overlay emptyEcho fun _ => 0)
      (fuel + 2) = some accesses) ∧ (AllInside emptyEcho.length accesses ↔
        Frame.PayloadFits gamecubeDhcp (.powerOn 0) (overlay emptyEcho fun _ => 0) emptyEcho.length) :=
    Frame.processMine_inside
  obtain ⟨rest, restRuns, restInside⟩ := mine
  have whole := runs 0
  rw [Frame.processPkt, if_pos (by decide), if_pos (by decide), restRuns, Option.map_some, Option.some.injEq] at whole
  rw [← whole, allInside_cons, allInside_cons, restInside] at inside
  have packet := (inside.2.2.2.1 (by decide)).2 (by decide)
  have echo := ((packet.2.2 (by decide)).2 (by decide)).2 (by decide)
  exact absurd echo.2.1 (by decide)

end KosTool.Client
