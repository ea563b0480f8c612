import KosTool.Model.Client.NetStack

/-! # Which datagrams pass the checksum tests

Both tests recompute a checksum over half-words in the order of the machine and compare it with the field. Such
a sum is the same multiple of the sum in network order for all byte strings, so the comparison finds out whether
the sum with the field is all ones, but for the second zero: `process_udp` takes an all-ones field for a zero
before it compares, `process_mine` does not.
-/

namespace KosTool.Client

open ByteWord

section Sums

variable (order : ByteOrder) (buffer : Buffer)

/-- The half-word at an offset is the first word of the bytes there. -/
theorem sum_slice_succ (offset count : ℕ) : OnesComplement.sum order (slice buffer offset (2 * (count + 1))) =
    (order.load16 buffer offset).toNat + OnesComplement.sum order (slice buffer (offset + 2) (2 * count)) := by
  rw [show 2 * (count + 1) = 2 * count + 1 + 1 by omega, slice_succ, slice_succ, ByteOrder.toNat_load16]
  cases order <;> rfl

/-- The loop adds the words of the bytes it goes over. -/
theorem sumWords_eq (count offset : ℕ) (sum : Word) : sumWords order buffer count offset sum =
    sum + BitVec.ofNat 32 (OnesComplement.sum order (slice buffer offset (2 * count))) := by
  induction count generalizing offset sum with
  | zero =>
    rw [sumWords]
    exact (BitVec.add_zero sum).symm
  | succ count ih =>
    rw [sumWords, ih, sum_slice_succ, BitVec.ofNat_add, BitVec.add_assoc, BitVec.ofNat_toNat]

theorem loopTurns_natCast {count : ℕ} (inRange : count < 2 ^ 32) : loopTurns count = count := by
  rw [loopTurns, BitVec.ofInt_natCast, BitVec.toNat_ofNat, Nat.mod_eq_of_lt inRange]

/-- The sum over a buffer, the odd byte included. -/
theorem sumBuffer_eq {count : ℕ} (inRange : count < 2 ^ 32) (offset : ℕ) (isOdd : Bool) (sum : Word) :
    sumBuffer order buffer offset count isOdd sum =
      sum + BitVec.ofNat 32 (OnesComplement.sum order (slice buffer offset (2 * count + isOdd.toNat))) := by
  rw [sumBuffer, loopTurns_natCast inRange, sumWords_eq]
  cases isOdd with
  | false => rfl
  | true =>
    have even : (slice buffer offset (2 * count)).length % 2 = 0 := by
      rw [length_slice]
      omega
    have last : oddByte order buffer (offset + 2 * count) =
        BitVec.ofNat 32 (OnesComplement.sum order (slice buffer (offset + 2 * count) 1)) := by
      rw [slice_succ]
      apply BitVec.eq_of_toNat_eq
      have byte := (buffer (offset + 2 * count)).isLt
      cases order with
      | little =>
        simp only [oddByte, OnesComplement.sum, OnesComplement.words, slice, List.range_zero, List.map_nil,
          List.sum_cons, List.sum_nil, Nat.add_zero, BitVec.toNat_setWidth, BitVec.toNat_ofNat]
      | big =>
        simp only [oddByte, OnesComplement.sum, OnesComplement.words, slice, List.range_zero, List.map_nil,
          List.sum_cons, List.sum_nil, Nat.add_zero, BitVec.toNat_shiftLeft, BitVec.toNat_setWidth, BitVec.toNat_ofNat,
          Nat.shiftLeft_eq]
        omega
    rw [if_pos rfl, last, Bool.toNat_true, slice_add, OnesComplement.sum_append order even, BitVec.ofNat_add,
      BitVec.add_assoc]

/-- One round of `fold`. -/
theorem toNat_foldRound (sum : Word) :
    ((sum >>> 16) + (sum &&& 0xffff#32)).toNat = sum.toNat / 65536 + sum.toNat % 65536 := by
  have inRange := sum.isLt
  have low : (sum &&& 0xffff#32).toNat = sum.toNat % 65536 := by
    rw [BitVec.toNat_and]
    exact Nat.and_two_pow_sub_one_eq_mod _ 16
  rw [BitVec.toNat_add, BitVec.toNat_ushiftRight, Nat.shiftRight_eq_div_pow, low]
  omega

theorem shift_eq_zero_iff (sum : Word) : sum >>> 16 = 0#32 ↔ sum.toNat < 65536 := by
  rw [← BitVec.toNat_inj, BitVec.toNat_ushiftRight, Nat.shiftRight_eq_div_pow, BitVec.toNat_zero]
  omega

/-- Two rounds fold all carries of a 32-bit sum. -/
theorem toNat_foldLoop (sum : Word) : (foldLoop 2 sum).toNat = OnesComplement.fold sum.toNat := by
  have inRange := sum.isLt
  have first := toNat_foldRound sum
  have second := toNat_foldRound ((sum >>> 16) + (sum &&& 0xffff#32))
  rw [first] at second
  unfold foldLoop
  split
  · rename_i small
    rw [OnesComplement.fold_of_le (Nat.le_of_lt_succ ((shift_eq_zero_iff sum).mp small))]
  · unfold foldLoop
    rw [← OnesComplement.fold_carry]
    split
    · rename_i small
      have small := (shift_eq_zero_iff _).mp small
      rw [first] at small ⊢
      rw [OnesComplement.fold_of_le (Nat.le_of_lt_succ small)]
    · rw [← OnesComplement.fold_carry, foldLoop, second, OnesComplement.fold_of_le]
      omega

/-- `fold` is the complement of the sum with its carries folded in. -/
theorem toNat_fold (sum : Word) : (fold sum).toNat = 65535 - OnesComplement.fold sum.toNat := by
  have le := OnesComplement.fold_le sum.toNat
  rw [fold, BitVec.toNat_setWidth, BitVec.toNat_not, toNat_foldLoop]
  omega

/-- `checksum` is the complement of the folded sum of the bytes. -/
theorem toNat_checksum {count : ℕ} (inRange : count < 2 ^ 16) (offset : ℕ) (isOdd : Bool) :
    (checksum order buffer offset count isOdd).toNat =
      65535 - OnesComplement.fold (OnesComplement.sum order (slice buffer offset (2 * count + isOdd.toNat))) := by
  have le := OnesComplement.sum_le order (slice buffer offset (2 * count + isOdd.toNat))
  have one := isOdd.toNat_le
  rw [length_slice] at le
  rw [checksum, toNat_fold, sumBuffer_eq order buffer (by omega), zero_add, BitVec.toNat_ofNat,
    Nat.mod_eq_of_lt (by omega)]

/-- `checksum_udp` is the complement of the folded sum of the pseudo header and the data. -/
theorem toNat_checksumUdp {pseudo : List Byte} (length : pseudo.length = pseudoHLen) {count : ℕ}
    (inRange : count < 2 ^ 15) (data : ℕ) (isOdd : Bool) :
    (checksumUdp order pseudo buffer data count isOdd).toNat =
      65535 - OnesComplement.fold (OnesComplement.sum order pseudo +
        OnesComplement.sum order (slice buffer data (2 * count + isOdd.toNat))) := by
  have header : slice (overlay pseudo fun _ => 0) 0 (2 * (pseudoHLen / 2)) = pseudo := by
    have whole : slice (overlay pseudo fun _ => 0) 0 pseudoHLen = pseudo := by
      have read := slice_overlay [] pseudo [] fun _ => 0
      simpa only [List.nil_append, List.append_nil, List.length_nil, length] using read
    exact whole
  have le := OnesComplement.sum_le order (slice buffer data (2 * count + isOdd.toNat))
  have headerLe := OnesComplement.sum_le order pseudo
  have one := isOdd.toNat_le
  rw [length_slice] at le
  rw [length, pseudoHLen] at headerLe
  rw [checksumUdp, toNat_fold, sumBuffer_eq order buffer (by omega), sumWords_eq, header, zero_add,
    ← BitVec.ofNat_add, BitVec.toNat_ofNat, Nat.mod_eq_of_lt (by omega)]

/-- A checksum depends on the bytes it covers only. -/
theorem checksum_congr {first second : Buffer} {offset start count : ℕ} (inRange : count < 2 ^ 16) {isOdd : Bool}
    (same : slice first offset (2 * count + isOdd.toNat) = slice second start (2 * count + isOdd.toNat)) :
    checksum order first offset count isOdd = checksum order second start count isOdd := by
  apply BitVec.eq_of_toNat_eq
  rw [toNat_checksum order first inRange, toNat_checksum order second inRange, same]

theorem checksumUdp_congr {pseudo : List Byte} (length : pseudo.length = pseudoHLen) {first second : Buffer}
    {data start count : ℕ} (inRange : count < 2 ^ 15) {isOdd : Bool}
    (same : slice first data (2 * count + isOdd.toNat) = slice second start (2 * count + isOdd.toNat)) :
    checksumUdp order pseudo first data count isOdd = checksumUdp order pseudo second start count isOdd := by
  apply BitVec.eq_of_toNat_eq
  rw [toNat_checksumUdp order first length inRange, toNat_checksumUdp order second length inRange, same]

end Sums

namespace Frame

variable (frame : Buffer) (order : ByteOrder)

/-- The bytes of the IP header, by its length nibble. -/
def ipHeaderBytes : List Byte := slice frame etherHLen (4 * ipIhl frame)

/-- The bytes of the IP header but for the checksum. -/
def ipOtherBytes : List Byte := slice (storeAt frame 24 [0, 0]) etherHLen (4 * ipIhl frame)

/-- The bytes the UDP checksum covers: the pseudo header and the datagram. -/
def udpCoveredBytes (udp : ℕ) : List Byte :=
  slice frame 26 8 ++ [0, ipProtocol frame] ++ slice frame (udp + 4) 2 ++ slice frame udp (udpTotal frame udp)

/-- The IP header sum is right. -/
def IpValid : Prop := OnesComplement.Valid (OnesComplement.sum .big (ipHeaderBytes frame))

/-- The UDP sum is right, or there is none. -/
def UdpValid (udp : ℕ) : Prop :=
  udpHLen ≤ udpTotal frame udp ∧
    (ByteOrder.big.load16 frame (udp + 6) = 0 ∨ OnesComplement.Valid (OnesComplement.sum .big (udpCoveredBytes frame udp)))

/-- The IP checksum is not all ones while the other words of the header already add up to all ones. In a header
too short for a checksum, what stands in its place is not the complement of the sum unless both are zero. -/
def IpUnambiguous : Prop :=
  if 3 ≤ ipIhl frame then
    ¬ (ipChecksum frame order = 0xffff ∧ OnesComplement.Valid (OnesComplement.sum .big (ipOtherBytes frame)))
  else if OnesComplement.Valid (OnesComplement.sum .big (ipHeaderBytes frame)) then ipChecksum frame order = 0
  else (ipChecksum frame order).toNat ≠ 65535 - OnesComplement.fold (OnesComplement.sum order (ipHeaderBytes frame))

variable {frame order}

theorem ipIhl_lt (frame : Buffer) : ipIhl frame < 16 := by
  have nibble : ipIhl frame = (frame 14).toNat % 16 := by
    rw [ipIhl, BitVec.toNat_and]
    exact Nat.and_two_pow_sub_one_eq_mod _ 4
  omega

theorem toNat_ipHeaderSum : (ipHeaderSum frame order).toNat =
    65535 - OnesComplement.fold (OnesComplement.sum order (ipOtherBytes frame)) := by
  have small := ipIhl_lt frame
  rw [ipHeaderSum, toNat_checksum order _ (by omega), ipOtherBytes, Bool.toNat_false]
  congr 4
  omega

/-- A header that reaches to its checksum is the checksum and the other bytes. -/
theorem sum_ipHeaderBytes (long : 3 ≤ ipIhl frame) : OnesComplement.sum order (ipHeaderBytes frame) =
    OnesComplement.sum order (ipOtherBytes frame) + (ipChecksum frame order).toNat := by
  have split (buffer : Buffer) : OnesComplement.sum order (slice buffer etherHLen (4 * ipIhl frame)) =
      OnesComplement.sum order (slice buffer 14 10) + ((order.load16 buffer 24).toNat +
        OnesComplement.sum order (slice buffer 26 (2 * (2 * ipIhl frame - 6)))) := by
    have length : 4 * ipIhl frame = 10 + 2 * (2 * ipIhl frame - 6 + 1) := by omega
    have parts (count : ℕ) : slice buffer 14 (10 + count) = slice buffer 14 10 ++ slice buffer 24 count := by
      rw [slice_add]
    rw [length, etherHLen, parts, OnesComplement.sum_append order (by rw [length_slice]), sum_slice_succ]
  have before : slice (storeAt frame 24 [0, 0]) 14 10 = slice frame 14 10 :=
    slice_congr fun i inside => storeAt_outside frame (.inl (by omega))
  have after (count : ℕ) : slice (storeAt frame 24 [0, 0]) 26 count = slice frame 26 count :=
    slice_congr fun i _ => storeAt_outside frame (.inr (Nat.le_add_right 26 i))
  have zeroed : (order.load16 (storeAt frame 24 [0, 0]) 24).toNat = 0 := by
    have first : storeAt frame 24 [0, 0] 24 = 0 := storeAt_add frame 24 [0, 0] 0
    have second : storeAt frame 24 [0, 0] (24 + 1) = 0 := storeAt_add frame 24 [0, 0] 1
    rw [ByteOrder.toNat_load16, first, second]
    cases order <;> rfl
  rw [ipHeaderBytes, ipOtherBytes, split, split, before, after, zeroed, ipChecksum]
  omega

/-- A header that ends before its checksum is not changed by clearing it. -/
theorem ipOtherBytes_of_short (short : ipIhl frame < 3) : ipOtherBytes frame = ipHeaderBytes frame :=
  slice_congr fun i inside => storeAt_outside frame (.inl (by rw [etherHLen]; omega))

/-- The IP header test is right exactly if its checksum is unambiguous. -/
theorem ipPasses_iff_valid : (IpPasses frame order ↔ IpValid frame) ↔ IpUnambiguous frame order := by
  have passes : IpPasses frame order ↔ (ipChecksum frame order).toNat =
      65535 - OnesComplement.fold (OnesComplement.sum order (ipOtherBytes frame)) := by
    rw [IpPasses, ← BitVec.toNat_inj, toNat_ipHeaderSum]
  have inRange : (ipChecksum frame order).toNat ≤ 65535 := Nat.le_of_lt_succ (ipChecksum frame order).isLt
  unfold IpUnambiguous IpValid
  split
  · rename_i long
    have ones : ipChecksum frame order = 0xffff ↔ (ipChecksum frame order).toNat = 65535 := by
      rw [← BitVec.toNat_inj]
      rfl
    rw [passes, OnesComplement.eq_complement_iff inRange, ← OnesComplement.valid_sum order,
      ← OnesComplement.valid_sum order, sum_ipHeaderBytes long, ones]
    have doubled (all : (ipChecksum frame order).toNat = 65535)
        (rest : OnesComplement.Valid (OnesComplement.sum order (ipOtherBytes frame))) :
        OnesComplement.Valid (OnesComplement.sum order (ipOtherBytes frame) + (ipChecksum frame order).toNat) := by
      rw [OnesComplement.valid_iff] at rest ⊢
      omega
    tauto
  · rename_i short
    rw [passes, ipOtherBytes_of_short (Nat.not_le.mp short)]
    split
    · rename_i valid
      have folded : OnesComplement.fold (OnesComplement.sum order (ipHeaderBytes frame)) = 65535 :=
        (OnesComplement.valid_sum order _).mpr valid
      rw [iff_true_right valid, folded, Nat.sub_self, ← BitVec.toNat_inj]
      rfl
    · rename_i invalid
      rw [iff_false_right invalid]

theorem length_udpPseudo (udp : ℕ) : (udpPseudo frame udp).length = pseudoHLen := by
  simp only [udpPseudo, pseudoHeader, List.length_append, length_slice, List.length_cons, List.length_nil, pseudoHLen]

/-- The sum over what the UDP checksum covers is the field and what the code adds up. -/
theorem sum_udpCoveredBytes {udp : ℕ} (long : udpHLen ≤ udpTotal frame udp) :
    OnesComplement.sum order (udpCoveredBytes frame udp) =
      OnesComplement.sum order (udpPseudo frame udp) +
        OnesComplement.sum order (slice frame (udp + udpHLen) (udpTotal frame udp - udpHLen)) +
        (udpChecksumField frame order udp).toNat := by
  have datagram : slice frame udp (udpTotal frame udp) = slice frame udp 4 ++ slice frame (udp + 4) 2 ++
      slice frame (udp + 6) 2 ++ slice frame (udp + udpHLen) (udpTotal frame udp - udpHLen) := by
    have length : udpTotal frame udp = 4 + 2 + 2 + (udpTotal frame udp - udpHLen) := by
      rw [udpHLen] at long ⊢
      omega
    conv_lhs => rw [length, slice_add, slice_add, slice_add]
    rfl
  have field : OnesComplement.sum order (slice frame (udp + 6) 2) = (udpChecksumField frame order udp).toNat :=
    sum_slice_succ order frame (udp + 6) 0
  have end_zero : OnesComplement.sum order [0, 0] = 0 := by cases order <;> rfl
  rw [udpCoveredBytes, datagram, udpPseudo, pseudoHeader, ← field]
  simp only [List.append_assoc]
  simp only [OnesComplement.sum_append, length_slice, List.length_cons, List.length_nil, end_zero]
  omega

/-- The length field keeps the sum from being zero. -/
theorem sum_udpPseudo_ne_zero {udp : ℕ} (long : udpHLen ≤ udpTotal frame udp) :
    OnesComplement.sum order (udpPseudo frame udp) ≠ 0 := by
  intro zero
  have bytes := (OnesComplement.sum_eq_zero order).mp zero
  have high : frame (udp + 4) = 0 := by
    apply bytes
    simp only [udpPseudo, pseudoHeader, slice_succ, List.mem_append, List.mem_cons, true_or, or_true]
  have low : frame (udp + 4 + 1) = 0 := by
    apply bytes
    simp only [udpPseudo, pseudoHeader, slice_succ, List.mem_append, List.mem_cons, true_or, or_true]
  have total : udpTotal frame udp = 0 := by
    rw [udpTotal, ByteOrder.toNat_load16, high, low]
    rfl
  rw [total, udpHLen] at long
  omega

/-- The checksum the code computes of a datagram that has one. -/
theorem toNat_udpSum {udp : ℕ} (stored : udpChecksumField frame order udp ≠ 0) :
    (udpSum frame order udp).toNat = 65535 - OnesComplement.fold (OnesComplement.sum order (udpPseudo frame udp) +
      OnesComplement.sum order (slice frame (udp + udpHLen) (udpTotal frame udp - udpHLen))) := by
  have small : udpTotal frame udp < 65536 := (ByteOrder.big.load16 frame (udp + 4)).isLt
  rw [udpSum, if_neg stored, toNat_checksumUdp order frame (length_udpPseudo udp) (by omega)]
  congr 5
  rcases Nat.mod_two_eq_zero_or_one (udpTotal frame udp - udpHLen) with even | odd
  · simp only [even, zero_ne_one, decide_false, Bool.toNat_false]
    omega
  · simp only [odd, decide_true, Bool.toNat_true]
    omega

/-- The field is there in the one order exactly if it is in the other. -/
theorem udpChecksumField_eq_zero (udp : ℕ) :
    udpChecksumField frame order udp = 0 ↔ ByteOrder.big.load16 frame (udp + 6) = 0 := by
  have zero : (0 : BitVec 16).toNat = 0 := rfl
  rw [udpChecksumField, ← BitVec.toNat_inj, ← BitVec.toNat_inj, ByteOrder.toNat_load16, ByteOrder.toNat_load16, zero]
  cases order with
  | little =>
    simp only
    omega
  | big => rfl

/-- The UDP tests are right. -/
theorem udpPasses_iff_valid (udp : ℕ) : UdpPasses frame order udp ↔ UdpValid frame udp := by
  unfold UdpPasses UdpValid
  refine and_congr_right fun long => ?_
  have present : udpChecksumField frame order udp = 0 ↔ ByteOrder.big.load16 frame (udp + 6) = 0 :=
    udpChecksumField_eq_zero udp
  rw [← present]
  by_cases stored : udpChecksumField frame order udp = 0
  · rw [udpSum, if_pos stored, stored]
    simp
  have computed := toNat_udpSum stored
  have someBits : OnesComplement.sum order (udpPseudo frame udp) ≠ 0 := sum_udpPseudo_ne_zero long
  have inRange : (udpChecksumField frame order udp).toNat ≤ 65535 :=
    Nat.le_of_lt_succ (udpChecksumField frame order udp).isLt
  rw [or_iff_right stored, ← OnesComplement.valid_sum order, sum_udpCoveredBytes long]
  have nonzero : OnesComplement.sum order (udpPseudo frame udp) +
      OnesComplement.sum order (slice frame (udp + udpHLen) (udpTotal frame udp - udpHLen)) ≠ 0 := by omega
  generalize OnesComplement.sum order (udpPseudo frame udp) +
    OnesComplement.sum order (slice frame (udp + udpHLen) (udpTotal frame udp - udpHLen)) = rest at computed nonzero ⊢
  by_cases ones : udpChecksumField frame order udp = 0xffff
  · -- all ones are taken for zero: the rest has to be right without them
    have value : (udpChecksumField frame order udp).toNat = 65535 := by rw [ones]; rfl
    have le := OnesComplement.fold_le rest
    have zero : (0 : BitVec 16).toNat = 0 := rfl
    rw [if_pos ones, ← BitVec.toNat_inj, computed, value, zero, OnesComplement.valid_iff]
    have valid : OnesComplement.Valid rest ↔ rest ≠ 0 ∧ rest % 65535 = 0 := OnesComplement.valid_iff
    unfold OnesComplement.Valid at valid
    omega
  · have notOnes : (udpChecksumField frame order udp).toNat ≠ 65535 := by
      intro value
      exact ones (BitVec.eq_of_toNat_eq value)
    rw [if_neg ones, ← BitVec.toNat_inj, computed, eq_comm, OnesComplement.eq_complement_iff inRange,
      and_iff_left fun both => notOnes both.1]

end Frame

section Built

variable (order : ByteOrder) (packet : Outgoing) (old : Buffer)

/-- The bytes of an IP header before its checksum. -/
private def ipHead (length : ℕ) : List Byte :=
  [0x45, ipTosDscpEf] ++ be16 (BitVec.ofNat 16 (20 + length)) ++ order.bytes16 packet.pktId ++ be16 0x4000#16 ++
    [64, ipUdpProtocol]

private theorem ipHeader_split (length : ℕ) (field : List Byte) :
    ipHeader order packet.dest packet.src length ipUdpProtocol packet.pktId field =
      ipHead order packet length ++ field ++ (be32 packet.src ++ be32 packet.dest) := by
  simp only [ipHeader, ipHead, List.append_assoc]

theorem length_bytes16 (half : BitVec 16) : (order.bytes16 half).length = 2 := by cases order <;> rfl

private theorem length_ipHead (length : ℕ) : (ipHead order packet length).length = 10 := by
  simp only [ipHead, be16, List.length_append, List.length_cons, List.length_nil, length_bytes16]

private theorem length_makeEther : (makeEther packet.etherDest packet.etherSrc).length = etherHLen := by
  simp only [makeEther, List.length_append, packet.etherDest_length, packet.etherSrc_length, List.length_cons,
    List.length_nil, etherHLen]

private theorem length_ipHeader (length : ℕ) {field : List Byte} (two : field.length = 2) :
    (ipHeader order packet.dest packet.src length ipUdpProtocol packet.pktId field).length = ipHLen := by
  simp only [ipHeader_split, List.length_append, length_ipHead, length_be32, two, ipHLen]

theorem length_ip : (packet.ip order).length = ipHLen := by
  rw [Outgoing.ip, makeIp, length_ipHeader order packet _ (length_bytes16 order _)]

theorem length_udp : (packet.udp order).length = udpHLen := by
  simp only [Outgoing.udp, makeUdp, be16, List.length_append, length_bytes16, udpHLen]

/-- Where the headers and the payload of a built frame are. -/
theorem slice_ip : slice (overlay (packet.bytes order) old) etherHLen ipHLen = packet.ip order := by
  have part := slice_overlay (makeEther packet.etherDest packet.etherSrc) (packet.ip order)
    (packet.udp order ++ packet.payload) old
  rw [length_makeEther, length_ip] at part
  simpa only [Outgoing.bytes, List.append_assoc] using part

theorem slice_udp : slice (overlay (packet.bytes order) old) (etherHLen + ipHLen) udpHLen = packet.udp order := by
  have part := slice_overlay (makeEther packet.etherDest packet.etherSrc ++ packet.ip order) (packet.udp order)
    packet.payload old
  rw [List.length_append, length_makeEther, length_ip, length_udp] at part
  exact part

theorem slice_payload : slice (overlay (packet.bytes order) old) (etherHLen + ipHLen + udpHLen) packet.payload.length =
    packet.payload := by
  have part := slice_overlay (makeEther packet.etherDest packet.etherSrc ++ packet.ip order ++ packet.udp order)
    packet.payload [] old
  rw [List.length_append, List.length_append, length_makeEther, length_ip, length_udp, List.append_nil] at part
  exact part

theorem ipIhl_built : Frame.ipIhl (overlay (packet.bytes order) old) = 5 := by
  have first : (slice (overlay (packet.bytes order) old) etherHLen ipHLen).getD 0 0 = 0x45 := by
    rw [slice_ip]
    rfl
  rw [getD_slice _ _ (by decide)] at first
  rw [Frame.ipIhl]
  exact congrArg (fun byte : Byte => (byte &&& 0x0f#8).toNat) first

/-- The IP header of a built frame passes. -/
theorem ipPasses_built : Frame.IpPasses (overlay (packet.bytes order) old) order := by
  have stored : slice (overlay (packet.bytes order) old) (etherHLen + 10) 2 = order.bytes16 (checksum order
      (overlay (ipHeader order packet.dest packet.src (udpHLen + packet.payload.length) ipUdpProtocol packet.pktId
        [0, 0]) fun _ => 0) 0 (ipHLen / 2) false) := by
    rw [slice_slice _ _ (show 10 + 2 ≤ ipHLen by decide), slice_ip, Outgoing.ip, makeIp, ipHeader_split,
      List.append_assoc, List.drop_left' (length_ipHead order packet _), List.take_left' (length_bytes16 order _)]
  have cleared : slice (storeAt (overlay (packet.bytes order) old) 24 [0, 0]) etherHLen ipHLen =
      ipHeader order packet.dest packet.src (udpHLen + packet.payload.length) ipUdpProtocol packet.pktId [0, 0] := by
    have before : (makeEther packet.etherDest packet.etherSrc ++
        ipHead order packet (udpHLen + packet.payload.length)).length = 24 := by
      rw [List.length_append, length_makeEther, length_ipHead, etherHLen]
    have replaced := storeAt_overlay (makeEther packet.etherDest packet.etherSrc ++
      ipHead order packet (udpHLen + packet.payload.length)) (order.bytes16 (checksum order
        (overlay (ipHeader order packet.dest packet.src (udpHLen + packet.payload.length) ipUdpProtocol packet.pktId
          [0, 0]) fun _ => 0) 0 (ipHLen / 2) false))
      (be32 packet.src ++ be32 packet.dest ++ packet.udp order ++ packet.payload)
      (show [0, 0].length = _ by rw [length_bytes16]; rfl) old
    have part := slice_overlay (makeEther packet.etherDest packet.etherSrc)
      (ipHeader order packet.dest packet.src (udpHLen + packet.payload.length) ipUdpProtocol packet.pktId [0, 0])
      (packet.udp order ++ packet.payload) old
    rw [length_makeEther, length_ipHeader order packet _ rfl] at part
    rw [before] at replaced
    simp only [Outgoing.bytes, Outgoing.ip, makeIp, ipHeader_split, List.append_assoc] at part replaced ⊢
    rw [replaced, part]
  have whole (header : List Byte) (length : header.length = ipHLen) :
      slice (overlay header fun _ => 0) 0 ipHLen = header := by
    have part := slice_overlay [] header [] fun _ => 0
    rwa [List.nil_append, List.append_nil, length] at part
  have atChecksum : etherHLen + 10 = 24 := rfl
  rw [atChecksum] at stored
  rw [Frame.IpPasses, Frame.ipChecksum, ByteOrder.load16_bytes16 order _ stored, Frame.ipHeaderSum, ipIhl_built]
  apply checksum_congr order (by decide)
  exact (whole _ (length_ipHeader order packet _ rfl)).trans cleared.symm

/-- The length field of a built frame. -/
theorem slice_udpLength : slice (overlay (packet.bytes order) old) (etherHLen + ipHLen + 4) 2 =
    be16 (BitVec.ofNat 16 (packet.payload.length + udpHLen)) := by
  rw [slice_slice _ _ (show 4 + 2 ≤ udpHLen by decide), slice_udp]
  rfl

theorem udpTotal_built : Frame.udpTotal (overlay (packet.bytes order) old) (etherHLen + ipHLen) =
    packet.payload.length + udpHLen := by
  have fits := packet.fits
  rw [Frame.udpTotal, ByteOrder.load16_bytes16 .big _ (slice_udpLength order packet old), BitVec.toNat_ofNat,
    Nat.mod_eq_of_lt (by rw [ipHLen] at fits; omega)]

/-- The checksum of a built frame. -/
theorem udpChecksumField_built :
    Frame.udpChecksumField (overlay (packet.bytes order) old) order (etherHLen + ipHLen) =
      udpChecksum order packet.destPort packet.srcPort packet.payload.length (packet.ip order) packet.payload := by
  apply ByteOrder.load16_bytes16 order
  rw [slice_slice _ _ (show 6 + 2 ≤ udpHLen by decide), slice_udp]
  cases order <;> rfl

/-- The pseudo header `process_udp` fills in is the one `make_udp` has filled in. -/
theorem udpPseudo_built : Frame.udpPseudo (overlay (packet.bytes order) old) (etherHLen + ipHLen) =
    pseudoHeader (((packet.ip order).drop 12).take 8) ((packet.ip order).getD 9 0)
      (be16 packet.srcPort ++ be16 packet.destPort) (be16 (BitVec.ofNat 16 (packet.payload.length + udpHLen))) := by
  have addresses : slice (overlay (packet.bytes order) old) (etherHLen + 12) 8 =
      ((packet.ip order).drop 12).take 8 := by
    rw [slice_slice _ _ (show 12 + 8 ≤ ipHLen by decide), slice_ip]
  have protocol : overlay (packet.bytes order) old (etherHLen + 9) = (packet.ip order).getD 9 0 := by
    rw [← slice_ip order packet old, getD_slice _ _ (by decide)]
  have ports : slice (overlay (packet.bytes order) old) (etherHLen + ipHLen) 4 =
      be16 packet.srcPort ++ be16 packet.destPort := by
    have part := slice_slice (overlay (packet.bytes order) old) (etherHLen + ipHLen) (show 0 + 4 ≤ udpHLen by decide)
    rw [slice_udp, Nat.add_zero] at part
    rw [part]
    rfl
  rw [← addresses, ← protocol, ← ports, ← slice_udpLength order packet old]
  rfl

/-- The sum over a built datagram, before zero is sent as all ones. -/
private def builtSum : BitVec 16 :=
  checksumUdp order (pseudoHeader (((packet.ip order).drop 12).take 8) ((packet.ip order).getD 9 0)
      (be16 packet.srcPort ++ be16 packet.destPort) (be16 (BitVec.ofNat 16 (packet.payload.length + udpHLen))))
    (overlay packet.payload fun _ => 0) 0 (packet.payload.length / 2 : ℕ) (packet.payload.length % 2 = 1)

private theorem udpChecksum_eq :
    udpChecksum order packet.destPort packet.srcPort packet.payload.length (packet.ip order) packet.payload =
      if builtSum order packet = 0 then 0xffff else builtSum order packet := rfl

theorem udpChecksum_ne_zero :
    udpChecksum order packet.destPort packet.srcPort packet.payload.length (packet.ip order) packet.payload ≠ 0 := by
  rw [udpChecksum_eq]
  split
  · decide
  · assumption

/-- `process_udp` computes of a built frame what `make_udp` has computed. -/
private theorem udpSum_built :
    Frame.udpSum (overlay (packet.bytes order) old) order (etherHLen + ipHLen) = builtSum order packet := by
  have pseudoLength : (Frame.udpPseudo (overlay (packet.bytes order) old) (etherHLen + ipHLen)).length = pseudoHLen :=
    Frame.length_udpPseudo _
  have fits := packet.fits
  have covered : 2 * (packet.payload.length / 2) + (decide (packet.payload.length % 2 = 1)).toNat =
      packet.payload.length := by
    rcases Nat.mod_two_eq_zero_or_one packet.payload.length with even | odd
    · simp only [even, zero_ne_one, decide_false, Bool.toNat_false]
      omega
    · simp only [odd, decide_true, Bool.toNat_true]
      omega
  have whole : slice (overlay packet.payload fun _ => 0) 0 packet.payload.length = packet.payload := by
    have part := slice_overlay [] packet.payload [] fun _ => 0
    rwa [List.nil_append, List.append_nil] at part
  rw [Frame.udpSum, udpChecksumField_built, if_neg (udpChecksum_ne_zero order packet), udpTotal_built,
    Nat.add_sub_cancel, builtSum, ← udpPseudo_built order packet old]
  apply checksumUdp_congr order pseudoLength (by omega)
  rw [covered, whole, slice_payload]

/-- The UDP datagram of a built frame passes. -/
theorem udpPasses_built : Frame.UdpPasses (overlay (packet.bytes order) old) order (etherHLen + ipHLen) := by
  have long : udpHLen ≤ Frame.udpTotal (overlay (packet.bytes order) old) (etherHLen + ipHLen) := by
    rw [udpTotal_built]
    exact Nat.le_add_left _ _
  have field := udpChecksumField_built order packet old
  have stored : Frame.udpChecksumField (overlay (packet.bytes order) old) order (etherHLen + ipHLen) ≠ 0 := by
    rw [field]
    exact udpChecksum_ne_zero order packet
  have value := Frame.toNat_udpSum stored
  rw [udpSum_built] at value
  have notOnes : builtSum order packet ≠ 0xffff := by
    intro ones
    have someBits : OnesComplement.sum order (Frame.udpPseudo (overlay (packet.bytes order) old) (etherHLen + ipHLen))
      ≠ 0 := Frame.sum_udpPseudo_ne_zero long
    have all : (builtSum order packet).toNat = 65535 := by rw [ones]; rfl
    have folded := OnesComplement.fold_eq_zero.not.mpr (Nat.ne_of_gt (Nat.add_pos_left (Nat.pos_of_ne_zero someBits)
      (OnesComplement.sum order (slice (overlay (packet.bytes order) old) (etherHLen + ipHLen + udpHLen)
        (Frame.udpTotal (overlay (packet.bytes order) old) (etherHLen + ipHLen) - udpHLen)))))
    omega
  refine ⟨long, ?_⟩
  rw [udpSum_built, field, udpChecksum_eq]
  by_cases zero : builtSum order packet = 0
  · rw [if_pos zero, if_pos rfl, zero]
  · rw [if_neg zero, if_neg notOnes]

end Built

/-- What a machine builds passes its own tests, whatever was in the receive buffer; and a received datagram passes
them exactly if its sums are right, provided an IP checksum that is all ones is not a second zero and a header of
less than three words does not end before its checksum. -/
theorem packets_pass_iff_valid (order : ByteOrder) :
    (∀ (packet : Outgoing) (old : Buffer), Frame.IpPasses (overlay (packet.bytes order) old) order ∧
      Frame.UdpPasses (overlay (packet.bytes order) old) order (Frame.ipData (overlay (packet.bytes order) old))) ∧
    ∀ frame : Buffer,
      ((Frame.IpPasses frame order ∧ Frame.UdpPasses frame order (Frame.ipData frame)) ↔
        (Frame.IpValid frame ∧ Frame.UdpValid frame (Frame.ipData frame))) ↔
      (Frame.UdpValid frame (Frame.ipData frame) → Frame.IpUnambiguous frame order) := by
  constructor
  · intro packet old
    have udp : Frame.ipData (overlay (packet.bytes order) old) = etherHLen + ipHLen := by
      rw [Frame.ipData, ipIhl_built]
      rfl
    rw [udp]
    exact ⟨ipPasses_built order packet old, udpPasses_built order packet old⟩
  · intro frame
    have header : (Frame.IpPasses frame order ↔ Frame.IpValid frame) ↔ Frame.IpUnambiguous frame order :=
      Frame.ipPasses_iff_valid
    rw [Frame.udpPasses_iff_valid, ← header]
    exact and_congr_left_iff

/-- A datagram with its IP checksum sent as all ones in place of zero. -/
def allOnesFrame : List Byte :=
  [0x02, 0, 0, 0, 0, 0x01, 0x02, 0, 0, 0, 0, 0x02, 0x08, 0x00,
    0x45, 0x00, 0x00, 0x28, 0x00, 0x00, 0x40, 0x00, 0x40, 0x11, 0xff, 0xff, 0x0a, 0x00, 0x00, 0x01, 0x0a, 0x00, 0x26, 0xc5,
    0x7a, 0x51, 0x7a, 0x51, 0x00, 0x14, 0x00, 0x00, 0x56, 0x45, 0x52, 0x53, 0, 0, 0, 0, 0, 0, 0, 0]

/-- Both its sums are right and it is dropped. -/
theorem valid_packet_dropped : ¬ ∀ (order : ByteOrder) (frame : Buffer),
    (Frame.IpPasses frame order ∧ Frame.UdpPasses frame order (Frame.ipData frame)) ↔
      (Frame.IpValid frame ∧ Frame.UdpValid frame (Frame.ipData frame)) := by
  intro equivalent
  have header : OnesComplement.Valid (OnesComplement.sum .big (Frame.ipHeaderBytes (overlay allOnesFrame fun _ => 0))) := by
    decide +kernel
  have datagram : Frame.UdpValid (overlay allOnesFrame fun _ => 0) (Frame.ipData (overlay allOnesFrame fun _ => 0)) :=
    ⟨by decide +kernel, .inl (by decide +kernel)⟩
  have accepted := (equivalent .little (overlay allOnesFrame fun _ => 0)).mpr ⟨header, datagram⟩
  exact absurd accepted.1 (by decide +kernel)

end KosTool.Client
