import KosTool.Model.Protocol

/-! # The host's duplicate-request cache

`host/src/dedup.c`: one slot of captured response packets, overwritten in place by the next capture
and committed by sequence id and count at its end. `admission` is the block of `do_network_console` that
decides what becomes of a received request. Times are the 64-bit microseconds of `time_usec`.
-/

namespace KosTool.Host

open ByteWord Protocol

abbrev Usec := BitVec 64

def dedupWindowUsec : Usec := 3000000
def dedupMaxPackets : ℕ := 64
def dedupMaxPktBytes : ℕ := 2048

/-- The cache; a packet's length is that of its bytes. -/
structure Dedup where
  seq : Word
  capturedAtUs : Usec
  packets : ℕ → List Byte
  packetCount : ℕ
  valid : Bool
  capturing : Bool
  captureSeq : Word
  captureCount : ℕ

namespace Dedup

/-- The cache as the program starts. -/
def start : Dedup where
  seq := 0
  capturedAtUs := 0
  packets _ := []
  packetCount := 0
  valid := false
  capturing := false
  captureSeq := 0
  captureCount := 0

/-- `dedup_extract_seq` on the first `length` bytes of a buffer. -/
def extractSeq (buffer : Buffer) (length : ℕ) : Option Word :=
  if length < netSeqTrailerLen then none
  else if readBe32 buffer (length - netSeqTrailerLen) ≠ netSeqMagic then none
  else some (readBe32 buffer (length - netSeqTrailerLen + netSeqMagicLen))

/-- The sequence id at the end of a request is found. -/
theorem extractSeq_append (buffer : Buffer) (request : List Byte) (seq : Word) :
    extractSeq (storeAt buffer 0 (request ++ seqTrailer seq)) (request ++ seqTrailer seq).length = some seq := by
  have length : (request ++ seqTrailer seq).length = request.length + 8 := by
    rw [List.length_append, length_seqTrailer]
    rfl
  have wire : request ++ seqTrailer seq = request ++ be32 netSeqMagic ++ be32 seq := by rw [seqTrailer, List.append_assoc]
  have magic := readBe32_overlay request (be32 seq) netSeqMagic fun j => buffer (0 + j)
  have id := readBe32_overlay (request ++ be32 netSeqMagic) [] seq fun j => buffer (0 + j)
  have magicAt : readBe32 (storeAt buffer 0 (request ++ seqTrailer seq)) (0 + request.length) = netSeqMagic := by
    rw [readBe32_storeAt, wire]
    exact magic
  have idAt : readBe32 (storeAt buffer 0 (request ++ seqTrailer seq)) (0 + (request.length + 4)) = seq := by
    rw [readBe32_storeAt, wire]
    simpa only [List.append_nil, List.length_append, length_be32] using id
  rw [Nat.zero_add] at magicAt idAt
  rw [extractSeq, length]
  simp only [netSeqTrailerLen, netSeqMagicLen, Nat.add_sub_cancel, magicAt, idAt, ne_eq, not_true_eq_false, if_false]
  rw [if_neg (by omega)]

/-- `dedup_try_replay`: the packets it sends again, if it returns 1. -/
def tryReplay (dedup : Dedup) (seq : Word) (now : Usec) : Option (List (List Byte)) :=
  if ¬ dedup.valid ∨ seq ≠ dedup.seq then none
  else if dedupWindowUsec < now - dedup.capturedAtUs then none
  else some ((List.range dedup.packetCount).map dedup.packets)

/-- `dedup_is_stale`. -/
def isStale (dedup : Dedup) (seq : Word) : Bool := dedup.valid && decide ((seq - dedup.seq).toInt ≤ 0)

/-- `dedup_begin_capture`. -/
def beginCapture (dedup : Dedup) (seq : Word) (now : Usec) : Dedup :=
  { dedup with capturing := true, captureSeq := seq, captureCount := 0, capturedAtUs := now }

/-- `dedup_capture_pkt`. -/
def capturePkt (dedup : Dedup) (packet : List Byte) : Dedup :=
  if ¬ dedup.capturing ∨ packet.length = 0 then dedup
  else if dedupMaxPackets ≤ dedup.captureCount then dedup
  else if dedupMaxPktBytes < packet.length then dedup
  else
    { dedup with
      packets := Function.update dedup.packets dedup.captureCount packet
      captureCount := dedup.captureCount + 1 }

/-- `dedup_end_capture`. -/
def endCapture (dedup : Dedup) : Dedup :=
  if ¬ dedup.capturing then dedup
  else
    { dedup with
      seq := dedup.captureSeq
      packetCount := dedup.captureCount
      valid := true
      capturing := false }

/-- What becomes of a request: its answer is sent again, it is dropped, or it is dispatched. -/
inductive Admission where
  | replayed (packets : List (List Byte))
  | dropped
  | dispatched

/-- The dedup block of `do_network_console` for a request with a trailer. -/
def admission (dedup : Dedup) (seq : Word) (now : Usec) : Admission × Dedup :=
  match dedup.tryReplay seq now with
  | some packets => (.replayed packets, dedup)
  | none =>
    if dedup.isStale seq then (.dropped, dedup) else (.dispatched, dedup.beginCapture seq now)

end Dedup

end KosTool.Host
