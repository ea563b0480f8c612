import KosTool.Model.Ps2.SmapTx
import Mathlib.Tactic.SplitIfs

/-! # The transmit FIFO and its descriptors

The frames of the descriptors that are not taken back stand in the FIFO one behind the other, each in a multiple of four
bytes; the free size is what they leave of the FIFO, so that the next frame is written behind them and over none of them.
-/

namespace KosTool.Ps2

open ByteWord RingStore Machine

theorem le_txLen (length : ℕ) : length ≤ txLen length := by
  rw [txLen]
  omega

/-- A frame as it stands in the FIFO. -/
def fifoItem (frame : List Byte) : Item where
  bytes := frame ++ List.replicate (txLen frame.length - frame.length) 0
  size := txLen frame.length
  fits := by
    have rounded := le_txLen frame.length
    rw [List.length_append, List.length_replicate]
    omega

/-- The write pointer of the FIFO. -/
theorem fifo_pointer {offset : ℕ} (inside : offset < smapTxBufSize) (aligned : offset % 4 = 0) :
    (smapTxBufBase + offset) &&& 0x0FFC = offset := by
  have words : ∀ word < 1024, (4096 + 4 * word) &&& 0x0FFC = 4 * word := by decide +kernel
  have whole : offset = 4 * (offset / 4) := by omega
  rw [whole]
  apply words
  simp only [smapTxBufSize] at inside
  omega

namespace SmapTx

/-- The descriptors that are not taken back, oldest first. -/
def usedBd (tx : SmapTx) (k : ℕ) : TxBd := tx.txBds ((tx.txbdi + k) % smapBdMaxEntry)

/-- Their frames. -/
def inFlight (tx : SmapTx) : List (List Byte) :=
  (tx.written.map Prod.snd).drop (tx.written.length - tx.txbdusedcnt)

/-- The FIFO from the place on where the oldest frame starts. -/
structure Fills (tx : SmapTx) (start : ℕ) : Prop where
  used : tx.txbdusedcnt ≤ tx.written.length
  few : tx.txbdusedcnt ≤ smapBdMaxEntry - 1
  oldest : tx.txbdi < smapBdMaxEntry
  behind : tx.txbds = (tx.txbdi + tx.txbdusedcnt) % smapBdMaxEntry
  described : ∀ k frame, tx.inFlight[k]? = some frame →
    (tx.usedBd k).length = BitVec.ofNat 16 frame.length ∧
      (tx.usedBd k).pointer = BitVec.ofNat 16
        (smapTxBufBase + (start + taken ((tx.inFlight.take k).map fifoItem)) % smapTxBufSize)
  small : ∀ frame ∈ tx.inFlight, frame.length ≤ smapTxMaxSize
  free : tx.txfreebufsize + taken (tx.inFlight.map fifoItem) = smapTxBufSize
  write : tx.txbwp = smapTxBufBase + (start + taken (tx.inFlight.map fifoItem)) % smapTxBufSize
  aligned : start % 4 = 0
  laid : RingStore.Laid smapTxBufSize tx.fifo start (tx.inFlight.map fifoItem)

/-- The free size is what the frames of the descriptors that are not taken back leave of the FIFO, and each of them
stands there as it was written. -/
structure FifoRight (tx : SmapTx) : Prop where
  free : tx.txfreebufsize + ((List.range tx.txbdusedcnt).map fun k => txLen (tx.usedBd k).length.toNat).sum =
    smapTxBufSize
  kept : ∀ k frame, tx.inFlight[k]? = some frame →
    slice (around smapTxBufSize tx.fifo (tx.usedBd k).pointer.toNat) 0 frame.length = frame

section Fifo

variable {tx next : SmapTx} {start : ℕ} {frame : List Byte}

theorem initial_fills : initial.Fills 0 where
  used := le_rfl
  few := by decide
  oldest := by decide
  behind := by decide
  described := nofun
  small := nofun
  free := rfl
  write := rfl
  aligned := rfl
  laid := trivial

theorem Fills.length_inFlight (fills : tx.Fills start) : tx.inFlight.length = tx.txbdusedcnt := by
  have used := fills.used
  rw [inFlight, List.length_drop, List.length_map]
  omega

theorem taken_aligned (frames : List (List Byte)) : taken (frames.map fifoItem) % 4 = 0 := by
  induction frames with
  | nil => rfl
  | cons frame rest ih =>
    rw [List.map_cons, taken_cons]
    change (txLen frame.length + _) % 4 = 0
    rw [txLen]
    omega

/-- A frame stands where the frames before it end. -/
theorem laid_at_place {memory : Buffer} {frames : List (List Byte)} {k : ℕ}
    (laid : RingStore.Laid smapTxBufSize memory start (frames.map fifoItem)) (at_k : frames[k]? = some frame) :
    slice (around smapTxBufSize memory (start + taken ((frames.take k).map fifoItem))) 0 frame.length = frame := by
  induction frames generalizing start k with
  | nil => cases at_k
  | cons first rest ih =>
    obtain ⟨here, behind⟩ := laid
    cases k with
    | zero =>
      cases at_k
      rw [List.take_zero, List.map_nil, taken_nil, Nat.add_zero]
      have rounded : (fifoItem frame).bytes = frame ++ List.replicate (txLen frame.length - frame.length) 0 := rfl
      rw [rounded, List.length_append, slice_add] at here
      exact (List.append_inj here (length_slice _ _ _)).1
    | succ k =>
      have later := ih behind at_k
      rw [List.take_succ_cons, List.map_cons, taken_cons, ← Nat.add_assoc]
      exact later

theorem Fills.right (fills : tx.Fills start) : tx.FifoRight where
  free := by
    have lengths : (List.range tx.txbdusedcnt).map (fun k => txLen (tx.usedBd k).length.toNat) =
        (tx.inFlight.map fifoItem).map Item.size := by
      apply List.ext_getElem
      · simp only [List.length_map, List.length_range, fills.length_inFlight]
      · intro k left right
        simp only [List.length_map, List.length_range] at left right
        have at_k := List.getElem?_eq_getElem right
        have small := fills.small _ (List.getElem_mem right)
        change _ ≤ 1514 at small
        simp only [List.getElem_map, List.getElem_range, (fills.described k _ at_k).1]
        change txLen _ = txLen _
        rw [BitVec.toNat_ofNat, Nat.mod_eq_of_lt (by omega)]
    rw [lengths]
    exact fills.free
  kept k frame at_k := by
    have pointer : (tx.usedBd k).pointer.toNat % smapTxBufSize =
        (start + taken ((tx.inFlight.take k).map fifoItem)) % smapTxBufSize := by
      rw [(fills.described k frame at_k).2, BitVec.toNat_ofNat]
      simp only [smapTxBufBase, smapTxBufSize]
      omega
    rw [← around_mod, pointer, around_mod]
    exact laid_at_place fills.laid at_k

/-- What is of no matter to the FIFO may change, and a descriptor may be done. -/
theorem Fills.of_same (fills : tx.Fills start) (written : next.written = tx.written)
    (used : next.txbdusedcnt = tx.txbdusedcnt) (bdi : next.txbdi = tx.txbdi) (bds : next.txbds = tx.txbds)
    (lengths : ∀ idx, (next.txBds idx).length = (tx.txBds idx).length ∧ (next.txBds idx).pointer = (tx.txBds idx).pointer)
    (free : next.txfreebufsize = tx.txfreebufsize) (write : next.txbwp = tx.txbwp) (fifo : next.fifo = tx.fifo) :
    next.Fills start := by
  have flight : next.inFlight = tx.inFlight := by rw [inFlight, inFlight, written, used]
  refine ⟨by rw [written, used]; exact fills.used, by rw [used]; exact fills.few, by rw [bdi]; exact fills.oldest,
    by rw [bds, bdi, used]; exact fills.behind, fun k frame at_k => ?_, by rw [flight]; exact fills.small,
    by rw [free, flight]; exact fills.free, by rw [write, flight]; exact fills.write, fills.aligned,
    by rw [fifo, flight]; exact fills.laid⟩
  rw [flight] at at_k ⊢
  rw [usedBd, bdi, (lengths _).1, (lengths _).2]
  exact fills.described k frame at_k

theorem smapBdNext_eq {idx : ℕ} (inside : idx < smapBdMaxEntry) : smapBdNext idx = (idx + 1) % smapBdMaxEntry := by
  simp only [smapBdMaxEntry] at inside
  simp only [smapBdNext, smapBdMaxEntry]
  split_ifs <;> omega

/-- What `smap_iop_send` does. -/
structure Sends (tx : SmapTx) (frame : List Byte) (next : SmapTx) : Prop where
  small : frame.length ≤ smapTxMaxSize
  room : txLen frame.length ≤ tx.txfreebufsize
  few : tx.txbdusedcnt < smapBdMaxEntry - 1
  fifo : next.fifo = put smapTxBufSize tx.fifo (tx.txbwp &&& 0x0FFC) (fifoItem frame).bytes
  free : next.txfreebufsize = tx.txfreebufsize - txLen frame.length
  bds : next.txBds = Function.update tx.txBds tx.txbds
    ⟨0x8300, BitVec.ofNat 16 frame.length, BitVec.ofNat 16 tx.txbwp⟩
  used : next.txbdusedcnt = tx.txbdusedcnt + 1
  write : next.txbwp = smapTxBufBase + (tx.txbwp + txLen frame.length) % smapTxBufSize
  behind : next.txbds = smapBdNext tx.txbds
  oldest : next.txbdi = tx.txbdi

theorem sends_of_smapIopSend {gnp : Bool} (sent : tx.smapIopSend frame gnp = some next) : tx.Sends frame next := by
  rw [smapIopSend] at sent
  split_ifs at sent with length room full ready stays
  cases sent
  rw [not_or, Nat.not_lt] at length
  exact ⟨length.1, Nat.not_lt.mp room, Nat.not_le.mp full, rfl, rfl, rfl, rfl, rfl, rfl, rfl⟩

/-- A frame is written behind those that are in flight. -/
theorem Fills.send (fills : tx.Fills start) (sends : tx.Sends frame next) {entry : ℕ × List Byte}
    (written : next.written = tx.written ++ [entry]) (same : entry.2 = frame) : next.Fills start := by
  obtain ⟨small, room, few, fifo, freed, bds, count, wrote, further, first⟩ := sends
  have used := fills.used
  have oldest := fills.oldest
  have behind := fills.behind
  have free := fills.free
  have write := fills.write
  have aligned := taken_aligned tx.inFlight
  have start_aligned := fills.aligned
  have counted := fills.length_inFlight
  have flight : next.inFlight = tx.inFlight ++ [frame] := by
    rw [inFlight, inFlight, written, count, List.map_append, List.length_append, List.length_singleton,
      Nat.add_sub_add_right, List.drop_append_of_le_length (by rw [List.length_map]; omega), List.map_singleton, same]
  have size : taken (next.inFlight.map fifoItem) = taken (tx.inFlight.map fifoItem) + txLen frame.length := by
    rw [flight, List.map_append, taken_append]
    rfl
  have pointer : tx.txbwp &&& 0x0FFC = (start + taken (tx.inFlight.map fifoItem)) % smapTxBufSize := by
    rw [write]
    apply fifo_pointer (Nat.mod_lt _ (by decide))
    simp only [smapTxBufSize]
    omega
  simp only [smapBdMaxEntry, smapTxBufSize, smapTxBufBase] at few oldest behind free write room
  refine ⟨?_, ?_, ?_, ?_, ?_, ?_, ?_, ?_, start_aligned, ?_⟩
  · rw [written, count, List.length_append, List.length_singleton]
    omega
  · rw [count]
    simp only [smapBdMaxEntry]
    omega
  · rw [first]
    exact oldest
  · rw [further, first, count, smapBdNext_eq (by simp only [smapBdMaxEntry]; omega), behind]
    simp only [smapBdMaxEntry]
    omega
  · intro k other at_k
    rw [flight] at at_k
    rw [usedBd, first, bds, flight]
    have below := (List.getElem?_eq_some_iff.mp at_k).1
    rw [List.length_append, List.length_singleton] at below
    rcases Nat.lt_or_ge k tx.inFlight.length with old | new
    · have apart : (tx.txbdi + k) % smapBdMaxEntry ≠ tx.txbds := by
        rw [behind]
        simp only [smapBdMaxEntry]
        omega
      rw [List.getElem?_append_left old] at at_k
      rw [Function.update_of_ne apart, List.take_append_of_le_length (Nat.le_of_lt old)]
      exact fills.described k other at_k
    · have last : k = tx.inFlight.length := by omega
      rw [last, List.getElem?_append_right le_rfl, Nat.sub_self] at at_k
      cases at_k
      rw [last, counted, ← fills.behind, Function.update_self, ← counted, List.take_left']
      · exact ⟨rfl, congrArg (BitVec.ofNat 16) fills.write⟩
      · rfl
  · intro other member
    rw [flight] at member
    rcases List.mem_append.mp member with old | new
    · exact fills.small other old
    · cases List.mem_singleton.mp new
      exact small
  · rw [size, freed]
    simp only [smapTxBufSize]
    omega
  · rw [wrote, size, fills.write]
    simp only [smapTxBufSize, smapTxBufBase]
    omega
  · rw [fifo, pointer, put_mod, flight, List.map_append]
    refine fills.laid.put_behind ?_
    change _ + txLen frame.length ≤ 4096
    omega

/-- The oldest descriptor is taken back. -/
theorem Fills.reclaim (fills : tx.Fills start) (some : 0 < tx.txbdusedcnt) : ∃ later, tx.reclaimBd.Fills later := by
  have used := fills.used
  have few := fills.few
  have oldest := fills.oldest
  have behind := fills.behind
  have free := fills.free
  have write := fills.write
  have start_aligned := fills.aligned
  have counted := fills.length_inFlight
  have laid := fills.laid
  obtain ⟨frame, rest, whole⟩ := List.exists_cons_of_ne_nil (List.ne_nil_of_length_pos (counted ▸ some))
  have flight : tx.reclaimBd.inFlight = rest := by
    have tail : (tx.written.map Prod.snd).drop (tx.written.length - tx.txbdusedcnt + 1) = rest := by
      rw [← List.tail_drop]
      exact congrArg List.tail whole
    rw [← tail, inFlight]
    change List.drop (tx.written.length - (tx.txbdusedcnt - 1)) _ = _
    congr 1
    omega
  have first := fills.described 0 frame (by rw [whole]; rfl)
  have small := fills.small frame (by rw [whole]; exact List.mem_cons_self)
  have length : (tx.txBds tx.txbdi).length.toNat = frame.length := by
    have here := first.1
    rw [usedBd, Nat.add_zero, Nat.mod_eq_of_lt oldest] at here
    simp only [smapTxMaxSize] at small
    rw [here, BitVec.toNat_ofNat, Nat.mod_eq_of_lt (by omega)]
  have size : taken (tx.inFlight.map fifoItem) = txLen frame.length + taken (rest.map fifoItem) := by
    rw [whole, List.map_cons, taken_cons]
    rfl
  have aligned : txLen frame.length % 4 = 0 := by
    rw [txLen]
    omega
  have further : tx.reclaimBd.txbdi = (tx.txbdi + 1) % smapBdMaxEntry := smapBdNext_eq oldest
  rw [size] at free write
  rw [whole] at laid
  simp only [smapBdMaxEntry] at few oldest behind
  refine ⟨start + txLen frame.length, ?_, ?_, ?_, ?_, ?_, ?_, ?_, ?_, ?_, ?_⟩
  · change tx.txbdusedcnt - 1 ≤ tx.written.length
    omega
  · change tx.txbdusedcnt - 1 ≤ _
    simp only [smapBdMaxEntry]
    omega
  · rw [further]
    exact Nat.mod_lt _ (by decide)
  · rw [further]
    change tx.txbds = (_ + (tx.txbdusedcnt - 1)) % _
    rw [behind]
    simp only [smapBdMaxEntry]
    omega
  · intro k other at_k
    rw [flight] at at_k
    have below := (List.getElem?_eq_some_iff.mp at_k).1
    have shorter : tx.inFlight.length = rest.length + 1 := by rw [whole, List.length_cons]
    have apart : (tx.reclaimBd.txbdi + k) % smapBdMaxEntry ≠ tx.txbdi := by
      rw [further]
      simp only [smapBdMaxEntry]
      omega
    have place : (tx.reclaimBd.txbdi + k) % smapBdMaxEntry = (tx.txbdi + (k + 1)) % smapBdMaxEntry := by
      rw [further]
      simp only [smapBdMaxEntry]
      omega
    have same : tx.reclaimBd.usedBd k = tx.usedBd (k + 1) := by
      rw [usedBd, usedBd, ← place]
      exact Function.update_of_ne apart _ _
    have there := fills.described (k + 1) other (by rw [whole]; exact at_k)
    rw [whole, List.take_succ_cons, List.map_cons, taken_cons, ← Nat.add_assoc] at there
    rw [same, flight]
    exact there
  · intro other member
    rw [flight] at member
    exact fills.small other (by rw [whole]; exact List.mem_cons_of_mem _ member)
  · rw [flight]
    change tx.txfreebufsize + txLen (tx.txBds tx.txbdi).length.toNat + _ = _
    rw [length, ← free]
    omega
  · rw [flight, Nat.add_assoc]
    exact write
  · omega
  · rw [flight]
    exact laid.2

end Fifo

end SmapTx

end KosTool.Ps2
