import KosTool.Math.Placement
import KosTool.Math.SlotTable
import KosTool.Soundness.TxSequence

/-! # The frames in the transmit slots

A slot holds a frame from when it is staged to when the pump is done with it: it is busy, or the handler has not counted
it yet. What was staged is in a slot, was written into the FIFO or was dropped, and a slot that holds a frame has its
bytes.
-/

namespace KosTool.Ps2

open ByteWord Machine
open scoped List

namespace SmapTx

/-- Whether a slot holds a frame that the pump is not done with. -/
def holds (tx : SmapTx) (slot : ℕ) : Bool := tx.txBusy slot || tx.eeTxSeq slot != tx.txSeq slot

/-- The frames in the slots. -/
def frameTable (tx : SmapTx) : List (Option ℕ) :=
  (List.range ps2SmapTxSlots).map fun slot => if tx.holds slot then some (tx.slotFrame slot) else none

/-- A slot has the bytes of its frame. -/
def Stored (tx : SmapTx) (slot : ℕ) : Prop :=
  ∃ frame, tx.sent[tx.slotFrame slot]? = some frame ∧ SentLength frame ∧
    slice tx.txData (slot * ps2SmapSlotSize) frame.length = frame

/-- The slots and what has gone through them. -/
structure Slots (tx : SmapTx) : Prop where
  once : (tx.written.map Prod.fst ++ tx.dropped ++ tx.frameTable.reduceOption).Perm (List.range tx.sent.length)
  unmodified : ∀ entry ∈ tx.written, tx.sent[entry.1]? = some entry.2
  counted : tx.dropped.length ≤ tx.txUnderruns
  inside : ∀ slot, tx.txBusy slot = true → slot < ps2SmapTxSlots
  stored : ∀ slot < ps2SmapTxSlots, tx.holds slot = true → tx.Stored slot
  lengths : ∀ slot frame, tx.txBusy slot = true → tx.sent[tx.slotFrame slot]? = some frame →
    tx.txSlotLen slot = BitVec.ofNat 32 frame.length
  entries : ∀ k entry, tx.pendingSubmits[k]? = some entry →
    tx.slotFrame entry.slot.toNat + tx.pendingSubmits.length = tx.sent.length + k ∧
      ∀ frame, tx.sent[tx.slotFrame entry.slot.toNat]? = some frame → entry.len = BitVec.ofNat 32 frame.length
  older : ∀ slot, tx.txBusy slot = true → tx.txClaimed slot = false →
    tx.slotFrame slot + tx.pendingSubmits.length < tx.sent.length

section Slots

variable {tx next : SmapTx} {slot : ℕ}

theorem initial_slots : initial.Slots where
  once := List.Perm.refl _
  unmodified := nofun
  counted := le_rfl
  inside := nofun
  stored := nofun
  lengths := nofun
  entries := nofun
  older := nofun

theorem frameTable_at (inside : slot < ps2SmapTxSlots) :
    tx.frameTable[slot]? = some (if tx.holds slot then some (tx.slotFrame slot) else none) := by
  rw [frameTable, List.getElem?_map, List.getElem?_range inside]
  rfl

theorem frameTable_outside (outside : ps2SmapTxSlots ≤ slot) : tx.frameTable[slot]? = none := by
  rw [frameTable, List.getElem?_eq_none]
  rw [List.length_map, List.length_range]
  exact outside

/-- One slot changes. -/
theorem frameTable_set (inside : slot < ps2SmapTxSlots)
    (others : ∀ other, other ≠ slot → next.holds other = tx.holds other ∧ next.slotFrame other = tx.slotFrame other) :
    next.frameTable = tx.frameTable.set slot (if next.holds slot then some (next.slotFrame slot) else none) := by
  apply List.ext_getElem?
  intro place
  by_cases same : place = slot
  · subst same
    rw [frameTable_at inside, List.getElem?_set_self]
    rw [frameTable, List.length_map, List.length_range]
    exact inside
  · rw [List.getElem?_set_ne (Ne.symm same)]
    rcases Nat.lt_or_ge place ps2SmapTxSlots with below | above
    · rw [frameTable_at below, frameTable_at below, (others place same).1, (others place same).2]
    · rw [frameTable_outside above, frameTable_outside above]

theorem frameTable_congr (same : ∀ slot, next.holds slot = tx.holds slot) (frames : next.slotFrame = tx.slotFrame) :
    next.frameTable = tx.frameTable := by
  rw [frameTable, frameTable, frames]
  simp only [same]

/-- Each entry of the queue is taken over by the handler or open, up to one place and from there on. -/
theorem Counts.split (counts : tx.Counts) : ∃ count, tx.Split count := by
  have progress := counts.progress
  rw [Progress] at progress
  cases here : tx.call with
  | batch caller =>
    rw [here] at progress
    have asked := progress.2
    cases there : tx.rpc with
    | asked batch | checking batch i | commit batch i | answered rc =>
      rw [there] at asked
      exact ⟨_, asked.2⟩
    | idle | askedSingle entry =>
      rw [there] at asked
      exact asked.elim
  | fallback caller i rc =>
    rw [here] at progress
    exact progress.2.elim (fun split => ⟨_, split⟩) fun split => ⟨_, split⟩
  | single caller i rc =>
    rw [here] at progress
    cases there : tx.rpc with
    | askedSingle entry =>
      rw [there] at progress
      exact progress.2.elim (fun split => ⟨_, split⟩) fun split => ⟨_, split⟩
    | answered rc =>
      rw [there] at progress
      exact progress.elim (fun split => ⟨_, split⟩) fun split => ⟨_, split⟩
    | idle | asked batch | checking batch i | commit batch i =>
      rw [there] at progress
      exact progress.elim
  | idle | scan frame slot scanned waits | flush caller =>
    rw [here] at progress
    exact ⟨0, progress.2⟩

/-- A claimed slot is that of a place of the queue. -/
theorem Counts.place (counts : tx.Counts) (claimed : tx.txClaimed slot = true) :
    ∃ (k : ℕ) (entry : TxSubmit), tx.pendingSubmits[k]? = some entry ∧ entry.slot.toNat = slot := by
  obtain ⟨entry, member, there⟩ := counts.staged slot claimed
  obtain ⟨k, at_k⟩ := List.mem_iff_getElem?.mp member
  exact ⟨k, entry, at_k, there⟩

/-- A busy slot is counted on both sides. -/
theorem Counts.busy_alike (counts : tx.Counts) (busy : tx.txBusy slot = true) : tx.eeTxSeq slot = tx.txSeq slot := by
  cases claimed : tx.txClaimed slot with
  | false => exact counts.alike slot claimed
  | true =>
    obtain ⟨count, split⟩ := counts.split
    obtain ⟨k, entry, at_k, rfl⟩ := counts.place claimed
    have staged := counts.entries entry (List.mem_of_getElem? at_k)
    have here := split k entry at_k
    split_ifs at here with before
    · exact staged.seq.trans here.symm
    · rw [here.2] at busy
      cases busy

/-- An open entry is held. -/
theorem Counts.holds_open (counts : tx.Counts) {entry : TxSubmit} (member : entry ∈ tx.pendingSubmits)
    (unseen : tx.Open entry) : tx.eeTxSeq entry.slot.toNat ≠ tx.txSeq entry.slot.toNat := by
  rw [(counts.entries entry member).seq, unseen.1]
  bv_omega

theorem holds_of_busy (busy : tx.txBusy slot = true) : tx.holds slot = true := by
  rw [holds, busy, Bool.true_or]

/-- A slot that is free for the scan holds no frame. -/
theorem Counts.holds_free (counts : tx.Counts) (claimed : tx.txClaimed slot = false) (busy : tx.txBusy slot = false) :
    tx.holds slot = false := by
  rw [holds, busy, counts.alike slot claimed, bne_self_eq_false, Bool.false_or]

/-- What is written into another slot leaves the bytes of a slot. -/
theorem Stored.store (stored : tx.Stored slot) {place : ℕ} {bytes : List Byte} (other : slot ≠ place)
    (small : bytes.length ≤ ps2SmapSlotSize) (sent : ∀ frame, tx.sent[tx.slotFrame slot]? = some frame →
      next.sent[next.slotFrame slot]? = some frame)
    (data : next.txData = storeAt tx.txData (place * ps2SmapSlotSize) bytes) : next.Stored slot := by
  obtain ⟨frame, there, length, same⟩ := stored
  refine ⟨frame, sent frame there, length, ?_⟩
  rw [data]
  refine Eq.trans (slice_congr fun i below => ?_) same
  have short := length.2
  simp only [ps2SmapSlotSize, ps2SmapFrameMax] at small short ⊢
  apply storeAt_outside
  omega

/-- What is of no matter to the slots may change. -/
theorem Slots.of_same (slots : tx.Slots) (pending : next.pendingSubmits = tx.pendingSubmits)
    (claimed : next.txClaimed = tx.txClaimed) (holds : ∀ slot, next.holds slot = tx.holds slot)
    (busy : next.txBusy = tx.txBusy) (length : next.txSlotLen = tx.txSlotLen) (sent : next.sent = tx.sent)
    (frames : next.slotFrame = tx.slotFrame) (written : next.written = tx.written) (dropped : next.dropped = tx.dropped)
    (underruns : tx.txUnderruns ≤ next.txUnderruns) (data : next.txData = tx.txData) : next.Slots where
  once := by rw [written, dropped, frameTable_congr holds frames, sent]; exact slots.once
  unmodified := by rw [written, sent]; exact slots.unmodified
  counted := by rw [dropped]; exact slots.counted.trans underruns
  inside := by rw [busy]; exact slots.inside
  stored slot inside held := by
    rw [holds] at held
    rw [Stored, sent, frames, data]
    exact slots.stored slot inside held
  lengths := by rw [busy, sent, frames, length]; exact slots.lengths
  entries := by rw [pending, frames, sent]; exact slots.entries
  older := by rw [busy, claimed, frames, pending, sent]; exact slots.older

theorem Stored.lt (stored : tx.Stored slot) : tx.slotFrame slot < tx.sent.length := by
  obtain ⟨frame, there, -, -⟩ := stored
  exact (List.getElem?_eq_some_iff.mp there).1

theorem Slots.busy_lt (slots : tx.Slots) (busy : tx.txBusy slot = true) : tx.slotFrame slot < tx.sent.length :=
  (slots.stored slot (slots.inside slot busy) (holds_of_busy busy)).lt

/-- A frame is staged in a free slot. -/
theorem Slots.stage (slots : tx.Slots) (counts : tx.Counts) {frame : List Byte} {scanned : ℕ} {waits : Bool}
    (here : tx.call = .scan frame slot scanned waits) (claimed : tx.txClaimed slot = false)
    (busy : tx.txBusy slot = false) : (tx.takeSlot frame slot none).Slots := by
  have good := counts.good
  rw [here] at good
  obtain ⟨length, inside⟩ := good
  have small := length.2
  simp only [ps2SmapFrameMax] at small
  have value : (BitVec.ofNat 32 slot).toNat = slot := by
    change slot < 16 at inside
    rw [BitVec.toNat_ofNat]
    omega
  have frames (other : ℕ) (apart : other ≠ slot) : (tx.takeSlot frame slot none).slotFrame other = tx.slotFrame other :=
    Function.update_of_ne apart _ _
  have newest : (tx.takeSlot frame slot none).slotFrame slot = tx.sent.length := Function.update_self _ _ _
  have holds (other : ℕ) (apart : other ≠ slot) : (tx.takeSlot frame slot none).holds other = tx.holds other := by
    change (tx.txBusy other || Function.update tx.eeTxSeq slot _ other != _) = _
    rw [Function.update_of_ne apart]
    rfl
  have held : (tx.takeSlot frame slot none).holds slot = true := by
    change (tx.txBusy slot || Function.update tx.eeTxSeq slot _ slot != tx.txSeq slot) = true
    rw [Function.update_self, busy, Bool.false_or, bne_iff_ne, counts.alike slot claimed]
    bv_omega
  have vacant : tx.frameTable[slot]? = some none := by
    rw [frameTable_at inside, counts.holds_free claimed busy]
    rfl
  have grown (other : ℕ) (apart : other ≠ slot) (bytes : List Byte) (there : tx.sent[tx.slotFrame other]? = some bytes) :
      (tx.sent ++ [frame])[(tx.takeSlot frame slot none).slotFrame other]? = some bytes := by
    rw [frames other apart, List.getElem?_append_left (List.getElem?_eq_some_iff.mp there).1, there]
  have shrunk (other : ℕ) (apart : other ≠ slot) (before : tx.slotFrame other < tx.sent.length) {bytes : List Byte}
      (there : (tx.sent ++ [frame])[(tx.takeSlot frame slot none).slotFrame other]? = some bytes) :
      tx.sent[tx.slotFrame other]? = some bytes := by
    rwa [frames other apart, List.getElem?_append_left before] at there
  have other_of_busy (other : ℕ) (busy' : tx.txBusy other = true) : other ≠ slot := by
    rintro rfl
    rw [busy] at busy'
    cases busy'
  have queue : (tx.takeSlot frame slot none).pendingSubmits = tx.pendingSubmits ++
      [⟨BitVec.ofNat 32 slot, BitVec.ofNat 32 frame.length, tx.eeTxSeq slot⟩] := rfl
  have sent : (tx.takeSlot frame slot none).sent = tx.sent ++ [frame] := rfl
  refine ⟨?_, ?_, slots.counted, slots.inside, ?_, ?_, ?_, ?_⟩
  · have table : (tx.takeSlot frame slot none).frameTable = tx.frameTable.set slot (some tx.sent.length) := by
      rw [frameTable_set inside fun other apart => ⟨holds other apart, frames other apart⟩, held, newest, if_pos rfl]
    rw [table, sent, List.length_append, List.length_singleton, List.range_succ]
    calc tx.written.map Prod.fst ++ tx.dropped ++ (tx.frameTable.set slot (some tx.sent.length)).reduceOption
      _ ~ tx.written.map Prod.fst ++ tx.dropped ++ tx.sent.length :: tx.frameTable.reduceOption :=
          (SlotTable.fill vacant tx.sent.length).append_left _
      _ ~ tx.sent.length :: (tx.written.map Prod.fst ++ tx.dropped ++ tx.frameTable.reduceOption) := List.perm_middle
      _ ~ tx.sent.length :: List.range tx.sent.length := slots.once.cons _
      _ ~ List.range tx.sent.length ++ [tx.sent.length] := (List.perm_append_singleton _ _).symm
  · intro entry member
    have there := slots.unmodified entry member
    rw [sent, List.getElem?_append_left (List.getElem?_eq_some_iff.mp there).1, there]
  · intro other below holding
    by_cases same : other = slot
    · rw [same]
      refine ⟨frame, ?_, length, ?_⟩
      · rw [newest]
        exact List.getElem?_concat_length
      · exact Placement.slice_storeAt _ _ frame
    · rw [holds other same] at holding
      have fits : frame.length ≤ ps2SmapSlotSize := by
        simp only [ps2SmapSlotSize]
        omega
      exact (slots.stored other below holding).store same fits (grown other same) rfl
  · intro other bytes busy' there
    have apart := other_of_busy other busy'
    exact slots.lengths other bytes busy' (shrunk other apart (slots.busy_lt busy') there)
  · intro k entry at_k
    rw [queue] at at_k ⊢
    rw [sent, List.length_append, List.length_append, List.length_singleton, List.length_singleton]
    rcases Nat.lt_or_ge k tx.pendingSubmits.length with old | new
    · rw [List.getElem?_append_left old] at at_k
      obtain ⟨number, bytes⟩ := slots.entries k entry at_k
      have apart : entry.slot.toNat ≠ slot := by
        intro same
        have claims := (counts.entries entry (List.mem_of_getElem? at_k)).claimed
        rw [same, claimed] at claims
        cases claims
      rw [frames _ apart]
      refine ⟨by omega, fun other there => bytes other ?_⟩
      rwa [List.getElem?_append_left (by omega)] at there
    · have last : k = tx.pendingSubmits.length := by
        have below := (List.getElem?_eq_some_iff.mp at_k).1
        rw [List.length_append, List.length_singleton] at below
        omega
      rw [last, List.getElem?_append_right le_rfl, Nat.sub_self] at at_k
      cases at_k
      dsimp only
      rw [value, newest]
      refine ⟨by omega, fun other there => ?_⟩
      rw [List.getElem?_concat_length] at there
      cases there
      rfl
  · intro other busy' free
    have apart := other_of_busy other busy'
    have free' : tx.txClaimed other = false := by
      rw [← free]
      exact (Function.update_of_ne apart _ _).symm
    have before := slots.older other busy' free'
    rw [frames other apart, queue, sent, List.length_append, List.length_append, List.length_singleton, List.length_singleton]
    omega

/-- A write into a free slot fails. -/
theorem Slots.stale (slots : tx.Slots) (counts : tx.Counts) {frame : List Byte} {scanned count : ℕ} {waits : Bool}
    (here : tx.call = .scan frame slot scanned waits) (claimed : tx.txClaimed slot = false)
    (busy : tx.txBusy slot = false) : (tx.takeSlot frame slot (some count)).Slots := by
  have good := counts.good
  rw [here] at good
  have small := good.1.2
  simp only [ps2SmapFrameMax] at small
  have fits : (frame.take count).length ≤ ps2SmapSlotSize := by
    rw [List.length_take]
    simp only [ps2SmapSlotSize]
    omega
  refine ⟨slots.once, slots.unmodified, slots.counted, slots.inside, fun other below holding => ?_, slots.lengths,
    slots.entries, slots.older⟩
  have apart : other ≠ slot := by
    rintro rfl
    have free := counts.holds_free claimed busy
    rw [show tx.holds other = true from holding] at free
    cases free
  exact (slots.stored other below holding).store apart fits (fun _ there => there) rfl

/-- The handler takes a slot over. -/
theorem Slots.commit (slots : tx.Slots) (counts : tx.Counts) {k : ℕ} {entry : TxSubmit}
    (at_k : tx.pendingSubmits[k]? = some entry) (unseen : tx.Open entry) (rpc : SubmitRpc) :
    Slots { tx.commitSubmit entry with rpc := rpc } := by
  have member := List.mem_of_getElem? at_k
  have staged := counts.entries entry member
  have before : tx.holds entry.slot.toNat = true := by
    rw [holds, unseen.2, Bool.false_or, bne_iff_ne]
    exact counts.holds_open member unseen
  have holds (slot : ℕ) : SmapTx.holds { tx.commitSubmit entry with rpc := rpc } slot = tx.holds slot := by
    change (Function.update tx.txBusy entry.slot.toNat true slot ||
      tx.eeTxSeq slot != Function.update tx.txSeq entry.slot.toNat _ slot) = _
    by_cases same : slot = entry.slot.toNat
    · rw [same, Function.update_self, Bool.true_or, before]
    · rw [Function.update_of_ne same, Function.update_of_ne same]
      rfl
  refine ⟨?_, slots.unmodified, slots.counted, fun slot busy => ?_, fun slot below holding => ?_,
    fun slot frame busy there => ?_, slots.entries, fun slot busy free => ?_⟩
  · have table : SmapTx.frameTable { tx.commitSubmit entry with rpc := rpc } = tx.frameTable := frameTable_congr holds rfl
    rw [table]
    exact slots.once
  · by_cases same : slot = entry.slot.toNat
    · rw [same]
      exact staged.inside
    · exact slots.inside slot ((Function.update_of_ne same _ _).symm.trans busy)
  · rw [holds] at holding
    exact slots.stored slot below holding
  · by_cases same : slot = entry.slot.toNat
    · subst same
      change Function.update tx.txSlotLen _ _ _ = _
      rw [Function.update_self]
      exact (slots.entries k entry at_k).2 frame there
    · change Function.update tx.txSlotLen _ _ _ = _
      rw [Function.update_of_ne same]
      exact slots.lengths slot frame ((Function.update_of_ne same _ _).symm.trans busy) there
  · have apart : slot ≠ entry.slot.toNat := by
      rintro rfl
      have claims := staged.claimed
      rw [show tx.txClaimed entry.slot.toNat = false from free] at claims
      cases claims
    exact slots.older slot ((Function.update_of_ne apart _ _).symm.trans busy) free

/-- The queue is empty behind a flush. -/
theorem Slots.clear (slots : tx.Slots) : tx.clearSubmits.Slots where
  once := slots.once
  unmodified := slots.unmodified
  counted := slots.counted
  inside := slots.inside
  stored := slots.stored
  lengths := slots.lengths
  entries := nofun
  older _ busy _ := slots.busy_lt busy

/-- The pump is done with a slot. -/
theorem frameTable_release (counts : tx.Counts) (slots : tx.Slots) (busy : tx.txBusy slot = true)
    (cleared : next.txBusy = Function.update tx.txBusy slot false) (ee : next.eeTxSeq = tx.eeTxSeq)
    (iop : next.txSeq = tx.txSeq) (frames : next.slotFrame = tx.slotFrame) :
    tx.frameTable.reduceOption ~ tx.slotFrame slot :: next.frameTable.reduceOption := by
  have inside := slots.inside slot busy
  have holds (other : ℕ) (apart : other ≠ slot) : next.holds other = tx.holds other := by
    rw [SmapTx.holds, SmapTx.holds, cleared, ee, iop, Function.update_of_ne apart]
  have released : next.holds slot = false := by
    rw [SmapTx.holds, cleared, ee, iop, Function.update_self, counts.busy_alike busy, bne_self_eq_false, Bool.false_or]
  have table : next.frameTable = tx.frameTable.set slot none := by
    rw [frameTable_set inside fun other apart => ⟨holds other apart, congrFun frames other⟩, released]
    rfl
  rw [table]
  apply SlotTable.clear
  rw [frameTable_at inside, holds_of_busy busy]
  rfl

/-- What the pump leaves of the slots when it is done with one. -/
theorem Slots.release (slots : tx.Slots) (counts : tx.Counts) (busy : tx.txBusy slot = true)
    (cleared : next.txBusy = Function.update tx.txBusy slot false) (ee : next.eeTxSeq = tx.eeTxSeq)
    (iop : next.txSeq = tx.txSeq) (frames : next.slotFrame = tx.slotFrame) (pending : next.pendingSubmits = tx.pendingSubmits)
    (claimed : next.txClaimed = tx.txClaimed) (length : next.txSlotLen = tx.txSlotLen) (sent : next.sent = tx.sent)
    (data : next.txData = tx.txData)
    (once : next.written.map Prod.fst ++ next.dropped ~ tx.slotFrame slot :: (tx.written.map Prod.fst ++ tx.dropped))
    (unmodified : ∀ entry ∈ next.written, tx.sent[entry.1]? = some entry.2)
    (counted : next.dropped.length ≤ next.txUnderruns) : next.Slots := by
  have still (other : ℕ) (busy' : next.txBusy other = true) : tx.txBusy other = true := by
    rw [cleared, Function.update_apply] at busy'
    split_ifs at busy'
    exact busy'
  refine ⟨?_, by rw [sent]; exact unmodified, counted, fun other busy' => slots.inside other (still other busy'),
    fun other below holding => ?_, fun other frame busy' there => ?_, by rw [pending, frames, sent]; exact slots.entries,
    fun other busy' free => ?_⟩
  · rw [sent]
    calc next.written.map Prod.fst ++ next.dropped ++ next.frameTable.reduceOption
      _ ~ tx.slotFrame slot :: (tx.written.map Prod.fst ++ tx.dropped) ++ next.frameTable.reduceOption :=
          once.append_right _
      _ ~ tx.written.map Prod.fst ++ tx.dropped ++ tx.slotFrame slot :: next.frameTable.reduceOption :=
          List.perm_middle.symm
      _ ~ tx.written.map Prod.fst ++ tx.dropped ++ tx.frameTable.reduceOption :=
          (frameTable_release counts slots busy cleared ee iop frames).symm.append_left _
      _ ~ List.range tx.sent.length := slots.once
  · have before : tx.holds other = true := by
      by_cases same : other = slot
      · rw [same]
        exact holds_of_busy busy
      · rw [SmapTx.holds, cleared, ee, iop, Function.update_of_ne same] at holding
        exact holding
    rw [Stored, sent, frames, data]
    exact slots.stored other below before
  · rw [sent, frames] at there
    rw [length]
    exact slots.lengths other frame (still other busy') there
  · rw [claimed] at free
    rw [frames, pending, sent]
    exact slots.older other (still other busy') free

end Slots

end SmapTx

end KosTool.Ps2
