import KosTool.Soundness.TxFifo
import KosTool.Soundness.TxSlots

/-! # What becomes of the frames that are sent

Every step of the transmit path does one thing to the frames: it stages one, takes one over, writes one into the FIFO,
drops one, takes a descriptor back, or none of these. From that the slots, the FIFO and the order are kept over runs. The
pump looks at the slots by their numbers, so the order is that in which frames were staged only where each frame is
handed out before all that are newer.
-/

namespace KosTool.Ps2

open ByteWord Machine
open scoped List

namespace SmapTx

/-- The handler is about to take the slot of an entry over. -/
def Asks (tx : SmapTx) (entry : TxSubmit) : Prop :=
  (∃ (batch : List TxSubmit) (i : ℕ), tx.rpc = .commit batch i ∧ batch[i]? = some entry) ∨
    tx.rpc = .askedSingle entry ∧ tx.checkSubmit entry = .ok

/-- What a step does to the frames. -/
inductive Moves (tx : SmapTx) (event : Event) : SmapTx → Prop
  | goto (call : TxCall) (rpc : SubmitRpc) (pump : TxPump) (stalls : ℕ) :
    Moves tx event { tx with call := call, rpc := rpc, pump := pump, txStallIters := stalls }
  | take {frame : List Byte} {slot scanned : ℕ} {waits : Bool} (here : tx.call = .scan frame slot scanned waits)
    (claimed : tx.txClaimed slot = false) (busy : tx.txBusy slot = false) (fails : Option ℕ) :
    Moves tx event (tx.takeSlot frame slot fails)
  | commit {entry : TxSubmit} (asks : tx.Asks entry) (rpc : SubmitRpc) :
    Moves tx event { tx.commitSubmit entry with rpc := rpc }
  | clear (call : TxCall) (rpc : SubmitRpc) : Moves tx event { tx.clearSubmits with call := call, rpc := rpc }
  | send {slot : ℕ} {txProgress txWaiting gnp : Bool} {sent : SmapTx} (pumps : event = .pump gnp)
    (here : tx.pump = .scan slot txProgress txWaiting) (inside : slot < ps2SmapTxSlots) (busy : tx.txBusy slot = true)
    (length : smapRxMinSize ≤ (tx.txSlotLen slot).toNat ∧ (tx.txSlotLen slot).toNat ≤ smapTxMaxSize)
    (accepts : tx.smapIopSend (tx.slotBytes slot) gnp = some sent) (pump : TxPump) :
    Moves tx event { sent.freeWritten slot with pump := pump }
  | drop {slot : ℕ} (busy : tx.txBusy slot = true) (pump : TxPump) : Moves tx event { tx.dropSlot slot with pump := pump }
  | reclaim (waiting : 0 < tx.txbdusedcnt) : Moves tx event tx.reclaimBd
  | complete (idx : ℕ) (status : BitVec 16) :
    Moves tx event { tx with txBds := Function.update tx.txBds idx { tx.txBds idx with ctrlStat := status } }

/-- The frames went into the FIFO in the order in which they were staged, and those in the slots are behind them. -/
structure InOrder (tx : SmapTx) : Prop where
  ordered : (tx.written.map Prod.fst).Pairwise (· < ·)
  ahead : ∀ slot < ps2SmapTxSlots, tx.holds slot = true → ∀ frame ∈ tx.written.map Prod.fst, frame < tx.slotFrame slot

/-- The checks of `smap_iop_send`. -/
def Accepts (tx : SmapTx) (length : ℕ) (gnp : Bool) : Prop :=
  (0 < length ∧ length ≤ smapTxMaxSize) ∧ txLen length ≤ tx.txfreebufsize ∧ tx.txbdusedcnt < smapBdMaxEntry - 1 ∧
    (tx.txBds tx.txbds).ready = false ∧ gnp = false

/-- Where the pump hands out the frame of a slot, no busy slot has an older one. -/
def InTurn (tx : SmapTx) : Event → Prop
  | .pump gnp =>
    match tx.pump with
    | .scan slot _ _ => tx.txBusy slot = true → tx.Accepts (tx.txSlotLen slot).toNat gnp →
      ∀ other < ps2SmapTxSlots, tx.txBusy other = true → tx.slotFrame slot ≤ tx.slotFrame other
    | _ => True
  | _ => True

instance (tx : SmapTx) (length : ℕ) (gnp : Bool) : Decidable (tx.Accepts length gnp) :=
  inferInstanceAs (Decidable ((_ ∧ _) ∧ _ ∧ _ ∧ _ ∧ _))

instance InTurn.decidable (tx : SmapTx) : ∀ event, Decidable (tx.InTurn event)
  | .pump gnp =>
    match here : tx.pump with
    | .scan slot _ _ => decidable_of_iff (tx.txBusy slot = true → tx.Accepts (tx.txSlotLen slot).toNat gnp →
        ∀ other < ps2SmapTxSlots, tx.txBusy other = true → tx.slotFrame slot ≤ tx.slotFrame other) (by rw [InTurn, here])
    | .idle | .reclaim | .release _ => isTrue (by rw [InTurn, here]; trivial)
  | .send _ | .flush | .resume _ _ | .serve | .complete _ _ | .loseRequest | .loseReply => isTrue trivial

section Moves

variable {tx next : SmapTx} {event : Event}

theorem moves_flushReturns (rpc : SubmitRpc) (rc : ℤ) (caller : TxCaller) :
    Moves tx event ({ tx with rpc := rpc }.clearSubmits.flushReturns rc caller) := by
  cases caller with
  | outside | staged => exact .clear .idle rpc
  | full frame =>
    rw [flushReturns]
    split_ifs with failed
    · exact .clear .idle rpc
    · exact .clear (.scan frame tx.txNextSlot 0 false) rpc
  | drain frame => exact .clear (.scan frame tx.txNextSlot 0 true) rpc

/-- A flush of an empty queue only returns. -/
theorem moves_flushEmpty (caller : TxCaller) : Moves tx event (tx.flushReturns 0 caller) := by
  cases caller with
  | outside | staged => exact .goto .idle tx.rpc tx.pump tx.txStallIters
  | full frame => exact .goto (.scan frame tx.txNextSlot 0 false) tx.rpc tx.pump tx.txStallIters
  | drain frame => exact .goto (.scan frame tx.txNextSlot 0 true) tx.rpc tx.pump tx.txStallIters

theorem moves_callStep {elapsed : Bool} {fails : Option ℕ} (stepped : tx.callStep elapsed fails = some next) :
    Moves tx event next := by
  rw [callStep] at stepped
  cases here : tx.call with
  | idle =>
    rw [here] at stepped
    cases stepped
  | scan frame slot scanned waits =>
    rw [here] at stepped
    dsimp only at stepped
    split_ifs at stepped with more free waiting late empty
    · cases stepped
      exact .take here free.1 free.2 fails
    all_goals
      cases stepped
      exact .goto _ tx.rpc tx.pump tx.txStallIters
  | flush caller =>
    rw [here] at stepped
    dsimp only at stepped
    split_ifs at stepped with empty
    · cases stepped
      exact moves_flushEmpty caller
    · cases stepped
      exact .goto _ _ tx.pump tx.txStallIters
  | batch caller =>
    rw [here] at stepped
    dsimp only at stepped
    cases asked : tx.rpc with
    | answered rc =>
      rw [asked] at stepped
      cases rc with
      | ok =>
        cases stepped
        exact moves_flushReturns .idle 0 caller
      | _ =>
        cases stepped
        exact .goto _ _ tx.pump tx.txStallIters
    | idle | asked batch | checking batch i | commit batch i | askedSingle entry =>
      rw [asked] at stepped
      cases stepped
  | fallback caller i rcFallback =>
    rw [here] at stepped
    dsimp only at stepped
    cases at_i : tx.pendingSubmits[i]? with
    | some entry =>
      rw [at_i] at stepped
      cases stepped
      exact .goto _ _ tx.pump tx.txStallIters
    | none =>
      rw [at_i] at stepped
      cases stepped
      exact moves_flushReturns tx.rpc rcFallback caller
  | single caller i rcFallback =>
    rw [here] at stepped
    dsimp only at stepped
    cases asked : tx.rpc with
    | answered rc =>
      rw [asked] at stepped
      cases stepped
      exact .goto _ _ tx.pump tx.txStallIters
    | idle | asked batch | checking batch j | commit batch j | askedSingle entry =>
      rw [asked] at stepped
      cases stepped

theorem moves_serveStep (stepped : tx.serveStep = some next) : Moves tx event next := by
  rw [serveStep] at stepped
  cases asked : tx.rpc with
  | idle | answered rc =>
    rw [asked] at stepped
    cases stepped
  | asked batch =>
    rw [asked] at stepped
    dsimp only at stepped
    split_ifs at stepped
    all_goals
      cases stepped
      exact .goto tx.call _ tx.pump tx.txStallIters
  | checking batch i =>
    rw [asked] at stepped
    dsimp only at stepped
    split at stepped
    · split at stepped
      all_goals
        cases stepped
        exact .goto tx.call _ tx.pump tx.txStallIters
    · cases stepped
      exact .goto tx.call _ tx.pump tx.txStallIters
  | commit batch i =>
    rw [asked] at stepped
    dsimp only at stepped
    cases at_i : batch[i]? with
    | some entry =>
      rw [at_i] at stepped
      cases stepped
      exact .commit (.inl ⟨batch, i, asked, at_i⟩) _
    | none =>
      rw [at_i] at stepped
      cases stepped
      exact .goto tx.call _ tx.pump tx.txStallIters
  | askedSingle entry =>
    rw [asked] at stepped
    dsimp only at stepped
    split at stepped
    · rename_i accepted
      cases stepped
      exact .commit (.inr ⟨asked, accepted⟩) _
    · cases stepped
      exact .goto tx.call _ tx.pump tx.txStallIters

theorem moves_pumpStep (gnp : Bool) : Moves tx (.pump gnp) (tx.pumpStep gnp) := by
  rw [pumpStep]
  cases here : tx.pump with
  | idle => exact .goto tx.call tx.rpc _ tx.txStallIters
  | reclaim =>
    dsimp only
    split_ifs with done
    · exact .reclaim done.1
    · exact .goto tx.call tx.rpc _ tx.txStallIters
  | scan slot txProgress txWaiting =>
    dsimp only
    split_ifs with inside busy length going stalled
    · cases accepts : tx.smapIopSend (tx.slotBytes slot) gnp with
      | some sent => exact .send rfl here inside busy length accepts _
      | none => exact .goto tx.call tx.rpc _ tx.txStallIters
    · exact .drop busy _
    all_goals exact .goto tx.call tx.rpc _ _
  | release slot =>
    dsimp only
    split_ifs with inside busy
    · exact .drop busy _
    all_goals exact .goto tx.call tx.rpc _ _

theorem moves_lost (stepped : tx.lost = some next) : Moves tx event next := by
  rw [lost] at stepped
  cases here : tx.call with
  | batch caller | single caller i rcFallback =>
    rw [here] at stepped
    cases stepped
    exact .goto _ _ tx.pump tx.txStallIters
  | _ =>
    rw [here] at stepped
    cases stepped

theorem moves_step (stepped : tx.step event = some next) : Moves tx event next := by
  cases event with
  | send frame =>
    rw [SmapTx.step] at stepped
    split at stepped
    · split_ifs at stepped
      all_goals
        cases stepped
        exact .goto _ tx.rpc tx.pump tx.txStallIters
    · cases stepped
  | flush =>
    rw [SmapTx.step] at stepped
    split at stepped
    · cases stepped
      exact .goto _ tx.rpc tx.pump tx.txStallIters
    · cases stepped
  | resume elapsed fails => exact moves_callStep stepped
  | serve => exact moves_serveStep stepped
  | pump gnp =>
    cases stepped
    exact moves_pumpStep gnp
  | complete idx status =>
    rw [SmapTx.step] at stepped
    split_ifs at stepped
    cases stepped
    exact .complete idx status
  | loseRequest | loseReply =>
    rw [SmapTx.step] at stepped
    split at stepped
    all_goals first
      | exact moves_lost stepped
      | cases stepped

/-- The FIFO over a step. -/
theorem Fills.moves {start : ℕ} (fills : tx.Fills start) (moves : Moves tx event next) : ∃ later, next.Fills later := by
  cases moves with
  | goto | clear | commit | drop =>
    exact ⟨start, fills.of_same rfl rfl rfl rfl (fun _ => ⟨rfl, rfl⟩) rfl rfl rfl⟩
  | take here claimed busy fails =>
    cases fails <;> exact ⟨start, fills.of_same rfl rfl rfl rfl (fun _ => ⟨rfl, rfl⟩) rfl rfl rfl⟩
  | send pumps here inside busy length accepts pump =>
    have sends := sends_of_smapIopSend accepts
    rw [smapIopSend] at accepts
    split_ifs at accepts
    cases accepts
    exact ⟨start, fills.send
      ⟨sends.small, sends.room, sends.few, sends.fifo, sends.free, sends.bds, sends.used, sends.write, sends.behind,
        sends.oldest⟩ rfl rfl⟩
  | reclaim waiting => exact fills.reclaim waiting
  | complete idx status =>
    refine ⟨start, fills.of_same rfl rfl rfl rfl (fun place => ?_) rfl rfl rfl⟩
    dsimp only
    by_cases same : place = idx
    · rw [same, Function.update_self]
      exact ⟨rfl, rfl⟩
    · rw [Function.update_of_ne same]
      exact ⟨rfl, rfl⟩

/-- The handler takes over an entry of the queue that it has not counted. -/
theorem Counts.asks (counts : tx.Counts) {entry : TxSubmit} (asks : tx.Asks entry) :
    ∃ k : ℕ, tx.pendingSubmits[k]? = some entry ∧ tx.Open entry := by
  have working := counts.working
  rcases asks with ⟨batch, i, asked, at_i⟩ | ⟨asked, accepted⟩
  · rw [asked] at working
    obtain ⟨caller, -, -, rfl, split⟩ := working
    exact ⟨i, at_i, split.open_of_le le_rfl at_i⟩
  · rw [asked] at working
    obtain ⟨caller, i, rc, -, at_i, split | split⟩ := working
    · exact ⟨i, at_i, split.open_of_le le_rfl at_i⟩
    · have below := (List.getElem?_eq_some_iff.mp at_i).1
      rw [counts.check_committed (List.mem_of_getElem? at_i) (split.committed_of_lt below at_i)] at accepted
      cases accepted

/-- The bytes that are read from a busy slot are its frame. -/
theorem Slots.slotBytes (slots : tx.Slots) {slot : ℕ} (busy : tx.txBusy slot = true) :
    tx.sent[tx.slotFrame slot]? = some (tx.slotBytes slot) := by
  obtain ⟨frame, there, length, same⟩ := slots.stored slot (slots.inside slot busy) (holds_of_busy busy)
  have short := length.2
  simp only [ps2SmapFrameMax] at short
  have size : (tx.txSlotLen slot).toNat = frame.length := by
    rw [slots.lengths slot frame busy there, BitVec.toNat_ofNat, Nat.mod_eq_of_lt (by omega)]
  rw [there, SmapTx.slotBytes, size, same]

/-- The slots over a step. -/
theorem Slots.moves (slots : tx.Slots) (counts : tx.Counts) (moves : Moves tx event next) : next.Slots := by
  cases moves with
  | goto => exact slots.of_same rfl rfl (fun _ => rfl) rfl rfl rfl rfl rfl rfl le_rfl rfl
  | take here claimed busy fails =>
    cases fails with
    | none => exact slots.stage counts here claimed busy
    | some count => exact slots.stale counts here claimed busy
  | commit asks rpc =>
    obtain ⟨k, at_k, unseen⟩ := counts.asks asks
    exact slots.commit counts at_k unseen rpc
  | clear => exact slots.clear.of_same rfl rfl (fun _ => rfl) rfl rfl rfl rfl rfl rfl le_rfl rfl
  | @send slot txProgress txWaiting gnp sent pumps here inside busy length accepts pump =>
    have bytes := slots.slotBytes busy
    rw [smapIopSend] at accepts
    split_ifs at accepts
    cases accepts
    refine slots.release counts busy rfl rfl rfl rfl rfl rfl rfl rfl rfl ?_ ?_ slots.counted
    · change (tx.written ++ [(tx.slotFrame slot, tx.slotBytes slot)]).map Prod.fst ++ tx.dropped ~ _
      rw [List.map_append, List.append_assoc]
      exact List.perm_middle
    · intro entry member
      rcases List.mem_append.mp member with old | new
      · exact slots.unmodified entry old
      · cases List.mem_singleton.mp new
        exact bytes
  | @drop slot busy pump =>
    refine slots.release counts busy rfl rfl rfl rfl rfl rfl rfl rfl rfl ?_ slots.unmodified ?_
    · change tx.written.map Prod.fst ++ (tx.dropped ++ [tx.slotFrame slot]) ~ _
      rw [← List.append_assoc]
      exact List.perm_append_singleton _ _
    · change (tx.dropped ++ [tx.slotFrame slot]).length ≤ tx.txUnderruns + 1
      rw [List.length_append]
      exact Nat.succ_le_succ slots.counted
  | reclaim waiting =>
    refine slots.of_same rfl rfl (fun _ => rfl) rfl rfl rfl rfl rfl rfl ?_ rfl
    dsimp only [reclaimBd]
    split_ifs
    · exact Nat.le_succ _
    · exact le_rfl
  | complete => exact slots.of_same rfl rfl (fun _ => rfl) rfl rfl rfl rfl rfl rfl le_rfl rfl

theorem initial_inOrder : initial.InOrder where
  ordered := List.Pairwise.nil
  ahead := nofun

theorem accepts_of_smapIopSend {frame : List Byte} {gnp : Bool} (sent : tx.smapIopSend frame gnp = some next) :
    tx.Accepts frame.length gnp := by
  rw [smapIopSend] at sent
  split_ifs at sent with length room full ready stays
  rw [not_or, Nat.not_lt] at length
  exact ⟨⟨Nat.pos_of_ne_zero length.2, length.1⟩, Nat.not_lt.mp room, Nat.not_le.mp full,
    Bool.eq_false_iff.mpr ready, Bool.eq_false_iff.mpr stays⟩

/-- No two slots hold the same frame. -/
theorem Slots.slotFrame_ne (slots : tx.Slots) {slot other : ℕ} (inside : slot < ps2SmapTxSlots)
    (inside' : other < ps2SmapTxSlots) (held : tx.holds slot = true) (held' : tx.holds other = true)
    (apart : other ≠ slot) : tx.slotFrame other ≠ tx.slotFrame slot := by
  intro same
  have once : tx.frameTable.reduceOption.Nodup :=
    (List.nodup_append.mp (slots.once.nodup_iff.mpr List.nodup_range)).2.1
  have at_slot : tx.frameTable[slot]? = some (some (tx.slotFrame slot)) := by
    rw [frameTable_at inside, held]
    rfl
  have at_other : tx.frameTable[other]? = some (some (tx.slotFrame slot)) := by
    rw [frameTable_at inside', held', ← same]
    rfl
  obtain ⟨place, -, unique⟩ := SlotTable.exists_unique_slot once (SlotTable.mem_iff.mpr ⟨slot, at_slot⟩)
  exact apart ((unique other at_other).trans (unique slot at_slot).symm)

/-- What is staged and not taken over is newer than what is busy. -/
theorem Slots.newer (slots : tx.Slots) (counts : tx.Counts) {slot other : ℕ} (busy : tx.txBusy slot = true)
    (held : tx.holds other = true) (free : tx.txBusy other = false) : tx.slotFrame slot < tx.slotFrame other := by
  obtain ⟨count, split⟩ := counts.split
  have claims : tx.txClaimed other = true := by
    cases claimed : tx.txClaimed other with
    | true => rfl
    | false =>
      rw [counts.holds_free claimed free] at held
      cases held
  obtain ⟨k, entry, at_k, rfl⟩ := counts.place claims
  have late := (slots.entries k entry at_k).1
  have behind : count ≤ k := by
    rw [← Nat.not_lt]
    intro before
    have seen := split.committed_of_lt before at_k
    have staged := (counts.entries entry (List.mem_of_getElem? at_k)).seq
    rw [holds, free, staged, seen, bne_self_eq_false] at held
    cases held
  cases claimed : tx.txClaimed slot with
  | false =>
    have early := slots.older slot busy claimed
    omega
  | true =>
    obtain ⟨j, earlier, at_j, rfl⟩ := counts.place claimed
    have early := (slots.entries j earlier at_j).1
    have before : j < count := by
      rw [← Nat.not_le]
      intro after
      rw [(split.open_of_le after at_j).2] at busy
      cases busy
    omega

/-- Nothing goes out, and no slot gets a frame. -/
theorem InOrder.of_same (order : tx.InOrder) (written : next.written = tx.written) (frames : next.slotFrame = tx.slotFrame)
    (holds : ∀ slot, next.holds slot = true → tx.holds slot = true) : next.InOrder where
  ordered := by rw [written]; exact order.ordered
  ahead slot inside held := by rw [written, frames]; exact order.ahead slot inside (holds slot held)

/-- A frame that goes out in turn is behind those that went out and before those in the slots. -/
theorem InOrder.release (order : tx.InOrder) {slot : ℕ} {bytes : List Byte} (inside : slot < ps2SmapTxSlots)
    (held : tx.holds slot = true) (first : ∀ other < ps2SmapTxSlots, tx.holds other = true → other ≠ slot →
      tx.slotFrame slot < tx.slotFrame other)
    (written : next.written = tx.written ++ [(tx.slotFrame slot, bytes)]) (frames : next.slotFrame = tx.slotFrame)
    (holds : ∀ other, next.holds other = true → tx.holds other = true ∧ other ≠ slot) : next.InOrder where
  ordered := by
    rw [written, List.map_append, List.map_singleton, List.pairwise_append]
    refine ⟨order.ordered, List.pairwise_singleton _ _, fun frame member last isLast => ?_⟩
    rw [List.mem_singleton.mp isLast]
    exact order.ahead slot inside held frame member
  ahead other below holding frame member := by
    obtain ⟨holding', apart⟩ := holds other holding
    rw [written, List.map_append, List.map_singleton] at member
    rw [frames]
    rcases List.mem_append.mp member with old | new
    · exact order.ahead other below holding' frame old
    · rw [List.mem_singleton.mp new]
      exact first other below holding' apart

/-- A slot that is freed holds nothing, and the others hold what they held. -/
theorem Counts.holds_released (counts : tx.Counts) {slot : ℕ} (busy : tx.txBusy slot = true)
    (cleared : next.txBusy = Function.update tx.txBusy slot false) (ee : next.eeTxSeq = tx.eeTxSeq)
    (iop : next.txSeq = tx.txSeq) (other : ℕ) (held : next.holds other = true) : tx.holds other = true ∧ other ≠ slot := by
  rw [holds, cleared, ee, iop] at held
  by_cases same : other = slot
  · rw [same, Function.update_self, counts.busy_alike busy, bne_self_eq_false] at held
    cases held
  · rw [Function.update_of_ne same] at held
    exact ⟨held, same⟩

/-- The order over a step. -/
theorem InOrder.moves (order : tx.InOrder) (slots : tx.Slots) (counts : tx.Counts) (turn : tx.InTurn event)
    (moves : Moves tx event next) : next.InOrder := by
  cases moves with
  | goto | clear | reclaim | complete => exact order.of_same rfl rfl fun _ held => held
  | @take frame slot scanned waits here claimed busy fails =>
    cases fails with
    | some count => exact order.of_same rfl rfl fun _ held => held
    | none =>
      refine ⟨order.ordered, fun other below held old member => ?_⟩
      have sent : old < tx.sent.length := by
        obtain ⟨entry, went, rfl⟩ := List.mem_map.mp member
        exact (List.getElem?_eq_some_iff.mp (slots.unmodified entry went)).1
      change old < Function.update tx.slotFrame slot tx.sent.length other
      by_cases same : other = slot
      · rw [same, Function.update_self]
        exact sent
      · have holding : tx.holds other = true := by
          change (tx.txBusy other || Function.update tx.eeTxSeq slot _ other != tx.txSeq other) = true at held
          rw [Function.update_of_ne same] at held
          exact held
        rw [Function.update_of_ne same]
        exact order.ahead other below holding old member
  | @commit entry asks rpc =>
    obtain ⟨k, at_k, unseen⟩ := counts.asks asks
    refine order.of_same rfl rfl fun other held => ?_
    change (Function.update tx.txBusy entry.slot.toNat true other ||
      tx.eeTxSeq other != Function.update tx.txSeq entry.slot.toNat _ other) = true at held
    by_cases same : other = entry.slot.toNat
    · rw [same, holds, unseen.2, Bool.false_or, bne_iff_ne]
      exact counts.holds_open (List.mem_of_getElem? at_k) unseen
    · rw [Function.update_of_ne same, Function.update_of_ne same] at held
      exact held
  | drop busy pump =>
    refine order.of_same rfl rfl fun other held => ?_
    refine (Counts.holds_released counts busy ?_ ?_ ?_ other held).1 <;> rfl
  | @send slot txProgress txWaiting gnp sent pumps here inside busy length accepts pump =>
    subst pumps
    have held := holds_of_busy busy
    have passes := accepts_of_smapIopSend accepts
    rw [SmapTx.slotBytes, length_slice] at passes
    rw [InTurn, here] at turn
    have oldest := turn busy passes
    have first (other : ℕ) (below : other < ps2SmapTxSlots) (held' : tx.holds other = true) (apart : other ≠ slot) :
        tx.slotFrame slot < tx.slotFrame other := by
      cases busy' : tx.txBusy other with
      | false => exact slots.newer counts busy held' busy'
      | true => exact Nat.lt_of_le_of_ne (oldest other below busy') (slots.slotFrame_ne inside below held held' apart).symm
    rw [smapIopSend] at accepts
    split_ifs at accepts
    cases accepts
    exact order.release inside held first rfl rfl (counts.holds_released busy rfl rfl rfl)

/-- Every frame that was staged went into the FIFO as it was, or was dropped, or is in a slot with its bytes, and only
one of these, once. -/
structure Delivers (tx : SmapTx) : Prop where
  once : tx.written.map Prod.fst ++ tx.dropped ++ tx.frameTable.reduceOption ~ List.range tx.sent.length
  unmodified : ∀ entry ∈ tx.written, tx.sent[entry.1]? = some entry.2
  stored : ∀ slot < ps2SmapTxSlots, tx.holds slot = true → tx.Stored slot
  counted : tx.dropped.length ≤ tx.txUnderruns

theorem Slots.delivers (slots : tx.Slots) : tx.Delivers := ⟨slots.once, slots.unmodified, slots.stored, slots.counted⟩

/-- The queue and the slots over a run. -/
theorem slots_of_run {source : SmapTx} {events : List Event} (counts : source.Counts) (slots : source.Slots)
    (reaches : smapTx.Along SubmitReaches source events) (run : smapTx.run? source events = some tx) :
    tx.Counts ∧ tx.Slots := by
  have steps (source : SmapTx) (event : Event) (next : SmapTx) (kept : source.Counts ∧ source.Slots)
      (reaches : source.SubmitReaches event) (stepped : smapTx.step source event = some next) : next.Counts ∧ next.Slots :=
    ⟨kept.1.step reaches stepped, kept.2.moves kept.1 (moves_step stepped)⟩
  exact LabeledMachine.run?_invariant steps ⟨counts, slots⟩ reaches run

/-- A run without a lost request. -/
theorem submitReaches_of_forall {source : SmapTx} {events : List Event}
    (unlost : ∀ event ∈ events, event ≠ .loseRequest) : smapTx.Along SubmitReaches source events := by
  refine LabeledMachine.Along.imp (fun _ _ _ _ _ _ => trivial) (fun tx event _ kept => ?_) trivial
    (LabeledMachine.Along.of_events unlost)
  cases event with
  | loseRequest => exact absurd rfl kept
  | _ => trivial

/-- Frames of fourteen bytes are staged, and handed over in one batch. -/
def sentFrames (count : ℕ) : List Event :=
  (List.replicate count [.send (List.replicate 14 7), .resume false none]).flatten ++ [.flush, .resume false none] ++
    List.replicate (2 * count + 3) .serve ++ [.resume false none]

/-- A round of the pump with nothing to take back. -/
def pumpRound : List Event := List.replicate 19 (.pump false)

end Moves

end SmapTx

open SmapTx

/-- In every run the FIFO keeps the frames of the descriptors that are not taken back. -/
theorem transmit_fifo_right {events : List SmapTx.Event} {tx : SmapTx} (run : smapTx.run? .initial events = some tx) :
    tx.FifoRight := by
  have steps (source : SmapTx) (event : SmapTx.Event) (next : SmapTx) (fills : ∃ start, source.Fills start) (_ : True)
      (stepped : smapTx.step source event = some next) : ∃ start, next.Fills start := by
    obtain ⟨start, fills⟩ := fills
    exact fills.moves (moves_step stepped)
  have always : smapTx.Along (fun _ _ => True) .initial events := LabeledMachine.Along.of_forall (fun _ _ => trivial) _
  obtain ⟨start, fills⟩ := LabeledMachine.run?_invariant steps ⟨0, initial_fills⟩ always run
  exact fills.right

/-- Two frames are handed out, the first is done, and the pump takes it back. -/
theorem transmit_fifo_right_two : ∃ tx, smapTx.run? .initial
    (sentFrames 2 ++ pumpRound ++ [.complete 0 0, .pump false, .pump false]) = some tx ∧ tx.FifoRight := by
  have reached : (smapTx.run? .initial
      (sentFrames 2 ++ pumpRound ++ [.complete 0 0, .pump false, .pump false])).isSome = true := by decide +kernel
  obtain ⟨tx, run⟩ := Option.isSome_iff_exists.mp reached
  exact ⟨tx, run, transmit_fifo_right run⟩

/-- A batch that goes round from slot 15 to slot 0 goes out the wrong way round. -/
example : (smapTx.run? .initial ((List.replicate 5 (sentFrames 3 ++ pumpRound)).flatten ++ sentFrames 2 ++ pumpRound)).map
    (fun tx => tx.written.map Prod.fst) = some (List.range 15 ++ [16, 15]) := by decide +kernel

end KosTool.Ps2
