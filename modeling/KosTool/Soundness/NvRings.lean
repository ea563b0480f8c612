import KosTool.Math.Placement
import KosTool.Model.Xbox.NvNet

/-! # The rings of the NVnet adapter keep step

A receive descriptor goes back to the adapter before `process_pkt` is called, so a call of `nvnet_rx` that a handler makes
goes on with the next frame, and the outer call with the one behind that. A transmit descriptor is filled only when the
adapter has returned it, and a call that returns success has seen its frame sent.
-/

namespace KosTool.Xbox

open ByteWord Machine RingWindow

theorem NvDesc.owned_avail (data : Buffer) (length : BitVec 16) : (NvDesc.mk data length 0x8000).owned = true := by
  change decide ((0x8000 : BitVec 16) &&& 0x8000 ≠ 0) = true
  decide

namespace NvRx

/-- The first descriptor that the driver has not handed back. -/
def next (rx : NvRx) : ℕ :=
  match rx.calls with
  | .advance _ _ :: _ => rx.curRx + 1
  | _ => rx.curRx

/-- A frame whose descriptor is handed back, before `process_pkt` is called. -/
def inHand (rx : NvRx) : List (List Byte) :=
  match rx.calls with
  | .advance _ (some len) :: _ => [slice rx.currentPkt 0 len]
  | _ => []

/-- Every frame that arrived was passed on in its order, or waits in the ring, and all other descriptors are the
adapter's. -/
structure Right (rx : NvRx) : Prop where
  passed : ∃ (before : List NvDesc) (count : ℕ), count ≤ rxRingSize ∧
    rx.arrived = before ++ window rxRingSize rx.rxRing rx.next count ∧
    rx.handed ++ rx.inHand = before.filterMap NvDesc.frame ∧
    ∀ offset < rxRingSize, (rx.rxRing ((rx.next + offset) % rxRingSize)).owned = decide (count ≤ offset)

/-- The ring, with the frames that were passed on and the number of those that wait. -/
structure Keeps (rx : NvRx) (before : List NvDesc) (count : ℕ) : Prop where
  fits : count ≤ rxRingSize
  inside : rx.curRx < rxRingSize
  arrived : rx.arrived = before ++ window rxRingSize rx.rxRing rx.next count
  passed : rx.handed ++ rx.inHand = before.filterMap NvDesc.frame
  owned : ∀ offset < rxRingSize, (rx.rxRing ((rx.next + offset) % rxRingSize)).owned = decide (count ≤ offset)
  behind : rx.hwRx = (rx.next + count) % rxRingSize
  outer : ∀ call ∈ rx.calls.tail, ∃ processed, call = .handling processed
  current : ∀ processed len outer, rx.calls = .giveBack processed len :: outer →
    0 < count ∧ (rx.rxRing rx.curRx).frame = len.map (slice rx.currentPkt 0)

section Receive

variable {rx later : NvRx} {before : List NvDesc} {count : ℕ}

theorem initial_keeps (buffers : ℕ → Buffer) (currentPkt : Buffer) : (initial buffers currentPkt).Keeps [] 0 where
  fits := Nat.zero_le _
  inside := Nat.succ_pos 15
  arrived := rfl
  passed := rfl
  owned offset inside := by
    rw [decide_eq_true (Nat.zero_le offset)]
    exact NvDesc.owned_avail _ _
  behind := rfl
  outer := nofun
  current := nofun

theorem Keeps.right (keeps : rx.Keeps before count) : rx.Right :=
  ⟨before, count, keeps.fits, keeps.arrived, keeps.passed, keeps.owned⟩

/-- The call stands somewhere else, and the ring is as it was. -/
theorem Keeps.goto (keeps : rx.Keeps before count) {calls : List NvRxCall} (next : next { rx with calls := calls } = rx.next)
    (inHand : inHand { rx with calls := calls } = rx.inHand)
    (outer : ∀ call ∈ calls.tail, ∃ processed, call = .handling processed)
    (current : ∀ processed len outer, calls ≠ .giveBack processed len :: outer) :
    Keeps { rx with calls := calls } before count where
  fits := keeps.fits
  inside := keeps.inside
  arrived := by rw [next]; exact keeps.arrived
  passed := by rw [inHand]; exact keeps.passed
  owned := by rw [next]; exact keeps.owned
  behind := by rw [next]; exact keeps.behind
  outer := outer
  current processed len outer here := absurd here (current processed len outer)

/-- A list of calls in which all handle a frame. -/
theorem handling_cases {calls : List NvRxCall} (all : ∀ call ∈ calls, ∃ processed, call = .handling processed) :
    calls = [] ∨ ∃ processed outer, calls = .handling processed :: outer := by
  cases calls with
  | nil => exact .inl rfl
  | cons call outer =>
    obtain ⟨processed, rfl⟩ := all call List.mem_cons_self
    exact .inr ⟨processed, outer, rfl⟩

/-- The call returns to the handler it was made by, or to the main loop. -/
theorem Keeps.leave (keeps : rx.Keeps before count) {outer : List NvRxCall} (next : rx.next = rx.curRx)
    (inHand : rx.inHand = []) (all : ∀ call ∈ outer, ∃ processed, call = .handling processed) :
    Keeps { rx with calls := outer } before count := by
  rcases handling_cases all with rfl | ⟨processed, outer, rfl⟩
  · exact keeps.goto next.symm inHand.symm nofun nofun
  · exact keeps.goto next.symm inHand.symm (fun call member => all call (List.mem_cons_of_mem _ member)) nofun

theorem Keeps.again (keeps : rx.Keeps before count) {outer : List NvRxCall} (next : rx.next = rx.curRx)
    (inHand : rx.inHand = []) (all : ∀ call ∈ outer, ∃ processed, call = .handling processed) (processed : ℕ) :
    Keeps { rx with calls := again processed outer } before count := by
  rw [NvRx.again]
  split_ifs
  · exact keeps.leave next inHand all
  · exact keeps.goto next.symm inHand.symm all nofun

/-- The adapter fills a descriptor. -/
theorem Keeps.arrive (keeps : rx.Keeps before count) {desc : NvDesc} (free : (rx.rxRing rx.hwRx).owned = true)
    (gives : desc.owned = false) : Keeps { rx with
      rxRing := Function.update rx.rxRing rx.hwRx desc
      hwRx := (rx.hwRx + 1) % rxRingSize
      arrived := rx.arrived ++ [desc] } before (count + 1) := by
  have room : count < rxRingSize := by
    rcases Nat.lt_or_eq_of_le keeps.fits with below | full
    · exact below
    · have first := keeps.owned 0 (by decide)
      have round : (rx.next + 0) % rxRingSize = rx.hwRx := by rw [keeps.behind, full, Nat.add_mod_right, Nat.add_zero]
      have positive : ¬count ≤ 0 := by
        rw [full]
        decide
      rw [round, free, decide_eq_false positive] at first
      cases first
  have apart (offset : ℕ) (inside : offset < rxRingSize) (other : offset ≠ count) :
      Function.update rx.rxRing rx.hwRx desc ((rx.next + offset) % rxRingSize) =
        rx.rxRing ((rx.next + offset) % rxRingSize) := by
    apply Function.update_of_ne
    rw [keeps.behind]
    exact fun same => other (cell_injective inside room same)
  refine ⟨room, keeps.inside, ?_, keeps.passed, fun offset inside => ?_, ?_, keeps.outer, fun processed len outer here => ?_⟩
  · change rx.arrived ++ [desc] = before ++ window _ (Function.update rx.rxRing rx.hwRx desc) rx.next (count + 1)
    rw [keeps.behind, window_push room, ← List.append_assoc, ← keeps.arrived]
  · change (Function.update rx.rxRing rx.hwRx desc ((rx.next + offset) % rxRingSize)).owned = _
    by_cases same : offset = count
    · rw [same, ← keeps.behind, Function.update_self, gives, decide_eq_false (by omega)]
    · rw [apart offset inside same, keeps.owned offset inside, decide_eq_decide]
      omega
  · change (rx.hwRx + 1) % rxRingSize = (rx.next + (count + 1)) % rxRingSize
    rw [keeps.behind, Nat.mod_add_mod, Nat.add_assoc]
  · obtain ⟨positive, frame⟩ := keeps.current processed len outer here
    have first : rx.next = rx.curRx := by rw [next, show rx.calls = _ from here]
    have same := apart 0 (by decide) (by omega)
    rw [Nat.add_zero, first, Nat.mod_eq_of_lt keeps.inside] at same
    refine ⟨Nat.succ_pos count, ?_⟩
    change (Function.update rx.rxRing rx.hwRx desc rx.curRx).frame = _
    rw [same]
    exact frame

/-- A frame is read. -/
theorem Keeps.read (keeps : rx.Keeps before count) {processed : ℕ} {outer : List NvRxCall}
    (here : rx.calls = .check processed :: outer) (mine : (rx.rxRing rx.curRx).owned = false) {currentPkt : Buffer}
    {len : Option ℕ} (frame : (rx.rxRing rx.curRx).frame = len.map (slice currentPkt 0)) :
    Keeps { rx with currentPkt := currentPkt, calls := .giveBack processed len :: outer } before count := by
  have first : rx.next = rx.curRx := by rw [next, here]
  have empty : rx.inHand = [] := by rw [inHand, here]
  have waiting : 0 < count := by
    have first_owned := keeps.owned 0 (by decide)
    rw [Nat.add_zero, first, Nat.mod_eq_of_lt keeps.inside, mine] at first_owned
    have positive := of_decide_eq_false first_owned.symm
    omega
  have arrived := keeps.arrived
  have passed := keeps.passed
  have owned := keeps.owned
  have behind := keeps.behind
  have rest := keeps.outer
  rw [first] at arrived owned behind
  rw [empty] at passed
  rw [here] at rest
  refine ⟨keeps.fits, keeps.inside, arrived, passed, owned, behind, rest, fun processed' len' outer' same => ?_⟩
  cases same
  exact ⟨waiting, frame⟩

/-- The descriptor is handed back. -/
theorem Keeps.giveBack (keeps : rx.Keeps before count) {processed : ℕ} {len : Option ℕ} {outer : List NvRxCall}
    (here : rx.calls = .giveBack processed len :: outer) : Keeps { rx with
      rxRing := Function.update rx.rxRing rx.curRx (emptied (rx.rxRing rx.curRx))
      calls := .advance processed len :: outer } (before ++ [rx.rxRing rx.curRx]) (count - 1) := by
  have first : rx.next = rx.curRx := by rw [next, here]
  have empty : rx.inHand = [] := by rw [inHand, here]
  obtain ⟨waiting, frame⟩ := keeps.current processed len outer here
  have fits := keeps.fits
  have arrived := keeps.arrived
  have passed := keeps.passed
  have behind := keeps.behind
  have rest := keeps.outer
  rw [empty, List.append_nil] at passed
  rw [here] at rest
  obtain ⟨more, rfl⟩ : ∃ more, count = more + 1 := ⟨count - 1, by omega⟩
  have apart (offset : ℕ) (inside : offset + 1 < rxRingSize) :
      Function.update rx.rxRing rx.curRx (emptied (rx.rxRing rx.curRx)) ((rx.curRx + 1 + offset) % rxRingSize) =
        rx.rxRing ((rx.curRx + 1 + offset) % rxRingSize) := by
    apply Function.update_of_ne
    have := keeps.inside
    simp only [rxRingSize] at inside this ⊢
    omega
  refine ⟨by omega, keeps.inside, ?_, ?_, fun offset inside => ?_, ?_, rest, nofun⟩
  · change rx.arrived = before ++ [_] ++ window _ (Function.update rx.rxRing rx.curRx _) (rx.curRx + 1) more
    rw [window_congr fun offset below => apart offset (by omega), List.append_assoc, arrived, first, window_succ,
      Nat.mod_eq_of_lt keeps.inside]
    rfl
  · rw [List.filterMap_append, ← passed]
    change rx.handed ++ _ = _
    rw [List.filterMap_cons, List.filterMap_nil, frame]
    cases len <;> rfl
  · change (Function.update rx.rxRing rx.curRx _ ((rx.curRx + 1 + offset) % rxRingSize)).owned = _
    rcases Nat.lt_or_ge (offset + 1) rxRingSize with below | last
    · have here' := keeps.owned (offset + 1) below
      rw [first, Nat.add_comm offset, ← Nat.add_assoc] at here'
      rw [apart offset below, here', decide_eq_decide]
      omega
    · have round : (rx.curRx + 1 + offset) % rxRingSize = rx.curRx := by
        have := keeps.inside
        simp only [rxRingSize] at inside last this ⊢
        omega
      rw [round, Function.update_self, decide_eq_true (by omega)]
      exact NvDesc.owned_avail _ _
  · change rx.hwRx = (rx.curRx + 1 + more) % rxRingSize
    rw [behind, first]
    congr 1
    omega

/-- The ring goes on to the next descriptor. -/
theorem Keeps.advance (keeps : rx.Keeps before count) {processed : ℕ} {len : Option ℕ} {outer calls : List NvRxCall}
    (here : rx.calls = .advance processed len :: outer) {handed : List (List Byte)}
    (handing : handed = rx.handed ++ rx.inHand) (idle : ∀ call ∈ calls, ∀ processed len, call ≠ .advance processed len)
    (reading : ∀ call ∈ calls, ∀ processed len, call ≠ .giveBack processed len)
    (all : ∀ call ∈ calls.tail, ∃ processed, call = .handling processed) :
    Keeps { rx with curRx := (rx.curRx + 1) % rxRingSize, handed := handed, calls := calls } before count := by
  have place : next { rx with curRx := (rx.curRx + 1) % rxRingSize, handed := handed, calls := calls } =
      rx.next % rxRingSize := by
    rw [next, next, here]
    split
    · rename_i same
      exact absurd rfl (idle _ (by rw [show calls = _ from same]; exact List.mem_cons_self) _ _)
    · rfl
  have empty : inHand { rx with curRx := (rx.curRx + 1) % rxRingSize, handed := handed, calls := calls } = [] := by
    rw [inHand]
    split
    · rename_i same
      exact absurd rfl (idle _ (by rw [show calls = _ from same]; exact List.mem_cons_self) _ _)
    · rfl
  refine ⟨keeps.fits, Nat.mod_lt _ (by decide), ?_, ?_, ?_, ?_, all, fun processed' len' outer' same => ?_⟩
  · rw [place, window_mod]
    exact keeps.arrived
  · rw [empty, List.append_nil]
    exact handing.trans keeps.passed
  · rw [place]
    simp only [Nat.mod_add_mod]
    exact keeps.owned
  · rw [place, Nat.mod_add_mod]
    exact keeps.behind
  · exact absurd rfl (reading _ (by rw [show calls = _ from same]; exact List.mem_cons_self) _ _)

/-- One event. -/
theorem Keeps.step (keeps : rx.Keeps before count) {event : Event} (stepped : rx.step event = some later) :
    ∃ before count, later.Keeps before count := by
  have rest := keeps.outer
  cases event with
  | arrive desc =>
    rw [NvRx.step] at stepped
    split_ifs at stepped with gives
    cases stepped
    exact ⟨before, count + 1, keeps.arrive gives.1 gives.2⟩
  | poll =>
    rw [NvRx.step] at stepped
    split at stepped
    · rename_i here
      cases stepped
      refine ⟨before, count, keeps.goto ?_ ?_ ?_ nofun⟩
      · rw [next, next, here]
      · rw [inHand, inHand, here]
      · rw [here]
        exact nofun
    · rename_i processed outer here
      cases stepped
      refine ⟨before, count, keeps.goto ?_ ?_ ?_ nofun⟩
      · rw [next, next, here]
      · rw [inHand, inHand, here]
      · rw [here] at rest ⊢
        intro call member
        rcases List.mem_cons.mp member with rfl | inner
        · exact ⟨processed, rfl⟩
        · exact rest call inner
    · cases stepped
  | rx =>
    rw [NvRx.step, rxStep] at stepped
    split at stepped
    · rename_i processed outer here
      have first : rx.next = rx.curRx := by rw [next, here]
      have empty : rx.inHand = [] := by rw [inHand, here]
      rw [here] at rest
      dsimp only at stepped
      split_ifs at stepped with owned deliver
      · cases stepped
        exact ⟨before, count, keeps.leave first empty rest⟩
      · cases stepped
        refine ⟨before, count, keeps.read here (Bool.eq_false_iff.mpr owned) ?_⟩
        have copied := Placement.slice_storeAt rx.currentPkt 0
          (slice (rx.rxRing rx.curRx).data 0 (rx.rxRing rx.curRx).rxLen)
        rw [length_slice] at copied
        rw [NvDesc.frame, if_pos deliver, Option.map_some, copied]
      · cases stepped
        refine ⟨before, count, keeps.read here (Bool.eq_false_iff.mpr owned) ?_⟩
        rw [NvDesc.frame, if_neg deliver, Option.map_none]
    · rename_i processed len outer here
      cases stepped
      exact ⟨_, _, keeps.giveBack here⟩
    · rename_i processed len outer here
      rw [here] at rest
      cases len with
      | some len =>
        cases stepped
        refine ⟨before, count, keeps.advance here ?_ ?_ ?_ rest⟩
        · rw [inHand, here]
        all_goals
          intro call member processed' len'
          rcases List.mem_cons.mp member with rfl | inner
          · exact nofun
          · obtain ⟨processed, rfl⟩ := rest call inner
            exact nofun
      | none =>
        cases stepped
        have plain (call : NvRxCall) (member : call ∈ NvRx.again (processed + 1) outer) :
            call = .check (processed + 1) ∨ call ∈ outer := by
          rw [NvRx.again] at member
          split_ifs at member
          · exact .inr member
          · exact List.mem_cons.mp member
        refine ⟨before, count, keeps.advance here ?_ ?_ ?_ ?_⟩
        · rw [inHand, here, List.append_nil]
        · intro call member processed' len'
          rcases plain call member with rfl | inner
          · exact nofun
          · obtain ⟨processed, rfl⟩ := rest call inner
            exact nofun
        · intro call member processed' len'
          rcases plain call member with rfl | inner
          · exact nofun
          · obtain ⟨processed, rfl⟩ := rest call inner
            exact nofun
        · intro call member
          rw [NvRx.again] at member
          split_ifs at member
          · exact rest call (List.mem_of_mem_tail member)
          · exact rest call member
    · cases stepped
  | returns =>
    rw [NvRx.step] at stepped
    split at stepped
    · rename_i processed outer here
      rw [here] at rest
      cases stepped
      refine ⟨before, count, keeps.again ?_ ?_ rest processed⟩
      · rw [next, here]
      · rw [inHand, here]
    · cases stepped

end Receive

end NvRx

/-- In every run, with any nesting of calls, the frames that arrived are passed on in order, none twice and none skipped,
and every descriptor that does not hold a frame that waits is the adapter's. -/
theorem nvnet_rx_right {buffers : ℕ → Buffer} {currentPkt : Buffer} {events : List NvRx.Event} {rx : NvRx}
    (run : nvRx.run? (.initial buffers currentPkt) events = some rx) : rx.Right := by
  have steps (source : NvRx) (event : NvRx.Event) (later : NvRx) (keeps : ∃ before count, source.Keeps before count)
      (_ : True) (stepped : nvRx.step source event = some later) : ∃ before count, later.Keeps before count := by
    obtain ⟨before, count, keeps⟩ := keeps
    exact keeps.step stepped
  have always : nvRx.Along (fun _ _ => True) (.initial buffers currentPkt) events :=
    LabeledMachine.Along.of_forall (fun _ _ => trivial) _
  obtain ⟨before, count, keeps⟩ :=
    LabeledMachine.run?_invariant steps ⟨[], 0, NvRx.initial_keeps buffers currentPkt⟩ always run
  exact keeps.right

/-- Two frames arrive; the handler of the first polls, and is given the second. -/
theorem nvnet_rx_right_nested : ∃ rx, nvRx.run? (.initial (fun _ _ => 0) fun _ => 0)
    [.arrive ⟨fun _ => 1, 14, 1⟩, .arrive ⟨fun _ => 2, 60, 1⟩, .poll, .rx, .rx, .rx, .poll, .rx, .rx, .rx, .returns, .rx,
      .returns, .rx] = some rx ∧ rx.Right := by
  have reached : (nvRx.run? (.initial (fun _ _ => 0) fun _ => 0)
      [.arrive ⟨fun _ => 1, 14, 1⟩, .arrive ⟨fun _ => 2, 60, 1⟩, .poll, .rx, .rx, .rx, .poll, .rx, .rx, .rx, .returns, .rx,
        .returns, .rx]).isSome = true := by decide +kernel
  obtain ⟨rx, run⟩ := Option.isSome_iff_exists.mp reached
  exact ⟨rx, run, nvnet_rx_right run⟩

namespace NvTx

/-- The descriptor behind those that were put up for sending. -/
def behind (tx : NvTx) : ℕ :=
  match tx.call with
  | .sent => tx.curTx + 1
  | _ => tx.curTx

/-- The ring, with the number of the frames that are not sent yet. -/
structure Keeps (tx : NvTx) (count : ℕ) : Prop where
  fits : count ≤ txRingSize
  inside : tx.curTx < txRingSize
  inside' : tx.hwTx < txRingSize
  queued : tx.queued = tx.wire ++ (window txRingSize tx.txRing tx.hwTx count).map payload
  owned : ∀ offset < txRingSize, (tx.txRing ((tx.hwTx + offset) % txRingSize)).owned = decide (offset < count)
  meets : tx.behind % txRingSize = (tx.hwTx + count) % txRingSize
  nonempty : tx.call = .sent → 0 < tx.queued.length
  returned : ∀ idx, (idx, true) ∈ tx.returned → idx < tx.wire.length

section Transmit

variable {tx later : NvTx} {count : ℕ}

theorem initial_keeps (buffers : ℕ → Buffer) : (initial buffers).Keeps 0 where
  fits := Nat.zero_le _
  inside := Nat.succ_pos 3
  inside' := Nat.succ_pos 3
  queued := rfl
  owned offset inside := by
    rw [decide_eq_false (Nat.not_lt_zero offset)]
    change decide ((0 : BitVec 16) &&& 0x8000 ≠ 0) = false
    decide
  meets := rfl
  nonempty := nofun
  returned := nofun

theorem length_nvFrame (pkt : List Byte) : 60 ≤ (nvFrame pkt).length ∧ (nvFrame pkt).length ≤ nvBufsz := by
  rw [nvFrame, List.length_append, List.length_replicate, List.length_take]
  simp only [nvBufsz]
  omega

/-- The adapter sends what was put into the buffer. -/
theorem payload_filled (desc : NvDesc) (pkt : List Byte) : payload (filled desc pkt) = nvFrame pkt := by
  obtain ⟨least, most⟩ := length_nvFrame pkt
  simp only [nvBufsz] at most
  have length : ((nvFrame pkt).length - 1) % 2 ^ 16 + 1 = (nvFrame pkt).length := by omega
  rw [payload]
  change slice (storeAt desc.data 0 (nvFrame pkt)) 0 ((BitVec.ofNat 16 ((nvFrame pkt).length - 1)).toNat + 1) = _
  rw [BitVec.toNat_ofNat, length, Placement.slice_storeAt]

theorem owned_filled (desc : NvDesc) (pkt : List Byte) : (filled desc pkt).owned = true := by
  change decide ((0x8001 : BitVec 16) &&& 0x8000 ≠ 0) = true
  decide

/-- A descriptor is filled. -/
theorem Keeps.fill (keeps : tx.Keeps count) {pkt : List Byte} (here : tx.call = .release pkt)
    (free : (tx.txRing tx.curTx).owned = false) : Keeps { tx with
      txRing := Function.update tx.txRing tx.curTx (filled (tx.txRing tx.curTx) pkt)
      queued := tx.queued ++ [nvFrame pkt]
      call := .sent } (count + 1) := by
  have meets := keeps.meets
  rw [behind, here] at meets
  rw [Nat.mod_eq_of_lt keeps.inside] at meets
  have room : count < txRingSize := by
    rcases Nat.lt_or_eq_of_le keeps.fits with below | full
    · exact below
    · have first := keeps.owned 0 (by decide)
      have round : (tx.hwTx + 0) % txRingSize = tx.curTx := by rw [meets, full, Nat.add_mod_right, Nat.add_zero]
      have positive : 0 < count := by
        rw [full]
        decide
      rw [round, free, decide_eq_true positive] at first
      cases first
  refine ⟨room, keeps.inside, keeps.inside', ?_, fun offset inside => ?_, ?_, fun _ => ?_, keeps.returned⟩
  · change tx.queued ++ [nvFrame pkt] = tx.wire ++ (window _ (Function.update tx.txRing tx.curTx _) tx.hwTx (count + 1)).map
      payload
    rw [meets, window_push room, List.map_append, List.map_singleton, payload_filled, ← List.append_assoc, keeps.queued]
  · change (Function.update tx.txRing tx.curTx _ ((tx.hwTx + offset) % txRingSize)).owned = _
    by_cases same : offset = count
    · rw [same, ← meets, Function.update_self, owned_filled, decide_eq_true (Nat.lt_succ_self count)]
    · have apart : (tx.hwTx + offset) % txRingSize ≠ tx.curTx := by
        rw [meets]
        exact fun equal => same (cell_injective inside room equal)
      rw [Function.update_of_ne apart, keeps.owned offset inside, decide_eq_decide]
      omega
  · change (tx.curTx + 1) % txRingSize = (tx.hwTx + (count + 1)) % txRingSize
    rw [meets, Nat.mod_add_mod, Nat.add_assoc]
  · rw [List.length_append]
    exact Nat.succ_pos _

/-- The adapter sends a frame. -/
theorem Keeps.transmit (keeps : tx.Keeps count) {status : BitVec 16} (full : (tx.txRing tx.hwTx).owned = true)
    (gives : status &&& 0x8000 = 0) : Keeps { tx with
      txRing := Function.update tx.txRing tx.hwTx { tx.txRing tx.hwTx with flags := status }
      hwTx := (tx.hwTx + 1) % txRingSize
      wire := tx.wire ++ [payload (tx.txRing tx.hwTx)] } (count - 1) := by
  have fits := keeps.fits
  have waiting : 0 < count := by
    have first := keeps.owned 0 (by decide)
    rw [Nat.add_zero, Nat.mod_eq_of_lt keeps.inside', full] at first
    exact of_decide_eq_true first.symm
  obtain ⟨more, rfl⟩ : ∃ more, count = more + 1 := ⟨count - 1, by omega⟩
  have apart (offset : ℕ) (inside : offset + 1 < txRingSize) (desc : NvDesc) :
      Function.update tx.txRing tx.hwTx desc ((tx.hwTx + 1 + offset) % txRingSize) =
        tx.txRing ((tx.hwTx + 1 + offset) % txRingSize) := by
    apply Function.update_of_ne
    have := keeps.inside'
    simp only [txRingSize] at inside this ⊢
    omega
  refine ⟨by omega, keeps.inside, Nat.mod_lt _ (by decide), ?_, fun offset inside => ?_, ?_, keeps.nonempty, fun idx member => ?_⟩
  · change tx.queued = tx.wire ++ [_] ++ (window _ (Function.update tx.txRing tx.hwTx _) ((tx.hwTx + 1) % txRingSize)
      more).map payload
    rw [window_mod, window_congr fun offset below => apart offset (by omega) _, keeps.queued, window_succ,
      Nat.mod_eq_of_lt keeps.inside', List.map_cons, List.append_assoc]
    rfl
  · change (Function.update tx.txRing tx.hwTx _ (((tx.hwTx + 1) % txRingSize + offset) % txRingSize)).owned = _
    rw [Nat.mod_add_mod]
    rcases Nat.lt_or_ge (offset + 1) txRingSize with below | last
    · have here := keeps.owned (offset + 1) below
      rw [Nat.add_comm offset, ← Nat.add_assoc] at here
      rw [apart offset below, here, decide_eq_decide]
      omega
    · have round : (tx.hwTx + 1 + offset) % txRingSize = tx.hwTx := by
        have := keeps.inside'
        simp only [txRingSize] at inside last this ⊢
        omega
      rw [round, Function.update_self, decide_eq_false (by omega)]
      exact decide_eq_false (not_not.mpr gives)
  · change tx.behind % txRingSize = ((tx.hwTx + 1) % txRingSize + more) % txRingSize
    rw [keeps.meets, Nat.mod_add_mod]
    congr 1
    omega
  · rw [List.length_append]
    exact Nat.lt_succ_of_lt (keeps.returned idx member)

/-- A call of `nvnet_tx` returns behind its second wait. -/
theorem Keeps.complete (keeps : tx.Keeps count) (here : tx.call = .sent) {timeout : Bool}
    (unfinished : ¬(timeout = false ∧ (tx.txRing tx.curTx).owned = true)) : Keeps { tx with
      curTx := (tx.curTx + 1) % txRingSize
      returned := tx.returned ++ [(tx.queued.length - 1, !timeout)]
      call := .idle } count := by
  have meets := keeps.meets
  rw [behind, here] at meets
  refine ⟨keeps.fits, Nat.mod_lt _ (by decide), keeps.inside', keeps.queued, keeps.owned, ?_, nofun, fun idx member => ?_⟩
  · change (tx.curTx + 1) % txRingSize % txRingSize = _
    rw [Nat.mod_mod]
    exact meets
  · rcases List.mem_append.mp member with old | new
    · exact keeps.returned idx old
    · have whole := List.mem_singleton.mp new
      simp only [Prod.mk.injEq] at whole
      obtain ⟨rfl, success⟩ := whole
      have early : timeout = false := by
        cases timeout with
        | false => rfl
        | true => cases success
      -- A frame that waits would be the last one, in the descriptor that was returned.
      have empty : count = 0 := by
        by_contra positive
        have inside := keeps.inside
        have inside' := keeps.inside'
        have fits := keeps.fits
        have last := keeps.owned (count - 1) (by omega)
        have place : (tx.hwTx + (count - 1)) % txRingSize = tx.curTx := by
          simp only [txRingSize] at meets inside inside' ⊢
          omega
        rw [place, decide_eq_true (by omega)] at last
        exact unfinished ⟨early, last⟩
      have sent := keeps.queued
      rw [empty, window_zero, List.map_nil, List.append_nil] at sent
      have positive := keeps.nonempty here
      rw [sent] at positive ⊢
      exact Nat.sub_lt positive Nat.one_pos

/-- One event. -/
theorem Keeps.step (keeps : tx.Keeps count) {event : Event} (stepped : tx.step event = some later) :
    ∃ count, later.Keeps count := by
  cases event with
  | tx pkt =>
    rw [NvTx.step] at stepped
    split at stepped
    · rename_i here
      have meets := keeps.meets
      rw [behind, here] at meets
      split_ifs at stepped
      · cases stepped
        exact ⟨count, keeps⟩
      · cases stepped
        exact ⟨count, keeps.fits, keeps.inside, keeps.inside', keeps.queued, keeps.owned, meets, nofun, keeps.returned⟩
    · cases stepped
  | resume timeout =>
    rw [NvTx.step, txStep] at stepped
    split at stepped
    · rename_i pkt here
      have meets := keeps.meets
      rw [behind, here] at meets
      split_ifs at stepped with late owned
      · cases stepped
        exact ⟨count, keeps.fits, keeps.inside, keeps.inside', keeps.queued, keeps.owned, meets, nofun, keeps.returned⟩
      · cases stepped
        exact ⟨count + 1, keeps.fill here (Bool.eq_false_iff.mpr owned)⟩
    · rename_i here
      split_ifs at stepped with waits
      cases stepped
      exact ⟨count, keeps.complete here waits⟩
    · cases stepped
  | transmit status =>
    rw [NvTx.step] at stepped
    split_ifs at stepped with full
    cases stepped
    exact ⟨count - 1, keeps.transmit full.1 full.2⟩

end Transmit

end NvTx

end KosTool.Xbox
