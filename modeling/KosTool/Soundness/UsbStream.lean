import KosTool.Model.Host.UsbTransport
import KosTool.Math.Placement

/-! # The USB transport delivers the stream

What `usb_read` hands out, with what is still in the buffer, is what the transfers reported, as long as no transfer of
`usb_fill` reports bytes together with a failure.
-/

namespace KosTool.Host.UsbHandle

open ByteWord Machine Machine.LabeledMachine
open Psp (kosloadUsbMaxpkt)

variable {h h' target : UsbHandle} {count : ℕ} {transfer : BulkTransfer} {transfers : List BulkTransfer} {event : Event}
  {events : List Event}

/-- The indices stay inside the buffer. -/
structure Inside (h : UsbHandle) : Prop where
  pos : h.rxpos ≤ h.rxlen
  len : h.rxlen ≤ usbRxbufSize

/-- What has been handed out or will be. -/
def account (h : UsbHandle) : List Byte := h.handedOut ++ h.buffered

@[simp] theorem length_buffered : h.buffered.length = h.rxlen - h.rxpos := length_slice _ _ _

section Buffer

/-- A byte is taken from the front of the buffer. -/
theorem buffered_cons (some : h.rxpos < h.rxlen) :
    h.buffered = h.rxbuf h.rxpos :: { h with rxpos := h.rxpos + 1 }.buffered := by
  have size : h.rxlen - h.rxpos = h.rxlen - (h.rxpos + 1) + 1 := by omega
  rw [buffered, size, slice_succ]
  rfl

theorem buffered_nil (empty : h.rxlen ≤ h.rxpos) : h.buffered = [] := by
  rw [buffered, Nat.sub_eq_zero_of_le empty]
  rfl

theorem account_of_empty (empty : h.rxlen ≤ h.rxpos) : h.account = h.handedOut := by
  rw [account, buffered_nil empty, List.append_nil]

/-- The loop hands out what is in the buffer, up to the count. -/
theorem drain_eq (inside : h.Inside) (out : List Byte) : drain count h out =
    (out ++ h.buffered.take count, { h with rxpos := h.rxpos + min count (h.rxlen - h.rxpos) }) := by
  induction count generalizing h out with
  | zero => rw [drain, List.take_zero, List.append_nil, Nat.zero_min, Nat.add_zero]
  | succ count ih =>
    rw [drain]
    by_cases empty : h.rxlen ≤ h.rxpos
    · rw [if_pos empty, buffered_nil empty, List.take_nil, List.append_nil, Nat.sub_eq_zero_of_le empty, Nat.min_zero,
        Nat.add_zero]
    · have some : h.rxpos < h.rxlen := Nat.lt_of_not_le empty
      have next : Inside { h with rxpos := h.rxpos + 1 } := ⟨some, inside.len⟩
      have moved : h.rxpos + 1 + min count (h.rxlen - (h.rxpos + 1)) = h.rxpos + min (count + 1) (h.rxlen - h.rxpos) := by omega
      rw [if_neg empty, ih next, buffered_cons some, List.take_succ_cons, List.append_assoc, List.singleton_append]
      dsimp only
      rw [moved]

/-- The rest stays in the buffer. -/
theorem buffered_drop (h : UsbHandle) (count : ℕ) :
    { h with rxpos := h.rxpos + min count (h.rxlen - h.rxpos) }.buffered = h.buffered.drop count := by
  apply List.ext_getElem
  · rw [List.length_drop, length_buffered, length_buffered]
    dsimp only
    omega
  · intro i left right
    rw [List.length_drop, length_buffered] at right
    simp only [buffered, List.getElem_drop, getElem_slice]
    rw [Nat.min_eq_left (by omega), Nat.add_assoc]

/-- `usb_read` hands out the front of the buffer. -/
theorem readBuffered_eq (inside : h.Inside) : h.readBuffered count =
    (some (h.buffered.take count),
      { h with rxpos := h.rxpos + min count (h.rxlen - h.rxpos), handedOut := h.handedOut ++ h.buffered.take count }) := by
  rw [readBuffered, drain_eq inside, List.nil_append]

theorem account_readBuffered (inside : h.Inside) : (h.readBuffered count).2.account = h.account := by
  rw [readBuffered_eq inside, account, account]
  change h.handedOut ++ h.buffered.take count ++ { h with rxpos := h.rxpos + min count (h.rxlen - h.rxpos) }.buffered = _
  rw [buffered_drop, List.append_assoc, List.take_append_drop]

theorem inside_readBuffered (inside : h.Inside) : (h.readBuffered count).2.Inside := by
  rw [readBuffered_eq inside]
  exact ⟨by have pos := inside.pos; dsimp only; omega, inside.len⟩

theorem received_readBuffered (inside : h.Inside) : (h.readBuffered count).2.received = h.received := by
  rw [readBuffered_eq inside]

end Buffer

section Topup

theorem inside_compact (inside : h.Inside) : h.compact.Inside := by
  unfold compact
  split_ifs
  · exact ⟨Nat.zero_le _, (Nat.sub_le _ _).trans inside.len⟩
  · exact inside

/-- The move to the front keeps what is in the buffer. -/
theorem buffered_compact (h : UsbHandle) : h.compact.buffered = h.buffered := by
  unfold compact
  split_ifs
  · have moved := Placement.slice_storeAt h.rxbuf 0 h.buffered
    rw [length_buffered] at moved
    exact moved
  · rfl

theorem compact_rxpos (h : UsbHandle) : h.compact.rxpos = 0 := by
  unfold compact
  split_ifs with some
  · rfl
  · exact Nat.eq_zero_of_not_pos some

theorem compact_received (h : UsbHandle) : h.compact.received = h.received := by
  unfold compact
  split_ifs <;> rfl

theorem compact_handedOut (h : UsbHandle) : h.compact.handedOut = h.handedOut := by
  unfold compact
  split_ifs <;> rfl

theorem transferred_le (offset : ℕ) (transfer : BulkTransfer) : transferred offset transfer ≤ usbRxbufSize - offset :=
  List.length_take_le _ _

/-- What a transfer stores behind the bytes of the buffer is appended to them. -/
theorem buffered_append (pos : h.rxpos ≤ h.rxlen) :
    { h.bulkTransfer h.rxlen transfer with rxlen := h.rxlen + transferred h.rxlen transfer }.buffered =
      h.buffered ++ transfer.bytes.take (usbRxbufSize - h.rxlen) := by
  have size : h.rxlen + transferred h.rxlen transfer - h.rxpos = h.rxlen - h.rxpos + transferred h.rxlen transfer := by omega
  have border : h.rxpos + (h.rxlen - h.rxpos) = h.rxlen := by omega
  have front : slice (storeAt h.rxbuf h.rxlen (transfer.bytes.take (usbRxbufSize - h.rxlen))) h.rxpos (h.rxlen - h.rxpos) =
      h.buffered := by
    apply slice_congr
    intro i below
    exact storeAt_outside _ (.inl (by omega))
  have back := Placement.slice_storeAt h.rxbuf h.rxlen (transfer.bytes.take (usbRxbufSize - h.rxlen))
  change slice (storeAt h.rxbuf h.rxlen (transfer.bytes.take (usbRxbufSize - h.rxlen))) h.rxpos
    (h.rxlen + transferred h.rxlen transfer - h.rxpos) = _
  rw [size, slice_add, border, front]
  exact congrArg (h.buffered ++ ·) back

/-- `usb_topup` loses nothing. -/
theorem usbTopup_account (transfer : BulkTransfer) (inside : h.Inside) : (h.usbTopup transfer).2.Inside ∧ ∃ stored,
    (h.usbTopup transfer).2.received = h.received ++ stored ∧ (h.usbTopup transfer).2.account = h.account ++ stored := by
  have small := inside_compact inside
  have kept : h.compact.account = h.account := by rw [account, buffered_compact, compact_handedOut, account]
  unfold usbTopup
  dsimp only
  by_cases full : usbRxbufSize - h.compact.rxlen < kosloadUsbMaxpkt
  · rw [if_pos full]
    exact ⟨small, [], by rw [compact_received, List.append_nil], by rw [kept, List.append_nil]⟩
  · have room := transferred_le h.compact.rxlen transfer
    have bound := small.len
    have pos := small.pos
    have grown : Inside { h.compact.bulkTransfer h.compact.rxlen transfer with
        rxlen := h.compact.rxlen + transferred h.compact.rxlen transfer } :=
      ⟨Nat.le_add_right_of_le pos, by dsimp only; omega⟩
    have appended : account { h.compact.bulkTransfer h.compact.rxlen transfer with
        rxlen := h.compact.rxlen + transferred h.compact.rxlen transfer } =
        h.account ++ transfer.bytes.take (usbRxbufSize - h.compact.rxlen) := by
      rw [account, buffered_append pos, ← kept, account, List.append_assoc]
      rfl
    rw [if_neg full]
    split_ifs
    all_goals exact ⟨grown, _, congrArg (· ++ _) h.compact_received, appended⟩

/-- What `usb_bytes_available` answers is in the buffer. -/
theorem usbTopup_answer (transfer : BulkTransfer) (some : 0 < (h.usbTopup transfer).1) :
    (h.usbTopup transfer).1 = ((h.usbTopup transfer).2.rxlen : ℤ) - (h.usbTopup transfer).2.rxpos := by
  unfold usbTopup at some ⊢
  dsimp only at some ⊢
  split_ifs at some ⊢ with full failed
  · rfl
  · exact absurd some (by dsimp only; omega)
  · rfl

end Topup

section Fill

/-- The transfers of a wait end with one that stores bytes and fails. -/
def losesBytes : List BulkTransfer → Prop
  | [] => False
  | transfer :: transfers =>
    if transfer.result = .failed then 0 < transferred 0 transfer
    else if 0 < transferred 0 transfer then False
    else losesBytes transfers

/-- A call loses bytes: it has to wait, and its wait ends so. -/
def Loses (h : UsbHandle) : Event → Prop
  | .read count transfers => count ≠ 0 ∧ h.rxlen ≤ h.rxpos ∧ losesBytes transfers
  | .bytesAvailable _ => False

/-- A call accounts for what it has received, but for what it loses. -/
def Accounts (h h' : UsbHandle) (loses : Prop) : Prop :=
  h'.Inside ∧ ∃ stored, h'.received = h.received ++ stored ∧
    ((¬loses ∧ h'.account = h.account ++ stored) ∨ (loses ∧ stored ≠ [] ∧ h'.account = h.account))

theorem usbFill_failed (failed : transfer.result = .failed) : h.usbFill transfer = (-1, h.bulkTransfer 0 transfer) := by
  rw [usbFill, if_neg (fun both => both.1 failed), if_neg (not_not.mpr failed)]

theorem usbFill_some (fine : transfer.result ≠ .failed) (some : 0 < transferred 0 transfer) : h.usbFill transfer =
    (((transferred 0 transfer : ℕ) : ℤ), { h.bulkTransfer 0 transfer with rxpos := 0, rxlen := transferred 0 transfer }) :=
  if_pos ⟨fine, some⟩

theorem usbFill_idle (fine : transfer.result ≠ .failed) (nothing : ¬0 < transferred 0 transfer) :
    h.usbFill transfer = (0, h.bulkTransfer 0 transfer) := by
  rw [usbFill, if_neg (fun both => nothing both.2), if_pos fine]

/-- The wait accounts for what its last transfer stored, unless that one failed. -/
theorem awaitFill_accounts {result : Option (List Byte)} (inside : h.Inside) (empty : h.rxlen ≤ h.rxpos)
    (waits : awaitFill count h transfers = some (result, h')) : Accounts h h' (losesBytes transfers) := by
  induction transfers generalizing h with
  | nil => nomatch waits
  | cons transfer transfers ih =>
    have room := transferred_le 0 transfer
    rw [awaitFill] at waits
    by_cases failed : transfer.result = .failed
    · -- The failure is reported, whatever it stored.
      rw [usbFill_failed failed, if_neg (by decide : ¬(-1 : ℤ) = 0), if_pos (by decide : (-1 : ℤ) < 0)] at waits
      cases waits
      refine ⟨⟨inside.pos, inside.len⟩, _, rfl, ?_⟩
      have kept : account (h.bulkTransfer 0 transfer) = h.account := by
        rw [account_of_empty empty]
        exact account_of_empty empty
      rw [losesBytes, if_pos failed, kept]
      by_cases some : 0 < transferred 0 transfer
      · exact .inr ⟨some, List.ne_nil_of_length_pos some, rfl⟩
      · refine .inl ⟨some, ?_⟩
        rw [List.length_eq_zero_iff.mp (Nat.eq_zero_of_not_pos some), List.append_nil]
    · by_cases some : 0 < transferred 0 transfer
      · rw [usbFill_some failed some, if_neg (by dsimp only; omega), if_neg (by dsimp only; omega)] at waits
        cases waits
        have filled : Inside { h.bulkTransfer 0 transfer with rxpos := 0, rxlen := transferred 0 transfer } :=
          ⟨Nat.zero_le _, room⟩
        have stored : buffered { h.bulkTransfer 0 transfer with rxpos := 0, rxlen := transferred 0 transfer } =
            transfer.bytes.take (usbRxbufSize - 0) :=
          Placement.slice_storeAt h.rxbuf 0 (transfer.bytes.take (usbRxbufSize - 0))
        refine ⟨inside_readBuffered filled, transfer.bytes.take (usbRxbufSize - 0), received_readBuffered filled, .inl ⟨?_, ?_⟩⟩
        · rw [losesBytes, if_neg failed, if_pos some]
          exact id
        · refine (account_readBuffered filled).trans ?_
          rw [account, stored, account_of_empty empty]
          rfl
      · rw [usbFill_idle failed some, if_pos rfl] at waits
        have idle : transfer.bytes.take (usbRxbufSize - 0) = [] :=
          List.length_eq_zero_iff.mp (Nat.eq_zero_of_not_pos some)
        obtain ⟨inside', stored, received, accounts⟩ := ih (h := h.bulkTransfer 0 transfer) ⟨inside.pos, inside.len⟩ empty waits
        have heard : (h.bulkTransfer 0 transfer).received = h.received := by
          rw [bulkTransfer, idle]
          exact List.append_nil _
        have kept : account (h.bulkTransfer 0 transfer) = h.account := by
          rw [account_of_empty empty]
          exact account_of_empty empty
        rw [heard] at received
        rw [kept] at accounts
        rw [losesBytes, if_neg failed, if_neg some]
        exact ⟨inside', stored, received, accounts⟩

/-- Every call accounts for what it has received, but for what it loses. -/
theorem step_accounts (inside : h.Inside) (step : h.step event = some h') : Accounts h h' (h.Loses event) := by
  cases event with
  | bytesAvailable transfer =>
    cases step
    obtain ⟨inside', stored, received, accounts⟩ := usbTopup_account transfer inside
    exact ⟨inside', stored, received, .inl ⟨id, accounts⟩⟩
  | read count transfers =>
    obtain ⟨⟨result, h'⟩, reads, rfl⟩ := Option.map_eq_some_iff.mp step
    unfold usbRead at reads
    by_cases none_asked : count = 0
    · rw [if_pos none_asked] at reads
      cases reads
      exact ⟨inside, [], (List.append_nil _).symm, .inl ⟨fun loses => loses.1 none_asked, (List.append_nil _).symm⟩⟩
    · rw [if_neg none_asked] at reads
      by_cases empty : h.rxlen ≤ h.rxpos
      · rw [if_pos empty] at reads
        obtain ⟨inside', stored, received, accounts⟩ := awaitFill_accounts inside empty reads
        refine ⟨inside', stored, received, accounts.imp (And.imp_left fun kept loses => kept loses.2.2) ?_⟩
        exact And.imp_left fun lost => ⟨none_asked, empty, lost⟩
      · rw [if_neg empty] at reads
        cases reads
        refine ⟨inside_readBuffered inside, [], ?_, .inl ⟨fun loses => empty loses.2.1, ?_⟩⟩
        · rw [List.append_nil]
          exact received_readBuffered inside
        · rw [List.append_nil]
          exact account_readBuffered inside

end Fill

section Run

/-- The bytes that were reported are handed out or in the buffer, in their order; the indices are inside the buffer; and
what a query answers can be read without another transfer. -/
structure Delivers (h : UsbHandle) : Prop where
  stream : h.handedOut ++ h.buffered = h.received
  indices : h.rxpos ≤ h.rxlen ∧ h.rxlen ≤ usbRxbufSize
  available : ∀ transfer, 0 < (h.usbTopup transfer).1 → ∃ out after,
    (h.usbTopup transfer).2.usbRead (h.usbTopup transfer).1.toNat [] = some (some out, after) ∧
      (out.length : ℤ) = (h.usbTopup transfer).1

/-- The answer of a query is what a read of so many bytes hands out. -/
theorem available_read (inside : h.Inside) (transfer : BulkTransfer) (answers : 0 < (h.usbTopup transfer).1) : ∃ out after,
    (h.usbTopup transfer).2.usbRead (h.usbTopup transfer).1.toNat [] = some (some out, after) ∧
      (out.length : ℤ) = (h.usbTopup transfer).1 := by
  have answer := usbTopup_answer transfer answers
  have inside' := (usbTopup_account transfer inside).1
  have pos := inside'.pos
  have reads : (h.usbTopup transfer).2.usbRead (h.usbTopup transfer).1.toNat [] =
      some ((h.usbTopup transfer).2.readBuffered (h.usbTopup transfer).1.toNat) := by
    rw [usbRead, if_neg (by omega), if_neg (by omega)]
  rw [readBuffered_eq inside'] at reads
  refine ⟨_, _, reads, ?_⟩
  rw [List.length_take, length_buffered]
  omega

/-- Bytes that are lost stay lost, and no others are. -/
theorem run_accounts (inside : h.Inside) (run : usbTransport.run? h events = some target) : target.Inside ∧
    (h.account = h.received → (target.account = target.received ↔ usbTransport.Along (fun h event => ¬h.Loses event) h events)) ∧
    (h.account.length < h.received.length → target.account.length < target.received.length) := by
  induction events generalizing h with
  | nil =>
    cases run
    exact ⟨inside, fun whole => iff_of_true whole trivial, id⟩
  | cons event events ih =>
    obtain ⟨next, step, suffix⟩ := run?_cons_eq_some.mp run
    obtain ⟨inside', stored, received, kept | lost⟩ := step_accounts inside step
    · obtain ⟨ends, whole, short⟩ := ih inside' suffix
      refine ⟨ends, fun all => ?_, fun fewer => short ?_⟩
      · rw [whole (by rw [kept.2, received, all]), along_cons_of_step step, and_iff_right kept.1]
      · rw [kept.2, received, List.length_append, List.length_append]
        exact Nat.add_lt_add_right fewer _
    · obtain ⟨ends, -, short⟩ := ih inside' suffix
      have some := List.length_pos_of_ne_nil lost.2.1
      refine ⟨ends, fun all => iff_of_false (fun whole => ?_) fun along => along.head lost.1, fun fewer => short ?_⟩
      · have missing := short (by rw [lost.2.2, received, all, List.length_append]; omega)
        rw [whole] at missing
        exact Nat.lt_irrefl _ missing
      · rw [lost.2.2, received, List.length_append]
        omega

/-- The stream is delivered exactly if no wait for the first byte of a read is ended by a failed transfer that stored
bytes. -/
theorem usb_delivers_iff {events : List Event} {target : UsbHandle} (run : usbTransport.run? opened events = some target) :
    target.Delivers ↔ usbTransport.Along (fun h event => ¬h.Loses event) opened events := by
  obtain ⟨inside, whole, -⟩ := run_accounts ⟨Nat.le_refl 0, Nat.zero_le _⟩ run
  rw [← whole rfl]
  exact ⟨fun delivers => delivers.stream, fun stream => ⟨stream, ⟨inside.pos, inside.len⟩, available_read inside⟩⟩

/-- A byte that arrives in time. -/
def arriving : List Event := [.read 1 [⟨.timeout, []⟩, ⟨.success, [0x41]⟩]]

/-- A byte that is reported together with a failure. -/
def failing : List Event := [.read 1 [⟨.failed, [0x41]⟩]]

theorem usb_delivers_byte : ∃ target, usbTransport.run? opened arriving = some target ∧
    (target.Delivers ↔ usbTransport.Along (fun h event => ¬h.Loses event) opened arriving) :=
  ⟨_, rfl, usb_delivers_iff rfl⟩

/-- It is neither handed out nor in the buffer. -/
theorem usb_loses_byte : ∃ target, usbTransport.run? opened failing = some target ∧ ¬target.Delivers := by
  refine ⟨_, rfl, fun delivers => ?_⟩
  have lost := congrArg List.length delivers.stream
  exact absurd lost (by decide)

end Run

end KosTool.Host.UsbHandle
