import KosTool.Math.SlotTable
import KosTool.Model.Ps2.SifBroker

/-! # One owner for each slot

What holds of the broker in every run: a slot that is used belongs to one client, which is in flight, and the flag of
the load counts the slots of loads, apart from the steps that change both. A client that is in flight without a slot
can only come from a session that was reset over it, and stays so.
-/

namespace KosTool.Ps2

open ByteWord Machine

/-- The slots of a table that belong to loads. -/
def countLoads (table : List (Option Word)) (priv : Word → BrokerPriv) : ℕ :=
  table.reduceOption.countP fun client => (priv client).op = .lmb

section CountLoads

variable {table : List (Option Word)} {priv : Word → BrokerPriv} {slot : ℕ} {client : Word}

theorem countLoads_update (other : client ∉ table.reduceOption) (fields : BrokerPriv) :
    countLoads table (Function.update priv client fields) = countLoads table priv := by
  refine List.countP_congr fun held member => ?_
  have apart : held ≠ client := fun same => other (same ▸ member)
  rw [Function.update_of_ne apart]

/-- A client that gets a slot counts if it loads. -/
theorem countLoads_fill (free : table[slot]? = some none) (other : client ∉ table.reduceOption)
    (fields : BrokerPriv) :
    countLoads (table.set slot (some client)) (Function.update priv client fields) =
      countLoads table priv + if fields.op = .lmb then 1 else 0 := by
  rw [countLoads, (SlotTable.fill free client).countP_eq, List.countP_cons, Function.update_self,
    ← countLoads_update other fields, countLoads]
  simp only [decide_eq_true_eq]

/-- A client that loses its slot counted if it loaded. -/
theorem countLoads_clear (held : table[slot]? = some (some client)) (once : table.reduceOption.Nodup)
    (fields : BrokerPriv) :
    countLoads table priv =
      countLoads (table.set slot none) (Function.update priv client fields) +
        if (priv client).op = .lmb then 1 else 0 := by
  have gone : client ∉ (table.set slot none).reduceOption :=
    (List.nodup_cons.mp ((SlotTable.clear held).nodup_iff.mp once)).1
  rw [countLoads_update gone, countLoads, (SlotTable.clear held).countP_eq, List.countP_cons, countLoads]
  simp only [decide_eq_true_eq]

/-- A slot that is cleared takes at most its own client from the count. -/
theorem countLoads_reset_le (slot : ℕ) : countLoads (table.set slot none) priv ≤ countLoads table priv := by
  cases holds : table[slot]? with
  | none => rw [List.set_eq_of_length_le (List.getElem?_eq_none_iff.mp holds)]
  | some value =>
    cases value with
    | none => rw [SlotTable.clear_free holds]
    | some client =>
      rw [countLoads, countLoads, (SlotTable.clear holds).countP_eq, List.countP_cons]
      exact Nat.le_add_right _ _

/-- Every load that has a slot is counted. -/
theorem countLoads_pos (held : table[slot]? = some (some client)) (loads : (priv client).op = .lmb) :
    0 < countLoads table priv :=
  List.countP_pos_iff.mpr ⟨client, SlotTable.mem_iff.mpr ⟨slot, held⟩, decide_eq_true loads⟩

/-- Two loads that have slots are counted twice. -/
theorem two_le_countLoads {other : Word} (held : table[slot]? = some (some client))
    (loads : (priv client).op = .lmb) (member : other ∈ table.reduceOption) (also : (priv other).op = .lmb)
    (apart : other ≠ client) : 2 ≤ countLoads table priv := by
  rw [countLoads, (SlotTable.clear held).countP_eq, List.countP_cons, if_pos (decide_eq_true loads)]
  have left : other ∈ (table.set slot none).reduceOption :=
    (List.mem_cons.mp ((SlotTable.clear held).mem_iff.mp member)).resolve_left apart
  exact Nat.succ_le_succ (List.countP_pos_iff.mpr ⟨other, left, decide_eq_true also⟩)

end CountLoads

namespace SifBroker

variable {broker next : SifBroker} {request : Submission} {slot : ℕ} {client : Word}

/-- The client is marked in flight. -/
def InFlight (broker : SifBroker) (client : Word) : Prop := (broker.priv client).status = .inflight

/-- The slots that belong to loads. -/
def loadCount (broker : SifBroker) : ℕ := countLoads broker.brokerActive broker.priv

/-- `lmb_in_flight` counts the slots of loads. -/
def LoadsAgree (broker : SifBroker) : Prop := broker.loadCount = broker.lmbInFlight.toNat

/-- The request can still be submitted. -/
def Waiting (broker : SifBroker) (request : Submission) : Prop :=
  ¬broker.InFlight request.client ∧ (request.call.loads = true → broker.lmbInFlight = false)

/-- What an operation that drains relies on afterwards. -/
def Awaits (broker : SifBroker) : AfterDrain → Prop
  | .submit request => broker.Waiting request ∧ request.staging = none
  | .iopFree address slot => broker.iopAddrs[slot]? = some (some address)
  | _ => True

/-- The request has its slot and is not sent yet. -/
structure Submitted (broker : SifBroker) (slot : ℕ) (request : Submission) : Prop where
  held : broker.brokerActive[slot]? = some (some request.client)
  unsent : request.client ∉ broker.outstanding
  op : (broker.priv request.client).op = request.call.op

/-- What holds of the slots and of the load in flight at each step. -/
def TaskSound (broker : SifBroker) : Task → Prop
  | .idle _ | .freeBlocks _ | .push _ => broker.LoadsAgree
  | .drain _ next | .resume next => broker.LoadsAgree ∧ broker.Awaits next
  | .scan _ request => broker.LoadsAgree ∧ broker.Waiting request
  | .track slot request => broker.LoadsAgree ∧ broker.Waiting request ∧ broker.brokerActive[slot]? = some none
  | .flag slot request =>
    broker.Submitted slot request ∧ request.call.loads = true ∧ broker.loadCount = 1 ∧ broker.lmbInFlight = false
  | .stage slot request => broker.Submitted slot request ∧ request.call.loads = true ∧ broker.LoadsAgree
  | .send slot request | .unsend slot request => broker.Submitted slot request ∧ broker.LoadsAgree
  | .unflag _ => broker.loadCount = 0 ∧ broker.lmbInFlight = true
  | .clearSlots _ slot =>
    broker.loadCount ≤ broker.lmbInFlight.toNat ∧ ∀ before < slot, broker.brokerActive[before]? = some none
  | .clearStaging _ => broker.tracked = [] ∧ broker.lmbInFlight = false

/-- What holds of the slots and clients in every run. -/
structure Sound (broker : SifBroker) : Prop where
  size : broker.brokerActive.length = brokerPktCount
  once : broker.tracked.Nodup
  owners : ∀ client ∈ broker.tracked, broker.InFlight client
  sent : ∀ client ∈ broker.outstanding, broker.InFlight client
  sentOnce : broker.outstanding.Nodup
  task : broker.TaskSound broker.task

/-- What the call of a guest comes to before its first shared access. -/
inductive CallOutcome (broker : SifBroker) (made : BrokerCall) : SifBroker → Prop where
  | returns (handlers : List (Option CmdHandler)) (err : SifErr) :
    CallOutcome broker made { broker with handlers := handlers, task := .idle err }
  | resets (opens : made = .sessionOpen) : CallOutcome broker made broker.resetSession
  | drains (next : AfterDrain) (awaits : broker.Awaits next) : CallOutcome broker made (broker.drains next)

section CallOutcome

variable {made : BrokerCall}

theorem CallOutcome.returned (err : SifErr) : CallOutcome broker made (broker.returns err) :=
  .returns broker.handlers err

theorem registerHandler_outcome (cid h arg : Word) : CallOutcome broker made (broker.registerHandler cid h arg) := by
  rw [registerHandler]
  split_ifs
  · exact .returned _
  · exact .returned _
  · split
    · exact .returned _
    · exact .returns _ _

theorem unregisterHandler_outcome (cid : Word) : CallOutcome broker made (broker.unregisterHandler cid) := by
  rw [unregisterHandler]
  split_ifs
  · exact .returned _
  · split
    · exact .returned _
    · exact .returns _ _

theorem transferStart_outcome (buffer iopAddr len : Word) :
    CallOutcome broker made (broker.transferStart buffer iopAddr len) := by
  rw [transferStart]
  split_ifs
  · exact .returned _
  · exact .returned _
  · exact .drains _ trivial

/-- A request that goes on is not in flight, and no other load is. -/
theorem submitStart_outcome (client : Word) (call : AsyncCall) (err : Option SifErr) :
    CallOutcome broker made (broker.submitStart client call err) := by
  rw [submitStart.eq_def]
  split_ifs with busy loading
  · exact .returned _
  · exact .returned _
  · cases err with
    | some err => exact .returned _
    | none =>
      have quiet : call.loads = true → broker.lmbInFlight = false := fun loads =>
        Bool.eq_false_of_not_eq_true fun flag => loading ⟨loads, flag⟩
      exact .drains _ ⟨⟨busy, quiet⟩, rfl⟩

theorem enter_outcome (request : BrokerCall) : CallOutcome broker request (broker.enter request) := by
  cases request with
  | sessionOpen => exact .resets rfl
  | sessionClose => exact .drains _ trivial
  | registerCmdHandler cid h arg => exact registerHandler_outcome cid h arg
  | unregisterCmdHandler cid => exact unregisterHandler_outcome cid
  | iopWrite iopAddr src len => exact transferStart_outcome src iopAddr len
  | iopRead dst iopAddr len => exact transferStart_outcome dst iopAddr len
  | iopAlloc len iopAddrOut =>
    rw [enter]
    split_ifs
    · exact .returned _
    · exact .drains _ trivial
  | iopFree iopAddr =>
    rw [enter]
    split_ifs
    · exact .returned _
    · split
      · exact .returned _
      · rename_i slot found
        obtain ⟨inside, holds, -⟩ := List.findIdx?_eq_some_iff_getElem.mp found
        have recorded : broker.iopAddrs[slot]? = some (some iopAddr) := by
          rw [List.getElem?_eq_getElem inside, of_decide_eq_true holds]
        exact .drains _ recorded
  | rpcBind client done =>
    rw [enter]
    split_ifs
    · exact .returned _
    · exact submitStart_outcome client _ _
  | rpcCall client done send sendLen recv recvLen =>
    rw [enter]
    split_ifs
    · exact .returned _
    · exact submitStart_outcome client _ _
  | loadModuleBuffer client done irx irxLen args argsLen =>
    rw [enter]
    split_ifs
    · exact .returned _
    · exact submitStart_outcome client _ _
  | loadModulePath client done path args argsLen =>
    rw [enter]
    split_ifs
    · exact .returned _
    · exact submitStart_outcome client _ _

theorem call_outcome (request : BrokerCall) : CallOutcome broker request (broker.call request) := by
  rw [SifBroker.call]
  split_ifs
  · exact enter_outcome request
  · cases request.refused with
    | some err => exact .returned err
    | none => exact enter_outcome request

end CallOutcome

/-- What an operation relies on is about the clients, the flag and the recorded blocks. -/
theorem Awaits.of_same {after : AfterDrain} (awaits : broker.Awaits after) (priv : next.priv = broker.priv)
    (flag : next.lmbInFlight = broker.lmbInFlight) (blocks : next.iopAddrs = broker.iopAddrs) : next.Awaits after := by
  cases after with
  | submit request =>
    have waits : broker.Waiting request ∧ request.staging = none := awaits
    rw [Waiting, InFlight, ← priv, ← flag] at waits
    exact waits
  | iopFree address slot =>
    have recorded : broker.iopAddrs[slot]? = some (some address) := awaits
    rw [← blocks] at recorded
    exact recorded
  | transfer => trivial
  | iopAlloc => trivial
  | close => trivial

/-- What an `RPC_END` does to the slots, the clients and the flag, when its client has a slot. -/
structure Completes (broker next : SifBroker) (client : Word) (slot : ℕ) (fields : BrokerPriv) : Prop where
  held : broker.brokerActive[slot]? = some (some client)
  freed : next.brokerActive = broker.brokerActive.set slot none
  priv : next.priv = Function.update broker.priv client fields
  done : fields.status = .done
  flag : next.lmbInFlight = if (broker.priv client).op = .lmb then false else broker.lmbInFlight
  task : next.task = broker.task
  blocks : next.iopAddrs = broker.iopAddrs

theorem brokerComplete_fields (broker : SifBroker) (client : Word) (reply : RpcEnd) :
    (broker.brokerComplete client reply).brokerActive = broker.brokerActive ∧
      (broker.brokerComplete client reply).priv =
        Function.update broker.priv client ((broker.priv client).completed reply) ∧
      (broker.brokerComplete client reply).lmbInFlight =
        (if (broker.priv client).op = .lmb then false else broker.lmbInFlight) ∧
      (broker.brokerComplete client reply).task = broker.task ∧
      (broker.brokerComplete client reply).iopAddrs = broker.iopAddrs := by
  rw [brokerComplete]
  split_ifs
  · rw [releaseLoad]
    split <;> exact ⟨rfl, rfl, rfl, rfl, rfl⟩
  · exact ⟨rfl, rfl, rfl, rfl, rfl⟩

/-- The handler completes a client that has a slot. -/
theorem isr_completes (member : client ∈ broker.tracked) (reply : RpcEnd) :
    ∃ slot, broker.Completes { broker.isr client reply with outstanding := broker.outstanding.erase client } client
      slot ((broker.priv client).completed reply) := by
  rw [isr]
  cases found : broker.brokerActive.findIdx? (· = some client) with
  | none =>
    have absent := List.findIdx?_eq_none_iff.mp found
    have present := List.reduceOption_mem_iff.mp member
    exact absurd rfl (of_decide_eq_false (absent _ present))
  | some slot =>
    obtain ⟨inside, holds, -⟩ := List.findIdx?_eq_some_iff_getElem.mp found
    obtain ⟨active, priv, flag, task, blocks⟩ :=
      brokerComplete_fields { broker with brokerActive := broker.brokerActive.set slot none } client reply
    refine ⟨slot, ?_, active, priv, BrokerPriv.completed_status _ _, flag, task, blocks⟩
    rw [List.getElem?_eq_getElem inside, of_decide_eq_true holds]

/-- The handler drops a reply that no slot waits for. -/
theorem isr_drops (absent : client ∉ broker.tracked) (reply : RpcEnd) : broker.isr client reply = broker := by
  have missing : broker.brokerActive.findIdx? (· = some client) = none :=
    List.findIdx?_eq_none_iff.mpr fun value member =>
      decide_eq_false fun same => absent (List.reduceOption_mem_iff.mpr (same ▸ member))
  rw [isr, missing]

section Completes

variable {fields : BrokerPriv}

theorem Completes.member (completes : broker.Completes next client slot fields) : client ∈ broker.tracked :=
  SlotTable.mem_iff.mpr ⟨slot, completes.held⟩

/-- The slots that are left. -/
theorem Completes.perm (completes : broker.Completes next client slot fields) :
    broker.tracked.Perm (client :: next.tracked) := by
  rw [tracked, tracked, completes.freed]
  exact SlotTable.clear completes.held

theorem Completes.loadCount (completes : broker.Completes next client slot fields) (once : broker.tracked.Nodup) :
    broker.loadCount = next.loadCount + if (broker.priv client).op = .lmb then 1 else 0 := by
  rw [SifBroker.loadCount, SifBroker.loadCount, completes.freed, completes.priv]
  exact countLoads_clear completes.held once fields

theorem Completes.inFlight {other : Word} (completes : broker.Completes next client slot fields)
    (flying : next.InFlight other) : other ≠ client ∧ broker.InFlight other := by
  have flying' : (Function.update broker.priv client fields other).status = .inflight := completes.priv ▸ flying
  have apart : other ≠ client := fun same => by
    rw [same, Function.update_self, completes.done] at flying'
    cases flying'
  rw [Function.update_of_ne apart] at flying'
  exact ⟨apart, flying'⟩

theorem Completes.loadsAgree (completes : broker.Completes next client slot fields) (once : broker.tracked.Nodup)
    (agree : broker.LoadsAgree) : next.LoadsAgree := by
  have count := completes.loadCount once
  have flag := completes.flag
  rw [agree] at count
  rw [LoadsAgree, flag]
  split_ifs at count ⊢ with loads
  · have single := Bool.toNat_le broker.lmbInFlight
    rw [Bool.toNat_false]
    omega
  · exact count.symm

theorem Completes.waiting (completes : broker.Completes next client slot fields) (waits : broker.Waiting request) :
    next.Waiting request := by
  refine ⟨fun flying => waits.1 (completes.inFlight flying).2, fun loads => ?_⟩
  rw [completes.flag, waits.2 loads, ite_self]

theorem Completes.awaits {after : AfterDrain} (completes : broker.Completes next client slot fields)
    (awaits : broker.Awaits after) : next.Awaits after := by
  cases after with
  | submit request => exact ⟨completes.waiting awaits.1, awaits.2⟩
  | iopFree address slot =>
    have recorded : broker.iopAddrs[slot]? = some (some address) := awaits
    change next.iopAddrs[slot]? = some (some address)
    rw [completes.blocks]
    exact recorded
  | transfer => trivial
  | iopAlloc => trivial
  | close => trivial

/-- A slot that is held by another client stays as it is. -/
theorem Completes.submitted {other : ℕ} (completes : broker.Completes next client slot fields)
    (kept : ∀ held ∈ next.outstanding, held ∈ broker.outstanding) (sent : client ∈ broker.outstanding)
    (submitted : broker.Submitted other request) : next.Submitted other request := by
  have apart : request.client ≠ client := fun same => submitted.unsent (same ▸ sent)
  have elsewhere : slot ≠ other := fun same => by
    have held := completes.held
    rw [same, submitted.held] at held
    exact apart (Option.some.inj (Option.some.inj held))
  refine ⟨?_, fun member => submitted.unsent (kept _ member), ?_⟩
  · rw [completes.freed, List.getElem?_set_ne elsewhere]
    exact submitted.held
  · rw [completes.priv, Function.update_of_ne apart]
    exact submitted.op

/-- Whatever step is interrupted, what it relies on still holds. -/
theorem Completes.taskSound (completes : broker.Completes next client slot fields) (sound : broker.Sound)
    (kept : ∀ held ∈ next.outstanding, held ∈ broker.outstanding) (sent : client ∈ broker.outstanding) :
    next.TaskSound next.task := by
  have holds := sound.task
  have count := completes.loadCount sound.once
  rw [completes.task]
  cases task : broker.task with
  | idle returned =>
    rw [task] at holds
    exact completes.loadsAgree sound.once holds
  | freeBlocks slot =>
    rw [task] at holds
    exact completes.loadsAgree sound.once holds
  | push block =>
    rw [task] at holds
    exact completes.loadsAgree sound.once holds
  | drain stage after =>
    rw [task] at holds
    exact ⟨completes.loadsAgree sound.once holds.1, completes.awaits holds.2⟩
  | resume after =>
    rw [task] at holds
    exact ⟨completes.loadsAgree sound.once holds.1, completes.awaits holds.2⟩
  | scan other request =>
    rw [task] at holds
    exact ⟨completes.loadsAgree sound.once holds.1, completes.waiting holds.2⟩
  | track other request =>
    rw [task] at holds
    refine ⟨completes.loadsAgree sound.once holds.1, completes.waiting holds.2.1, ?_⟩
    have apart : slot ≠ other := fun same => by
      have held := completes.held
      rw [same, holds.2.2] at held
      cases held
    rw [completes.freed, List.getElem?_set_ne apart]
    exact holds.2.2
  | flag other request =>
    rw [task] at holds
    obtain ⟨submitted, loads, single, off⟩ := holds
    have idle : ¬(broker.priv client).op = .lmb := fun also => by
      have apart : client ≠ request.client := fun same => submitted.unsent (same ▸ sent)
      have own : (broker.priv request.client).op = .lmb := submitted.op.trans (of_decide_eq_true loads)
      have two := two_le_countLoads submitted.held own completes.member also apart
      rw [SifBroker.loadCount] at single
      omega
    rw [if_neg idle] at count
    refine ⟨completes.submitted kept sent submitted, loads, count.symm.trans single, ?_⟩
    rw [completes.flag, off, ite_self]
  | stage other request =>
    rw [task] at holds
    exact ⟨completes.submitted kept sent holds.1, holds.2.1, completes.loadsAgree sound.once holds.2.2⟩
  | send other request =>
    rw [task] at holds
    exact ⟨completes.submitted kept sent holds.1, completes.loadsAgree sound.once holds.2⟩
  | unsend other request =>
    rw [task] at holds
    exact ⟨completes.submitted kept sent holds.1, completes.loadsAgree sound.once holds.2⟩
  | unflag request =>
    rw [task] at holds
    rw [holds.1] at count
    split_ifs at count with loads
    · refine ⟨count.symm, ?_⟩
      rw [completes.flag, if_neg loads]
      exact holds.2
  | clearSlots opening other =>
    rw [task] at holds
    refine ⟨?_, fun before early => ?_⟩
    · have most := holds.1
      rw [completes.flag]
      split_ifs at count ⊢ with loads
      · have single := Bool.toNat_le broker.lmbInFlight
        rw [Bool.toNat_false]
        omega
      · rw [count] at most
        exact most
    · have apart : slot ≠ before := fun same => by
        have held := completes.held
        rw [same, holds.2 before early] at held
        cases held
      rw [completes.freed, List.getElem?_set_ne apart]
      exact holds.2 before early
  | clearStaging opening =>
    rw [task] at holds
    have member := completes.member
    rw [holds.1] at member
    cases member

end Completes

/-- The client is in flight without a slot: nothing will complete it. -/
def Lost (broker : SifBroker) (client : Word) : Prop := broker.InFlight client ∧ client ∉ broker.tracked

/-- A step that keeps what holds of the slots, and loses no client. -/
structure Kept (broker next : SifBroker) : Prop where
  sound : next.Sound
  lost : ∀ client, next.Lost client ↔ broker.Lost client

/-- A step that leaves the slots, the clients and the requests alone. -/
theorem Sound.of_same (sound : broker.Sound) (active : next.brokerActive = broker.brokerActive)
    (priv : next.priv = broker.priv) (outstanding : next.outstanding = broker.outstanding)
    (task : next.TaskSound next.task) : broker.Kept next := by
  have tracked : next.tracked = broker.tracked := by rw [SifBroker.tracked, SifBroker.tracked, active]
  have flying (client : Word) : next.InFlight client ↔ broker.InFlight client := by rw [InFlight, InFlight, priv]
  refine ⟨⟨active ▸ sound.size, tracked ▸ sound.once, fun client member => ?_, fun client member => ?_,
    outstanding ▸ sound.sentOnce, task⟩, fun client => ?_⟩
  · exact (flying client).mpr (sound.owners client (tracked ▸ member))
  · exact (flying client).mpr (sound.sent client (outstanding ▸ member))
  · rw [Lost, Lost, flying, tracked]

/-- A reply that is dropped is one less to wait for. -/
theorem TaskSound.fewer {task : Task} {left : List Word} (kept : ∀ held ∈ left, held ∈ broker.outstanding)
    (holds : broker.TaskSound task) : { broker with outstanding := left }.TaskSound task := by
  have submitted {slot : ℕ} {request : Submission} (submitted : broker.Submitted slot request) :
      { broker with outstanding := left }.Submitted slot request :=
    ⟨submitted.held, fun member => submitted.unsent (kept _ member), submitted.op⟩
  cases task with
  | idle returned => exact holds
  | freeBlocks slot => exact holds
  | push block => exact holds
  | drain stage after => exact ⟨holds.1, Awaits.of_same holds.2 rfl rfl rfl⟩
  | resume after => exact ⟨holds.1, Awaits.of_same holds.2 rfl rfl rfl⟩
  | scan slot request => exact holds
  | track slot request => exact holds
  | flag slot request => exact ⟨submitted holds.1, holds.2⟩
  | stage slot request => exact ⟨submitted holds.1, holds.2⟩
  | send slot request => exact ⟨submitted holds.1, holds.2⟩
  | unsend slot request => exact ⟨submitted holds.1, holds.2⟩
  | unflag request => exact holds
  | clearSlots opening slot => exact holds
  | clearStaging opening => exact holds

/-- An `RPC_END` completes its client, or is dropped. -/
theorem Sound.rpcEnd (sound : broker.Sound) (sent : client ∈ broker.outstanding) (reply : RpcEnd) :
    broker.Kept { broker.isr client reply with outstanding := broker.outstanding.erase client } := by
  have kept : ∀ held ∈ broker.outstanding.erase client, held ∈ broker.outstanding := fun _ =>
    List.mem_of_mem_erase
  by_cases member : client ∈ broker.tracked
  · obtain ⟨slot, completes⟩ := isr_completes member reply
    have once := completes.perm.nodup_iff.mp sound.once
    have still {other : Word} (apart : other ≠ client) (flying : broker.InFlight other) :
        InFlight { broker.isr client reply with outstanding := broker.outstanding.erase client } other := by
      rw [InFlight, completes.priv, Function.update_of_ne apart]
      exact flying
    refine ⟨⟨?_, (List.nodup_cons.mp once).2, fun other held => ?_, fun other waits => ?_, ?_, ?_⟩, fun other => ?_⟩
    · rw [completes.freed, List.length_set]
      exact sound.size
    · have apart : other ≠ client := fun same => (List.nodup_cons.mp once).1 (same ▸ held)
      exact still apart (sound.owners other (completes.perm.mem_iff.mpr (List.mem_cons_of_mem _ held)))
    · have parts := (List.Nodup.mem_erase_iff sound.sentOnce).mp waits
      exact still parts.1 (sound.sent other parts.2)
    · exact sound.sentOnce.erase client
    · exact completes.taskSound sound kept sent
    · constructor
      · rintro ⟨flying, slotless⟩
        obtain ⟨apart, flew⟩ := completes.inFlight flying
        exact ⟨flew, fun held => slotless ((List.mem_cons.mp (completes.perm.mem_iff.mp held)).resolve_left apart)⟩
      · rintro ⟨flying, slotless⟩
        have apart : other ≠ client := fun same => slotless (same ▸ member)
        exact ⟨still apart flying, fun held => slotless (completes.perm.mem_iff.mpr (List.mem_cons_of_mem _ held))⟩
  · rw [isr_drops member]
    exact ⟨⟨sound.size, sound.once, sound.owners, fun other waits => sound.sent other (kept other waits),
      sound.sentOnce.erase client, TaskSound.fewer kept sound.task⟩, fun _ => Iff.rfl⟩

/-- The call of a guest touches no slot. -/
theorem Sound.call {returned : SifErr} (sound : broker.Sound) (idle : broker.task = .idle returned)
    (request : BrokerCall) : broker.Kept (broker.call request) := by
  have agree : broker.LoadsAgree := by
    have holds := sound.task
    rw [idle] at holds
    exact holds
  have outcome : CallOutcome broker request (broker.call request) := call_outcome request
  generalize broker.call request = next at outcome
  cases outcome with
  | returns handlers err => exact sound.of_same rfl rfl rfl agree
  | resets opens => exact sound.of_same rfl rfl rfl ⟨Nat.le_of_eq agree, fun before early => absurd early (Nat.not_lt_zero _)⟩
  | drains after awaits => exact sound.of_same rfl rfl rfl ⟨agree, awaits.of_same rfl rfl rfl⟩

/-- What is done for a load before it needs a slot touches none. -/
theorem Sound.prepare (sound : broker.Sound) (agree : broker.LoadsAgree) (waits : broker.Waiting request)
    (answer : SifAnswer) : broker.Kept (broker.prepare request answer) := by
  rw [SifBroker.prepare]
  split_ifs
  · exact sound.of_same rfl rfl rfl ⟨agree, waits⟩
  · exact sound.of_same rfl rfl rfl agree
  · rw [stageBuffer]
    split
    · exact sound.of_same rfl rfl rfl agree
    · split_ifs
      · exact sound.of_same rfl rfl rfl ⟨agree, waits⟩
      · exact sound.of_same rfl rfl rfl agree
  · exact sound.of_same rfl rfl rfl ⟨agree, waits⟩

/-- What a call does after the drain touches no slot. -/
theorem Sound.resumed {after : AfterDrain} (sound : broker.Sound) (agree : broker.LoadsAgree)
    (awaits : broker.Awaits after) (answer : SifAnswer) : broker.Kept (broker.resumed answer after) := by
  cases after with
  | submit request => exact sound.prepare agree awaits.1 answer
  | transfer => exact sound.of_same rfl rfl rfl agree
  | iopAlloc =>
    change broker.Kept (broker.iopAlloc answer)
    rw [SifBroker.iopAlloc]
    cases answer.block with
    | none => exact sound.of_same rfl rfl rfl agree
    | some block =>
      dsimp only
      split <;> exact sound.of_same rfl rfl rfl agree
  | iopFree address slot =>
    rw [SifBroker.resumed]
    split_ifs <;> exact sound.of_same rfl rfl rfl agree
  | close => exact sound.of_same rfl rfl rfl agree

/-- A request that gets its slot is in flight from then on. -/
theorem Sound.track (sound : broker.Sound) (agree : broker.LoadsAgree) (waits : broker.Waiting request)
    (free : broker.brokerActive[slot]? = some none) :
    broker.Kept { broker with
      priv := Function.update broker.priv request.client
        (request.call.mark broker.lmbResult (broker.priv request.client))
      brokerActive := broker.brokerActive.set slot (some request.client)
      task := if request.call.loads then .flag slot request else .send slot request } := by
  generalize marked : request.call.mark broker.lmbResult (broker.priv request.client) = fields
  have status : fields.status = .inflight := marked ▸ AsyncCall.mark_status _ _ _
  have op : fields.op = request.call.op := marked ▸ AsyncCall.mark_op _ _ _
  obtain ⟨inside, -⟩ := List.getElem?_eq_some_iff.mp free
  have fresh : request.client ∉ broker.tracked := fun member => waits.1 (sound.owners _ member)
  have unsent : request.client ∉ broker.outstanding := fun member => waits.1 (sound.sent _ member)
  have perm := SlotTable.fill free request.client
  have flying (client : Word) : (Function.update broker.priv request.client fields client).status = .inflight ↔
      client = request.client ∨ broker.InFlight client := by
    by_cases own : client = request.client
    · rw [own, Function.update_self]
      exact ⟨fun _ => .inl rfl, fun _ => status⟩
    · rw [Function.update_of_ne own]
      exact ⟨.inr, fun either => either.resolve_left own⟩
  have count : countLoads (broker.brokerActive.set slot (some request.client))
      (Function.update broker.priv request.client fields) =
        countLoads broker.brokerActive broker.priv + if fields.op = .lmb then 1 else 0 :=
    countLoads_fill free fresh fields
  have held : (broker.brokerActive.set slot (some request.client))[slot]? = some (some request.client) :=
    List.getElem?_set_self inside
  have own : (Function.update broker.priv request.client fields request.client).op = request.call.op := by
    rw [Function.update_self, op]
  refine ⟨⟨?_, perm.nodup_iff.mpr (List.nodup_cons.mpr ⟨fresh, sound.once⟩), fun client member => ?_,
    fun client member => (flying client).mpr (.inr (sound.sent client member)), sound.sentOnce, ?_⟩, fun client => ?_⟩
  · rw [List.length_set]
    exact sound.size
  · exact (flying client).mpr ((List.mem_cons.mp (perm.mem_iff.mp member)).imp_right (sound.owners client))
  · rw [op] at count
    split_ifs with loads
    · have load : request.call.op = .lmb := of_decide_eq_true loads
      have none : countLoads broker.brokerActive broker.priv = 0 := by
        have zero : broker.loadCount = broker.lmbInFlight.toNat := agree
        rw [waits.2 loads] at zero
        exact zero
      rw [if_pos load, none, Nat.zero_add] at count
      exact ⟨⟨held, unsent, own⟩, loads, count, waits.2 loads⟩
    · have load : ¬request.call.op = .lmb := fun also => loads (decide_eq_true also)
      rw [if_neg load, Nat.add_zero] at count
      exact ⟨⟨held, unsent, own⟩, count.trans agree⟩
  · constructor
    · rintro ⟨inFlight, slotless⟩
      have apart : client ≠ request.client := fun same =>
        slotless (perm.mem_iff.mpr (same ▸ List.mem_cons_self))
      exact ⟨((flying client).mp inFlight).resolve_left apart, fun member =>
        slotless (perm.mem_iff.mpr (List.mem_cons_of_mem _ member))⟩
    · rintro ⟨inFlight, slotless⟩
      have apart : client ≠ request.client := fun same => waits.1 (same ▸ inFlight)
      exact ⟨(flying client).mpr (.inr inFlight), fun member =>
        slotless ((List.mem_cons.mp (perm.mem_iff.mp member)).resolve_left apart)⟩

/-- A request that could not be sent gives its slot back, and is not in flight any more. -/
theorem Sound.unsend (sound : broker.Sound) (agree : broker.LoadsAgree) (submitted : broker.Submitted slot request) :
    broker.Kept { broker with
      brokerActive := broker.brokerActive.set slot none
      priv := Function.update broker.priv request.client { broker.priv request.client with status := .idle }
      task := if request.call.loads then .unflag request else .idle .ebadarg } := by
  generalize marked : { broker.priv request.client with status := .idle } = fields
  have status : fields.status = .idle := marked ▸ rfl
  have perm := SlotTable.clear submitted.held
  have once := List.nodup_cons.mp (perm.nodup_iff.mp sound.once)
  have flying (client : Word) : (Function.update broker.priv request.client fields client).status = .inflight ↔
      client ≠ request.client ∧ broker.InFlight client := by
    by_cases own : client = request.client
    · rw [own, Function.update_self, status]
      exact ⟨fun idle => (nomatch idle), fun both => absurd rfl both.1⟩
    · rw [Function.update_of_ne own]
      exact ⟨fun inFlight => ⟨own, inFlight⟩, fun both => both.2⟩
  have count : countLoads broker.brokerActive broker.priv =
      countLoads (broker.brokerActive.set slot none) (Function.update broker.priv request.client fields) +
        if (broker.priv request.client).op = .lmb then 1 else 0 := countLoads_clear submitted.held sound.once fields
  refine ⟨⟨?_, once.2, fun client member => ?_, fun client member => ?_, sound.sentOnce, ?_⟩, fun client => ?_⟩
  · rw [List.length_set]
    exact sound.size
  · have apart : client ≠ request.client := fun same => once.1 (same ▸ member)
    exact (flying client).mpr ⟨apart, sound.owners client (perm.mem_iff.mpr (List.mem_cons_of_mem _ member))⟩
  · have apart : client ≠ request.client := fun same => submitted.unsent (same ▸ member)
    exact (flying client).mpr ⟨apart, sound.sent client member⟩
  · have total : countLoads broker.brokerActive broker.priv = broker.lmbInFlight.toNat := agree
    rw [total, submitted.op] at count
    split_ifs with loads
    · have load : request.call.op = .lmb := of_decide_eq_true loads
      have single := Bool.toNat_le broker.lmbInFlight
      rw [if_pos load] at count
      have none : countLoads (broker.brokerActive.set slot none)
          (Function.update broker.priv request.client fields) = 0 := by omega
      refine ⟨none, Bool.eq_true_of_not_eq_false fun off => ?_⟩
      rw [off, Bool.toNat_false] at count
      omega
    · have load : ¬request.call.op = .lmb := fun also => loads (decide_eq_true also)
      rw [if_neg load, Nat.add_zero] at count
      exact count.symm
  · constructor
    · rintro ⟨inFlight, slotless⟩
      have both := (flying client).mp inFlight
      exact ⟨both.2, fun member => slotless ((List.mem_cons.mp (perm.mem_iff.mp member)).resolve_left both.1)⟩
    · rintro ⟨inFlight, slotless⟩
      have apart : client ≠ request.client := fun same =>
        slotless (perm.mem_iff.mpr (same ▸ List.mem_cons_self))
      exact ⟨(flying client).mpr ⟨apart, inFlight⟩, fun member =>
        slotless (perm.mem_iff.mpr (List.mem_cons_of_mem _ member))⟩

/-- The event clears the slot of a client. -/
def Clears (broker : SifBroker) (event : BrokerEvent) (client : Word) : Prop :=
  ∃ opening slot answer, broker.task = .clearSlots opening slot ∧ event = .thread answer ∧
    broker.brokerActive[slot]? = some (some client)

/-- A slot that is cleared by a session loses its client, if there is one. -/
theorem Sound.clearSlot {opening : Bool} (sound : broker.Sound) (task : broker.task = .clearSlots opening slot)
    (inside : slot < brokerPktCount) :
    Sound { broker with brokerActive := broker.brokerActive.set slot none, task := .clearSlots opening (slot + 1) } ∧
      ∀ client, Lost { broker with
        brokerActive := broker.brokerActive.set slot none, task := .clearSlots opening (slot + 1) } client ↔
          broker.Lost client ∨ broker.brokerActive[slot]? = some (some client) := by
  have holds := sound.task
  rw [task] at holds
  obtain ⟨most, empty⟩ := holds
  have earlier : ∀ before < slot + 1, (broker.brokerActive.set slot none)[before]? = some none := fun before early => by
    rcases Nat.lt_succ_iff_lt_or_eq.mp early with less | rfl
    · rw [List.getElem?_set_ne (Nat.ne_of_gt less)]
      exact empty before less
    · exact List.getElem?_set_self (sound.size ▸ inside)
  have fewer : countLoads (broker.brokerActive.set slot none) broker.priv ≤ broker.lmbInFlight.toNat :=
    Nat.le_trans (countLoads_reset_le slot) most
  have size : (broker.brokerActive.set slot none).length = brokerPktCount := by
    rw [List.length_set]
    exact sound.size
  cases holds : broker.brokerActive[slot]? with
  | none =>
    have outside := List.getElem?_eq_none_iff.mp holds
    rw [sound.size] at outside
    omega
  | some value =>
    cases value with
    | none =>
      have same := SlotTable.clear_free holds
      refine ⟨⟨size, ?_, ?_, sound.sent, sound.sentOnce, fewer, earlier⟩, fun client => ?_⟩
      · rw [tracked, same]
        exact sound.once
      · rw [tracked, same]
        exact sound.owners
      · rw [Lost, tracked, same]
        exact ⟨.inl, fun either => either.resolve_right fun other => nomatch other⟩
    | some owner =>
      have perm := SlotTable.clear holds
      have once := List.nodup_cons.mp (perm.nodup_iff.mp sound.once)
      refine ⟨⟨size, once.2, fun client member => ?_, sound.sent, sound.sentOnce, fewer, earlier⟩, fun client => ?_⟩
      · exact sound.owners client (perm.mem_iff.mpr (List.mem_cons_of_mem _ member))
      · constructor
        · rintro ⟨flying, slotless⟩
          rcases eq_or_ne client owner with rfl | apart
          · exact .inr rfl
          · exact .inl ⟨flying, fun member => slotless ((List.mem_cons.mp (perm.mem_iff.mp member)).resolve_left apart)⟩
        · rintro (⟨flying, slotless⟩ | own)
          · exact ⟨flying, fun member => slotless (perm.mem_iff.mpr (List.mem_cons_of_mem _ member))⟩
          · cases own
            exact ⟨sound.owners owner (SlotTable.mem_iff.mpr ⟨slot, holds⟩), once.1⟩

/-- After the last slot is cleared none is held, and the flag is cleared with them. -/
theorem Sound.cleared {opening : Bool} (sound : broker.Sound) (task : broker.task = .clearSlots opening slot)
    (past : brokerPktCount ≤ slot) : broker.tracked = [] := by
  have holds := sound.task
  rw [task] at holds
  refine List.eq_nil_iff_forall_not_mem.mpr fun client member => ?_
  obtain ⟨before, held⟩ := SlotTable.mem_iff.mp member
  obtain ⟨inside, -⟩ := List.getElem?_eq_some_iff.mp held
  rw [sound.size] at inside
  rw [holds.2 before (Nat.lt_of_lt_of_le inside past)] at held
  cases held

/-- Every step of the code outside the handler keeps what holds of the slots, and only a slot that is cleared loses
its client. -/
theorem Sound.thread {answer : SifAnswer} (sound : broker.Sound) (stepped : broker.thread answer = some next) :
    next.Sound ∧ ∀ client, next.Lost client ↔ broker.Lost client ∨ broker.Clears (.thread answer) client := by
  have holds := sound.task
  have keeps (other : ∀ opening slot, broker.task ≠ .clearSlots opening slot) (kept : broker.Kept next) :
      next.Sound ∧ ∀ client, next.Lost client ↔ broker.Lost client ∨ broker.Clears (.thread answer) client := by
    refine ⟨kept.sound, fun client => (kept.lost client).trans ⟨.inl, fun either => either.resolve_right ?_⟩⟩
    rintro ⟨opening, slot, -, task, -⟩
    exact other opening slot task
  rw [SifBroker.thread] at stepped
  cases task : broker.task with
  | idle returned =>
    rw [task] at stepped
    cases stepped
  | drain stage after =>
    rw [task] at stepped holds
    refine keeps (fun _ _ same => nomatch task.symm.trans same) ?_
    have agree : broker.LoadsAgree := holds.1
    have awaits : broker.Awaits after := holds.2
    cases stage with
    | read =>
      cases stepped
      exact sound.of_same rfl rfl rfl ⟨agree, awaits.of_same rfl rfl rfl⟩
    | look i n =>
      dsimp only at stepped
      split_ifs at stepped
      · split at stepped
        · cases stepped
          exact sound.of_same rfl rfl rfl ⟨agree, awaits.of_same rfl rfl rfl⟩
        · cases stepped
          exact sound.of_same rfl rfl rfl ⟨agree, awaits.of_same rfl rfl rfl⟩
      · cases stepped
        exact sound.of_same rfl rfl rfl ⟨agree, awaits.of_same rfl rfl rfl⟩
    | clear i n =>
      cases stepped
      exact sound.of_same rfl rfl rfl ⟨agree, awaits.of_same rfl rfl rfl⟩
    | reset =>
      cases stepped
      exact sound.of_same rfl rfl rfl ⟨agree, awaits.of_same rfl rfl rfl⟩
  | resume after =>
    rw [task] at stepped holds
    cases stepped
    exact keeps (fun _ _ same => nomatch task.symm.trans same) (sound.resumed holds.1 holds.2 answer)
  | scan slot request =>
    rw [task] at stepped holds
    refine keeps (fun _ _ same => nomatch task.symm.trans same) ?_
    dsimp only at stepped
    split_ifs at stepped with inside free
    · cases stepped
      exact sound.of_same rfl rfl rfl ⟨holds.1, holds.2, free⟩
    · cases stepped
      exact sound.of_same rfl rfl rfl holds
    · cases stepped
      rw [noSlot]
      split <;> exact sound.of_same rfl rfl rfl holds.1
  | track slot request =>
    rw [task] at stepped holds
    cases stepped
    exact keeps (fun _ _ same => nomatch task.symm.trans same) (sound.track holds.1 holds.2.1 holds.2.2)
  | flag slot request =>
    rw [task] at stepped holds
    cases stepped
    obtain ⟨submitted, loads, single, -⟩ := holds
    exact keeps (fun _ _ same => nomatch task.symm.trans same)
      (sound.of_same rfl rfl rfl ⟨⟨submitted.held, submitted.unsent, submitted.op⟩, loads, single⟩)
  | stage slot request =>
    rw [task] at stepped holds
    cases stepped
    obtain ⟨submitted, -, agree⟩ := holds
    exact keeps (fun _ _ same => nomatch task.symm.trans same)
      (sound.of_same rfl rfl rfl ⟨⟨submitted.held, submitted.unsent, submitted.op⟩, agree⟩)
  | send slot request =>
    rw [task] at stepped holds
    obtain ⟨submitted, agree⟩ := holds
    refine keeps (fun _ _ same => nomatch task.symm.trans same) ?_
    dsimp only at stepped
    split_ifs at stepped
    · cases stepped
      refine ⟨⟨sound.size, sound.once, sound.owners, fun client member => ?_,
        List.nodup_cons.mpr ⟨submitted.unsent, sound.sentOnce⟩, agree⟩, fun _ => Iff.rfl⟩
      rcases List.mem_cons.mp member with rfl | earlier
      · exact sound.owners _ (SlotTable.mem_iff.mpr ⟨slot, submitted.held⟩)
      · exact sound.sent client earlier
    · cases stepped
      exact sound.of_same rfl rfl rfl ⟨⟨submitted.held, submitted.unsent, submitted.op⟩, agree⟩
  | unsend slot request =>
    rw [task] at stepped holds
    cases stepped
    exact keeps (fun _ _ same => nomatch task.symm.trans same) (sound.unsend holds.2 holds.1)
  | unflag request =>
    rw [task] at stepped holds
    cases stepped
    refine keeps (fun _ _ same => nomatch task.symm.trans same) (sound.of_same rfl rfl rfl ?_)
    cases staging : request.staging <;> exact holds.1
  | push block =>
    rw [task] at stepped holds
    cases stepped
    exact keeps (fun _ _ same => nomatch task.symm.trans same) (sound.of_same rfl rfl rfl holds)
  | freeBlocks slot =>
    rw [task] at stepped holds
    have agree : broker.LoadsAgree := holds
    refine keeps (fun _ _ same => nomatch task.symm.trans same) ?_
    dsimp only at stepped
    split_ifs at stepped
    · split at stepped
      · cases stepped
        exact sound.of_same rfl rfl rfl agree
      · cases stepped
        exact sound.of_same rfl rfl rfl agree
    · cases stepped
      exact sound.of_same rfl rfl rfl
        ⟨Nat.le_of_eq agree, fun before early => absurd early (Nat.not_lt_zero before)⟩
  | clearSlots opening slot =>
    rw [task] at stepped
    dsimp only at stepped
    split_ifs at stepped with inside
    · cases stepped
      obtain ⟨kept, lost⟩ := sound.clearSlot task inside
      refine ⟨kept, fun client => (lost client).trans (or_congr_right ?_)⟩
      constructor
      · exact fun held => ⟨opening, slot, answer, task, rfl, held⟩
      · rintro ⟨_, _, _, other, -, held⟩
        cases task.symm.trans other
        exact held
    · cases stepped
      have nobody := sound.cleared task (Nat.le_of_not_lt inside)
      have kept : broker.Kept { broker with
          brokerLoadfileBound := false, lmbInFlight := false, task := .clearStaging opening } :=
        sound.of_same rfl rfl rfl ⟨nobody, rfl⟩
      refine ⟨kept.sound, fun client => (kept.lost client).trans ⟨.inl, fun either => either.resolve_right ?_⟩⟩
      rintro ⟨_, _, _, -, -, held⟩
      have member := SlotTable.mem_iff.mpr ⟨_, held⟩
      change client ∈ broker.tracked at member
      rw [nobody] at member
      cases member
  | clearStaging opening =>
    rw [task] at stepped holds
    cases stepped
    refine keeps (fun _ _ same => nomatch task.symm.trans same) (sound.of_same rfl rfl rfl ?_)
    have none : countLoads broker.brokerActive broker.priv = 0 := by
      rw [countLoads, show broker.brokerActive.reduceOption = [] from holds.1]
      rfl
    exact none.trans (congrArg Bool.toNat holds.2).symm

/-- Every event keeps what holds of the slots, and only a slot that is cleared loses its client. -/
theorem Sound.step {event : BrokerEvent} (sound : broker.Sound) (stepped : broker.step event = some next) :
    next.Sound ∧ ∀ client, next.Lost client ↔ broker.Lost client ∨ broker.Clears event client := by
  have keeps (other : ∀ answer, event ≠ .thread answer) (kept : broker.Kept next) :
      next.Sound ∧ ∀ client, next.Lost client ↔ broker.Lost client ∨ broker.Clears event client := by
    refine ⟨kept.sound, fun client => (kept.lost client).trans ⟨.inl, fun either => either.resolve_right ?_⟩⟩
    rintro ⟨-, -, answer, -, same, -⟩
    exact other answer same
  cases event with
  | call request =>
    rw [SifBroker.step] at stepped
    split at stepped
    · rename_i returned idle
      cases stepped
      exact keeps (fun _ => nofun) (sound.call idle request)
    · cases stepped
  | thread answer => exact sound.thread stepped
  | rpcEnd cd reply =>
    obtain ⟨sent, equal⟩ := Option.ite_none_right_eq_some.mp stepped
    cases equal
    exact keeps (fun _ => nofun) (sound.rpcEnd (List.contains_iff_mem.mp sent) reply)

/-- A broker that is started has no slot in use. -/
theorem sound_initial (lmbResult : Word) : (initial lmbResult).Sound := by
  have nobody : (initial lmbResult).tracked = [] := rfl
  refine ⟨rfl, List.nodup_nil, fun client member => ?_, nofun, List.nodup_nil, rfl⟩
  rw [nobody] at member
  cases member

/-- The client has a slot and loads a module. -/
def ActiveLoad (broker : SifBroker) (client : Word) : Prop :=
  (∃ slot : ℕ, broker.brokerActive[slot]? = some (some client)) ∧ (broker.priv client).op = .lmb

/-- Slots, clients and the flag of the load agree. -/
structure OneOwner (broker : SifBroker) : Prop where
  /-- A client in flight is in exactly one slot, and a slot that is used has a client in flight. -/
  owned : ∀ client, broker.InFlight client → ∃! slot : ℕ, broker.brokerActive[slot]? = some (some client)
  used : ∀ (slot : ℕ) (client : Word), broker.brokerActive[slot]? = some (some client) → broker.InFlight client
  /-- Between the calls the flag is set exactly when one load is active, and otherwise none is. -/
  loads : ∀ returned, broker.task = .idle returned → (broker.lmbInFlight = true ↔ ∃! client, broker.ActiveLoad client) ∧
    (broker.lmbInFlight = false → ∀ client, ¬broker.ActiveLoad client)
  /-- No client is in flight when a session has been reset, at its end or at the start of the next one. -/
  reset : ∀ opening, broker.task = .clearStaging opening → ∀ client, ¬broker.InFlight client

/-- The flag counts the active loads. -/
theorem LoadsAgree.activeLoads (agree : broker.LoadsAgree) :
    (broker.lmbInFlight = true ↔ ∃! client, broker.ActiveLoad client) ∧
      (broker.lmbInFlight = false → ∀ client, ¬broker.ActiveLoad client) := by
  have count : countLoads broker.brokerActive broker.priv = broker.lmbInFlight.toNat := agree
  have nobody (off : broker.lmbInFlight = false) (client : Word) : ¬broker.ActiveLoad client := by
    rintro ⟨⟨slot, held⟩, loads⟩
    have some := countLoads_pos held loads
    rw [count, off] at some
    cases some
  refine ⟨⟨fun on => ?_, fun ⟨client, active, _⟩ => ?_⟩, nobody⟩
  · rw [on, Bool.toNat_true] at count
    obtain ⟨client, member, loads⟩ := List.countP_pos_iff.mp (Nat.lt_of_lt_of_eq Nat.zero_lt_one count.symm)
    obtain ⟨slot, held⟩ := SlotTable.mem_iff.mp member
    refine ⟨client, ⟨⟨slot, held⟩, of_decide_eq_true loads⟩, fun other also => ?_⟩
    by_contra apart
    have two := two_le_countLoads held (of_decide_eq_true loads) (SlotTable.mem_iff.mpr also.1) also.2 apart
    omega
  · exact Bool.eq_true_of_not_eq_false fun off => nobody off client active

/-- Slots, clients and the flag agree exactly if no client is lost. -/
theorem Sound.oneOwner_iff (sound : broker.Sound) : broker.OneOwner ↔ ¬∃ client, broker.Lost client := by
  constructor
  · rintro right ⟨client, flying, slotless⟩
    obtain ⟨slot, held, -⟩ := right.owned client flying
    exact slotless (SlotTable.mem_iff.mpr ⟨slot, held⟩)
  · intro complete
    have member (client : Word) (flying : broker.InFlight client) : client ∈ broker.tracked := by
      by_contra slotless
      exact complete ⟨client, flying, slotless⟩
    refine ⟨fun client flying => SlotTable.exists_unique_slot sound.once (member client flying),
      fun slot client held => sound.owners client (SlotTable.mem_iff.mpr ⟨slot, held⟩), fun returned idle => ?_,
      fun opening clearing client flying => ?_⟩
    · have holds := sound.task
      rw [idle] at holds
      exact LoadsAgree.activeLoads holds
    · have holds := sound.task
      rw [clearing] at holds
      have held := member client flying
      rw [holds.1] at held
      cases held

/-- No slot that the event clears has a client in flight. -/
def Tidy (broker : SifBroker) (event : BrokerEvent) : Prop := ∀ client, ¬broker.Clears event client

/-- Once lost, a client stays lost; and it is lost by a slot that is cleared over it. -/
theorem Sound.run {events : List BrokerEvent} {source target : SifBroker} (sound : source.Sound)
    (run : sifBroker.run? source events = some target) :
    target.Sound ∧
      ((∃ client, target.Lost client) ↔ (∃ client, source.Lost client) ∨ ¬sifBroker.Along Tidy source events) := by
  induction events generalizing source with
  | nil =>
    cases run
    exact ⟨sound, .inl, fun either => either.resolve_right fun other => other trivial⟩
  | cons event rest ih =>
    obtain ⟨middle, step, suffix⟩ := LabeledMachine.run?_cons_eq_some.mp run
    obtain ⟨kept, lost⟩ := sound.step step
    obtain ⟨ends, all⟩ := ih kept suffix
    have first : (∃ client, middle.Lost client) ↔ (∃ client, source.Lost client) ∨ ¬source.Tidy event := by
      simp only [lost, exists_or, Tidy, not_forall, not_not]
    refine ⟨ends, all.trans ?_⟩
    rw [first, LabeledMachine.along_cons_of_step step, not_and_or, or_assoc]

/-- In every run slots, clients and the flag of the load agree, exactly if no session is opened or closed over a client
in flight. -/
theorem slots_one_owner {lmbResult : Word} {events : List BrokerEvent}
    (run : sifBroker.run? (initial lmbResult) events = some broker) :
    broker.OneOwner ↔ sifBroker.Along Tidy (initial lmbResult) events := by
  obtain ⟨sound, lost⟩ := (sound_initial lmbResult).run run
  have none : ¬∃ client, (initial lmbResult).Lost client := fun ⟨client, flying, _⟩ => nomatch flying
  rw [sound.oneOwner_iff, lost, or_iff_right none, not_not]

/-- Every call to `ee_sif.c` succeeds. -/
def granted : SifAnswer := ⟨true, 0x1000, true, true⟩

/-- A session is opened, and a client is bound and waits. -/
def bindEvents : List BrokerEvent :=
  .call .sessionOpen :: .replicate 10 (.thread granted) ++ .call (.rpcBind 1 1) :: .replicate 7 (.thread granted)

theorem slots_one_owner_bind :
    ∃ broker, sifBroker.run? (initial 0) bindEvents = some broker ∧
      (broker.OneOwner ↔ sifBroker.Along Tidy (initial 0) bindEvents) := by
  obtain ⟨broker, run⟩ : ∃ broker, sifBroker.run? (initial 0) bindEvents = some broker :=
    Option.isSome_iff_exists.mp (by decide +kernel)
  exact ⟨broker, run, slots_one_owner run⟩

/-- Its session is closed and opened again, and the client is bound once more. -/
def reopenEvents : List BrokerEvent :=
  bindEvents ++ .call .sessionClose :: .replicate 47 (.thread granted) ++
    .call .sessionOpen :: .replicate 10 (.thread granted) ++ [.call (.rpcBind 1 1)]

/-- A session that is closed over a client in flight and opened again leaves it marked, and busy for good. -/
theorem close_leaves_in_flight :
    ∃ broker, sifBroker.run? (initial 0) reopenEvents = some broker ∧ broker.InFlight 1 ∧ broker.tracked = [] ∧
      broker.task.returned = some .ebusy ∧ ¬broker.OneOwner := by
  have facts : (sifBroker.run? (initial 0) reopenEvents).map
      (fun broker => ((broker.priv 1).status, broker.tracked, broker.task.returned)) =
        some (.inflight, [], some .ebusy) := by decide +kernel
  obtain ⟨broker, run, same⟩ := Option.map_eq_some_iff.mp facts
  simp only [Prod.mk.injEq] at same
  obtain ⟨flying, nobody, busy⟩ := same
  refine ⟨broker, run, flying, nobody, busy, fun right => ?_⟩
  obtain ⟨slot, held, -⟩ := right.owned 1 flying
  have member : (1 : Word) ∈ broker.tracked := SlotTable.mem_iff.mpr ⟨slot, held⟩
  rw [nobody] at member
  cases member

end SifBroker

end KosTool.Ps2
