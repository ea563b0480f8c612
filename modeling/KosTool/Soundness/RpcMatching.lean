import KosTool.Model.Ps2.SifRpc

/-! # Remote calls and their replies

A request takes the first `RPC_END` it finds for its own: a call takes any, a bind takes that of any bind. Requests
are matched to their replies in a run in which no request is issued while an `RPC_END` that it would take is still
to come, or lies unread in the receive buffer.
-/

namespace KosTool.Ps2

open ByteWord Machine

/-- A request takes the `RPC_END` of another for its own. -/
def RpcKind.Takes (kind other : RpcKind) : Prop := kind = .call ∨ other = .bind

instance (kind other : RpcKind) : Decidable (kind.Takes other) := inferInstanceAs (Decidable (_ ∨ _))

/-- No `RPC_END` that a new request of this kind would take is to come or unread. -/
def RpcState.Clear (state : RpcState) (kind : RpcKind) : Prop :=
  (∀ request ∈ state.outstanding, ¬ kind.Takes request.kind) ∧
    (state.stat = true → state.recv.cid = cmdRpcEnd → kind = .bind ∧ state.recv.command ≠ cmdRpcBind)

instance (state : RpcState) (kind : RpcKind) : Decidable (state.Clear kind) := inferInstanceAs (Decidable (_ ∧ _))

/-- A request is issued only when no earlier one can be mistaken for it. -/
def RpcState.IssuesClear (state : RpcState) : RpcEvent → Prop
  | .bind _ _ => state.Clear .bind
  | .call _ _ _ _ => state.Clear .call
  | _ => True

instance (state : RpcState) (event : RpcEvent) : Decidable (state.IssuesClear event) := by
  unfold RpcState.IssuesClear
  split
  · exact inferInstance
  · exact inferInstance
  · exact inferInstance

/-- A success is of the request's own `RPC_END`, and hands back what was answered to it. -/
def RpcOutcome.Right (outcome : RpcOutcome) : Prop :=
  outcome.ret = 0 → outcome.origin = some outcome.request ∧ ∃ answer, outcome.answered = some answer ∧
    match outcome.request.kind with
    | .bind => outcome.client = ⟨answer.sd, answer.buf, answer.cbuf⟩
    | .call => outcome.received =
        if outcome.request.recvbuf ≠ 0 then slice answer.data 0 outcome.request.recvSize.toNat else []

variable {packets : Word} {state next : RpcState} {request : RpcRequest} {answer : RpcAnswer}

theorem RpcKind.cid_injective {kind other : RpcKind} (same : kind.cid = other.cid) : kind = other := by
  cases kind <;> cases other <;> first | rfl | exact absurd same (by decide)

/-- What was copied to an address is found there. -/
theorem copyOut_copyIn (ram : Memory) (address : Word) (source : Buffer) {count : ℕ} (short : count ≤ 2 ^ 32) :
    (ram.copyIn address count source).copyOut address count = slice source 0 count := by
  apply List.ext_getElem
  · rw [Memory.length_copyOut, length_slice]
  · intro i left right
    rw [Memory.length_copyOut] at left
    have offset : (address + BitVec.ofNat 32 i - address).toNat = i := by
      rw [BitVec.add_comm, BitVec.add_sub_cancel, BitVec.toNat_ofNat, Nat.mod_eq_of_lt (by omega)]
    rw [Memory.getElem_copyOut, Memory.copyIn_inside (by rw [offset]; exact left), getElem_slice, offset, Nat.zero_add]

/-- What an answer brings is what the caller finds. -/
theorem received_deliver (call : request.kind = .call) (ram : Memory) :
    request.received (request.deliver answer ram) =
      if request.recvbuf ≠ 0 then slice answer.data 0 request.recvSize.toNat else [] := by
  rw [RpcRequest.received, RpcRequest.deliver]
  split_ifs with given delivered
  · exact copyOut_copyIn _ _ _ (Nat.le_of_lt request.recvSize.isLt)
  · exact absurd ⟨call, given⟩ delivered
  · rfl

/-- The packet in the receive buffer is the `RPC_END` of a request. -/
structure RpcState.Holds (state : RpcState) (request : RpcRequest) (answer : RpcAnswer) : Prop where
  packet : state.recv = request.reply answer
  origin : state.origin = some request
  answered : state.answered request.seq = some answer
  delivered : ∃ ram, state.ram = request.deliver answer ram

/-- What holds of both processors when requests are issued only when no earlier one can be mistaken for them. -/
structure RpcState.Tidy (state : RpcState) : Prop where
  still : state.stat = true → state.armed = false
  arrived : state.stat = true → state.recv.cid = cmdRpcEnd → ∃ request answer, state.Holds request answer
  alone : ∀ request, state.waiting = some request → ∀ other ∈ state.outstanding,
    other = request ∨ ¬ request.kind.Takes other.kind
  own : ∀ request, state.waiting = some request → state.stat = true → ∀ other answer, state.Holds other answer →
    other = request ∨ ¬ request.kind.Takes other.kind
  right : ∀ outcome ∈ state.outcomes, outcome.Right

/-- A buffer that is cleared and armed again. -/
theorem RpcState.rearm_facts (state : RpcState) : state.rearm.waiting = state.waiting ∧
    state.rearm.outstanding = state.outstanding ∧ state.rearm.outcomes = state.outcomes ∧
    state.rearm.answered = state.answered ∧ state.rearm.ram = state.ram ∧ state.rearm.clients = state.clients ∧
    state.rearm.recv = .clear ∧ state.rearm.armed = true ∧ (state.armed = false → state.rearm.stat = false) ∧
    (state.armed = true → state.rearm.stat = state.stat) := by
  rw [rearm]
  split_ifs with armed
  · exact ⟨rfl, rfl, rfl, rfl, rfl, rfl, rfl, armed, fun not => absurd armed (by rw [not]; decide), fun _ => rfl⟩
  · exact ⟨rfl, rfl, rfl, rfl, rfl, rfl, rfl, rfl, fun _ => rfl, fun now => absurd now armed⟩

namespace RpcState

/-- Arming the channel again leaves nothing to be read. -/
theorem Tidy.rearm (tidy : state.Tidy) : state.rearm.Tidy := by
  obtain ⟨waiting, outstanding, outcomes, answered, ram, clients, recv, armed, off, on⟩ := state.rearm_facts
  have quiet : state.rearm.stat = false := by
    cases held : state.armed with
    | false => exact off held
    | true =>
      rw [on held]
      refine Bool.eq_false_iff.mpr fun stat => ?_
      rw [tidy.still stat] at held
      cases held
  refine
    { still := fun stat => by rw [quiet] at stat; cases stat
      arrived := fun stat => by rw [quiet] at stat; cases stat
      alone := ?_
      own := fun _ _ stat => by rw [quiet] at stat; cases stat
      right := ?_ }
  · rw [waiting, outstanding]
    exact tidy.alone
  · rw [outcomes]
    exact tidy.right

/-- A return, with an outcome that is right. -/
theorem Tidy.returns (tidy : state.Tidy) {origin : Option RpcRequest} {ret : ℤ}
    (right : RpcOutcome.Right
      { request := request
        ret := ret
        origin := origin
        client := state.clients request.cd
        received := request.received state.ram
        answered := state.answered request.seq }) : (state.returns request origin ret).Tidy where
  still := tidy.still
  arrived := fun stat ended => by
    obtain ⟨other, answer, holds⟩ := tidy.arrived stat ended
    exact ⟨other, answer, ⟨holds.packet, holds.origin, holds.answered, holds.delivered⟩⟩
  alone := fun _ none => by cases none
  own := fun _ none => by cases none
  right := by
    intro outcome listed
    rcases List.mem_append.mp listed with earlier | last
    · exact tidy.right outcome earlier
    · rw [List.mem_singleton.mp last]
      exact right

/-- A failure is never wrong. -/
theorem Tidy.fails (tidy : state.Tidy) {origin : Option RpcRequest} {ret : ℤ} (failed : ret ≠ 0) :
    (state.returns request origin ret).Tidy := tidy.returns fun zero => absurd zero failed

/-- An unread packet has been read. -/
theorem Tidy.seen (tidy : state.Tidy) : { state with stat := false }.Tidy where
  still := fun stat => by cases stat
  arrived := fun stat => by cases stat
  alone := tidy.alone
  own := fun _ _ stat => by cases stat
  right := tidy.right

/-- What else a state holds does not matter. -/
theorem Tidy.congr {other : RpcState} (tidy : state.Tidy) (stat : other.stat = state.stat)
    (armed : other.armed = state.armed) (recv : other.recv = state.recv) (origin : other.origin = state.origin)
    (answered : other.answered = state.answered) (ram : other.ram = state.ram)
    (waiting : other.waiting = state.waiting) (outstanding : other.outstanding = state.outstanding)
    (outcomes : other.outcomes = state.outcomes) : other.Tidy := by
  have holds (request : RpcRequest) (answer : RpcAnswer) :
      other.Holds request answer ↔ state.Holds request answer := by
    constructor
    · rintro ⟨packet, from_, found, delivered⟩
      exact ⟨recv ▸ packet, origin ▸ from_, answered ▸ found, ram ▸ delivered⟩
    · rintro ⟨packet, from_, found, delivered⟩
      exact ⟨recv ▸ packet, origin ▸ from_, answered ▸ found, ram ▸ delivered⟩
  refine ⟨?_, ?_, ?_, ?_, ?_⟩
  · rw [stat, armed]
    exact tidy.still
  · simp only [stat, recv, holds]
    exact tidy.arrived
  · rw [waiting, outstanding]
    exact tidy.alone
  · simp only [waiting, stat, holds]
    exact tidy.own
  · rw [outcomes]
    exact tidy.right

/-- A request reaches the other processor, and is waited for or not, when no earlier one can be mistaken for it. -/
theorem Tidy.issue (tidy : state.Tidy) (clear : state.Clear request.kind) {waiting : Option RpcRequest}
    (own : ∀ other, waiting = some other → other = request) :
    ({ state with outstanding := state.outstanding ++ [request], waiting := waiting } : RpcState).Tidy where
  still := tidy.still
  arrived := fun stat ended => by
    obtain ⟨other, answer, holds⟩ := tidy.arrived stat ended
    exact ⟨other, answer, ⟨holds.packet, holds.origin, holds.answered, holds.delivered⟩⟩
  alone := fun _ held other listed => by
    obtain rfl := own _ held
    rcases List.mem_append.mp listed with earlier | last
    · exact .inr (clear.1 other earlier)
    · exact .inl (List.mem_singleton.mp last)
  own := fun _ held stat other answer holds => by
    obtain rfl := own _ held
    have packet : state.recv = other.reply answer := holds.packet
    obtain ⟨bind, command⟩ := clear.2 stat (by rw [packet]; rfl)
    refine .inr fun takes => ?_
    rcases takes with call | taken
    · rw [bind] at call
      cases call
    · rw [packet] at command
      exact command (congrArg RpcKind.cid taken)
  right := tidy.right

/-- A request is sent. -/
theorem Tidy.send (tidy : state.Tidy) (free : state.waiting = none) (clear : state.Clear request.kind) (sent : Sent)
    {failed : ℤ} (negative : failed ≠ 0) : (state.send request sent failed).Tidy := by
  cases sent with
  | inTime => exact tidy.issue clear fun other same => (Option.some.inj same).symm
  | never => exact tidy.fails negative
  | late =>
    have issued : ({ state with outstanding := state.outstanding ++ [request], waiting := none } : RpcState).Tidy :=
      tidy.issue clear fun other none => by cases none
    rw [← free] at issued
    exact issued.fails negative

/-- A bind is issued. -/
theorem Tidy.bind (tidy : state.Tidy) (free : state.waiting = none) (clear : state.Clear .bind) (client : Word)
    (sent : Sent) : (eeSifRpcBind packets state client sent).Tidy := by
  rw [eeSifRpcBind]
  split_ifs with null
  · exact tidy.fails (by decide)
  · have issued : ({ state.counted with
        clients := Function.update state.clients client { state.clients client with server := 0 } } : RpcState).Tidy :=
      tidy.congr rfl rfl rfl rfl rfl rfl rfl rfl rfl
    exact @Tidy.send _ (state.packet packets .bind client 0 0) issued free clear sent _ (by decide)

/-- A call is issued. -/
theorem Tidy.call (tidy : state.Tidy) (free : state.waiting = none) (clear : state.Clear .call)
    (client recvbuf recvSize : Word) (sent : Sent) :
    (eeSifRpcCall packets state client recvbuf recvSize sent).Tidy := by
  rw [eeSifRpcCall]
  split_ifs with unbound
  · exact tidy.fails (by decide)
  · have issued : state.counted.Tidy := tidy.congr rfl rfl rfl rfl rfl rfl rfl rfl rfl
    exact @Tidy.send _ (state.packet packets .call client recvbuf recvSize) issued free clear sent _ (by decide)

/-- An unread `RPC_END` that the request waited for takes is its own. -/
theorem Tidy.own_reply (tidy : state.Tidy) (held : state.waiting = some request) (stat : state.stat = true)
    (ended : state.recv.cid = cmdRpcEnd) (takes : request.kind = .call ∨ state.recv.command = cmdRpcBind) :
    ∃ answer, state.Holds request answer := by
  obtain ⟨other, answer, holds⟩ := tidy.arrived stat ended
  rcases tidy.own request held stat other answer holds with rfl | apart
  · exact ⟨answer, holds⟩
  · refine absurd ?_ apart
    rcases takes with call | bind
    · exact .inl call
    · rw [holds.packet] at bind
      exact .inr (@RpcKind.cid_injective _ .bind bind)

theorem Tidy.bound (tidy : state.Tidy) {client : Word} {reply : RecvPacket} : (state.bound client reply).Tidy :=
  tidy.congr rfl rfl rfl rfl rfl rfl rfl rfl rfl

theorem bound_clients {client : Word} {reply : RecvPacket} :
    (state.bound client reply).clients client = ⟨reply.sd, reply.buf, reply.cbuf⟩ := by
  simp only [RpcState.bound, Function.update_self]

/-- A bind has its reply. -/
theorem Tidy.bindReply (tidy : state.Tidy) (held : state.waiting = some request) (stat : state.stat = true)
    (ended : state.recv.cid = cmdRpcEnd) (bind : request.kind = .bind) :
    (({ state with stat := false } : RpcState).bindReply request state.origin state.recv).Tidy := by
  rw [RpcState.bindReply]
  split_ifs with command null
  · exact tidy.seen.rearm.fails (by decide)
  · exact tidy.seen.bound.rearm.fails (by decide)
  · obtain ⟨answer, holds⟩ := tidy.own_reply held stat ended (.inr (not_not.mp command))
    refine tidy.seen.bound.rearm.returns fun _ => ⟨holds.origin, answer, ?_, ?_⟩
    · rw [(rearm_facts _).2.2.2.1]
      exact holds.answered
    · simp only [bind]
      rw [(rearm_facts _).2.2.2.2.2.1, bound_clients, holds.packet]
      rfl

/-- A call has its reply. -/
theorem Tidy.callReply (tidy : state.Tidy) (held : state.waiting = some request) (stat : state.stat = true)
    (ended : state.recv.cid = cmdRpcEnd) (call : request.kind = .call) :
    (({ state with stat := false } : RpcState).callReply request state.origin).Tidy := by
  obtain ⟨answer, holds⟩ := tidy.own_reply held stat ended (.inl call)
  refine tidy.seen.rearm.returns fun _ => ⟨holds.origin, answer, ?_, ?_⟩
  · rw [(rearm_facts _).2.2.2.1]
    exact holds.answered
  · obtain ⟨ram, delivered⟩ := holds.delivered
    simp only [call]
    rw [(rearm_facts _).2.2.2.2.1]
    exact (congrArg request.received delivered).trans (received_deliver call ram)

/-- One pass of the poll. -/
theorem Tidy.poll (tidy : state.Tidy) (held : state.waiting = some request) : (state.poll request).Tidy := by
  rw [RpcState.poll]
  split_ifs with quiet ended psize
  · exact tidy
  · have stat : state.stat = true := Bool.eq_true_of_not_eq_false quiet
    cases kind : request.kind with
    | bind => exact tidy.bindReply held stat ended kind
    | call => exact tidy.callReply held stat ended kind
  · exact tidy.seen.rearm
  · exact tidy.seen

/-- The polls are used up. -/
theorem Tidy.giveUp (tidy : state.Tidy) : (state.giveUp request).Tidy := by
  rw [RpcState.giveUp]
  cases request.kind with
  | bind => exact tidy.rearm.fails (by decide)
  | call => exact tidy.fails (by decide)

/-- An answer arrives. -/
theorem Tidy.arrive (tidy : state.Tidy) {index : ℕ} (listed : state.outstanding[index]? = some request) :
    (state.arrive request answer index).Tidy where
  still := fun _ => rfl
  arrived := fun _ _ => ⟨request, answer, rfl, rfl, Function.update_self _ _ _, state.ram, rfl⟩
  alone := fun waiting held other rest => tidy.alone waiting held other (List.mem_of_mem_eraseIdx rest)
  own := fun waiting held _ other _ holds => by
    obtain rfl := Option.some.inj holds.origin
    exact tidy.alone waiting held _ (List.mem_of_getElem? listed)
  right := tidy.right

/-- Every step keeps both processors tidy. -/
theorem Tidy.step (tidy : state.Tidy) {event : RpcEvent} (clear : state.IssuesClear event)
    (stepped : state.step packets event = some next) : next.Tidy := by
  cases event with
  | bind client sent =>
    rw [RpcState.step] at stepped
    split_ifs at stepped with free
    cases stepped
    exact tidy.bind free clear client sent
  | call client recvbuf recvSize sent =>
    rw [RpcState.step] at stepped
    split_ifs at stepped with free
    cases stepped
    exact tidy.call free clear client recvbuf recvSize sent
  | poll =>
    obtain ⟨request, held, rfl⟩ := Option.map_eq_some_iff.mp stepped
    exact tidy.poll held
  | giveUp =>
    obtain ⟨request, held, rfl⟩ := Option.map_eq_some_iff.mp stepped
    exact tidy.giveUp
  | answer index answer =>
    rw [RpcState.step] at stepped
    split_ifs at stepped with armed
    obtain ⟨request, listed, rfl⟩ := Option.map_eq_some_iff.mp stepped
    exact tidy.arrive listed
  | lose index =>
    rw [RpcState.step] at stepped
    split_ifs at stepped with inside
    cases stepped
    refine ⟨tidy.still, fun stat ended => ?_, fun waiting held other rest => ?_, fun waiting held stat other answer holds =>
      ?_, tidy.right⟩
    · obtain ⟨other, answer, holds⟩ := tidy.arrived stat ended
      exact ⟨other, answer, ⟨holds.packet, holds.origin, holds.answered, holds.delivered⟩⟩
    · exact tidy.alone waiting held other (List.mem_of_mem_eraseIdx rest)
    · exact tidy.own waiting held stat other answer ⟨holds.packet, holds.origin, holds.answered, holds.delivered⟩
  | other psize cid =>
    rw [RpcState.step] at stepped
    split_ifs at stepped with allowed
    cases stepped
    refine ⟨fun _ => rfl, fun _ ended => absurd ended allowed.2, tidy.alone, fun _ _ _ other answer holds => ?_, tidy.right⟩
    have packet := congrArg RecvPacket.cid holds.packet
    exact absurd packet allowed.2

/-- Both processors at the start. -/
theorem tidy_initial (clients : Word → RpcClient) (ram : Memory) : (RpcState.initial clients ram).Tidy where
  still := fun stat => by cases stat
  arrived := fun stat => by cases stat
  alone := fun _ none => by cases none
  own := fun _ none => by cases none
  right := fun _ listed => by cases listed

end RpcState

/-- In a run in which every request is issued only when no `RPC_END` that it would take is to come or unread, every
bind and every call that succeeds has its own `RPC_END` and hands back what was answered to it. -/
theorem rpc_replies_matched {clients : Word → RpcClient} {ram : Memory} {events : List RpcEvent} {target : RpcState}
    (clear : (sifRpc packets).Along RpcState.IssuesClear (RpcState.initial clients ram) events)
    (run : (sifRpc packets).run? (RpcState.initial clients ram) events = some target) :
    ∀ outcome ∈ target.outcomes, outcome.Right := by
  have kept (source : RpcState) (event : RpcEvent) (next : RpcState) (tidy : source.Tidy)
      (clear : source.IssuesClear event) (step : (sifRpc packets).step source event = some next) : next.Tidy :=
    tidy.step clear step
  exact (LabeledMachine.run?_invariant kept (RpcState.tidy_initial clients ram) clear run).right

/-- An answer with four bytes of data. -/
def someAnswer (byte : Byte) : RpcAnswer := { sd := 0x1000, buf := 0x2000, cbuf := 0x3000, data := fun _ => byte }

/-- Two binds and two calls, the last two answered in time. -/
def timelyEvents : List RpcEvent :=
  [.bind 0x100 .inTime, .giveUp, .lose 0, .bind 0x100 .inTime, .answer 0 (someAnswer 1), .poll,
    .call 0x100 0x200 4 .inTime, .answer 0 (someAnswer 2), .poll]

/-- A bind, a call that is given up, its answer, and another call, which polls. -/
def lateEvents : List RpcEvent :=
  [.bind 0x100 .inTime, .answer 0 (someAnswer 1), .poll, .call 0x100 0x200 4 .inTime, .giveUp,
    .answer 0 (someAnswer 2), .call 0x100 0x300 4 .inTime, .poll]

/-- The processors before either run. -/
def unbound : RpcState := .initial (fun _ => ⟨0, 0, 0⟩) fun _ => 0

theorem rpc_replies_matched_timely : ∃ target, (sifRpc 0xa0000000).run? unbound timelyEvents = some target ∧
    target.outcomes.map RpcOutcome.ret = [-2, 0, 0] ∧ ∀ outcome ∈ target.outcomes, outcome.Right := by
  have shown : ((sifRpc 0xa0000000).run? unbound timelyEvents).map (fun target => target.outcomes.map RpcOutcome.ret) =
      some [-2, 0, 0] := by decide +kernel
  obtain ⟨target, run, returned⟩ := Option.map_eq_some_iff.mp shown
  exact ⟨target, run, returned, rpc_replies_matched (by decide +kernel) run⟩

/-- The second call takes the answer to the first. -/
theorem late_reply_taken : ¬ ∀ (packets : Word) (clients : Word → RpcClient) (ram : Memory) (events : List RpcEvent)
    (target : RpcState), (sifRpc packets).run? (RpcState.initial clients ram) events = some target →
      ∀ outcome ∈ target.outcomes, outcome.Right := by
  intro matched
  have shown : ((sifRpc 0xa0000000).run? unbound lateEvents).map (fun target => target.outcomes.map fun outcome =>
      (outcome.ret, decide (outcome.origin = some outcome.request))) = some [(0, true), (-3, false), (0, false)] := by
    decide +kernel
  obtain ⟨target, run, returned⟩ := Option.map_eq_some_iff.mp shown
  have last : ((0 : ℤ), false) ∈ target.outcomes.map fun outcome =>
      (outcome.ret, decide (outcome.origin = some outcome.request)) := by
    rw [returned]
    exact .tail _ (.tail _ (.head _))
  obtain ⟨outcome, listed, wrong⟩ := List.mem_map.mp last
  obtain ⟨success, differs⟩ := Prod.mk.inj wrong
  have right := matched _ _ _ _ target run outcome listed success
  exact absurd right.1 (of_decide_eq_false differs)

end KosTool.Ps2
