import KosTool.Model.Wii.IosIpc

/-! # Requests to IOS and their replies

All requests have one address, so `ipc_sync` takes the first reply it finds for the answer to its own. Requests are
matched to their replies in a run in which none is issued while a reply to an abandoned one is still to come or
unread. No run leaves the mailbox in a state in which a request hangs.
-/

namespace KosTool.Wii

open Machine

namespace Mailbox

variable (mailbox : Mailbox)

/-- The send of a request. -/
theorem ack_send : mailbox.ack ipcSendRequest = { mailbox with sent := true } := by
  rcases mailbox with ⟨_ | _, _ | _, _ | _, _ | _, _ | _, _ | _⟩ <;> rfl

/-- The acknowledgement of an acknowledgement. -/
theorem ack_ack : mailbox.ack ipcAckRequest = { mailbox with acknowledged := false } := by
  rcases mailbox with ⟨_ | _, _ | _, _ | _, _ | _, _ | _, _ | _⟩ <;> rfl

/-- A reply is taken and released. -/
theorem ack_reply : (mailbox.ack ipcAckReply).ack ipcReleaseReply = { mailbox with ready := false, released := true } := by
  rcases mailbox with ⟨_ | _, _ | _, _ | _, _ | _, _ | _, _ | _⟩ <;> rfl

/-- The first store. -/
theorem store_init : mailbox.store 0x38 =
    { mailbox with released := true, replyEnabled := true, ackEnabled := true } := by
  rcases mailbox with ⟨_ | _, _ | _, _ | _, _ | _, _ | _, _ | _⟩ <;> rfl

/-- A reply is seen once replies are enabled. -/
theorem reply_ready : mailbox.load &&& ipcReplyReadyMask = ipcReplyReadyMask ↔
    mailbox.ready = true ∧ mailbox.replyEnabled = true := by
  rcases mailbox with ⟨_ | _, _ | _, _ | _, _ | _, _ | _, _ | _⟩ <;> decide

end Mailbox

/-- No reply to an earlier request is to come or unread. -/
def IpcState.Clear (state : IpcState) : Prop := state.taken = [] ∧ state.mailbox.ready = false

instance (state : IpcState) : Decidable state.Clear := inferInstanceAs (Decidable (_ ∧ _))

/-- A call is made only when no reply to an earlier request is to come or unread. -/
def IpcState.IssuesClear (state : IpcState) : IpcEvent → Prop
  | .call _ _ => state.Clear
  | _ => True

instance (state : IpcState) (event : IpcEvent) : Decidable (state.IssuesClear event) := by
  unfold IpcState.IssuesClear
  split
  · exact inferInstance
  · exact inferInstance

/-- A result is that of the request's own reply, and the buffer holds what IOS wrote into it. -/
def IpcOutcome.Right (outcome : IpcOutcome) : Prop :=
  outcome.replied = true → outcome.origin = some outcome.request ∧
    ∃ answer, outcome.answered = some answer ∧ outcome.words = answer ∧ outcome.ret = (answer 1).toInt

/-- The request can still be answered: IOS can be made to reply, and the loop then returns by a reply. -/
def IpcState.Answerable (arena : IpcArena) (state : IpcState) (request : IosRequest) : Prop :=
  ∀ answer : RequestWords, ∃ events target outcome, (iosIpc arena).run? state events = some target ∧ target.waiting = none ∧
    target.outcomes = state.outcomes ++ [outcome] ∧ outcome.request = request ∧ outcome.replied = true ∧
    (state.mailbox.ready = false → outcome.ret = (answer 1).toInt)

variable {arena : IpcArena} {state next : IpcState} {request : IosRequest} {answer : RequestWords}

namespace IpcState

/-- What holds of the mailbox in every run. -/
structure Sound (arena : IpcArena) (state : IpcState) : Prop where
  before : state.ipcReady = false → state.taken = [] ∧ state.mailbox.ready = false ∧ state.mailbox.sent = false ∧
    state.waiting = none
  channel : state.ipcReady = true → state.mailbox.released = !state.mailbox.ready
  enabled : state.ipcReady = true → state.mailbox.replyEnabled = true
  posted : ∀ request, state.posted = some request → request.address = physAddr arena.request
  taken : ∀ request ∈ state.taken, request.address = physAddr arena.request
  reply : state.mailbox.ready = true → state.reply = physAddr arena.request
  waiting : ∀ request, state.waiting = some request → state.posted = some request ∧
    (state.mailbox.sent = true ∨ request ∈ state.taken ∨ state.mailbox.ready = true)

/-- The reply in the mailbox is to a request. -/
structure Holds (state : IpcState) (request : IosRequest) (answer : RequestWords) : Prop where
  origin : state.origin = some request
  answered : state.answered request = some answer
  written : state.words = answer

/-- What holds besides when calls are made only when no reply to an earlier request is to come or unread. -/
structure Tidy (state : IpcState) : Prop where
  arrived : state.mailbox.ready = true → ∃ request answer, state.Holds request answer
  alone : ∀ request, state.waiting = some request → ∀ other ∈ state.taken, other = request
  own : ∀ request, state.waiting = some request → state.mailbox.ready = true → state.origin = some request
  right : ∀ outcome ∈ state.outcomes, outcome.Right

/-- The mailbox once it has been set up. -/
theorem ipcInit_facts (sound : state.Sound arena) : state.ipcInit.ipcReady = true ∧
    state.ipcInit.mailbox.ready = state.mailbox.ready ∧ state.ipcInit.mailbox.replyEnabled = true ∧
    state.ipcInit.mailbox.released = !state.mailbox.ready ∧ state.ipcInit.taken = state.taken ∧
    state.ipcInit.outcomes = state.outcomes ∧ state.ipcInit.reply = state.reply ∧
    state.ipcInit.origin = state.origin ∧ state.ipcInit.answered = state.answered := by
  rw [ipcInit]
  split_ifs with ready
  · exact ⟨ready, rfl, sound.enabled ready, sound.channel ready, rfl, rfl, rfl, rfl, rfl⟩
  · have quiet := (sound.before (Bool.eq_false_iff.mpr ready)).2.1
    rw [Mailbox.store_init, quiet]
    exact ⟨rfl, rfl, rfl, rfl, rfl, rfl, rfl, rfl, rfl⟩

/-- A request is issued. -/
theorem Sound.ipcSync (sound : state.Sound arena) (words : RequestWords) (block : Bool) :
    (state.ipcSync arena words block).Sound arena := by
  obtain ⟨ready, unread, enabled, released, taken, outcomes, reply, origin, answered⟩ := ipcInit_facts sound
  rw [IpcState.ipcSync, Mailbox.ack_send]
  refine
    { before := fun off => ?_
      channel := fun _ => ?_
      enabled := fun _ => enabled
      posted := fun request same => ?_
      taken := ?_
      reply := ?_
      waiting := fun request same => ⟨same, .inl rfl⟩ }
  · exact absurd (ready.symm.trans off) Bool.noConfusion
  · simp only [released, unread]
  · cases same
    rfl
  · simp only [taken]
    exact sound.taken
  · simp only [unread, reply]
    exact sound.reply

/-- The first half of a pass. -/
theorem pollAck_facts (state : IpcState) : ∃ acknowledged,
    state.pollAck = { state with mailbox := { state.mailbox with acknowledged := acknowledged } } := by
  rw [pollAck]
  split_ifs with acknowledged
  · exact ⟨false, by rw [Mailbox.ack_ack]⟩
  · exact ⟨state.mailbox.acknowledged, rfl⟩

/-- The second half of a pass: a reply that is ready is to the request buffer, so it is returned. -/
theorem pollReply_facts (sound : state.Sound arena) (held : state.waiting = some request) :
    state.mailbox.ready = false ∧ state.pollReply request = state ∨
    state.mailbox.ready = true ∧ state.pollReply request =
      { state with
        mailbox := { state.mailbox with ready := false, released := true }
        waiting := none
        outcomes := state.outcomes ++
          [{ request := request, ret := (state.words 1).toInt, replied := true, origin := state.origin
             words := state.words, answered := state.answered request }] } := by
  have up : state.ipcReady = true := by
    refine Bool.eq_true_of_not_eq_false fun off => ?_
    rw [(sound.before off).2.2.2] at held
    cases held
  have address := sound.posted request (sound.waiting request held).1
  rw [pollReply, Mailbox.ack_reply]
  cases ready : state.mailbox.ready with
  | false =>
    refine .inl ⟨rfl, if_neg fun seen => ?_⟩
    exact absurd ((Mailbox.reply_ready _).mp seen).1 (ready ▸ Bool.noConfusion)
  | true =>
    refine .inr ⟨rfl, ?_⟩
    rw [if_pos ((Mailbox.reply_ready _).mpr ⟨ready, sound.enabled up⟩),
      if_pos ((sound.reply ready).trans address.symm)]

/-- Every step keeps the mailbox sound. -/
theorem Sound.step (sound : state.Sound arena) {event : IpcEvent} (stepped : state.step arena event = some next) :
    next.Sound arena := by
  cases event with
  | call call block =>
    rw [IpcState.step] at stepped
    split_ifs at stepped with free
    cases words : call.words arena with
    | error ret =>
      rw [words] at stepped
      cases stepped
      exact sound
    | ok request =>
      rw [words] at stepped
      cases stepped
      exact sound.ipcSync request block
  | pollAck =>
    obtain ⟨request, held, rfl⟩ := Option.map_eq_some_iff.mp stepped
    obtain ⟨acknowledged, after⟩ := pollAck_facts state
    rw [after]
    exact ⟨sound.before, sound.channel, sound.enabled, sound.posted, sound.taken, sound.reply, sound.waiting⟩
  | pollReply =>
    obtain ⟨request, held, rfl⟩ := Option.map_eq_some_iff.mp stepped
    rcases pollReply_facts sound held with ⟨ready, after⟩ | ⟨ready, after⟩
    · rw [after]
      exact sound
    · rw [after]
      refine
        { before := fun off => ⟨(sound.before off).1, rfl, (sound.before off).2.2.1, rfl⟩
          channel := fun _ => rfl
          enabled := sound.enabled
          posted := sound.posted
          taken := sound.taken
          reply := fun ready => by cases ready
          waiting := fun request none => by cases none }
  | giveUp =>
    obtain ⟨request, held, given⟩ := Option.bind_eq_some_iff.mp stepped
    split_ifs at given with block
    cases given
    exact
      { before := fun off => ⟨(sound.before off).1, (sound.before off).2.1, (sound.before off).2.2.1, rfl⟩
        channel := sound.channel
        enabled := sound.enabled
        posted := sound.posted
        taken := sound.taken
        reply := sound.reply
        waiting := fun request none => by cases none }
  | take =>
    rw [IpcState.step] at stepped
    split_ifs at stepped with sent
    obtain ⟨request, posted, rfl⟩ := Option.map_eq_some_iff.mp stepped
    refine
      { before := fun off => ?_
        channel := sound.channel
        enabled := sound.enabled
        posted := sound.posted
        taken := fun other listed => ?_
        reply := sound.reply
        waiting := fun other held => ⟨(sound.waiting other held).1, .inr (.inl ?_)⟩ }
    · rw [(sound.before off).2.2.1] at sent
      cases sent
    · rcases List.mem_append.mp listed with earlier | last
      · exact sound.taken other earlier
      · rw [List.mem_singleton.mp last]
        exact sound.posted request posted
    · have same := (sound.waiting other held).1
      rw [posted] at same
      exact List.mem_append_right _ (List.mem_singleton.mpr (Option.some.inj same).symm)
  | reply index answer =>
    rw [IpcState.step] at stepped
    split_ifs at stepped with released
    obtain ⟨request, listed, rfl⟩ := Option.map_eq_some_iff.mp stepped
    refine
      { before := fun off => ?_
        channel := fun _ => rfl
        enabled := sound.enabled
        posted := sound.posted
        taken := fun other rest => sound.taken other (List.mem_of_mem_eraseIdx rest)
        reply := fun _ => sound.taken request (List.mem_of_getElem? listed)
        waiting := fun other held => ⟨(sound.waiting other held).1, .inr (.inr rfl)⟩ }
    rw [(sound.before off).1] at listed
    cases listed

/-- A call is made when nothing of an earlier one is left. -/
theorem Tidy.ipcSync (tidy : state.Tidy) (sound : state.Sound arena) (clear : state.Clear) (words : RequestWords)
    (block : Bool) : (state.ipcSync arena words block).Tidy := by
  obtain ⟨ready, unread, enabled, released, taken, outcomes, reply, origin, answered⟩ := ipcInit_facts sound
  rw [IpcState.ipcSync, Mailbox.ack_send]
  have quiet : state.ipcInit.mailbox.ready = false := unread.trans clear.2
  refine
    { arrived := fun ready => absurd (quiet.symm.trans ready) Bool.noConfusion
      alone := fun _ _ other listed => ?_
      own := fun _ _ ready => absurd (quiet.symm.trans ready) Bool.noConfusion
      right := ?_ }
  · simp only [taken, clear.1] at listed
    cases listed
  · simp only [outcomes]
    exact tidy.right

/-- Every step keeps the replies in order. -/
theorem Tidy.step (tidy : state.Tidy) (sound : state.Sound arena) {event : IpcEvent} (clear : state.IssuesClear event)
    (stepped : state.step arena event = some next) : next.Tidy := by
  cases event with
  | call call block =>
    rw [IpcState.step] at stepped
    split_ifs at stepped with free
    cases words : call.words arena with
    | error ret =>
      rw [words] at stepped
      cases stepped
      exact tidy
    | ok request =>
      rw [words] at stepped
      cases stepped
      exact tidy.ipcSync sound clear request block
  | pollAck =>
    obtain ⟨request, held, rfl⟩ := Option.map_eq_some_iff.mp stepped
    obtain ⟨acknowledged, after⟩ := pollAck_facts state
    rw [after]
    refine ⟨fun ready => ?_, tidy.alone, tidy.own, tidy.right⟩
    obtain ⟨request, answer, holds⟩ := tidy.arrived ready
    exact ⟨request, answer, holds.origin, holds.answered, holds.written⟩
  | pollReply =>
    obtain ⟨request, held, rfl⟩ := Option.map_eq_some_iff.mp stepped
    rcases pollReply_facts sound held with ⟨ready, after⟩ | ⟨ready, after⟩
    · rw [after]
      exact tidy
    · rw [after]
      refine ⟨fun ready => (nomatch ready), fun _ none => (nomatch none), fun _ none => (nomatch none), ?_⟩
      intro outcome listed
      rcases List.mem_append.mp listed with earlier | last
      · exact tidy.right outcome earlier
      · rw [List.mem_singleton.mp last]
        obtain ⟨other, answer, holds⟩ := tidy.arrived ready
        have own := tidy.own request held ready
        obtain rfl : other = request := Option.some.inj (holds.origin.symm.trans own)
        exact fun _ => ⟨own, answer, holds.answered, holds.written, by rw [holds.written]⟩
  | giveUp =>
    obtain ⟨request, held, given⟩ := Option.bind_eq_some_iff.mp stepped
    split_ifs at given with block
    cases given
    refine ⟨fun ready => ?_, fun _ none => (nomatch none), fun _ none => (nomatch none), ?_⟩
    · obtain ⟨request, answer, holds⟩ := tidy.arrived ready
      exact ⟨request, answer, holds.origin, holds.answered, holds.written⟩
    · intro outcome listed
      rcases List.mem_append.mp listed with earlier | last
      · exact tidy.right outcome earlier
      · rw [List.mem_singleton.mp last]
        exact fun replied => by cases replied
  | take =>
    rw [IpcState.step] at stepped
    split_ifs at stepped with sent
    obtain ⟨request, posted, rfl⟩ := Option.map_eq_some_iff.mp stepped
    refine ⟨fun ready => ?_, fun waiting held other listed => ?_, tidy.own, tidy.right⟩
    · obtain ⟨request, answer, holds⟩ := tidy.arrived ready
      exact ⟨request, answer, holds.origin, holds.answered, holds.written⟩
    · rcases List.mem_append.mp listed with earlier | last
      · exact tidy.alone waiting held other earlier
      · have same := (sound.waiting waiting held).1
        rw [posted] at same
        exact (List.mem_singleton.mp last).trans (Option.some.inj same)
  | reply index answer =>
    rw [IpcState.step] at stepped
    split_ifs at stepped with released
    obtain ⟨request, listed, rfl⟩ := Option.map_eq_some_iff.mp stepped
    refine ⟨fun _ => ⟨request, answer, rfl, Function.update_self _ _ _, rfl⟩, fun waiting held other rest => ?_,
      fun waiting held _ => ?_, tidy.right⟩
    · exact tidy.alone waiting held other (List.mem_of_mem_eraseIdx rest)
    · exact congrArg some (tidy.alone waiting held request (List.mem_of_getElem? listed))

/-- Before the first call. -/
theorem sound_initial (mailbox : Mailbox) (words : RequestWords) : (initial mailbox words).Sound arena where
  before := fun _ => ⟨rfl, rfl, rfl, rfl⟩
  channel := fun up => by cases up
  enabled := fun up => by cases up
  posted := fun _ none => by cases none
  taken := fun _ listed => by cases listed
  reply := fun ready => by cases ready
  waiting := fun _ none => by cases none

theorem tidy_initial (mailbox : Mailbox) (words : RequestWords) : (initial mailbox words).Tidy where
  arrived := fun ready => by cases ready
  alone := fun _ none => by cases none
  own := fun _ none => by cases none
  right := fun _ listed => by cases listed

/-- A reply that is ready is returned. -/
theorem Sound.returns (sound : state.Sound arena) (held : state.waiting = some request)
    (ready : state.mailbox.ready = true) : ∃ target outcome,
    (iosIpc arena).run? state [.pollReply] = some target ∧ target.waiting = none ∧
      target.outcomes = state.outcomes ++ [outcome] ∧ outcome.request = request ∧ outcome.replied = true ∧
      outcome.ret = (state.words 1).toInt := by
  rcases pollReply_facts sound held with ⟨unready, after⟩ | ⟨_, after⟩
  · rw [unready] at ready
    cases ready
  · have step : (iosIpc arena).step state .pollReply = some (state.pollReply request) := by
      change state.waiting.map state.pollReply = _
      rw [held, Option.map_some]
    refine ⟨state.pollReply request,
      ⟨request, (state.words 1).toInt, true, state.origin, state.words, state.answered request⟩,
      LabeledMachine.run?_cons_eq_some.mpr ⟨_, step, rfl⟩, ?_⟩
    rw [after]
    exact ⟨rfl, rfl, rfl, rfl, rfl⟩

/-- A request IOS has taken is replied to, and the reply is returned. -/
theorem Sound.replied (sound : state.Sound arena) (held : state.waiting = some request)
    (quiet : state.mailbox.ready = false) (up : state.ipcReady = true) {index : ℕ} {other : IosRequest}
    (listed : state.taken[index]? = some other) (answer : RequestWords) : ∃ target outcome,
    (iosIpc arena).run? state [.reply index answer, .pollReply] = some target ∧ target.waiting = none ∧
      target.outcomes = state.outcomes ++ [outcome] ∧ outcome.request = request ∧ outcome.replied = true ∧
      outcome.ret = (answer 1).toInt := by
  have step : state.step arena (.reply index answer) = some (state.replies other answer index) := by
    change (if state.mailbox.released then _ else _) = _
    rw [if_pos (by rw [sound.channel up, quiet]; rfl), listed, Option.map_some]
  have after : (state.replies other answer index).Sound arena := sound.step step
  have waits : (state.replies other answer index).waiting = some request := held
  obtain ⟨target, outcome, run, ended⟩ := after.returns waits rfl
  exact ⟨target, outcome, LabeledMachine.run?_cons_eq_some.mpr ⟨_, step, run⟩, ended⟩

/-- No request that is waited for hangs. -/
theorem Sound.answerable (sound : state.Sound arena) (held : state.waiting = some request) :
    state.Answerable arena request := by
  intro answer
  have up : state.ipcReady = true := by
    refine Bool.eq_true_of_not_eq_false fun off => ?_
    rw [(sound.before off).2.2.2] at held
    cases held
  cases ready : state.mailbox.ready with
  | true =>
    obtain ⟨target, outcome, run, free, listed, same, replied, ret⟩ := sound.returns held ready
    exact ⟨_, target, outcome, run, free, listed, same, replied, fun unready => by cases unready⟩
  | false =>
    obtain ⟨posted, sent | taken | unread⟩ := sound.waiting request held
    · have step : state.step arena .take = some (state.takes request) := by
        change (if state.mailbox.sent then _ else _) = _
        rw [if_pos sent, posted, Option.map_some]
      have after : (state.takes request).Sound arena := sound.step step
      have last : (state.takes request).taken[state.taken.length]? = some request := List.getElem?_concat_length
      obtain ⟨target, outcome, run, free, listed, same, replied, ret⟩ := after.replied held ready up last answer
      have whole : (iosIpc arena).run? state [.take, .reply state.taken.length answer, .pollReply] = some target :=
        LabeledMachine.run?_cons_eq_some.mpr ⟨state.takes request, step, run⟩
      exact ⟨_, target, outcome, whole, free, listed, same, replied, fun _ => ret⟩
    · obtain ⟨index, listed⟩ := List.mem_iff_getElem?.mp taken
      obtain ⟨target, outcome, run, free, ended, same, replied, ret⟩ := sound.replied held ready up listed answer
      exact ⟨_, target, outcome, run, free, ended, same, replied, fun _ => ret⟩
    · rw [ready] at unread
      cases unread

end IpcState

/-- In a run in which every call is made only when no reply to an earlier request is to come or unread, every reply
that is returned is to its own request, with what IOS wrote into the buffer; and no request is left to hang. -/
theorem ios_replies_matched {mailbox : Mailbox} {words : RequestWords} {events : List IpcEvent} {target : IpcState}
    (clear : (iosIpc arena).Along IpcState.IssuesClear (IpcState.initial mailbox words) events)
    (run : (iosIpc arena).run? (IpcState.initial mailbox words) events = some target) :
    (∀ outcome ∈ target.outcomes, outcome.Right) ∧
      ∀ request, target.waiting = some request → target.Answerable arena request := by
  have kept (source : IpcState) (event : IpcEvent) (next : IpcState) (inv : source.Sound arena ∧ source.Tidy)
      (clear : source.IssuesClear event) (step : (iosIpc arena).step source event = some next) :
      next.Sound arena ∧ next.Tidy := ⟨inv.1.step step, inv.2.step inv.1 clear step⟩
  obtain ⟨sound, tidy⟩ := LabeledMachine.run?_invariant kept
    ⟨IpcState.sound_initial mailbox words, IpcState.tidy_initial mailbox words⟩ clear run
  exact ⟨tidy.right, fun request held => sound.answerable held⟩

/-- The request buffer and the path buffer of the loader. -/
def someArena : IpcArena := { request := 0x933e0000, path := 0x933e0040 }

/-- A mailbox that nothing was done to. -/
def someMailbox : Mailbox := ⟨false, false, false, false, false, false⟩

/-- A result, as IOS writes it. -/
def someResult (word : Word) : RequestWords := requestWords [(0, 8), (1, word)]

/-- An open that is answered in time, and a close that is given up and answered before the next call. -/
def timelyCalls : List IpcEvent :=
  [.call (.openPath (some [0x2f]) 0) false, .take, .pollAck, .reply 0 (someResult 5), .pollAck, .pollReply,
    .call (.close 0xffffffff) false, .call (.close 5) true, .take, .pollAck, .reply 0 (someResult 0), .pollReply]

/-- An open that is given up, its reply, and an ioctl, whose loop runs. -/
def lateCalls : List IpcEvent :=
  [.call (.openPath (some [0x2f]) 0) false, .take, .pollAck, .giveUp, .reply 0 (someResult 5),
    .call (.ioctl 3 31 0 0 0 0) false, .pollAck, .pollReply]

theorem ios_replies_matched_timely : ∃ target,
    (iosIpc someArena).run? (.initial someMailbox fun _ => 0) timelyCalls = some target ∧
      target.outcomes.map IpcOutcome.ret = [5, 0] ∧ ∀ outcome ∈ target.outcomes, outcome.Right := by
  have shown : ((iosIpc someArena).run? (.initial someMailbox fun _ => 0) timelyCalls).map
      (fun target => target.outcomes.map IpcOutcome.ret) = some [5, 0] := by decide +kernel
  obtain ⟨target, run, returned⟩ := Option.map_eq_some_iff.mp shown
  exact ⟨target, run, returned, (ios_replies_matched (by decide +kernel) run).1⟩

/-- The ioctl takes the reply to the open. -/
theorem late_reply_returned : ¬ ∀ (arena : IpcArena) (mailbox : Mailbox) (words : RequestWords)
    (events : List IpcEvent) (target : IpcState),
    (iosIpc arena).run? (IpcState.initial mailbox words) events = some target →
      (∀ outcome ∈ target.outcomes, outcome.Right) ∧
        ∀ request, target.waiting = some request → target.Answerable arena request := by
  intro matched
  have shown : ((iosIpc someArena).run? (.initial someMailbox fun _ => 0) lateCalls).map
      (fun target => target.outcomes.map fun outcome =>
        (outcome.replied, decide (outcome.origin = some outcome.request))) =
      some [(false, false), (true, false)] := by decide +kernel
  obtain ⟨target, run, returned⟩ := Option.map_eq_some_iff.mp shown
  have last : (true, false) ∈ target.outcomes.map fun outcome =>
      (outcome.replied, decide (outcome.origin = some outcome.request)) := by
    rw [returned]
    exact .tail _ (.head _)
  obtain ⟨outcome, listed, wrong⟩ := List.mem_map.mp last
  obtain ⟨replied, differs⟩ := Prod.mk.inj wrong
  have right := (matched _ _ _ _ target run).1 outcome listed replied
  exact absurd right.1 (of_decide_eq_false differs)

end KosTool.Wii
