import KosTool.Model.Host.OpenDirs
import Mathlib.Tactic.SplitIfs

/-! # When directory handles are safe

The entries of the table are always different open streams. The handlers test only that a handle is in range, so a
request uses a stream that is open exactly if its handle is one that is open now; and only the serial
`rewinddir` answers a handle that is out of range as if it had been rewound.
-/

namespace KosTool.Host

open ByteWord Machine
open Host.Serial (IsDirHandle)

variable {opendirs : OpenDirs} {console : DirConsole} {request : DirRequest} {handle other : Word}
  {stream : DirStream}

/-- The handle stands for the stream. -/
def DirConsole.Denotes (console : DirConsole) (handle : Word) (stream : DirStream) : Prop :=
  ∃ inRange : IsDirHandle handle, console.opendirs (dirEntry inRange) = some stream

/-- The entries are open streams, each another one. -/
structure DirConsole.DirInv (console : DirConsole) : Prop where
  isOpen : ∀ i stream, console.opendirs i = some stream → console.isOpen stream = true
  distinct : ∀ i j stream, console.opendirs i = some stream → console.opendirs j = some stream → i = j

/-- What a request should do: it uses the stream of its handle and that one is open; a handle that stands for nothing is
refused without a stream; `opendir` answers zero or a handle that stood for nothing and now stands for what it got;
every other handle goes on standing for its stream, and no two stand for the same. -/
structure DirStepRight (console : DirConsole) (request : DirRequest) : Prop where
  genuine : ∀ call ∈ (request.serve console.opendirs).calls,
    ∃ handle stream, request.handle = some handle ∧ console.Denotes handle stream ∧
      call.stream = some stream ∧ console.isOpen stream = true
  refused : ∀ handle, request.handle = some handle → (∀ stream, ¬ console.Denotes handle stream) →
    (request.serve console.opendirs).calls = [] ∧ (request.serve console.opendirs).answer = request.error
  opened : ∀ next, dirMachine.step console request = some next → request.opens = true →
    (request.serve console.opendirs).answer = request.error ∨
      (∀ stream, ¬ console.Denotes (request.serve console.opendirs).answer stream) ∧
        ∃ stream, (request.serve console.opendirs).got = some stream ∧
          next.Denotes (request.serve console.opendirs).answer stream
  kept : ∀ next, dirMachine.step console request = some next → ∀ handle stream, console.Denotes handle stream →
    request.closes = true ∧ request.handle = some handle ∨ next.Denotes handle stream
  distinct : ∀ next, dirMachine.step console request = some next → ∀ handle other stream,
    next.Denotes handle stream → next.Denotes other stream → handle = other

/-- The handle of a request stands for a stream, or it is out of range and the request is no serial `rewinddir`. -/
def DirStepNamed (console : DirConsole) (request : DirRequest) : Prop :=
  ∀ handle, request.handle = some handle →
    (∃ stream, console.Denotes handle stream) ∨ ¬ IsDirHandle handle ∧ request ≠ .serRewinddir handle

theorem dirEntry_inj {inRange : IsDirHandle handle} {inRange' : IsDirHandle other}
    (same : dirEntry inRange = dirEntry inRange') : handle = other := by
  have values := congrArg Fin.val same
  simp only [dirEntry] at values
  obtain ⟨lower, -⟩ := inRange
  obtain ⟨lower', -⟩ := inRange'
  apply BitVec.eq_of_toNat_eq
  omega

/-- The handle of an entry is in range, and its entry is that one. -/
theorem isDirHandle_handle (i : Fin maxOpenDirs) :
    ∃ inRange : IsDirHandle (BitVec.ofNat 32 (i.val + direntOffset)), dirEntry inRange = i := by
  have bound : i.val < 512 := i.isLt
  have value : (BitVec.ofNat 32 (i.val + direntOffset)).toNat = i.val + direntOffset := by
    rw [BitVec.toNat_ofNat]
    apply Nat.mod_eq_of_lt
    rw [direntOffset]
    omega
  refine ⟨⟨?_, ?_⟩, ?_⟩
  · omega
  · omega
  · apply Fin.ext
    exact Nat.sub_eq_of_eq_add value

theorem Denotes.unique {stream' : DirStream} (denotes : console.Denotes handle stream)
    (denotes' : console.Denotes handle stream') : stream = stream' := by
  obtain ⟨inRange, entry⟩ := denotes
  obtain ⟨_, entry'⟩ := denotes'
  rw [entry] at entry'
  exact Option.some.inj entry'

theorem denotes_of_table (table : OpenDirs) (same : console.opendirs = table) (inRange : IsDirHandle handle)
    (entry : table (dirEntry inRange) = some stream) : console.Denotes handle stream := by
  subst same
  exact ⟨inRange, entry⟩

theorem freeDir_some {i : Fin maxOpenDirs} (free : freeDir opendirs = some i) : opendirs i = none := by
  have found := List.find?_some free
  exact of_decide_eq_true found

/-- How a request is served: it closes the stream of its handle, or uses it otherwise, or its handle is out of range,
or it names none and fails or takes a free entry for a new stream. -/
inductive Serves (opendirs : OpenDirs) : DirRequest → DirServed → Prop
  | closing {request : DirRequest} {handle : Word} (inRange : IsDirHandle handle)
    (named : request.handle = some handle) (closes : request.closes = true) (ret : Word) :
    Serves opendirs request
      { opendirs := Function.update opendirs (dirEntry inRange) none
        got := none
        calls := [.closedir (opendirs (dirEntry inRange))]
        answer := ret }
  | reading {request : DirRequest} {handle : Word} (inRange : IsDirHandle handle)
    (named : request.handle = some handle) (call : DirCall) (stream : call.stream = opendirs (dirEntry inRange))
    (harmless : ∀ isOpen, DirConsole.afterCall isOpen call = isOpen) (answer : Word) :
    Serves opendirs request (.using opendirs call answer)
  | outside {request : DirRequest} {handle : Word} (outOfRange : ¬ IsDirHandle handle)
    (named : request.handle = some handle)
    (refused : request ≠ .serRewinddir handle → (request.serve opendirs).answer = request.error) :
    Serves opendirs request (.only opendirs (request.serve opendirs).answer)
  | failing {request : DirRequest} (unnamed : request.handle = none) (answer : Word)
    (refused : request.opens = true → answer = request.error) :
    Serves opendirs request (.only opendirs answer)
  | taking {request : DirRequest} {i : Fin maxOpenDirs} (unnamed : request.handle = none)
    (free : opendirs i = none) (stream : DirStream) :
    Serves opendirs request
      { opendirs := Function.update opendirs i (some stream)
        got := some stream
        calls := []
        answer := BitVec.ofNat 32 (i.val + direntOffset) }

theorem opened_of_none (free : freeDir opendirs = none) (stream : Option DirStream) :
    opened opendirs stream = .only opendirs 0 := by
  unfold opened
  simp only [free]

theorem opened_of_some {i : Fin maxOpenDirs} (free : freeDir opendirs = some i) (stream : Option DirStream) :
    opened opendirs stream =
      { opendirs := Function.update opendirs i stream
        got := stream
        calls := []
        answer := if stream = none then 0 else BitVec.ofNat 32 (i.val + direntOffset) } := by
  unfold opened
  simp only [free]

theorem opened_nothing (opendirs : OpenDirs) : opened opendirs none = .only opendirs 0 := by
  rcases free : freeDir opendirs with _ | i
  · exact opened_of_none free none
  · rw [opened_of_some free, Function.update_eq_self_iff.mpr (freeDir_some free).symm]
    rfl

theorem serves_opened (unnamed : request.handle = none) (error : request.error = 0) (stream : Option DirStream) :
    Serves opendirs request (opened opendirs stream) := by
  have failing : Serves opendirs request (.only opendirs 0) := .failing unnamed 0 fun _ => error.symm
  rcases stream with _ | stream
  · rwa [opened_nothing]
  · rcases free : freeDir opendirs with _ | i
    · rwa [opened_of_none free]
    · rw [opened_of_some free, if_neg (Option.some_ne_none stream)]
      exact .taking unnamed (freeDir_some free) stream

theorem serves_closed (named : request.handle = some handle) (closes : request.closes = true)
    (error : request.error = -1) (ret : Word) (served : request.serve opendirs = closed opendirs handle ret) :
    Serves opendirs request (request.serve opendirs) := by
  by_cases inRange : IsDirHandle handle
  · rw [served, closed, dif_pos inRange]
    exact .closing inRange named closes ret
  · have outside : request.serve opendirs = .only opendirs (-1) := by rw [served, closed, dif_neg inRange]
    have answer : (request.serve opendirs).answer = -1 := by rw [outside]; rfl
    have serves := Serves.outside inRange named fun _ => answer.trans error.symm
    rwa [answer, ← outside] at serves

theorem serves_entryRead (named : request.handle = some handle) (error : request.error = 0) (more : Bool)
    (served : request.serve opendirs = entryRead opendirs handle more) :
    Serves opendirs request (request.serve opendirs) := by
  by_cases inRange : IsDirHandle handle
  · rw [served, entryRead, dif_pos inRange]
    exact .reading inRange named _ rfl (fun _ => rfl) _
  · have outside : request.serve opendirs = .only opendirs 0 := by rw [served, entryRead, dif_neg inRange]
    have answer : (request.serve opendirs).answer = 0 := by rw [outside]; rfl
    have serves := Serves.outside inRange named fun _ => answer.trans error.symm
    rwa [answer, ← outside] at serves

/-- Every request is served in one of these ways. -/
theorem serves_serve (opendirs : OpenDirs) (request : DirRequest) :
    Serves opendirs request (request.serve opendirs) := by
  cases request with
  | serOpendir namelen malloc stream =>
    rw [DirRequest.serve, serOpendir]
    split_ifs
    · exact .failing rfl 0 fun _ => rfl
    · exact .failing rfl 0 fun _ => rfl
    · exact serves_opened rfl rfl stream
  | netOpendir stream => exact serves_opened rfl rfl stream
  | serClosedir handle ret => exact serves_closed rfl rfl rfl ret rfl
  | netClosedir handle ret => exact serves_closed rfl rfl rfl ret rfl
  | serReaddir handle more => exact serves_entryRead rfl rfl more rfl
  | netReaddir handle more => exact serves_entryRead rfl rfl more rfl
  | serRewinddir handle =>
    rw [DirRequest.serve, serRewinddir]
    split_ifs with inRange
    · exact .reading inRange rfl _ rfl (fun _ => rfl) 0
    · have serves := @Serves.outside opendirs (.serRewinddir handle) handle inRange rfl fun other => absurd rfl other
      rwa [DirRequest.serve, serRewinddir, dif_neg inRange] at serves
  | netRewinddir handle =>
    rw [DirRequest.serve, netRewinddir]
    split_ifs with inRange
    · exact .reading inRange rfl _ rfl (fun _ => rfl) 0
    · have answer : ((DirRequest.netRewinddir handle).serve opendirs).answer = -1 := by
        rw [DirRequest.serve, netRewinddir, dif_neg inRange]
        rfl
      have serves := Serves.outside inRange (rfl : (DirRequest.netRewinddir handle).handle = _) fun _ => answer
      rwa [answer] at serves
  | mkdir ret => exact .failing rfl ret fun opens => absurd opens Bool.false_ne_true

/-- What a request that has been served leaves. -/
def DirConsole.after (console : DirConsole) (served : DirServed) : DirConsole where
  opendirs := served.opendirs
  isOpen :=
    match served.got with
    | some stream => Function.update (served.calls.foldl afterCall console.isOpen) stream true
    | none => served.calls.foldl afterCall console.isOpen

/-- A step serves the request, and what `opendir` gives was not open. -/
theorem dirMachine_step {next : DirConsole} (step : dirMachine.step console request = some next) :
    next = console.after (request.serve console.opendirs) ∧
      ∀ stream, (request.serve console.opendirs).got = some stream → console.isOpen stream = false := by
  simp only [dirMachine, DirConsole.serve] at step
  cases got : (request.serve console.opendirs).got with
  | none =>
    simp only [got, Option.some.injEq] at step
    refine ⟨?_, fun stream opened => absurd opened (Option.some_ne_none stream).symm⟩
    rw [← step, DirConsole.after, got]
  | some stream =>
    simp only [got] at step
    split_ifs at step with used
    cases step
    refine ⟨?_, fun other opened => ?_⟩
    · rw [DirConsole.after, got]
    · cases opened
      exact Bool.eq_false_iff.mpr used

/-- Closing the stream of an entry leaves the streams of the others open. -/
theorem DirConsole.DirInv.closing (inv : console.DirInv) {i j : Fin maxOpenDirs} (apart : j ≠ i)
    (entry : console.opendirs j = some stream) :
    afterCall console.isOpen (.closedir (console.opendirs i)) stream = true := by
  cases closed : console.opendirs i with
  | none => exact inv.isOpen j stream entry
  | some other =>
    have different : stream ≠ other := by
      rintro rfl
      exact apart (inv.distinct j i stream entry closed)
    rw [afterCall, Function.update_of_ne different]
    exact inv.isOpen j stream entry

theorem update_eq_some_iff {i j : Fin maxOpenDirs} {value : Option DirStream} :
    Function.update opendirs i value j = some stream ↔
      j = i ∧ value = some stream ∨ j ≠ i ∧ opendirs j = some stream := by
  rw [Function.update_apply]
  split_ifs with same
  · simp only [same, true_and, ne_eq, not_true_eq_false, false_and, or_false]
  · simp only [same, false_and, ne_eq, not_false_eq_true, true_and, false_or]

/-- Every request keeps the entries open and apart. -/
theorem DirConsole.DirInv.after {served : DirServed} (inv : console.DirInv)
    (serves : Serves console.opendirs request served)
    (fresh : ∀ stream, served.got = some stream → console.isOpen stream = false) : (console.after served).DirInv := by
  cases serves with
  | closing inRange named closes ret =>
    have left : ∀ j stream, Function.update console.opendirs (dirEntry inRange) none j = some stream →
        j ≠ dirEntry inRange ∧ console.opendirs j = some stream := by
      intro j stream entry
      rcases update_eq_some_iff.mp entry with ⟨-, emptied⟩ | entry
      · cases emptied
      · exact entry
    refine ⟨fun j stream entry => ?_, fun j k stream entry entry' => ?_⟩
    · obtain ⟨apart, entry⟩ := left j stream entry
      exact inv.closing apart entry
    · exact inv.distinct j k stream (left j stream entry).2 (left k stream entry').2
  | reading inRange named call stream harmless answer =>
    refine ⟨fun j stream entry => ?_, inv.distinct⟩
    have same := inv.isOpen j stream entry
    rwa [← harmless console.isOpen] at same
  | outside outOfRange named refused => exact ⟨inv.isOpen, inv.distinct⟩
  | failing unnamed answer refused => exact ⟨inv.isOpen, inv.distinct⟩
  | taking unnamed free new =>
    have closed := fresh new rfl
    have unused : ∀ j, console.opendirs j ≠ some new := by
      intro j entry
      rw [inv.isOpen j new entry] at closed
      exact Bool.false_ne_true closed.symm
    refine ⟨fun j stream entry => ?_, fun j k stream entry entry' => ?_⟩
    · rcases update_eq_some_iff.mp entry with ⟨-, same⟩ | ⟨-, entry⟩
      · cases same
        exact Function.update_self ..
      · have other : stream ≠ new := fun same => unused j (same ▸ entry)
        exact (Function.update_of_ne other ..).trans (inv.isOpen j stream entry)
    · rcases update_eq_some_iff.mp entry with ⟨here, same⟩ | ⟨-, entry⟩
      · cases same
        rcases update_eq_some_iff.mp entry' with ⟨here', -⟩ | ⟨-, entry'⟩
        · rw [here, here']
        · exact absurd entry' (unused k)
      · rcases update_eq_some_iff.mp entry' with ⟨-, same⟩ | ⟨-, entry'⟩
        · cases same
          exact absurd entry (unused j)
        · exact inv.distinct j k stream entry entry'

/-- A handle that stands for a stream is in range, and it is that of its entry. -/
theorem denotes_iff (inRange : IsDirHandle handle) :
    console.Denotes handle stream ↔ console.opendirs (dirEntry inRange) = some stream :=
  ⟨fun ⟨_, entry⟩ => entry, fun entry => ⟨inRange, entry⟩⟩

theorem unnamed_of_opens (opens : request.opens = true) : request.handle = none := by
  cases request with
  | serOpendir | netOpendir => rfl
  | _ => cases opens

theorem DirStepNamed.denotes (names : DirStepNamed console request) (named : request.handle = some handle)
    (inRange : IsDirHandle handle) : ∃ stream, console.opendirs (dirEntry inRange) = some stream := by
  rcases names handle named with ⟨stream, denotes⟩ | ⟨outside, -⟩
  · exact ⟨stream, (denotes_iff inRange).mp denotes⟩
  · exact absurd inRange outside

theorem DirStepNamed.genuine {served : DirServed} (names : DirStepNamed console request) (inv : console.DirInv)
    (serves : Serves console.opendirs request served) :
    ∀ call ∈ served.calls, ∃ handle stream, request.handle = some handle ∧ console.Denotes handle stream ∧
      call.stream = some stream ∧ console.isOpen stream = true := by
  intro call inside
  cases serves with
  | closing inRange named closes ret =>
    obtain ⟨stream, entry⟩ := names.denotes named inRange
    cases List.mem_singleton.mp inside
    exact ⟨_, stream, named, ⟨inRange, entry⟩, entry, inv.isOpen _ stream entry⟩
  | reading inRange named used given harmless answer =>
    obtain ⟨stream, entry⟩ := names.denotes named inRange
    cases List.mem_singleton.mp inside
    exact ⟨_, stream, named, ⟨inRange, entry⟩, given.trans entry, inv.isOpen _ stream entry⟩
  | outside | failing | taking => cases inside

theorem DirStepNamed.refused {served : DirServed} (names : DirStepNamed console request)
    (serves : Serves console.opendirs request served) (same : request.serve console.opendirs = served)
    (named : request.handle = some handle) (dangling : ∀ stream, ¬ console.Denotes handle stream) :
    served.calls = [] ∧ served.answer = request.error := by
  obtain ⟨outOfRange, other⟩ := (names handle named).resolve_left fun ⟨stream, denotes⟩ => dangling stream denotes
  cases serves with
  | closing inRange named' | reading inRange named' =>
    cases named.symm.trans named'
    exact absurd inRange outOfRange
  | outside _ named' refused =>
    cases named.symm.trans named'
    exact ⟨rfl, refused other⟩
  | failing unnamed | taking unnamed => cases named.symm.trans unnamed

/-- A new handle stood for nothing and stands for the stream `opendir` has given. -/
theorem Serves.opened {served : DirServed} (serves : Serves console.opendirs request served)
    (opens : request.opens = true) :
    served.answer = request.error ∨ (∀ stream, ¬ console.Denotes served.answer stream) ∧
      ∃ stream, served.got = some stream ∧ (console.after served).Denotes served.answer stream := by
  have unnamed := unnamed_of_opens opens
  cases serves with
  | closing _ named | reading _ named | outside _ named => cases named.symm.trans unnamed
  | failing _ answer refused => exact Or.inl (refused opens)
  | @taking i _ free stream =>
    obtain ⟨inRange, entry⟩ := isDirHandle_handle i
    refine Or.inr ⟨fun other denotes => ?_, stream, rfl, inRange, ?_⟩
    · rw [denotes_iff inRange, entry, free] at denotes
      cases denotes
    · rw [entry]
      exact Function.update_self ..

/-- A handle stands for its stream until it is closed. -/
theorem Serves.kept {served : DirServed} (serves : Serves console.opendirs request served)
    (denotes : console.Denotes handle stream) :
    request.closes = true ∧ request.handle = some handle ∨ (console.after served).Denotes handle stream := by
  obtain ⟨held, entry⟩ := denotes
  cases serves with
  | closing inRange named closes ret =>
    by_cases same : dirEntry held = dirEntry inRange
    · cases dirEntry_inj same
      exact Or.inl ⟨closes, named⟩
    · refine Or.inr (denotes_of_table (Function.update console.opendirs (dirEntry inRange) none) rfl held ?_)
      exact update_eq_some_iff.mpr (Or.inr ⟨same, entry⟩)
  | reading | outside | failing => exact Or.inr ⟨held, entry⟩
  | @taking i _ free new =>
    have apart : dirEntry held ≠ i := by
      intro same
      rw [same, free] at entry
      cases entry
    refine Or.inr (denotes_of_table (Function.update console.opendirs i (some new)) rfl held ?_)
    exact update_eq_some_iff.mpr (Or.inr ⟨apart, entry⟩)

/-- Two handles that stand for one stream are the same. -/
theorem DirConsole.DirInv.handle_eq (inv : console.DirInv) (denotes : console.Denotes handle stream)
    (denotes' : console.Denotes other stream) : handle = other := by
  obtain ⟨inRange, entry⟩ := denotes
  obtain ⟨inRange', entry'⟩ := denotes'
  have same := inv.distinct _ _ stream entry entry'
  exact dirEntry_inj same

theorem calls_ne_nil (named : request.handle = some handle) (inRange : IsDirHandle handle) :
    (request.serve console.opendirs).calls ≠ [] := by
  have serves := serves_serve console.opendirs request
  generalize request.serve console.opendirs = served at serves
  cases serves with
  | closing | reading => exact List.cons_ne_nil _ _
  | outside outOfRange named' =>
    cases named.symm.trans named'
    exact absurd inRange outOfRange
  | failing unnamed | taking unnamed => cases named.symm.trans unnamed

/-- A request is served right exactly if its handle stands for a stream, or for nothing and is refused. -/
theorem dirStepRight_iff_named (inv : console.DirInv) (request : DirRequest) :
    DirStepRight console request ↔ DirStepNamed console request := by
  have serves := serves_serve console.opendirs request
  constructor
  · intro right handle named
    by_cases dangling : ∀ stream, ¬ console.Denotes handle stream
    · obtain ⟨silent, answer⟩ := right.refused handle named dangling
      refine Or.inr ⟨fun inRange => calls_ne_nil named inRange silent, ?_⟩
      rintro rfl
      have outOfRange : ¬ IsDirHandle handle := fun inRange => calls_ne_nil named inRange silent
      rw [DirRequest.serve, serRewinddir, dif_neg outOfRange] at answer
      exact absurd (show (0 : Word) = -1 from answer) (by decide)
    · push Not at dangling
      exact Or.inl dangling
  · intro names
    constructor
    · exact names.genuine inv serves
    · exact fun handle named dangling => names.refused serves rfl named dangling
    · intro next step opens
      rw [(dirMachine_step step).1]
      exact serves.opened opens
    · intro next step handle stream denotes
      rw [(dirMachine_step step).1]
      exact serves.kept denotes
    · intro next step handle other stream denotes denotes'
      obtain ⟨rfl, fresh⟩ := dirMachine_step step
      exact (inv.after serves fresh).handle_eq denotes denotes'

theorem dirInv_start : DirConsole.start.DirInv := by
  constructor
  · intro i stream entry
    cases entry
  · intro i j stream entry
    cases entry

/-- Along every session, over either transport, the requests are served right exactly if each names a handle that
stands for a stream, or none, or one out of range that is not for the serial `rewinddir`. -/
theorem dir_handles_right_iff_named (requests : List DirRequest) :
    dirMachine.Along DirStepRight DirConsole.start requests ↔ dirMachine.Along DirStepNamed DirConsole.start requests := by
  refine LabeledMachine.along_congr_of_invariant ?_ (fun console request inv => dirStepRight_iff_named inv request)
    requests dirInv_start
  intro console request next inv step
  obtain ⟨rfl, fresh⟩ := dirMachine_step step
  exact inv.after (serves_serve console.opendirs request) fresh

/-- A handle is closed twice: the second time `closedir` is given a null pointer. -/
theorem dir_handles_wrong :
    ¬ ∀ requests : List DirRequest, dirMachine.Along DirStepRight DirConsole.start requests := by
  intro right
  have second := (right [.netClosedir 1337 0]).head
  have handed := (second.refused 1337 rfl fun stream denotes => nomatch denotes.2).1
  exact calls_ne_nil rfl (by decide) handed

end KosTool.Host
