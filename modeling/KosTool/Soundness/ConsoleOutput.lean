import KosTool.Model.Host.ConsoleWrite
import Mathlib.Tactic.SplitIfs

/-! # What the console shows of a program's text

The text is told line by line, whatever the writes were, with the address lines of a trace annotated. The console keeps to
it, but for a front of a line that it holds back, as long as no line that matters is passed on unseen and none is taken
for one that is not: what it has emitted when the program exits is the text exactly if nothing is held back.
-/

namespace KosTool.Host.Console

open ByteWord LineReading

/-- A text up to a position: whether a trace is open, the line that is not ended, and the lines before it as they are shown. -/
structure Shown where
  inStackTrace : Bool
  line : List Byte
  out : List Byte

def Shown.piece (tool : Addr2line) (a : Shown) (part : List Byte) : Shown :=
  if part.getLast? = some lineEnd then
    ⟨(writeLine tool a.inStackTrace (a.line ++ part)).1, [], a.out ++ (writeLine tool a.inStackTrace (a.line ++ part)).2⟩
  else { a with line := a.line ++ part }

def scan (tool : Addr2line) (text : List Byte) : Shown :=
  (lines lineEnd text).foldl (Shown.piece tool) ⟨false, [], []⟩

/-- The text as it is to be shown. -/
def annotated (tool : Addr2line) (text : List Byte) : List Byte :=
  if tool.available then (scan tool text).out ++ (scan tool text).line else text

/-- A line that is shown as it is, and opens or closes no trace. -/
def Plain (tool : Addr2line) (inStackTrace : Bool) (line : List Byte) : Prop :=
  writeLine tool inStackTrace line = (inStackTrace, line)

/-- The end of a line is seen with its front, or nothing depends on it: neither the line nor what is taken for it is any other
than plain. -/
def EndSeen (tool : Addr2line) (inStackTrace : Bool) (line held part : List Byte) : Prop :=
  (line = held ∧ (held = [] ∨ (held ++ part).length < stkLineBufSize)) ∨
    (Plain tool inStackTrace (line ++ part) ∧
      ((held ≠ [] ∧ stkLineBufSize ≤ (held ++ part).length) ∨ Plain tool inStackTrace (held ++ part)))

/-- What is passed on unseen is plain, and so is the line that is not seen whole. -/
def Session.Faithful (tool : Addr2line) (s : Session) (write : Write) : Prop :=
  tool.available = true → write.isDump = false →
    if s.console.passesOn write.data then
      ∀ line ∈ lines lineEnd ((scan tool s.written).line ++ write.data), line.getLast? = some lineEnd → Plain tool false line
    else
      ∀ first ∈ (lines lineEnd write.data).head?, first.getLast? = some lineEnd →
        EndSeen tool s.console.inStackTrace (scan tool s.written).line s.console.stkLineBuf first

section Scan

variable {tool : Addr2line} {a : Shown}

theorem piece_joins (a : Shown) (c : Byte) (part : List Byte) (other : c ≠ lineEnd) :
    (a.piece tool [c]).piece tool part = a.piece tool (c :: part) := by
  have open_c : a.piece tool [c] = { a with line := a.line ++ [c] } :=
    if_neg fun ends => other (Option.some.inj ends)
  cases part with
  | nil =>
    have held : (a.piece tool [c]).piece tool [] =
        { a.piece tool [c] with line := (a.piece tool [c]).line ++ [] } := if_neg nofun
    rw [held, List.append_nil]
  | cons d part =>
    have same : (a.line ++ [c]) ++ d :: part = a.line ++ c :: d :: part := by rw [List.append_assoc, List.singleton_append]
    rw [open_c, Shown.piece, Shown.piece, List.getLast?_cons_cons, same]

theorem scan_append (first second : List Byte) :
    scan tool (first ++ second) = (lines lineEnd second).foldl (Shown.piece tool) (scan tool first) :=
  foldl_lines_append piece_joins _ first second

/-- The line that is not ended has no end in it. -/
theorem scan_open (tool : Addr2line) (text : List Byte) : lineEnd ∉ (scan tool text).line := by
  induction text using List.reverseRecOn with
  | nil => exact nofun
  | append_singleton text c ih =>
    rw [scan_append, foldl_lines piece_joins]
    change lineEnd ∉ ((scan tool text).piece tool [c]).line
    rw [Shown.piece]
    split_ifs with ends
    · exact nofun
    · rw [List.mem_append, List.mem_singleton, not_or]
      exact ⟨ih, fun same => ends (congrArg some same.symm)⟩

/-- A front of a line without an end in it is taken as it is. -/
theorem foldl_open {front : List Byte} (open_front : lineEnd ∉ front) :
    (lines lineEnd front).foldl (Shown.piece tool) a = { a with line := a.line ++ front } := by
  rw [foldl_lines piece_joins]
  induction front generalizing a with
  | nil => rw [List.append_nil]; rfl
  | cons c front ih =>
    rw [List.mem_cons, not_or] at open_front
    have open_c : a.piece tool [c] = { a with line := a.line ++ [c] } :=
      if_neg fun ends => open_front.1 (Option.some.inj ends).symm
    rw [List.foldl_cons, open_c, ih open_front.2, List.append_assoc]
    rfl

/-- Plain lines are shown as they are. -/
theorem foldl_plain {parts : List (List Byte)} (ended : Ended lineEnd parts) (start : a.line = [])
    (plain : ∀ line ∈ parts, line.getLast? = some lineEnd → Plain tool a.inStackTrace line) :
    (parts.foldl (Shown.piece tool) a).inStackTrace = a.inStackTrace ∧
      (parts.foldl (Shown.piece tool) a).out ++ (parts.foldl (Shown.piece tool) a).line = a.out ++ parts.flatten := by
  induction parts generalizing a with
  | nil => exact ⟨rfl, by rw [List.foldl_nil, start]; rfl⟩
  | cons part parts ih =>
    rw [List.foldl_cons, List.flatten_cons, ← List.append_assoc]
    by_cases ends : part.getLast? = some lineEnd
    · have seen : a.piece tool part = ⟨a.inStackTrace, [], a.out ++ part⟩ := by
        rw [Shown.piece, if_pos ends, start, List.nil_append, plain part List.mem_cons_self ends]
      rw [seen]
      have rest : Ended lineEnd parts := by
        cases parts with
        | nil => trivial
        | cons next parts => exact ended.2
      exact ih rest rfl fun line later => plain line (List.mem_cons_of_mem part later)
    · have last : parts = [] := by
        cases parts with
        | nil => rfl
        | cons next parts => exact absurd ended.1 ends
      rw [last, Shown.piece, if_neg ends, start]
      exact ⟨rfl, (List.append_nil _).symm⟩

end Scan

section Steps

variable {tool : Addr2line} {s : State} {fd : Stream} {a : Shown} {raw part data : List Byte}

@[simp] theorem State.text_emit (bytes : List Byte) : (s.emit fd bytes).text = s.text ++ bytes := by
  rw [State.text, State.emit, List.flatMap_append]
  exact congrArg (s.text ++ ·) (List.append_nil bytes)

theorem State.text_passLine (line : List Byte) :
    (s.passLine tool fd line).text = s.text ++ (writeLine tool s.inStackTrace line).2 := s.text_emit _

/-- The console is where the text is, but for what it holds back of the line; the front of the line is emitted. -/
structure Follows (raw : List Byte) (s : State) (a : Shown) : Prop where
  trace : s.inStackTrace = a.inStackTrace
  line : a.line = raw ++ s.stkLineBuf
  text : s.text = a.out ++ raw

/-- What the end of a line comes to: it is passed with what is held back, or both of them are emitted as they are. -/
theorem State.completeLine_spec (tool : Addr2line) (s : State) (fd : Stream) (part : List Byte) :
    (s.completeLine tool fd part).stkLineBuf = [] ∧
    ((s.completeLine tool fd part).inStackTrace, (s.completeLine tool fd part).text) =
      if s.stkLineBuf ≠ [] ∧ stkLineBufSize ≤ (s.stkLineBuf ++ part).length then
        (s.inStackTrace, s.text ++ (s.stkLineBuf ++ part))
      else ((writeLine tool s.inStackTrace (s.stkLineBuf ++ part)).1,
        s.text ++ (writeLine tool s.inStackTrace (s.stkLineBuf ++ part)).2) := by
  rw [State.completeLine]
  by_cases empty : s.stkLineBuf = []
  · rw [if_pos empty, if_neg fun both => both.1 empty, empty, List.nil_append]
    exact ⟨empty, Prod.ext rfl (s.text_passLine part)⟩
  · rw [if_neg empty]
    by_cases fits : (s.stkLineBuf ++ part).length < stkLineBufSize
    · rw [if_pos fits, if_neg fun both => absurd fits (Nat.not_lt.mpr both.2)]
      exact ⟨rfl, Prod.ext rfl (s.text_passLine _)⟩
    · rw [if_neg fits, if_pos ⟨empty, Nat.not_lt.mp fits⟩]
      refine ⟨rfl, Prod.ext rfl ?_⟩
      change ((s.emit fd s.stkLineBuf).emit fd part).text = _
      rw [State.text_emit, State.text_emit, List.append_assoc]

/-- The end of a line. -/
theorem Follows.complete (follows : Follows raw s a) (ends : part.getLast? = some lineEnd)
    (seen : EndSeen tool s.inStackTrace a.line s.stkLineBuf part) :
    Follows [] (s.piece tool fd part) (a.piece tool part) ∧ (s.piece tool fd part).stkLineBuf = [] := by
  obtain ⟨emptied, shown⟩ := s.completeLine_spec tool fd part
  have agrees : ((s.completeLine tool fd part).inStackTrace, (s.completeLine tool fd part).text) =
      ((writeLine tool a.inStackTrace (a.line ++ part)).1,
        a.out ++ (writeLine tool a.inStackTrace (a.line ++ part)).2) := by
    rw [shown, ← follows.trace, follows.text]
    obtain ⟨whole, room⟩ | ⟨plain, either⟩ := seen
    · have none : raw = [] := List.append_left_eq_self.mp (follows.line.symm.trans whole)
      rw [if_neg fun both => room.elim both.1 fun fits => absurd fits (Nat.not_lt.mpr both.2), ← whole, none,
        List.append_nil]
    · have raws : a.out ++ raw ++ (s.stkLineBuf ++ part) = a.out ++ (a.line ++ part) := by
        rw [follows.line]
        simp only [List.append_assoc]
      rw [plain, raws]
      split_ifs with both
      · rfl
      · rw [either.resolve_left both, raws]
  rw [State.piece, if_pos ends, Shown.piece, if_pos ends]
  refine ⟨⟨congrArg Prod.fst agrees, emptied.symm, ?_⟩, emptied⟩
  rw [List.append_nil]
  exact congrArg Prod.snd agrees

/-- A front of a line is held back, or emitted with what has been. -/
theorem Follows.holdBack (follows : Follows raw s a) (open_part : part.getLast? ≠ some lineEnd) :
    ∃ raw, Follows raw (s.piece tool fd part) (a.piece tool part) := by
  rw [State.piece, if_neg open_part, Shown.piece, if_neg open_part, State.holdBack]
  split_ifs with fits empty
  · refine ⟨raw, follows.trace, ?_, follows.text⟩
    dsimp only
    rw [follows.line, List.append_assoc]
  · refine ⟨raw ++ part, follows.trace, ?_, ?_⟩
    · dsimp only [State.emit]
      rw [follows.line, empty, List.append_nil, List.append_nil]
    · rw [State.text_emit, follows.text, List.append_assoc]
  · refine ⟨raw ++ (s.stkLineBuf ++ part), follows.trace, ?_, ?_⟩
    · dsimp only
      rw [follows.line, List.append_nil, List.append_assoc]
    · change ((s.emit fd s.stkLineBuf).emit fd part).text = _
      rw [State.text_emit, State.text_emit, follows.text]
      simp only [List.append_assoc]

/-- The lines of a write that is not passed on as it is: behind the end of the first, all is seen. -/
theorem Follows.pieces {parts : List (List Byte)} (ended : Ended lineEnd parts) (follows : Follows raw s a)
    (seen : ∀ first ∈ parts.head?, first.getLast? = some lineEnd →
      EndSeen tool s.inStackTrace a.line s.stkLineBuf first) :
    ∃ raw, Follows raw (parts.foldl (State.piece tool · fd) s) (parts.foldl (Shown.piece tool) a) := by
  induction parts generalizing s a raw with
  | nil => exact ⟨raw, follows⟩
  | cons part parts ih =>
    by_cases ends : part.getLast? = some lineEnd
    · obtain ⟨next, emptied⟩ := follows.complete ends (seen part rfl ends)
      have rest : Ended lineEnd parts := by
        cases parts with
        | nil => trivial
        | cons other parts => exact ended.2
      exact ih rest next fun _ _ _ => .inl ⟨next.line, .inl emptied⟩
    · have last : parts = [] := by
        cases parts with
        | nil => rfl
        | cons next parts => exact absurd ended.1 ends
      rw [last]
      exact follows.holdBack ends

/-- A write that is passed on as it is. -/
theorem Follows.passesOn {text : List Byte} (follows : Follows raw s (scan tool text)) (passes : s.passesOn data = true)
    (plain : ∀ line ∈ lines lineEnd ((scan tool text).line ++ data), line.getLast? = some lineEnd → Plain tool false line) :
    ∃ raw, Follows raw (s.emit fd data) (scan tool (text ++ data)) := by
  obtain ⟨⟨closed, empty⟩, -⟩ : (s.inStackTrace = false ∧ s.stkLineBuf = []) ∧ data.head? ≠ some 45#8 := by
    simpa [State.passesOn] using passes
  have fresh : ({ scan tool text with line := [] } : Shown).inStackTrace = false := follows.trace.symm.trans closed
  -- The open line is put in front of the data.
  have joined : scan tool (text ++ data) =
      (lines lineEnd ((scan tool text).line ++ data)).foldl (Shown.piece tool) { scan tool text with line := [] } := by
    rw [scan_append, foldl_lines_append piece_joins, foldl_open (scan_open tool text)]
    rfl
  obtain ⟨trace, shown⟩ := foldl_plain (lines_ended ((scan tool text).line ++ data)) (show ({ scan tool text with line := [] } : Shown).line = [] from rfl)
    fun line member ends => fresh.symm ▸ plain line member ends
  rw [← joined] at trace shown
  refine ⟨(scan tool (text ++ data)).line, ?_, ?_, ?_⟩
  · exact closed.trans (trace.trans fresh).symm
  · change _ = _ ++ s.stkLineBuf
    rw [empty, List.append_nil]
  · rw [State.text_emit, shown, flatten_lines, follows.text, follows.line, empty, List.append_nil, List.append_assoc]

end Steps

section Runs

variable {tool : Addr2line} {s : Session} {writes : List Write}

/-- The console is where the program's text is. -/
def Session.Agrees (tool : Addr2line) (s : Session) : Prop :=
  if tool.available then ∃ raw, Follows raw s.console (scan tool s.written)
  else s.console.stkLineBuf = [] ∧ s.console.text = s.written

theorem Session.Agrees.serve (agrees : s.Agrees tool) {write : Write} (faithful : s.Faithful tool write) :
    (s.serve tool write).Agrees tool := by
  rw [Session.serve]
  split_ifs with dump
  · exact agrees
  rw [Bool.not_eq_true] at dump
  rw [Session.Agrees] at agrees ⊢
  cases available : tool.available with
  | false =>
    rw [available] at agrees
    obtain ⟨empty, shown⟩ := agrees
    have passed : s.console.consoleWrite tool write.fd write.data = s.console.emit write.fd write.data := by
      rw [State.consoleWrite, available]
      rfl
    rw [if_neg Bool.false_ne_true]
    dsimp only
    rw [passed, State.text_emit, shown]
    exact ⟨empty, rfl⟩
  | true =>
    rw [available, if_pos rfl] at agrees
    obtain ⟨raw, follows⟩ := agrees
    have condition := faithful available dump
    rw [if_pos rfl]
    dsimp only
    rw [State.consoleWrite, available]
    cases passes : s.console.passesOn write.data with
    | true =>
      rw [passes] at condition
      exact follows.passesOn passes condition
    | false =>
      rw [passes] at condition
      rw [scan_append]
      exact follows.pieces (lines_ended write.data) condition

/-- What is emitted is the text as it is to be shown, but for what is held back. -/
theorem Session.Agrees.shown (agrees : s.Agrees tool) :
    s.exit ++ s.console.stkLineBuf = annotated tool s.written := by
  rw [Session.Agrees] at agrees
  rw [annotated, Session.exit]
  split_ifs at agrees ⊢ with available
  · obtain ⟨raw, follows⟩ := agrees
    rw [follows.text, follows.line, List.append_assoc]
  · rw [agrees.1, agrees.2, List.append_nil]

/-- The text of a program: the dumps of the registers are none of it. -/
def programText (writes : List Write) : List Byte := (writes.filter fun write => !write.isDump).flatMap Write.data

theorem run_written {first : Session} (run : (machine tool).run? first writes = some s) :
    s.written = first.written ++ programText writes := by
  induction writes generalizing first with
  | nil =>
    cases run
    exact (List.append_nil _).symm
  | cons write writes ih =>
    obtain ⟨next, step, suffix⟩ := Machine.LabeledMachine.run?_cons_eq_some.mp run
    cases step
    rw [ih suffix, Session.serve, programText, programText, List.filter_cons]
    cases dump : write.isDump with
    | true => rfl
    | false => exact List.append_assoc _ _ _

end Runs

/-- In every run in which all that is passed on unseen is plain, what has been emitted and what is held back are the
text as it is to be shown, whatever the writes were: the exit shows it exactly if nothing is held back. -/
theorem console_shows_iff {tool : Addr2line} {writes : List Write} {s : Session}
    (faithful : (machine tool).Along (Session.Faithful tool) .start writes)
    (run : (machine tool).run? .start writes = some s) :
    s.exit ++ s.console.stkLineBuf = annotated tool (programText writes) ∧
      (s.exit = annotated tool (programText writes) ↔ s.console.stkLineBuf = []) := by
  have initial : Session.start.Agrees tool := by
    rw [Session.Agrees]
    split_ifs
    · exact ⟨[], rfl, rfl, rfl⟩
    · exact ⟨rfl, rfl⟩
  have agrees : s.Agrees tool := Machine.LabeledMachine.run?_invariant
    (fun source write next agrees faithful step => Option.some.inj step ▸ agrees.serve faithful) initial faithful run
  have shown : s.exit ++ s.console.stkLineBuf = annotated tool (programText writes) := by
    rw [agrees.shown, run_written run]
    rfl
  refine ⟨shown, ?_⟩
  rw [← shown, List.self_eq_append_right]

/-- An `addr2line` that has the same place for every address. -/
def shownTool : Addr2line := ⟨true, fun _ => chars "main at main.c:1"⟩

/-- The first line of a trace. -/
def traceLine : List Byte := chars "-------- Stack Trace (innermost first) ---------" ++ [lineEnd]

/-- A trace whose address is written in two parts, to two streams. -/
def traceWrites : List Write := [⟨.stdout, traceLine⟩, ⟨.stdout, chars "   8c01"⟩, ⟨.stderr, chars "0000" ++ [lineEnd]⟩]

def shownSession (tool : Addr2line) (writes : List Write) : Session := writes.foldl (Session.serve tool) .start

/-- A trace whose address is written in two parts. -/
theorem console_shows_trace :
    (shownSession shownTool traceWrites).exit ++ (shownSession shownTool traceWrites).console.stkLineBuf =
      annotated shownTool (programText traceWrites) ∧
    ((shownSession shownTool traceWrites).exit = annotated shownTool (programText traceWrites) ↔
      (shownSession shownTool traceWrites).console.stkLineBuf = []) := by
  refine console_shows_iff ⟨fun _ _ => ?_, fun _ _ => ?_, fun _ _ => ?_, trivial⟩ rfl
  · rw [if_neg (by decide +kernel)]
    rintro first ⟨⟩ -
    exact .inl ⟨rfl, .inl rfl⟩
  · rw [if_neg (by decide +kernel)]
    rintro first ⟨⟩ ends
    exact absurd ends (by decide)
  · rw [if_neg (by decide +kernel)]
    rintro first ⟨⟩ -
    exact .inl ⟨by decide +kernel, .inr (by decide +kernel)⟩

/-- A front of a line is lost when the program exits, and the same text is shown in two ways. -/
theorem console_loses_text :
    (¬∀ tool writes s, (machine tool).run? .start writes = some s → s.exit = annotated tool (programText writes)) ∧
    ¬∀ tool writes writes' s s', (machine tool).run? .start writes = some s → (machine tool).run? .start writes' = some s' →
      programText writes = programText writes' → s.console.stkLineBuf = [] → s'.console.stkLineBuf = [] → s.exit = s'.exit := by
  refine ⟨fun all => ?_, fun all => ?_⟩
  · have lost := all shownTool [⟨.stdout, chars "-a"⟩] _ rfl
    revert lost
    decide +kernel
  · have same := all shownTool [⟨.stdout, chars "a" ++ [lineEnd]⟩, ⟨.stdout, traceLine⟩, ⟨.stdout, chars "   8c010000" ++ [lineEnd]⟩]
      [⟨.stdout, chars "a" ++ lineEnd :: traceLine ++ chars "   8c010000" ++ [lineEnd]⟩] _ _ rfl rfl (by decide +kernel)
      (by decide +kernel) (by decide +kernel)
    revert same
    decide +kernel

end KosTool.Host.Console
