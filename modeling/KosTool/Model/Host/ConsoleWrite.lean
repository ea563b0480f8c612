import KosTool.Machine.Run
import KosTool.Math.ByteWord
import KosTool.Math.LineReading
import Mathlib.Data.List.DropRight

/-! # The text of the program on the console

`console_write` of `host/src/console.c` with its line buffer, `console_write_line`, and what the handlers of `write` and of the
exit do with the text. A stream is a file of the host, and what is passed to the host's `write` is what is emitted. The
answers of `addr2line` are a parameter.
-/

namespace KosTool.Host.Console

open ByteWord LineReading

/-- The bytes of a text. -/
def chars (text : String) : List Byte := text.toList.map fun c => BitVec.ofNat 8 c.toNat

def lineEnd : Byte := 10#8

/-- `addr2line` for the loaded program, if it is there, and its text for an address. -/
structure Addr2line where
  available : Bool
  decode : Word → List Byte

def hexDigit (c : Byte) : Option Word :=
  if 48#8 ≤ c ∧ c ≤ 57#8 then some ((c - 48#8).setWidth 32)
  else if 97#8 ≤ c ∧ c ≤ 102#8 then some ((c - 97#8 + 10#8).setWidth 32)
  else if 65#8 ≤ c ∧ c ≤ 70#8 then some ((c - 65#8 + 10#8).setWidth 32)
  else none

/-- `parse_trace_addr` -/
def parseTraceAddr (line : List Byte) : Option Word :=
  if line.length < 12 ∨ line.take 3 ≠ chars "   " then none
  else ((line.drop 3).take 8).foldlM (fun val c => (hexDigit c).map fun digit => val <<< 4 ||| digit) 0#32

/-- `STK_BANNER_PREFIX` -/
def stkBannerPrefix : List Byte := chars "-------- "

/-- `compat_str_append_bytes`: a byte of the room is left. -/
def appendBytes (room : ℕ) (text bytes : List Byte) : List Byte := (text ++ bytes).take (room - 1)

/-- An address line with its place in the program. -/
def annotate (line decoded : List Byte) : List Byte :=
  let trimmed := line.rdropWhile fun c => c = lineEnd ∨ c = 13#8
  appendBytes 512 (appendBytes 512 (appendBytes 512 (appendBytes 512 [] trimmed) (chars "   ")) decoded) [lineEnd]

/-- `console_write_line`: whether a trace is open behind the line, and what is emitted for it. -/
def writeLine (tool : Addr2line) (inStackTrace : Bool) (text : List Byte) : Bool × List Byte :=
  if 9 < text.length ∧ text.take 9 = stkBannerPrefix then
    if 20 < text.length ∧ text[9]? = some 83#8 then (true, text)
    else if text[9]? = some 69#8 then (false, text)
    else (inStackTrace, text)
  else if inStackTrace then
    match (parseTraceAddr text).map tool.decode with
    | none => (inStackTrace, text)
    | some decoded =>
      if decoded ≠ [] ∧ decoded.head? ≠ some 63#8 then (inStackTrace, annotate text decoded) else (inStackTrace, text)
  else (inStackTrace, text)

inductive Stream where
  | stdout
  | stderr
deriving DecidableEq

/-- What `console_write` keeps, and what it has emitted. -/
structure State where
  inStackTrace : Bool
  stkLineBuf : List Byte
  emitted : List (Stream × List Byte)

def stkLineBufSize : ℕ := 256

namespace State

variable (tool : Addr2line) (s : State) (fd : Stream)

/-- `console_emit` -/
def emit (bytes : List Byte) : State := { s with emitted := s.emitted ++ [(fd, bytes)] }

/-- A line that `console_write_line` gets. -/
def passLine (line : List Byte) : State :=
  let (inStackTrace, out) := writeLine tool s.inStackTrace line
  { s.emit fd out with inStackTrace }

/-- The end of a line. -/
def completeLine (line : List Byte) : State :=
  if s.stkLineBuf = [] then s.passLine tool fd line
  else if (s.stkLineBuf ++ line).length < stkLineBufSize then
    { s.passLine tool fd (s.stkLineBuf ++ line) with stkLineBuf := [] }
  else { (s.emit fd s.stkLineBuf).emit fd line with stkLineBuf := [] }

/-- The front of a line is kept, if there is room for it. -/
def holdBack (part : List Byte) : State :=
  if (s.stkLineBuf ++ part).length < stkLineBufSize then { s with stkLineBuf := s.stkLineBuf ++ part }
  else if s.stkLineBuf = [] then s.emit fd part
  else { (s.emit fd s.stkLineBuf).emit fd part with stkLineBuf := [] }

/-- One turn of the loop of `console_write`. -/
def piece (part : List Byte) : State :=
  if part.getLast? = some lineEnd then s.completeLine tool fd part else s.holdBack fd part

/-- The text is passed on as it is. -/
def passesOn (data : List Byte) : Bool := !s.inStackTrace && s.stkLineBuf.isEmpty && data.head? != some 45#8

/-- `console_write` -/
def consoleWrite (data : List Byte) : State :=
  if !tool.available then s.emit fd data
  else if s.passesOn data then s.emit fd data
  else (lines lineEnd data).foldl (piece tool · fd) s

/-- The text of the program as it has been emitted. -/
def text : List Byte := s.emitted.flatMap Prod.snd

end State

/-- A `write` of the program to one of the streams. -/
structure Write where
  fd : Stream
  data : List Byte

/-- `KOSLOAD_EXCEPTION_TAG` in front: the handler takes the data for a dump of the registers. -/
def Write.isDump (write : Write) : Bool := 8 ≤ write.data.length && write.data.take 4 == chars "EXPT"

/-- The host's console, and the text that the program has written. -/
structure Session where
  console : State
  written : List Byte

def Session.start : Session := ⟨⟨false, [], []⟩, []⟩

/-- The handler of a `write`. -/
def Session.serve (tool : Addr2line) (s : Session) (write : Write) : Session :=
  if write.isDump then s else ⟨s.console.consoleWrite tool write.fd write.data, s.written ++ write.data⟩

/-- What is emitted by the time that the program has exited: the loop returns. -/
def Session.exit (s : Session) : List Byte := s.console.text

/-- The program writes, until it exits. -/
def machine (tool : Addr2line) : Machine.LabeledMachine Session Write where
  step s write := some (s.serve tool write)

end KosTool.Host.Console
