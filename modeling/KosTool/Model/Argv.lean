import KosTool.Math.ListOverwrite
import KosTool.Math.TerminatedStrings
import KosTool.Model.Host.Channel
import KosTool.Model.SerialBlocks

/-! # The arguments of a program

The argument vector as `host/src/main.c` builds it, as `network_execute` and `serial_execute` send it, and as
`cmd_execute` of `client/common/core/commands.c` and the loop of `client/common/serial/serial_transport.c` store it
in the info block.
-/

namespace KosTool

open ByteWord Protocol Host
open Serial (uintBytes bytesUint)

/-- `KOSLOAD_MAX_ARGV_DATA`, and the size of `prog_argv_data`. -/
def maxArgvData : ℕ := 256

section Host

/-- `prog_argc` and `prog_argv_data`. -/
structure ProgArgv where
  argc : ℕ
  data : List Byte

/-- The array, zero at first, with bytes stored at its start. -/
def progArgvData (bytes : List Byte) : List Byte := ListOverwrite.overwrite bytes (List.replicate maxArgvData 0)

/-- The loop of `main` over the arguments behind the first: how many are appended, and all bytes. -/
def appendArgs (bytes : List Byte) : List CString → ℕ × List Byte
  | [] => (0, bytes)
  | arg :: args =>
    if maxArgvData < bytes.length + arg.terminated.length then (0, bytes)
    else ((appendArgs (bytes ++ arg.terminated) args).1 + 1, (appendArgs (bytes ++ arg.terminated) args).2)

/-- The argument vector of `main`: the base name of the file, then the arguments. -/
def mainArgv (argv0 : CString) (args : List CString) : ProgArgv :=
  if maxArgvData < argv0.terminated.length then { argc := 0, data := progArgvData [] }
  else
    { argc := 1 + (appendArgs argv0.terminated args).1
      data := progArgvData (appendArgs argv0.terminated args).2 }

/-- How far the strings reach, as `network_execute` and `serial_execute` add it up. -/
def argvDataLen : ℕ → List Byte → ℕ
  | 0, _ => 0
  | argc + 1, data => (cString data).length + 1 + argvDataLen argc (data.drop ((cString data).length + 1))

variable (prog : ProgArgv) (supportsArgv : Bool)

/-- The payload of the `EXEC` that `network_execute` sends. -/
def execData : List Byte :=
  if 0 < prog.argc ∧ supportsArgv = true then
    be32 (BitVec.ofNat 32 prog.argc) ++ prog.data.take (argvDataLen prog.argc prog.data)
  else []

/-- `network_execute`. -/
def networkExecute (isWiiLoader : Bool) (address flags : Word) : List Byte :=
  sendCmd isWiiLoader netCmdExecute address flags (fun i => (execData prog supportsArgv).getD i 0)
    (execData prog supportsArgv).length

/-- `KOSLOAD_SERIAL_EXEC_ARGV`. -/
def kosloadSerialExecArgv : Word := 0x80000000

/-- `KOSLOAD_SERIAL_EXEC_FW_UPDATE`. -/
def kosloadSerialExecFwUpdate : Word := 0x40000000

/-- The flags of `serial_execute`. -/
def consoleFlags (consoleEnabled sendFwUpdate : Bool) : Word :=
  (if consoleEnabled then 1 else 0) |||
    (if 0 < prog.argc ∧ supportsArgv = true then kosloadSerialExecArgv else 0) |||
    (if sendFwUpdate then kosloadSerialExecFwUpdate else 0)

/-- What `serial_execute` writes behind the address. -/
def serialExecute (consoleEnabled sendFwUpdate : Bool) : List Byte :=
  uintBytes (consoleFlags prog supportsArgv consoleEnabled sendFwUpdate) ++
    if 0 < prog.argc ∧ supportsArgv = true then
      uintBytes (BitVec.ofNat 32 prog.argc) ++ uintBytes (BitVec.ofNat 32 (argvDataLen prog.argc prog.data)) ++
        prog.data.take (argvDataLen prog.argc prog.data)
    else []

end Host

section Console

/-- `argc` and `argv_data` of `kosload_info`. -/
structure ArgvInfo where
  argc : Word
  argvData : List Byte
  length_argvData : argvData.length = maxArgvData

/-- What an `EXEC` leaves, and the index of `argv_data` that it terminates. -/
structure ArgvLoad where
  info : ArgvInfo
  terminator : Option ℤ

namespace ArgvInfo

/-- No arguments. -/
def clear (info : ArgvInfo) : ArgvInfo where
  argc := 0
  argvData := info.argvData.set 0 0
  length_argvData := by rw [List.length_set, info.length_argvData]

/-- Bytes are copied into `argv_data`, and the last of them is made a terminator. An index that is no index of
the array leaves it as it is: `argv_data[-1]` is a byte of `argc`, which is stored afterwards. -/
def store (info : ArgvInfo) (progArgc : Word) (bytes : List Byte) : ArgvLoad where
  info :=
    { argc := progArgc
      argvData :=
        if bytes = [] then info.argvData
        else (ListOverwrite.overwrite bytes info.argvData).set (bytes.length - 1) 0
      length_argvData := by
        split_ifs
        · exact info.length_argvData
        · rw [List.length_set, ListOverwrite.length_overwrite, info.length_argvData] }
  terminator := some ((bytes.length : ℤ) - 1)

end ArgvInfo

/-- The word of four bytes, highest first. -/
def beUint : List Byte → Word
  | [b0, b1, b2, b3] => ofBe32 b0 b1 b2 b3
  | _ => 0

/-- The part of `cmd_execute` that extracts the arguments from the payload behind the command. -/
def cmdExecuteArgv (info : ArgvInfo) (data : List Byte) : ArgvLoad :=
  if 5 ≤ data.length then
    if beUint (data.take 4) ≠ 0#32 ∧ 0 < data.length - 4 then
      info.clear.store (beUint (data.take 4)) ((data.drop 4).take maxArgvData)
    else { info := info.clear, terminator := none }
  else { info := info.clear, terminator := none }

/-- `get_uint` on what has come in. -/
def takeUint (input : List Byte) : Option (Word × List Byte) :=
  if 4 ≤ input.length then some (bytesUint (input.take 4), input.drop 4) else none

/-- The case of `SERIAL_CMD_EXECUTE` behind the address; `none` if more bytes are awaited than come. -/
def serialExecArgv (info : ArgvInfo) (input : List Byte) : Option (ArgvLoad × List Byte) := do
  let (console, input) ← takeUint input
  if console &&& kosloadSerialExecArgv ≠ 0#32 then
    let (progArgc, input) ← takeUint input
    if progArgc ≠ 0#32 then
      let (argvDataLen, input) ← takeUint input
      if min argvDataLen.toNat maxArgvData ≤ input.length then
        return (info.clear.store progArgc (input.take (min argvDataLen.toNat maxArgvData)),
          input.drop (min argvDataLen.toNat maxArgvData))
      else none
    else return ({ info := info.clear, terminator := none }, input)
  else return ({ info := info.clear, terminator := none }, input)

end Console

end KosTool
