import KosTool.Machine.Run
import KosTool.Model.Host.SerialConsole

/-! # The table of open directories

The directory handlers of `host/src/console.c`, `ser_syscall_*` and `net_syscall_*`, on the table `opendirs` they
share. A directory stream is a number; which streams are open is the state of the operating system, and what it
answers comes with the request.
-/

namespace KosTool.Host

open ByteWord Machine
open Host.Serial (IsDirHandle maxPathLen)

/-- A `DIR *`; `none` in its place is a null pointer. -/
abbrev DirStream := ℕ

/-- `opendirs`. -/
abbrev OpenDirs := Fin maxOpenDirs → Option DirStream

/-- A call that is given a directory stream. -/
inductive DirCall where
  | closedir (stream : Option DirStream)
  | readdir (stream : Option DirStream)
  | rewinddir (stream : Option DirStream)
deriving DecidableEq, Repr

/-- The stream that is given. -/
def DirCall.stream : DirCall → Option DirStream
  | .closedir stream | .readdir stream | .rewinddir stream => stream

/-- What a handler leaves, the stream it has got from `opendir`, which streams it has given to the operating system,
and the value it answers. -/
structure DirServed where
  opendirs : OpenDirs
  got : Option DirStream
  calls : List DirCall
  answer : Word

/-- Nothing but an answer. -/
def DirServed.only (opendirs : OpenDirs) (answer : Word) : DirServed where
  opendirs := opendirs
  got := none
  calls := []
  answer := answer

/-- A stream is given to the operating system, and the table stays as it is. -/
def DirServed.using (opendirs : OpenDirs) (call : DirCall) (answer : Word) : DirServed where
  opendirs := opendirs
  got := none
  calls := [call]
  answer := answer

section Handlers

variable (opendirs : OpenDirs)

/-- The first free entry. -/
def freeDir : Option (Fin maxOpenDirs) := (List.finRange maxOpenDirs).find? fun i => opendirs i = none

/-- The entry of a handle. -/
def dirEntry {i : Word} (inRange : IsDirHandle i) : Fin maxOpenDirs :=
  ⟨i.toNat - direntOffset, by obtain ⟨lower, upper⟩ := inRange; omega⟩

/-- Takes the first free entry for what `opendir` gives. -/
def opened (stream : Option DirStream) : DirServed :=
  match freeDir opendirs with
  | some i =>
    { opendirs := Function.update opendirs i stream
      got := stream
      calls := []
      answer := if stream = none then 0 else BitVec.ofNat 32 (i.val + direntOffset) }
  | none => .only opendirs 0

/-- `ser_syscall_opendir`, with the length of the path and whether there is memory for it. -/
def serOpendir (namelen : Word) (malloc : Bool) (stream : Option DirStream) : DirServed :=
  if namelen = 0#32 ∨ maxPathLen < namelen.toNat then .only opendirs 0
  else if malloc = false then .only opendirs 0
  else opened opendirs stream

/-- `net_syscall_opendir`. -/
def netOpendir (stream : Option DirStream) : DirServed := opened opendirs stream

/-- Closes the stream of a handle. -/
def closed (i : Word) (ret : Word) : DirServed :=
  if inRange : IsDirHandle i then
    { opendirs := Function.update opendirs (dirEntry inRange) none
      got := none
      calls := [.closedir (opendirs (dirEntry inRange))]
      answer := ret }
  else .only opendirs (-1)

/-- `ser_syscall_closedir`. -/
def serClosedir (i : Word) (ret : Word) : DirServed := closed opendirs i ret

/-- `net_syscall_closedir`. -/
def netClosedir (i : Word) (ret : Word) : DirServed := closed opendirs i ret

/-- Reads from the stream of a handle; what follows of the entry depends on the transport. -/
def entryRead (i : Word) (more : Bool) : DirServed :=
  if inRange : IsDirHandle i then
    .using opendirs (.readdir (opendirs (dirEntry inRange))) (if more then 1 else 0)
  else .only opendirs 0

/-- `ser_syscall_readdir`. -/
def serReaddir (i : Word) (more : Bool) : DirServed := entryRead opendirs i more

/-- `net_syscall_readdir`. -/
def netReaddir (i : Word) (more : Bool) : DirServed := entryRead opendirs i more

/-- `ser_syscall_rewinddir`, which answers 0 to every handle. -/
def serRewinddir (i : Word) : DirServed :=
  if inRange : IsDirHandle i then .using opendirs (.rewinddir (opendirs (dirEntry inRange))) 0
  else .only opendirs 0

/-- `net_syscall_rewinddir`. -/
def netRewinddir (i : Word) : DirServed :=
  if inRange : IsDirHandle i then .using opendirs (.rewinddir (opendirs (dirEntry inRange))) 0
  else .only opendirs (-1)

end Handlers

/-- A request, with what the operating system answers. -/
inductive DirRequest where
  /-- The path has the length, there is memory for it, and `opendir` gives the stream. -/
  | serOpendir (namelen : Word) (malloc : Bool) (stream : Option DirStream)
  | netOpendir (stream : Option DirStream)
  | serClosedir (handle : Word) (ret : Word)
  | netClosedir (handle : Word) (ret : Word)
  /-- Whether `readdir` finds another entry. -/
  | serReaddir (handle : Word) (more : Bool)
  | netReaddir (handle : Word) (more : Bool)
  | serRewinddir (handle : Word)
  | netRewinddir (handle : Word)
  /-- `ser_syscall_mkdir` or `net_syscall_mkdir` with the answer. -/
  | mkdir (ret : Word)
deriving DecidableEq, Repr

namespace DirRequest

/-- The handler of a request. -/
def serve (opendirs : OpenDirs) : DirRequest → DirServed
  | .serOpendir namelen malloc stream => Host.serOpendir opendirs namelen malloc stream
  | .netOpendir stream => Host.netOpendir opendirs stream
  | .serClosedir handle ret => Host.serClosedir opendirs handle ret
  | .netClosedir handle ret => Host.netClosedir opendirs handle ret
  | .serReaddir handle more => Host.serReaddir opendirs handle more
  | .netReaddir handle more => Host.netReaddir opendirs handle more
  | .serRewinddir handle => Host.serRewinddir opendirs handle
  | .netRewinddir handle => Host.netRewinddir opendirs handle
  | .mkdir ret => .only opendirs ret

/-- The handle a request names. -/
def handle : DirRequest → Option Word
  | .serClosedir handle _ | .netClosedir handle _ | .serReaddir handle _ | .netReaddir handle _
  | .serRewinddir handle | .netRewinddir handle => some handle
  | _ => none

/-- The answer to a request that fails. -/
def error : DirRequest → Word
  | .serOpendir .. | .netOpendir _ | .serReaddir .. | .netReaddir .. => 0
  | _ => -1

/-- Whether a request is for a new handle. -/
def opens : DirRequest → Bool
  | .serOpendir .. | .netOpendir _ => true
  | _ => false

/-- Whether a request closes its handle. -/
def closes : DirRequest → Bool
  | .serClosedir .. | .netClosedir .. => true
  | _ => false

end DirRequest

/-- The table, and which streams the operating system has open. -/
structure DirConsole where
  opendirs : OpenDirs
  isOpen : DirStream → Bool

namespace DirConsole

/-- A closed stream is open no longer. -/
def afterCall (isOpen : DirStream → Bool) : DirCall → DirStream → Bool
  | .closedir (some stream) => Function.update isOpen stream false
  | _ => isOpen

/-- A request is served. -/
def serve (console : DirConsole) (request : DirRequest) : DirConsole where
  opendirs := (request.serve console.opendirs).opendirs
  isOpen :=
    let left := (request.serve console.opendirs).calls.foldl afterCall console.isOpen
    match (request.serve console.opendirs).got with
    | some stream => Function.update left stream true
    | none => left

/-- No directory is open. -/
def start : DirConsole where
  opendirs _ := none
  isOpen _ := false

end DirConsole

/-- A session; `opendir` does not give a stream that is open. -/
def dirMachine : LabeledMachine DirConsole DirRequest where
  step console request :=
    match (request.serve console.opendirs).got with
    | some stream => if console.isOpen stream then none else some (console.serve request)
    | none => some (console.serve request)

end KosTool.Host
