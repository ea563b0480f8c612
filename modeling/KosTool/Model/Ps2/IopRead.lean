import KosTool.Math.WordPatch

/-! # Reading the memory of the IOP

`ee_sif_get_other_data` and `ee_sif_iop_read` of `client/playstation2/ee_sif.c`. The words of an answer become visible in
any order. When each of them does, and when `D_STAT` shows the transfer, is given for every request by how often the loader
has looked since it was sent.
-/

namespace KosTool.Ps2.IopRead

open ByteWord WordPatch

/-- `POLL_TIMEOUT` -/
def pollTimeout : ℕ := 100000000

/-- `sizeof(scratch)` -/
abbrev scratchSize : ℕ := 1024

/-- What the landing buffer is filled with. -/
abbrev sentinel : Word := 0x5a5a5a5a

/-- What becomes of a request: whether the command is sent, which words of the answer are visible at which time, and at which
times `D_STAT` shows the transfer. -/
structure Answer where
  sent : Bool
  visible : ℕ → ℕ → Bool
  dStat : ℕ → Bool
  /-- A word that is visible stays so. -/
  stays : ∀ time later word, time ≤ later → visible time word → visible later word

/-- `scratch` at a time. -/
def landing (answer : Answer) (iop : Memory) (src : Word) (size time : ℕ) : Buffer :=
  fun i => if i < size ∧ answer.visible time (i / 4) then iop (src + BitVec.ofNat 32 i) else 0x5a

/-- The loop over `i`: the time at which the first word is something else. -/
def pollFirst (shown : ℕ → Word) : ℕ → ℕ → Option ℕ
  | 0, _ => none
  | left + 1, time => if shown time ≠ sentinel then some time else pollFirst shown left (time + 1)

/-- The loop over `j`: the time at which it is over, whether `D_STAT` has shown the transfer or not. -/
def pollStat (dStat : ℕ → Bool) : ℕ → ℕ → ℕ
  | 0, time => time
  | left + 1, time => if dStat time then time + 1 else pollStat dStat left (time + 1)

/-- `ee_sif_get_other_data`: the time at which it returns 0, unless it fails. -/
def getOtherData (answer : Answer) (iop : Memory) (src : Word) (size : ℕ) : Option ℕ :=
  if size = 0 ∨ 1024 < size then none
  else if answer.sent then
    (pollFirst (fun time => rd32 (landing answer iop src size time) 0) pollTimeout 0).map fun time =>
      pollStat answer.dStat (pollTimeout / 256) (time + 1)
  else none

/-- What the loop over `i` of `ee_sif_iop_read` takes out of `scratch`. -/
def takeChunk (answer : Answer) (iop : Memory) (src : Word) (size time : ℕ) : List Byte :=
  (List.range size).map fun i => landing answer iop src size (time + i) i

/-- The loop of `ee_sif_iop_read`; every pass takes a byte at least. -/
def iopReadLoop (answers : ℕ → Answer) (iop : Memory) (src : Word) (size : ℕ) : ℕ → ℕ → Buffer → ℤ × Buffer
  | 0, _, out => (0, out)
  | fuel + 1, offset, out =>
    if offset < size then
      let chunk := min (size - offset) scratchSize
      match getOtherData (answers offset) iop (src + BitVec.ofNat 32 offset) chunk with
      | none => (-1, out)
      | some time => iopReadLoop answers iop src size fuel (offset + chunk)
          (storeAt out offset (takeChunk (answers offset) iop (src + BitVec.ofNat 32 offset) chunk time))
    else (0, out)

/-- `ee_sif_iop_read` with the answers to its requests, by their offsets. -/
def iopRead (answers : ℕ → Answer) (iop : Memory) (src : Word) (size : ℕ) (out : Buffer) : ℤ × Buffer :=
  iopReadLoop answers iop src size size 0 out

end KosTool.Ps2.IopRead
