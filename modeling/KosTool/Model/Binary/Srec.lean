import KosTool.Math.ByteWord
import KosTool.Math.LineReading

/-! # The S-record loader

`srec_load` of `host/src/binary/srec.c` with `hex_byte`. A file is read twice, by `fgets` into one array of the stack, which keeps what a
shorter line leaves of the ones before. The file can be opened and does not change between the passes.
-/

namespace KosTool.Binary.Srec

open ByteWord

def newline : Byte := 10#8

/-- `'S'` -/
def letterS : Byte := 83#8

/-- What `fgets` can read into `line`. -/
def lineRoom : ℕ := 1024 - 1

def hexDigit (c : Byte) : Option ℕ :=
  if 48 ≤ c.toNat ∧ c.toNat ≤ 57 then some (c.toNat - 48)
  else if 65 ≤ c.toNat ∧ c.toNat ≤ 70 then some (c.toNat - 65 + 10)
  else if 97 ≤ c.toNat ∧ c.toNat ≤ 102 then some (c.toNat - 97 + 10)
  else none

/-- `hex_byte` -/
def hexByte (line : Buffer) (s : ℕ) : ℤ :=
  match hexDigit (line s) with
  | none => -1
  | some hi =>
    match hexDigit (line (s + 1)) with
    | none => -1
    | some lo => ((hi * 16 + lo : ℕ) : ℤ)

/-- `fgets` of a piece. -/
def gets (line : Buffer) (piece : List Byte) : Buffer := storeAt line 0 (piece ++ [0])

def recordType (line : Buffer) : ℤ := ((line 1).toNat : ℤ) - 48

/-- `addr_min` and `addr_max`. -/
structure Range where
  addrMin : Word
  addrMax : Word

/-- The loop over the bytes of an address that fails where there is none. -/
def wholeAddress (line : Buffer) : ℕ → ℕ → Word → Option Word
  | 0, _, addr => some addr
  | n + 1, i, addr =>
    let b := hexByte line (4 + i * 2)
    if b < 0 then none else wholeAddress line n (i + 1) (addr <<< 8 ||| BitVec.ofInt 32 b)

/-- The range with a record. -/
def Range.widen (range : Range) (addr : Word) (dataBytes : ℤ) : Range :=
  if dataBytes < 0 then range
  else
    { addrMin := if addr < range.addrMin then addr else range.addrMin
      addrMax :=
        if range.addrMax < addr + BitVec.ofInt 32 dataBytes then addr + BitVec.ofInt 32 dataBytes else range.addrMax }

/-- A line in the first pass. -/
def rangeOfLine (range : Range) (line : Buffer) : Option Range :=
  if line 0 ≠ letterS then some range
  else if recordType line < 1 ∨ 3 < recordType line then some range
  else if hexByte line 2 < 0 then none
  else
    (wholeAddress line (recordType line + 1).toNat 0 0).map fun addr =>
      range.widen addr (hexByte line 2 - (recordType line + 1) - 1)

/-- The first pass, with what it leaves in `line`. -/
def addressRange : Buffer → Range → List (List Byte) → Option (Range × Buffer)
  | line, range, [] => some (range, line)
  | line, range, piece :: rest =>
    match rangeOfLine range (gets line piece) with
    | none => none
    | some range => addressRange (gets line piece) range rest

/-- The loop over the bytes of an address that does not look at what `hex_byte` says. -/
def anyAddress (line : Buffer) : ℕ → ℕ → Word → Word
  | 0, _, addr => addr
  | n + 1, i, addr => anyAddress line n (i + 1) (addr <<< 8 ||| BitVec.ofInt 32 (hexByte line (4 + i * 2)))

/-- The loop over the bytes of an address that stops where there is none. -/
def entryAddress (line : Buffer) : ℕ → ℕ → Word → Word
  | 0, _, addr => addr
  | n + 1, i, addr =>
    let b := hexByte line (4 + i * 2)
    if b < 0 then addr else entryAddress line n (i + 1) (addr <<< 8 ||| BitVec.ofInt 32 b)

/-- The loop that sums up the bytes of a record. -/
def sumBytes (line : Buffer) : ℕ → ℕ → Byte → Option Byte
  | 0, _, sum => some sum
  | n + 1, i, sum =>
    let b := hexByte line (2 + i * 2)
    if b < 0 then none else sumBytes line n (i + 1) (sum + BitVec.ofInt 8 b)

/-- The loop that stores the bytes of a record: its stores, and whether it comes to its end. -/
def storeBytes (line : Buffer) (place : Word) (dataOffset : ℕ) : ℕ → ℕ → List (Word × Byte) × Bool
  | 0, _ => ([], true)
  | n + 1, i =>
    let b := hexByte line (dataOffset + i * 2)
    if b < 0 then ([], false)
    else
      let rest := storeBytes line place dataOffset n (i + 1)
      ((place + BitVec.ofNat 32 i, BitVec.ofInt 8 b) :: rest.1, rest.2)

/-- A data record in the second pass: its stores, and whether the load goes on. -/
def dataRecord (addrMin : Word) (line : Buffer) : List (Word × Byte) × Bool :=
  let byteCount := hexByte line 2
  let addrBytes := recordType line + 1
  let addr := anyAddress line addrBytes.toNat 0 0
  let dataBytes := byteCount - addrBytes - 1
  let dataOffset := (4 + addrBytes * 2).toNat
  match sumBytes line byteCount.toNat 0 0 with
  | none => ([], false)
  | some sum =>
    let cksum := hexByte line (2 + byteCount * 2).toNat
    if cksum < 0 then ([], false)
    else if sum + BitVec.ofInt 8 cksum ≠ 0xFF#8 then ([], false)
    else storeBytes line (addr - addrMin) dataOffset dataBytes.toNat 0

/-- The second pass: its stores, and `entry_addr` if it comes to the end. -/
def fill (addrMin : Word) : Buffer → Option Word → List (List Byte) → List (Word × Byte) × Option (Option Word)
  | _, entry, [] => ([], some entry)
  | line, entry, piece :: rest =>
    let line := gets line piece
    if line 0 ≠ letterS then fill addrMin line entry rest
    else if 1 ≤ recordType line ∧ recordType line ≤ 3 then
      let made := dataRecord addrMin line
      if made.2 then
        let others := fill addrMin line entry rest
        (made.1 ++ others.1, others.2)
      else (made.1, none)
    else if 7 ≤ recordType line ∧ recordType line ≤ 9 then
      fill addrMin line (some (entryAddress line (11 - recordType line).toNat 0 0)) rest
    else fill addrMin line entry rest

/-- What the callback gets, and `entry_addr` if it is set. -/
structure Section where
  loadAddr : Word
  size : Word
  data : Buffer
  entry : Option Word

/-- A load: the size of its memory, what it stores there, and its section if it does not fail. -/
structure Load where
  totalSize : Word
  stores : List (Word × Byte)
  result : Option Section

/-- Memory of zeros behind some stores. -/
def imageOf (stores : List (Word × Byte)) : Buffer :=
  stores.foldl (fun image store => Function.update image store.1.toNat store.2) fun _ => 0

/-- `srec_load` of a text, with what is on its stack, and whether `calloc` gives memory. -/
def srecLoad (allocates : Bool) (stack : Buffer) (text : List Byte) : Load :=
  let pieces := LineReading.pieces newline lineRoom lineRoom text
  match addressRange stack ⟨0xFFFFFFFF, 0⟩ pieces with
  | none => ⟨0, [], none⟩
  | some (range, line) =>
    if range.addrMax < range.addrMin then ⟨0, [], none⟩
    else if ¬allocates then ⟨0, [], none⟩
    else
      let totalSize := range.addrMax - range.addrMin
      let made := fill range.addrMin line none pieces
      ⟨totalSize, made.1, made.2.map fun entry => ⟨range.addrMin, totalSize, imageOf made.1, entry⟩⟩

end KosTool.Binary.Srec
