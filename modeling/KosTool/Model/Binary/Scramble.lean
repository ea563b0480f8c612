import KosTool.Math.BlockCopy
import KosTool.Math.DescendingChunks

/-! # Dreamcast scrambling

`dc_descramble` of `host/src/binary/scramble.c` and `dcdisc_scramble_binary` of
`make-dist/tools/mkcdi-lite.c`. Neither looks at the data, so a size determines the `memcpy`s and the
accesses to the array of slice indices. Allocations succeed, and the buffer allocated holds anything.
-/

namespace KosTool.Binary

open ByteWord BlockCopy DescendingChunks SwapEmission

/-- An access to an array of slice indices: the index, and how many entries were allocated. -/
structure IndexAccess where
  index : ℕ
  allocated : ℕ
deriving DecidableEq

def scrambleMaxchunk : ℕ := 2048 * 1024
def scrambleSlice : ℕ := 32

/-- `scramble_next`: the number drawn and the seed left. -/
def scrambleNext (seed : BitVec 32) : BitVec 32 × BitVec 32 :=
  let seed := (seed * 2109#32 + 9273#32) &&& 0x7fff#32
  ((seed + 0xc000#32) &&& 0xffff#32, seed)

/-- The state of `dc_descramble` inside its loops. -/
structure Descrambling where
  seed : BitVec 32
  src : ℕ
  copies : List Memcpy
  accesses : List IndexAccess

/-- The innermost loop of `dc_descramble`, from the slice before `i` down. -/
def descrambleSlices (base : ℕ) : ℕ → (ℕ → ℕ) → Descrambling → Descrambling
  | 0, _, state => state
  | i + 1, idx, state =>
    let next := scrambleNext state.seed
    let x := ((next.1 * BitVec.ofNat 32 i) >>> 16).toNat
    let idx := exchange idx i x
    descrambleSlices base i idx
      { seed := next.2
        src := state.src + scrambleSlice
        copies := state.copies ++ [⟨base + idx i * scrambleSlice, state.src, scrambleSlice⟩]
        accesses := state.accesses ++
          [⟨i, scrambleMaxchunk / scrambleSlice⟩, ⟨x, scrambleMaxchunk / scrambleSlice⟩] }

/-- One turn of the `while` loop of `dc_descramble`. -/
def descrambleChunk (chunk base : ℕ) (state : Descrambling) : Descrambling :=
  let slices := chunk / scrambleSlice
  let cleared := (List.range slices).map fun i => (⟨i, scrambleMaxchunk / scrambleSlice⟩ : IndexAccess)
  descrambleSlices base slices id { state with accesses := state.accesses ++ cleared }

/-- `dc_descramble` up to the tail: the offset reached, what remains, and the state. -/
def descrambleLoops (size : ℕ) : ℕ × ℕ × Descrambling :=
  descend scrambleSlice descrambleChunk scrambleMaxchunk 0 size
    { seed := BitVec.ofNat 32 size &&& 0xffff#32, src := 0, copies := [], accesses := [] }

/-- The `memcpy`s of `dc_descramble`. -/
def descrambleCopies (size : ℕ) : List Memcpy :=
  let (base, remaining, state) := descrambleLoops size
  state.copies ++ if remaining ≠ 0 then [⟨base, state.src, remaining⟩] else []

/-- The accesses of `dc_descramble` to its indices. -/
def descrambleAccesses (size : ℕ) : List IndexAccess := (descrambleLoops size).2.2.accesses

/-- `dc_descramble`. -/
def dcDescramble (input out : Buffer) (size : ℕ) : Buffer := runAll input (descrambleCopies size) out

def dcMaxChunk : ℕ := 2048 * 1024

/-- `dcdisc_srand`. -/
def dcdiscSrand (value : BitVec 32) : BitVec 32 := value &&& 0xffff#32

/-- `dcdisc_rand`: the number drawn and the seed left. -/
def dcdiscRand (seed : BitVec 32) : BitVec 32 × BitVec 32 :=
  let seed := (seed * 2109#32 + 9273#32) &&& 0x7fff#32
  ((seed + 0xc000#32) &&& 0xffff#32, seed)

/-- The state of `dcdisc_scramble_binary` inside its loops. -/
structure Scrambling where
  seed : BitVec 32
  copies : List Memcpy
  accesses : List IndexAccess

/-- The loop of `dcdisc_scramble_chunk`, from the slice before `i` down. -/
def scrambleSlices (offset slices : ℕ) : ℕ → (ℕ → ℕ) → ℕ → Scrambling → Scrambling
  | 0, _, _, state => state
  | i + 1, indices, outOffset, state =>
    let drawn := dcdiscRand state.seed
    let x := (drawn.1.toNat * i) >>> 16
    let indices := exchange indices i x
    scrambleSlices offset slices i indices (outOffset + 32)
      { seed := drawn.2
        copies := state.copies ++ [⟨offset + outOffset, offset + 32 * indices i, 32⟩]
        accesses := state.accesses ++ [⟨i, slices⟩, ⟨x, slices⟩] }

/-- `dcdisc_scramble_chunk` on the chunk at an offset. -/
def dcdiscScrambleChunk (chunkSize offset : ℕ) (state : Scrambling) : Scrambling :=
  let slices := chunkSize / 32
  let cleared := (List.range slices).map fun i => (⟨i, slices⟩ : IndexAccess)
  scrambleSlices offset slices slices id 0 { state with accesses := state.accesses ++ cleared }

/-- `dcdisc_scramble_binary` up to the tail. -/
def scrambleLoops (size : ℕ) : ℕ × ℕ × Scrambling :=
  descend 32 dcdiscScrambleChunk dcMaxChunk 0 size
    { seed := dcdiscSrand (BitVec.ofNat 32 size), copies := [], accesses := [] }

/-- The `memcpy`s of `dcdisc_scramble_binary`. -/
def scrambleCopies (size : ℕ) : List Memcpy :=
  let (offset, remaining, state) := scrambleLoops size
  state.copies ++ if 0 < remaining then [⟨offset, offset, remaining⟩] else []

/-- The accesses of `dcdisc_scramble_binary` to its indices. -/
def scrambleAccesses (size : ℕ) : List IndexAccess := (scrambleLoops size).2.2.accesses

/-- `dcdisc_scramble_binary`. -/
def dcdiscScrambleBinary (src dst : Buffer) (size : ℕ) : Buffer := runAll src (scrambleCopies size) dst

end KosTool.Binary
