import KosTool.Math.BlockCopy
import KosTool.Model.Firmware.I386
import KosTool.Model.Firmware.Update

/-! # The trampoline of the Xbox

The stack is moved away, the image is moved byte by byte with write protection off, and the caches are written back before
the loader is entered.
-/

namespace KosTool.Firmware

open ByteWord Machine BlockCopy

namespace I386Trampoline

/-- The instructions of `i386_xbox_trampoline` by their offsets, but for the one with the size in it. -/
def instrs : List (ℕ × I386Instr) :=
  [(0, .cli), (1, .cld), (2, .movFromCr0 0), (5, .mov 3 0), (7, .andEax 0xfffeffff), (12, .movToCr0 0),
    (15, .movImm 4 0x0203c000), (20, .movImm 6 0x0003c100), (25, .movImm 7 0x00011000), (35, .repMovsb), (37, .wbinvd),
    (39, .movToCr0 3), (42, .movImm 0 0x00011020), (47, .jmp 0)]

theorem decode_trampoline : ∀ entry ∈ instrs, entry.1 + 5 ≤ 256 ∧ (entry.1 + 5 ≤ 31 ∨ 35 ≤ entry.1) ∧
    decodeI386 (overlay i386XboxTrampoline fun _ => 0) entry.1 = some entry.2 := by decide +kernel

theorem length_trampoline : i386XboxTrampoline.length = 256 := by decide +kernel

/-- Where the blob is uploaded. -/
@[irreducible] def load : ℕ := 0x0003c000

/-- The address of an offset. -/
def place (k : ℕ) : Word := 0x0003c000#32 + BitVec.ofNat 32 k

/-- The instruction at an offset. -/
def instrAt (fwSize k : ℕ) : Option I386Instr :=
  if k = 30 then some (.movImm 1 (BitVec.ofNat 32 fwSize)) else instrs.lookup k

/-- The instruction at an address. -/
def code (fwSize a : ℕ) : Option I386Instr := if load ≤ a then instrAt fwSize (a - load) else none

/-- The trampoline is not to be written. -/
def writable (a : ℕ) : Bool := decide (a < load ∨ load + 256 ≤ a)

theorem place_add (k size : ℕ) : place k + BitVec.ofNat 32 size = place (k + size) := by
  rw [place, place, BitVec.add_assoc, BitVec.ofNat_add]

theorem toNat_place {k : ℕ} (inside : k < 256) : (place k).toNat = load + k := by
  rw [place, load, BitVec.toNat_add, BitVec.toNat_ofNat, BitVec.toNat_ofNat]
  omega

theorem code_place (fwSize : ℕ) {k : ℕ} (inside : k < 256) : code fwSize (place k).toNat = instrAt fwSize k := by
  rw [code, toNat_place inside, if_pos (Nat.le_add_right _ _), Nat.add_sub_cancel_left]

/-- An instruction is decoded from five bytes at most. -/
theorem decodeI386_congr {first second : Buffer} {a b : ℕ} (same : ∀ j < 5, first (a + j) = second (b + j)) :
    decodeI386 first a = decodeI386 second b := by
  have zeroth : first a = second b := same 0 (by decide)
  have imm : ByteOrder.little.load32 first (a + 1) = ByteOrder.little.load32 second (b + 1) := by
    rw [ByteOrder.load32, ByteOrder.load32]
    congr 1
    apply readBe32_of_slice
    rw [be32_readBe32_slice]
    refine slice_congr fun j below => ?_
    rw [Nat.add_assoc, Nat.add_assoc]
    exact same (1 + j) (by omega)
  rw [decodeI386, decodeI386, zeroth, same 1 (by decide), same 2 (by decide), imm]

/-- The instruction with the size in it. -/
theorem decodeI386_movEcx {memory : Buffer} {a : ℕ} (opcode : memory a = 0xb9) :
    decodeI386 memory a = some (.movImm 1 (ByteOrder.little.load32 memory (a + 1))) := by
  rw [decodeI386, opcode]
  rfl

/-- The trampoline with the size in it, where it is uploaded. -/
def listing (image : Buffer) (fwSize : ℕ) : Listing i386 where
  code := code fwSize
  writable := writable
  image a := updateBlob i386XboxParams image fwSize (a - load)
  decodes := by
    intro memory kept a instr listed
    have byte (k : ℕ) (inside : k < 256) : memory (load + k) = updateBlob i386XboxParams image fwSize k := by
      rw [kept _ (by rw [writable, decide_eq_false_iff_not]; omega), Nat.add_sub_cancel_left]
    have plain (k : ℕ) (inside : k < 256) (apart : k < 31 ∨ 35 ≤ k) :
        memory (load + k) = overlay i386XboxTrampoline (fun _ => 0) k := by
      rw [byte k inside]
      exact updateBlob_code i386XboxParams image fwSize (inside.trans_le length_trampoline.ge) apart
    rw [code] at listed
    split_ifs at listed with inside
    obtain ⟨k, rfl⟩ := Nat.exists_eq_add_of_le inside
    rw [Nat.add_sub_cancel_left, instrAt] at listed
    change decodeI386 memory (load + k) = _
    split_ifs at listed with sized
    · subst sized
      cases listed
      rw [decodeI386_movEcx (by rw [plain 30 (by decide) (.inl (by decide))]; rfl)]
      have offset : i386XboxParams.sizePatchOffset = 31 := rfl
      have order : i386XboxParams.order = .little := rfl
      have length : i386XboxParams.trampoline.length = 256 := length_trampoline
      have size := @load32_size i386XboxParams image fwSize memory load (by rw [length]; exact byte)
      rw [offset, order] at size
      rw [Nat.add_assoc, size]
    · obtain ⟨before, after, split, -⟩ := List.lookup_eq_some_iff.mp listed
      have among : (k, instr) ∈ instrs := by
        rw [split]
        exact List.mem_append_right _ List.mem_cons_self
      obtain ⟨bound, apart, decoded⟩ := decode_trampoline _ among
      rw [← decoded]
      refine decodeI386_congr fun j below => ?_
      rw [Nat.add_assoc]
      exact plain (k + j) (by omega) (by omega)

variable {image : Buffer} {fwSize : ℕ}

/-- At the offsets of the trampoline its instructions are executed. -/
theorem step_place (gpr : I386Reg → Word) (cr0 : Word) (interrupts down : Bool) (mem : Buffer) (bus : List I386Bus)
    {k : ℕ} (inside : k < 256) :
    (listing image fwSize).step ⟨gpr, cr0, interrupts, down, place k, mem, bus⟩ =
      (instrAt fwSize k).bind fun instr => I386.exec writable instr ⟨gpr, cr0, interrupts, down, place k, mem, bus⟩ := by
  change (code fwSize (place k).toNat).bind _ = _
  rw [code_place fwSize inside]
  rfl

theorem intact {s : I386} (uploaded : ∀ i < 256, s.mem (load + i) = updateBlob i386XboxParams image fwSize i) :
    (listing image fwSize).Intact s := fun a kept => by
  have kept : writable a = false := kept
  rw [writable, decide_eq_false_iff_not] at kept
  have byte := uploaded (a - load) (by omega)
  rwa [Nat.add_sub_cancel' (by omega)] at byte

/-- The move, after some bytes. -/
structure Moving (fwSize : ℕ) (start : I386) (k : ℕ) (s : I386) : Prop where
  eip : s.eip = place 35
  flags : s.interrupts = false ∧ s.down = false
  saved : s.gpr 3 = start.gpr 3
  stack : s.gpr 4 = 0x0203c000#32
  src : s.gpr 6 = 0x0003c100#32 + BitVec.ofNat 32 k
  dst : s.gpr 7 = 0x00011000#32 + BitVec.ofNat 32 k
  left : s.gpr 1 = BitVec.ofNat 32 (fwSize - k)
  mem : s.mem = storeAt start.mem 0x00011000 (slice start.mem 0x0003c100 k)
  bus : s.bus = start.bus ++ (List.range k).map fun i => .store (0x00011000#32 + BitVec.ofNat 32 i)

theorem prologue (image : Buffer) (fwSize : ℕ) {s : I386} (starts : s.eip = place 0) :
    ∃ t, (listing image fwSize).run 10 s = some t ∧ t.gpr 3 = s.cr0 ∧ t.mem = s.mem ∧ t.bus = s.bus ∧ Moving fwSize t 0 t := by
  obtain ⟨gpr, cr0, interrupts, down, eip, mem, bus⟩ := s
  dsimp only at *
  subst starts
  simp [Listing.run, step_place, instrAt, instrs, List.lookup_cons, I386.exec, I386.set, I386.next, place_add]
  constructor <;> simp [slice, storeAt_nil]

theorem move_round {start s : I386} {k : ℕ} (fits : fwSize ≤ 0x2b000) (more : k < fwSize) (moving : Moving fwSize start k s) :
    ∃ t, (listing image fwSize).run 1 s = some t ∧ Moving fwSize start (k + 1) t := by
  obtain ⟨eip, ⟨off, up⟩, saved, stack, src, dst, left, mem, bus⟩ := moving
  obtain ⟨gpr, cr0, interrupts, down, eip', mem', bus'⟩ := s
  dsimp only at *
  subst eip off up mem bus
  have from_src : (0x0003c100#32 + BitVec.ofNat 32 k).toNat = 0x0003c100 + k := by
    rw [BitVec.toNat_add, BitVec.toNat_ofNat, BitVec.toNat_ofNat]
    omega
  have to_dst : (0x00011000#32 + BitVec.ofNat 32 k).toNat = 0x00011000 + k := by
    rw [BitVec.toNat_add, BitVec.toNat_ofNat, BitVec.toNat_ofNat]
    omega
  have free : writable (0x00011000 + k) = true := by
    rw [writable, load, decide_eq_true_eq]
    omega
  have some_left : BitVec.ofNat 32 (fwSize - k) ≠ 0#32 := by
    rw [ne_eq, BitVec.toNat_inj.symm, BitVec.toNat_ofNat, BitVec.toNat_ofNat]
    omega
  have one_less : BitVec.ofNat 32 (fwSize - k) - 1#32 = BitVec.ofNat 32 (fwSize - (k + 1)) := by
    apply BitVec.eq_of_toNat_eq
    rw [BitVec.toNat_sub, BitVec.toNat_ofNat, BitVec.toNat_ofNat, BitVec.toNat_ofNat]
    omega
  have below : 0x00011000 ≤ 0x0003c100 ∨ 0x0003c100 + k + 1 ≤ 0x00011000 := .inl (by decide)
  have copied := storeAt_slice_extend start.mem below
  simp [Listing.run, step_place, instrAt, instrs, List.lookup_cons, I386.exec, I386.movsb, I386.set, src, dst, left, from_src,
    to_dst, free, some_left, one_less, ← slice_one, copied, -BitVec.toNat_add]
  constructor <;> simp [saved, stack, BitVec.ofNat_add, BitVec.add_assoc, List.range_succ]

/-- The move. -/
theorem moves (image : Buffer) {start : I386} (fits : fwSize ≤ 0x2b000) (begins : Moving fwSize start 0 start) :
    ∃ t, Reaches (listing image fwSize).Step start t ∧ Moving fwSize start fwSize t := by
  refine Reaches.loop (fun k more s moving => ?_) begins
  obtain ⟨t, ran, moving⟩ := move_round fits more moving
  exact ⟨t, Listing.reaches_of_run ran, moving⟩

theorem epilogue (image : Buffer) {start s : I386} (moved : Moving fwSize start fwSize s) :
    ∃ t, (listing image fwSize).run 5 s = some t ∧ t.eip = 0x00011020#32 ∧ t.cr0 = start.gpr 3 ∧ t.interrupts = false ∧
      t.down = false ∧ t.gpr 4 = 0x0203c000#32 ∧ t.mem = s.mem ∧ t.bus = s.bus ++ [.wbinvd] := by
  obtain ⟨eip, ⟨off, up⟩, saved, stack, src, dst, left, mem, bus⟩ := moved
  obtain ⟨gpr, cr0, interrupts, down, eip', mem', bus'⟩ := s
  dsimp only at *
  subst eip off up
  rw [Nat.sub_self] at left
  simp [Listing.run, step_place, instrAt, instrs, List.lookup_cons, I386.exec, I386.set, I386.next, place_add, left, saved, stack]

/-- A processor about to run a blob that is all its memory holds. -/
def sent (image : Buffer) (fwSize : ℕ) : I386 where
  gpr _ := 0
  cr0 := 0x80010033
  interrupts := true
  down := true
  eip := i386XboxParams.loadAddr
  mem a := updateBlob i386XboxParams image fwSize (a - load)
  bus := []

theorem sent_mem (image : Buffer) (fwSize i : ℕ) :
    (sent image fwSize).mem (load + i) = updateBlob i386XboxParams image fwSize i :=
  congrArg (updateBlob i386XboxParams image fwSize) (Nat.add_sub_cancel_left _ _)

end I386Trampoline

end KosTool.Firmware
