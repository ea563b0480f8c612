import KosTool.Machine.StoredProgram
import Mathlib.Logic.Function.Basic

/-! # The PowerPC instructions of the firmware trampolines

The instructions that the GameCube and Wii trampolines of `firmware_update.c` consist of, by their encodings. Addresses are
effective ones; a store, a `dcbf` and an `icbi` are noted with the address they are about.
-/

namespace KosTool.Firmware

open ByteWord Machine

/-- A general register, by its number. -/
abbrev Gpr := ℕ

/-- The instructions, with `srwi` and `mr` for the forms of `rlwinm` and `or` that are used. -/
inductive PpcInstr where
  | addi (rd ra : Gpr) (simm : BitVec 16)
  | addis (rd ra : Gpr) (simm : BitVec 16)
  | ori (ra rs : Gpr) (uimm : BitVec 16)
  | add (rd ra rb : Gpr)
  | mr (ra rs : Gpr)
  | srwi (ra rs : Gpr) (shift : ℕ)
  | lwz (rd ra : Gpr) (d : BitVec 16)
  | stw (rs ra : Gpr) (d : BitVec 16)
  | stwu (rs ra : Gpr) (d : BitVec 16)
  | cmplw (ra rb : Gpr)
  | blt (disp : Word)
  | bdnz (disp : Word)
  | mtctr (rs : Gpr)
  | bctr
  | mtmsr (rs : Gpr)
  | dcbf (ra rb : Gpr)
  | icbi (ra rb : Gpr)
  | sync
  | isync
deriving DecidableEq, Repr

/-- What the memory system sees besides loads and fetches. -/
inductive PpcBus where
  | store (addr : Word)
  | dcbf (addr : Word)
  | icbi (addr : Word)
deriving DecidableEq, Repr

/-- The state; of the condition register only the bit that `blt` tests. -/
structure Ppc where
  gpr : Gpr → Word
  ctr : Word
  lt : Bool
  msr : Word
  pc : Word
  mem : Buffer
  bus : List PpcBus

/-- The field of five bits that ends at a bit of the instruction. -/
def gprField (instr : Word) (start : ℕ) : Gpr := (instr.extractLsb' start 5).toNat

/-- The D-form and B-form instructions by their primary opcode, the X-forms by the extended one. -/
def decodePpc (instr : Word) : Option PpcInstr :=
  let rd := gprField instr 21
  let ra := gprField instr 16
  let rb := gprField instr 11
  let d := instr.extractLsb' 0 16
  match (instr.extractLsb' 26 6).toNat with
  | 14 => some (.addi rd ra d)
  | 15 => some (.addis rd ra d)
  | 16 =>
    let disp := (instr.extractLsb' 2 14 ++ 0#2).signExtend 32
    if instr.extractLsb' 0 2 ≠ 0 then none
    else if rd = 16 ∧ ra = 0 then some (.bdnz disp)
    else if rd = 12 ∧ ra = 0 then some (.blt disp)
    else none
  | 19 =>
    match (instr.extractLsb' 0 11).toNat with
    | 300 => some .isync
    | 1056 => if rd = 20 ∧ ra = 0 ∧ rb = 0 then some .bctr else none
    | _ => none
  | 21 =>
    if instr.extractLsb' 0 1 = 0 ∧ gprField instr 1 = 31 ∧ rb + gprField instr 6 = 32 then
      some (.srwi ra rd (gprField instr 6))
    else none
  | 24 => some (.ori ra rd d)
  | 31 =>
    match (instr.extractLsb' 0 11).toNat with
    | 64 => if rd = 0 then some (.cmplw ra rb) else none
    | 172 => some (.dcbf ra rb)
    | 292 => some (.mtmsr rd)
    | 532 => some (.add rd ra rb)
    | 888 => if rd = rb then some (.mr ra rd) else none
    | 934 => if ra = 9 ∧ rb = 0 then some (.mtctr rd) else none
    | 1196 => some .sync
    | 1964 => some (.icbi ra rb)
    | _ => none
  | 32 => some (.lwz rd ra d)
  | 36 => some (.stw rd ra d)
  | 37 => if ra = 0 then none else some (.stwu rd ra d)
  | _ => none

namespace Ppc

/-- The register, or zero for the first one. -/
def base (s : Ppc) (ra : Gpr) : Word := if ra = 0 then 0 else s.gpr ra

def set (s : Ppc) (rd : Gpr) (value : Word) : Ppc := { s with gpr := Function.update s.gpr rd value }

def next (s : Ppc) : Ppc := { s with pc := s.pc + 4 }

/-- A store of a word, if all four bytes may be written. -/
def store (writable : ℕ → Bool) (s : Ppc) (addr value : Word) : Option Ppc :=
  if (List.range 4).all fun i => writable (addr.toNat + i) then
    some { s with mem := storeAt s.mem addr.toNat (be32 value), bus := s.bus ++ [.store addr] }
  else none

/-- What an instruction does. -/
def exec (writable : ℕ → Bool) : PpcInstr → Ppc → Option Ppc
  | .addi rd ra simm, s => some (s.set rd (s.base ra + simm.signExtend 32)).next
  | .addis rd ra simm, s => some (s.set rd (s.base ra + simm.signExtend 32 <<< 16)).next
  | .ori ra rs uimm, s => some (s.set ra (s.gpr rs ||| uimm.setWidth 32)).next
  | .add rd ra rb, s => some (s.set rd (s.gpr ra + s.gpr rb)).next
  | .mr ra rs, s => some (s.set ra (s.gpr rs)).next
  | .srwi ra rs shift, s => some (s.set ra (s.gpr rs >>> shift)).next
  | .lwz rd ra d, s => some (s.set rd (readBe32 s.mem (s.base ra + d.signExtend 32).toNat)).next
  | .stw rs ra d, s => (s.store writable (s.base ra + d.signExtend 32) (s.gpr rs)).map next
  | .stwu rs ra d, s =>
    (s.store writable (s.gpr ra + d.signExtend 32) (s.gpr rs)).map fun t => (t.set ra (s.gpr ra + d.signExtend 32)).next
  | .cmplw ra rb, s => some { s with lt := (s.gpr ra).ult (s.gpr rb) }.next
  | .blt disp, s => some (if s.lt then { s with pc := s.pc + disp } else s.next)
  | .bdnz disp, s =>
    some (if s.ctr - 1 ≠ 0 then { s with ctr := s.ctr - 1, pc := s.pc + disp } else { s with ctr := s.ctr - 1 }.next)
  | .mtctr rs, s => some { s with ctr := s.gpr rs }.next
  | .bctr, s => some { s with pc := s.ctr &&& ~~~3 }
  | .mtmsr rs, s => some { s with msr := s.gpr rs }.next
  | .dcbf ra rb, s => some { s with bus := s.bus ++ [PpcBus.dcbf (s.base ra + s.gpr rb)] }.next
  | .icbi ra rb, s => some { s with bus := s.bus ++ [PpcBus.icbi (s.base ra + s.gpr rb)] }.next
  | .sync, s => some s.next
  | .isync, s => some s.next

variable {writable : ℕ → Bool} {instr : PpcInstr} {s t : Ppc}

theorem store_eq (s : Ppc) {addr : Word} (value : Word) (free : ∀ i < 4, writable (addr.toNat + i) = true) :
    s.store writable addr value =
      some { s with mem := storeAt s.mem addr.toNat (be32 value), bus := s.bus ++ [.store addr] } :=
  if_pos (List.all_eq_true.mpr fun i below => free i (List.mem_range.mp below))

theorem store_free {addr value : Word} (stored : s.store writable addr value = some t) :
    s.store (fun _ => true) addr value = some t ∧ ∀ a, writable a = false → t.mem a = s.mem a := by
  rw [store] at stored
  split_ifs at stored with free
  cases stored
  refine ⟨store_eq s value fun _ _ => rfl, fun a kept => storeAt_outside _ ?_⟩
  by_contra inside
  have allowed := List.all_eq_true.mp free (a - addr.toNat) (List.mem_range.mpr (by rw [length_be32] at inside; omega))
  rw [Nat.add_sub_cancel' (by omega), kept] at allowed
  cases allowed

theorem exec_free (executed : exec writable instr s = some t) :
    exec (fun _ => true) instr s = some t ∧ ∀ a, writable a = false → t.mem a = s.mem a := by
  cases instr with
  | stw rs ra d | stwu rs ra d =>
    obtain ⟨middle, stored, rfl⟩ := Option.map_eq_some_iff.mp executed
    obtain ⟨free, kept⟩ := store_free stored
    refine ⟨?_, kept⟩
    rw [exec, free]
    rfl
  | blt disp | bdnz disp =>
    refine ⟨executed, fun a _ => ?_⟩
    cases executed
    split <;> rfl
  | _ =>
    cases executed
    exact ⟨rfl, fun _ _ => rfl⟩

end Ppc

/-- The processor of the GameCube and the Wii. -/
def ppc : Processor Ppc PpcInstr where
  memory := Ppc.mem
  position s := s.pc.toNat
  decode memory a := decodePpc (readBe32 memory a)
  exec := Ppc.exec
  exec_free executed := (Ppc.exec_free executed).1
  exec_kept executed := (Ppc.exec_free executed).2

end KosTool.Firmware
