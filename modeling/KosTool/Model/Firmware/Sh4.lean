import KosTool.Machine.StoredProgram
import KosTool.Math.ByteOrder
import Mathlib.Logic.Function.Basic

/-! # The SH-4 instructions of the firmware trampoline

The instructions that the Dreamcast trampoline of `firmware_update.c` consists of, by their encodings. The segments of the
address space are views of one memory, but for the control registers at its top.
-/

namespace KosTool.Firmware

open ByteWord Machine

/-- A general register, by its number. -/
abbrev Sh4Reg := ℕ

inductive Sh4Instr where
  | movlPc (rn : Sh4Reg) (disp : BitVec 8)
  | movbLoadInc (rn rm : Sh4Reg)
  | movbStore (rn rm : Sh4Reg)
  | movlStore (rn rm : Sh4Reg)
  | addImm (rn : Sh4Reg) (imm : BitVec 8)
  | dt (rn : Sh4Reg)
  | bf (disp : BitVec 8)
  | ldcSr (rm : Sh4Reg)
  | jmp (rn : Sh4Reg)
  | nop
deriving DecidableEq, Repr

/-- What the memory system sees besides loads and fetches. -/
inductive Sh4Bus where
  | store (addr : Word)
  | control (addr value : Word)
deriving DecidableEq, Repr

/-- The state, with the first eight registers of the bank that is not in use, and the target of a jump that waits for the
instruction behind it. -/
structure Sh4 where
  gpr : Sh4Reg → Word
  banked : Sh4Reg → Word
  sr : Word
  t : Bool
  pc : Word
  jump : Option Word
  mem : Buffer
  bus : List Sh4Bus

/-- The place in the memory that an address of the segments P0 to P3 names. -/
def sh4Phys (addr : Word) : ℕ := addr.toNat % 2 ^ 29

def sh4Field (instr : BitVec 16) (start : ℕ) : Sh4Reg := (instr.extractLsb' start 4).toNat

def decodeSh4 (instr : BitVec 16) : Option Sh4Instr :=
  let rn := sh4Field instr 8
  let rm := sh4Field instr 4
  let imm := instr.extractLsb' 0 8
  match (instr.extractLsb' 12 4).toNat with
  | 0 => if instr = 0x0009 then some .nop else none
  | 2 =>
    match (instr.extractLsb' 0 4).toNat with
    | 0 => some (.movbStore rn rm)
    | 2 => some (.movlStore rn rm)
    | _ => none
  | 4 =>
    match imm.toNat with
    | 0x0e => some (.ldcSr rn)
    | 0x10 => some (.dt rn)
    | 0x2b => some (.jmp rn)
    | _ => none
  | 6 => if instr.extractLsb' 0 4 = 4 then some (.movbLoadInc rn rm) else none
  | 7 => some (.addImm rn imm)
  | 8 => if rn = 11 then some (.bf imm) else none
  | 13 => some (.movlPc rn imm)
  | _ => none

namespace Sh4

def set (s : Sh4) (rn : Sh4Reg) (value : Word) : Sh4 := { s with gpr := Function.update s.gpr rn value }

def next (s : Sh4) : Sh4 := { s with pc := s.jump.getD (s.pc + 2), jump := none }

/-- The status register selects the bank of the first eight registers. -/
def setSr (s : Sh4) (value : Word) : Sh4 :=
  if s.sr.getLsbD 29 = value.getLsbD 29 then { s with sr := value, t := value.getLsbD 0 }
  else
    { s with
      sr := value
      t := value.getLsbD 0
      gpr := fun r => if r < 8 then s.banked r else s.gpr r
      banked := s.gpr }

/-- A store, if all bytes may be written; at the top of the address space it is one to a control register. -/
def store (writable : ℕ → Bool) (s : Sh4) (addr value : Word) (bytes : List Byte) : Option Sh4 :=
  if 0xe0000000 ≤ addr.toNat then some { s with bus := s.bus ++ [.control addr value] }
  else if (List.range bytes.length).all fun i => writable (sh4Phys addr + i) then
    some { s with mem := storeAt s.mem (sh4Phys addr) bytes, bus := s.bus ++ [.store addr] }
  else none

/-- What an instruction does. -/
def exec (writable : ℕ → Bool) : Sh4Instr → Sh4 → Option Sh4
  | .movlPc rn disp, s =>
    some (s.set rn (ByteOrder.little.load32 s.mem (sh4Phys ((s.pc &&& 0xfffffffc) + 4 + disp.setWidth 32 <<< 2)))).next
  | .movbLoadInc rn rm, s =>
    -- the increment is lost where both are the same register
    some ((s.set rm (s.gpr rm + 1)).set rn ((s.mem (sh4Phys (s.gpr rm))).signExtend 32)).next
  | .movbStore rn rm, s => (s.store writable (s.gpr rn) (s.gpr rm) [(s.gpr rm).setWidth 8]).map next
  | .movlStore rn rm, s =>
    (s.store writable (s.gpr rn) (s.gpr rm) (be32 (ByteOrder.little.htonl (s.gpr rm)))).map next
  | .addImm rn imm, s => some (s.set rn (s.gpr rn + imm.signExtend 32)).next
  | .dt rn, s => some { s.set rn (s.gpr rn - 1) with t := s.gpr rn - 1 = 0 }.next
  | .bf disp, s => some (if s.t then s.next else { s with pc := s.pc + 4 + disp.signExtend 32 <<< 1, jump := none })
  | .ldcSr rm, s => some (s.setSr (s.gpr rm)).next
  | .jmp rn, s => some { s.next with jump := some (s.gpr rn) }
  | .nop, s => some s.next

variable {writable : ℕ → Bool} {instr : Sh4Instr} {s t : Sh4}

theorem store_free {addr value : Word} {bytes : List Byte} (stored : s.store writable addr value bytes = some t) :
    s.store (fun _ => true) addr value bytes = some t ∧ ∀ a, writable a = false → t.mem a = s.mem a := by
  rw [store] at stored ⊢
  split_ifs at stored with top free
  · cases stored
    rw [if_pos top]
    exact ⟨rfl, fun _ _ => rfl⟩
  · cases stored
    rw [if_neg top, if_pos (List.all_eq_true.mpr fun _ _ => rfl)]
    refine ⟨rfl, fun a kept => storeAt_outside _ ?_⟩
    by_contra inside
    have allowed := List.all_eq_true.mp free (a - sh4Phys addr) (List.mem_range.mpr (by omega))
    rw [Nat.add_sub_cancel' (by omega), kept] at allowed
    cases allowed

theorem exec_free (executed : exec writable instr s = some t) :
    exec (fun _ => true) instr s = some t ∧ ∀ a, writable a = false → t.mem a = s.mem a := by
  cases instr with
  | movbStore rn rm | movlStore rn rm =>
    obtain ⟨middle, stored, rfl⟩ := Option.map_eq_some_iff.mp executed
    obtain ⟨free, kept⟩ := store_free stored
    refine ⟨?_, kept⟩
    rw [exec, free]
    rfl
  | bf disp =>
    refine ⟨executed, fun a _ => ?_⟩
    cases executed
    split <;> rfl
  | ldcSr rm =>
    refine ⟨executed, fun a _ => ?_⟩
    cases executed
    rw [next, setSr]
    split <;> rfl
  | _ =>
    cases executed
    exact ⟨rfl, fun _ _ => rfl⟩

end Sh4

/-- The processor of the Dreamcast. -/
def sh4 : Processor Sh4 Sh4Instr where
  memory := Sh4.mem
  position s := sh4Phys s.pc
  decode memory a := decodeSh4 (ByteOrder.little.load16 memory a)
  exec := Sh4.exec
  exec_free executed := (Sh4.exec_free executed).1
  exec_kept executed := (Sh4.exec_free executed).2

end KosTool.Firmware
