import KosTool.Machine.Settling
import KosTool.Math.ByteWord

/-! # Programs in the memory they work on

A processor decodes the bytes at its program counter, and its stores can change them. A listing gives the instructions at
some addresses and the bytes they come from; executed from the listing, an instruction that stores into these bytes is
refused. What can be executed from the listing is executed in the same way from a memory that holds its bytes.
-/

namespace Machine

open ByteWord

/-- A processor: how an instruction is decoded from the memory, and what it does where it may store only into some
bytes. It is refused where it stores into others. -/
structure Processor (State Instr : Type*) where
  memory : State → Buffer
  position : State → ℕ
  decode : Buffer → ℕ → Option Instr
  exec : (ℕ → Bool) → Instr → State → Option State
  exec_free : ∀ {writable instr source next}, exec writable instr source = some next →
    exec (fun _ => true) instr source = some next
  exec_kept : ∀ {writable instr source next}, exec writable instr source = some next →
    ∀ a, writable a = false → memory next a = memory source a

variable {State Instr : Type*}

namespace Processor

variable (p : Processor State Instr)

/-- The instruction at the program counter is executed. -/
def step (source : State) : Option State :=
  (p.decode (p.memory source) (p.position source)).bind fun instr => p.exec (fun _ => true) instr source

/-- A step of the processor. -/
def Step (source next : State) : Prop := p.step source = some next

end Processor

/-- Instructions by their addresses, and the bytes they are decoded from. -/
structure Listing (p : Processor State Instr) where
  code : ℕ → Option Instr
  writable : ℕ → Bool
  image : Buffer
  decodes : ∀ {memory : Buffer}, (∀ a, writable a = false → memory a = image a) →
    ∀ {a instr}, code a = some instr → p.decode memory a = some instr

namespace Listing

variable {p : Processor State Instr} (l : Listing p)

/-- The memory holds the bytes of the listing. -/
def Intact (source : State) : Prop := ∀ a, l.writable a = false → p.memory source a = l.image a

/-- The listed instruction at the program counter is executed. -/
def step (source : State) : Option State := (l.code (p.position source)).bind fun instr => p.exec l.writable instr source

/-- A step by the listing. -/
def Step (source next : State) : Prop := l.step source = some next

/-- So many steps by the listing. -/
def run : ℕ → State → Option State
  | 0, source => some source
  | count + 1, source => (l.step source).bind (run count)

variable {l} {source next target : State}

theorem reaches_of_run {count : ℕ} (ran : l.run count source = some target) : Reaches l.Step source target := by
  induction count generalizing source with
  | zero =>
    obtain rfl := Option.some.inj ran
    exact .refl _
  | succ count ih =>
    obtain ⟨next, stepped, ran⟩ := Option.bind_eq_some_iff.mp ran
    have moved : l.Step source next := stepped
    exact (Reaches.single moved).trans (ih ran)

/-- A step by the listing is one of the processor, and leaves the bytes of the listing. -/
theorem Intact.step (intact : l.Intact source) (stepped : l.Step source next) : p.Step source next ∧ l.Intact next := by
  obtain ⟨instr, listed, executed⟩ := Option.bind_eq_some_iff.mp stepped
  refine ⟨Option.bind_eq_some_iff.mpr ⟨instr, l.decodes intact listed, p.exec_free executed⟩, fun a kept => ?_⟩
  rw [p.exec_kept executed a kept]
  exact intact a kept

/-- What is reached by the listing is reached by the processor. -/
theorem Intact.reaches (intact : l.Intact source) (reached : Reaches l.Step source target) :
    Reaches p.Step source target ∧ l.Intact target := by
  obtain ⟨count, steps⟩ := reached
  induction steps with
  | refl source => exact ⟨.refl source, intact⟩
  | head first rest ih =>
    obtain ⟨moved, intact⟩ := intact.step first
    obtain ⟨reached, intact⟩ := ih intact
    exact ⟨(Reaches.single moved).trans reached, intact⟩

end Listing

/-- A loop: each round leads from one member of a family of conditions to the next. -/
theorem Reaches.loop {step : State → State → Prop} {family : ℕ → State → Prop} {count : ℕ} {source : State}
    (body : ∀ k < count, ∀ source, family k source → ∃ next, Reaches step source next ∧ family (k + 1) next)
    (initial : family 0 source) : ∃ target, Reaches step source target ∧ family count target := by
  induction count with
  | zero => exact ⟨source, .refl source, initial⟩
  | succ count ih =>
    obtain ⟨middle, reached, here⟩ := ih fun k below => body k (Nat.lt_succ_of_lt below)
    obtain ⟨target, round, there⟩ := body count (Nat.lt_succ_self count) middle here
    exact ⟨target, reached.trans round, there⟩

end Machine
