import KosTool.Machine.Run
import Mathlib.Data.Nat.Notation

/-! # Relations whose runs all end alike

If two different steps from one state can always be completed by one step each to a common state, then one run that
ends determines all others: none is longer, and every one can be continued to the same end.
-/

namespace Machine

variable {State : Type*}

/-- A run of a number of steps. -/
inductive Steps (step : State → State → Prop) : ℕ → State → State → Prop
  | refl (source : State) : Steps step 0 source source
  | head {source next target : State} {count : ℕ} (first : step source next) (rest : Steps step count next target) :
    Steps step (count + 1) source target

/-- No step is possible. -/
def Terminal (step : State → State → Prop) (state : State) : Prop := ∀ next, ¬ step state next

/-- Every run comes to an end at the state, whichever steps it takes. -/
def Settles (step : State → State → Prop) (source target : State) : Prop :=
  Terminal step target ∧ ∃ bound, ∀ count state, Steps step count source state →
    count ≤ bound ∧ Steps step (bound - count) state target

/-- Two steps from a state are the same or meet again after one more each. -/
def Diamond (step : State → State → Prop) : Prop :=
  ∀ source left right, step source left → step source right →
    left = right ∨ ∃ meeting, step left meeting ∧ step right meeting

variable {step : State → State → Prop} {source middle target left right : State} {first second count : ℕ}

theorem Steps.single (once : step source target) : Steps step 1 source target := .head once (.refl target)

theorem Steps.trans (one : Steps step first source middle) (other : Steps step second middle target) :
    Steps step (first + second) source target := by
  induction one with
  | refl source =>
    rw [Nat.zero_add]
    exact other
  | head move rest ih =>
    rw [Nat.add_right_comm]
    exact .head move (ih other)

/-- Some run leads from one state to the other. -/
def Reaches (step : State → State → Prop) (source target : State) : Prop := ∃ count, Steps step count source target

theorem Reaches.refl (source : State) : Reaches step source source := ⟨0, .refl source⟩

theorem Reaches.single (once : step source target) : Reaches step source target := ⟨1, .single once⟩

theorem Reaches.trans (one : Reaches step source middle) (other : Reaches step middle target) :
    Reaches step source target := by
  obtain ⟨first, one⟩ := one
  obtain ⟨second, other⟩ := other
  exact ⟨first + second, one.trans other⟩

/-- A run to an end can begin with any step there is. -/
theorem Steps.after (diamond : Diamond step) (ended : Terminal step target) (run : Steps step count source target)
    (other : step source left) : 0 < count ∧ Steps step (count - 1) left target := by
  induction run generalizing left with
  | refl source => exact absurd other (ended left)
  | head move rest ih =>
    refine ⟨Nat.succ_pos _, ?_⟩
    rcases diamond _ _ _ move other with rfl | ⟨meeting, here, there⟩
    · exact rest
    · obtain ⟨positive, onward⟩ := ih ended here
      have whole := Steps.head there onward
      rwa [Nat.sub_add_cancel positive] at whole

/-- One run to an end settles all. -/
theorem settles_of_reaches (diamond : Diamond step) (ended : Terminal step target)
    (run : Reaches step source target) : Settles step source target := by
  obtain ⟨bound, run⟩ := run
  refine ⟨ended, bound, fun count state other => ?_⟩
  induction other generalizing bound with
  | refl source => exact ⟨Nat.zero_le _, run⟩
  | head move rest ih =>
    obtain ⟨positive, onward⟩ := run.after diamond ended move
    obtain ⟨bounded, finish⟩ := ih _ onward
    refine ⟨Nat.add_le_of_le_sub positive bounded, ?_⟩
    rwa [Nat.sub_sub, Nat.add_comm 1] at finish

/-- Every state that is reached settles at the same end. -/
theorem Settles.onward (settles : Settles step source target) (reached : Reaches step source middle) :
    Settles step middle target := by
  obtain ⟨ended, bound, runs⟩ := settles
  obtain ⟨passed, reached⟩ := reached
  refine ⟨ended, bound - passed, fun count state run => ?_⟩
  obtain ⟨bounded, finish⟩ := runs _ _ (reached.trans run)
  exact ⟨Nat.le_sub_of_add_le' bounded, by rwa [Nat.sub_sub]⟩

theorem Settles.reaches (settles : Settles step source target) : Reaches step source target := by
  obtain ⟨-, bound, runs⟩ := settles
  exact ⟨_, (runs 0 source (.refl source)).2⟩

/-- There is only one end. -/
theorem Settles.eq_of_terminal (settles : Settles step source target) (reached : Reaches step source middle)
    (ended : Terminal step middle) : middle = target := by
  obtain ⟨count, run⟩ := (settles.onward reached).reaches
  cases run with
  | refl => rfl
  | head move rest => exact absurd move (ended _)

end Machine

/-! # What is reached whatever the inputs are

A goal is inevitable in a state if every sequence of inputs leads to it after some steps. A measure that every stretch of
steps lowers makes a goal inevitable, and stretches are put together from shorter ones.
-/

namespace Machine

variable {State Input : Type*}

/-- Whatever the inputs are, the goal is reached. -/
inductive Inevitable (step : State → Input → State) (goal : State → Prop) : State → Prop
  | now {source : State} (reached : goal source) : Inevitable step goal source
  | later {source : State} (onward : ∀ input, Inevitable step goal (step source input)) : Inevitable step goal source

namespace Inevitable

variable {step : State → Input → State} {goal middle : State → Prop} {source : State}

/-- One stretch behind the other. -/
theorem trans (first : Inevitable step middle source) (onward : ∀ next, middle next → Inevitable step goal next) :
    Inevitable step goal source := by
  induction first with
  | now reached => exact onward _ reached
  | later _ ih => exact .later ih

theorem mono (first : Inevitable step middle source) (implied : ∀ next, middle next → goal next) :
    Inevitable step goal source :=
  first.trans fun next reached => .now (implied next reached)

/-- Every stretch comes to the goal or lowers the measure. -/
theorem of_measure {Inv : State → Prop} (measure : State → ℕ)
    (stretch : ∀ source, Inv source →
      Inevitable step (fun next => goal next ∨ Inv next ∧ measure next < measure source) source)
    (initial : Inv source) : Inevitable step goal source := by
  induction size : measure source using Nat.strongRecOn generalizing source with
  | ind bound ih =>
    refine (stretch source initial).trans fun next reached => ?_
    rcases reached with done | ⟨kept, smaller⟩
    · exact .now done
    · exact ih _ (size ▸ smaller) kept rfl

/-- The goal is reached by some first part of any sequence of inputs. -/
theorem exists_prefix (inevitable : Inevitable step goal source) (inputs : ℕ → Input) :
    ∃ count, goal (((List.range count).map inputs).foldl step source) := by
  induction inevitable generalizing inputs with
  | now reached => exact ⟨0, reached⟩
  | later _ ih =>
    obtain ⟨count, reached⟩ := ih (inputs 0) fun i => inputs (i + 1)
    refine ⟨count + 1, ?_⟩
    rw [List.range_succ_eq_map, List.map_cons, List.foldl_cons, List.map_map]
    exact reached

end Inevitable

/-- A machine that takes every input of a kind runs through all of them. -/
theorem LabeledMachine.run?_map_of_total {Event : Type*} {m : LabeledMachine State Event} {step : State → Input → State}
    {label : Input → Event} (total : ∀ source input, m.step source (label input) = some (step source input))
    (source : State) (inputs : List Input) : m.run? source (inputs.map label) = some (inputs.foldl step source) := by
  induction inputs generalizing source with
  | nil => rfl
  | cons input rest ih =>
    rw [List.map_cons, List.foldl_cons]
    exact LabeledMachine.run?_cons_eq_some.mpr ⟨step source input, total source input, ih _⟩

end Machine
