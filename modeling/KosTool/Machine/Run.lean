import Mathlib.Data.List.Basic

/-! # Finite runs of a partial labeled machine

A machine steps on an event or refuses it. `run?` replays a whole event list, `Along` says that
every step of a run is taken from a state and on an event that meet a condition, and an invariant
kept by the steps that meet the condition holds in every state such a run reaches.
-/

namespace Machine

/-- A partial step function: `none` is an event the state does not allow. -/
structure LabeledMachine (State Event : Type*) where
  step : State → Event → Option State

variable {State Event : Type*} (m : LabeledMachine State Event)

namespace LabeledMachine

/-- A source and an event list determine the state reached, if every event is allowed. -/
def run? : State → List Event → Option State
  | source, [] => some source
  | source, event :: rest => (m.step source event).bind fun next => run? next rest

/-- Every step of the run meets the condition, in the state it is taken from. -/
def Along (condition : State → Event → Prop) : State → List Event → Prop
  | _, [] => True
  | source, event :: rest => condition source event ∧
      match m.step source event with
      | some next => Along condition next rest
      | none => True

instance Along.decidable (condition : State → Event → Prop)
    [∀ source event, Decidable (condition source event)] :
    ∀ source events, Decidable (m.Along condition source events)
  | _, [] => inferInstanceAs (Decidable True)
  | source, event :: rest =>
    haveI : Decidable (match m.step source event with
        | some next => m.Along condition next rest
        | none => True) :=
      match m.step source event with
      | some next => Along.decidable condition next rest
      | none => inferInstanceAs (Decidable True)
    inferInstanceAs (Decidable (_ ∧ _))

variable {m}

@[simp] theorem run?_nil (source : State) : m.run? source [] = some source := rfl

theorem run?_cons_eq_some {source target : State} {event : Event} {rest : List Event} :
    m.run? source (event :: rest) = some target ↔
      ∃ next, m.step source event = some next ∧ m.run? next rest = some target := by
  simp only [run?, Option.bind_eq_some_iff]

/-- Runs compose at a cut. -/
theorem run?_append (source : State) (first second : List Event) :
    m.run? source (first ++ second) = (m.run? source first).bind fun middle => m.run? middle second := by
  induction first generalizing source with
  | nil => rfl
  | cons event rest ih => simp only [List.cons_append, run?, ih, Option.bind_assoc]

theorem run?_trans {source middle target : State} {first second : List Event}
    (left : m.run? source first = some middle) (right : m.run? middle second = some target) :
    m.run? source (first ++ second) = some target := by
  rw [run?_append, left, Option.bind_some, right]

theorem Along.head {condition : State → Event → Prop} {source : State} {event : Event}
    {rest : List Event} (along : m.Along condition source (event :: rest)) :
    condition source event := along.1

theorem Along.tail {condition : State → Event → Prop} {source next : State} {event : Event}
    {rest : List Event} (along : m.Along condition source (event :: rest))
    (step : m.step source event = some next) : m.Along condition next rest := by
  have tail := along.2
  rwa [step] at tail

theorem along_cons_of_step {condition : State → Event → Prop} {source next : State} {event : Event}
    {rest : List Event} (step : m.step source event = some next) :
    m.Along condition source (event :: rest) ↔ condition source event ∧ m.Along condition next rest := by
  simp only [Along, step]

/-- What holds of every step holds along every run. -/
theorem Along.of_forall {condition : State → Event → Prop} (always : ∀ source event, condition source event)
    {source : State} (events : List Event) : m.Along condition source events := by
  induction events generalizing source with
  | nil => trivial
  | cons event rest ih =>
    refine ⟨always source event, ?_⟩
    cases step : m.step source event with
    | none => trivial
    | some next => exact ih

/-- What holds of the events of a run holds along it. -/
theorem Along.of_events {condition : Event → Prop} {source : State} {events : List Event}
    (meets : ∀ event ∈ events, condition event) : m.Along (fun _ event => condition event) source events := by
  induction events generalizing source with
  | nil => trivial
  | cons event rest ih =>
    refine ⟨meets event List.mem_cons_self, ?_⟩
    cases step : m.step source event with
    | none => trivial
    | some next => exact ih fun later inside => meets later (List.mem_cons_of_mem _ inside)

/-- What holds along a run holds along its first part. -/
theorem Along.of_append {condition : State → Event → Prop} {source : State} {first rest : List Event}
    (along : m.Along condition source (first ++ rest)) : m.Along condition source first := by
  induction first generalizing source with
  | nil => trivial
  | cons event first ih =>
    refine ⟨along.head, ?_⟩
    cases step : m.step source event with
    | none => trivial
    | some next => exact ih (along.tail step)

/-- A condition that holds along a run holds at each of its steps. -/
theorem Along.at_cut {condition : State → Event → Prop} {source middle : State} {first rest : List Event}
    {event : Event} (along : m.Along condition source (first ++ event :: rest))
    (run : m.run? source first = some middle) : condition middle event := by
  induction first generalizing source with
  | nil =>
    cases run
    exact along.head
  | cons earlier first ih =>
    obtain ⟨next, step, suffix⟩ := run?_cons_eq_some.mp run
    exact ih (along.tail step) suffix

/-- An invariant kept by every step that meets the condition holds at the end of a run all of
whose steps meet it. -/
theorem run?_invariant {condition : State → Event → Prop} {Inv : State → Prop}
    (kept : ∀ source event next, Inv source → condition source event →
      m.step source event = some next → Inv next)
    {source target : State} {events : List Event} (initial : Inv source)
    (along : m.Along condition source events) (run : m.run? source events = some target) :
    Inv target := by
  induction events generalizing source with
  | nil => cases run; exact initial
  | cons event rest ih =>
    obtain ⟨next, step, suffix⟩ := run?_cons_eq_some.mp run
    exact ih (kept source event next initial along.head step) (along.tail step) suffix

/-- Under an invariant, a condition may be replaced step by step. -/
theorem Along.imp {condition other : State → Event → Prop} {Inv : State → Prop}
    (kept : ∀ source event next, Inv source → condition source event →
      m.step source event = some next → Inv next)
    (implied : ∀ source event, Inv source → condition source event → other source event)
    {source : State} {events : List Event} (initial : Inv source)
    (along : m.Along condition source events) : m.Along other source events := by
  induction events generalizing source with
  | nil => trivial
  | cons event rest ih =>
    refine ⟨implied source event initial along.head, ?_⟩
    cases step : m.step source event with
    | none => trivial
    | some next => exact ih (kept source event next initial along.head step) (along.tail step)

/-- Step conditions that are equivalent under an invariant hold along the same runs. -/
theorem along_congr_of_invariant {condition other : State → Event → Prop} {Inv : State → Prop}
    (kept : ∀ source event next, Inv source → m.step source event = some next → Inv next)
    (equivalent : ∀ source event, Inv source → (condition source event ↔ other source event))
    {source : State} (events : List Event) (initial : Inv source) :
    m.Along condition source events ↔ m.Along other source events :=
  ⟨Along.imp (fun source event next inv _ => kept source event next inv)
      (fun source event inv => (equivalent source event inv).mp) initial,
    Along.imp (fun source event next inv _ => kept source event next inv)
      (fun source event inv => (equivalent source event inv).mpr) initial⟩

/-- Step conditions that are equivalent under an invariant hold along the same guarded runs, if the
invariant is kept by the guarded steps that meet the first of them. -/
theorem along_congr_of_guarded {guard condition other : State → Event → Prop} {Inv : State → Prop}
    (kept : ∀ source event next, Inv source → guard source event → condition source event →
      m.step source event = some next → Inv next)
    (equivalent : ∀ source event, Inv source → guard source event → (condition source event ↔ other source event))
    {source : State} {events : List Event} (initial : Inv source) (guarded : m.Along guard source events) :
    m.Along condition source events ↔ m.Along other source events := by
  induction events generalizing source with
  | nil => exact Iff.rfl
  | cons event rest ih =>
    rw [Along, Along, ← equivalent source event initial guarded.head]
    refine and_congr_right fun met => ?_
    cases step : m.step source event with
    | none => exact Iff.rfl
    | some next => exact ih (kept source event next initial guarded.head met step) (guarded.tail step)

/-- Step conditions that are equivalent under an invariant hold along the same runs, if the invariant is kept
by the steps that meet the first of them. -/
theorem along_congr_of_kept {condition other : State → Event → Prop} {Inv : State → Prop}
    (kept : ∀ source event next, Inv source → condition source event →
      m.step source event = some next → Inv next)
    (equivalent : ∀ source event, Inv source → (condition source event ↔ other source event))
    {source : State} (events : List Event) (initial : Inv source) :
    m.Along condition source events ↔ m.Along other source events :=
  along_congr_of_guarded (fun source event next inv _ => kept source event next inv)
    (fun source event inv _ => equivalent source event inv) initial (Along.of_forall (fun _ _ => trivial) events)

/-- Equivalent step conditions hold along the same runs. -/
theorem along_congr {condition other : State → Event → Prop}
    (equivalent : ∀ source event, condition source event ↔ other source event)
    (source : State) (events : List Event) :
    m.Along condition source events ↔ m.Along other source events := by
  rw [show condition = other from funext fun source => funext fun event => propext (equivalent source event)]

end LabeledMachine

end Machine
