import Mathlib.Data.Option.Basic
import Mathlib.Tactic.SplitIfs

/-! # Two parties on one line

A party is the tree of what it speaks and hears: one message of a kind after another, up to a result. Two parties
are in step if whatever one of them speaks the other hears next, as the same kind, and they end together.
-/

namespace Machine

/-- A party of a dialogue whose messages carry `Content kind`. -/
inductive Party {Kind : Type} (Content : Kind → Type) (Result : Type) where
  | ends (result : Result)
  | speaks (kind : Kind) (content : Content kind) (next : Party Content Result)
  | hears (kind : Kind) (next : Content kind → Party Content Result)

namespace Party

variable {Kind : Type} {Content : Kind → Type} {α β γ δ : Type}

/-- The party goes on as another once it has its result. -/
def andThen : Party Content α → (α → Party Content β) → Party Content β
  | .ends result, follow => follow result
  | .speaks kind content next, follow => .speaks kind content (next.andThen follow)
  | .hears kind next, follow => .hears kind fun content => (next content).andThen follow

instance : Monad (Party Content) where
  pure := .ends
  bind := andThen

@[simp] theorem pure_bind (result : α) (follow : α → Party Content β) :
    ((pure result : Party Content α) >>= follow) = follow result := rfl

@[simp] theorem ends_bind (result : α) (follow : α → Party Content β) :
    (Party.ends result >>= follow) = follow result := rfl

@[simp] theorem speaks_bind (kind : Kind) (content : Content kind) (next : Party Content α)
    (follow : α → Party Content β) :
    (Party.speaks kind content next >>= follow) = Party.speaks kind content (next >>= follow) := rfl

@[simp] theorem hears_bind (kind : Kind) (next : Content kind → Party Content α) (follow : α → Party Content β) :
    (Party.hears kind next >>= follow) = Party.hears kind fun content => next content >>= follow := rfl

protected theorem bind_assoc (party : Party Content α) (follow : α → Party Content β) (last : β → Party Content γ) :
    (party >>= follow >>= last) = party >>= fun result => follow result >>= last := by
  induction party with
  | ends result => rfl
  | speaks kind content next ih => exact congrArg (Party.speaks kind content) ih
  | hears kind next ih => exact congrArg (Party.hears kind) (funext ih)

protected theorem ite_bind (condition : Prop) [Decidable condition] (first second : Party Content α)
    (follow : α → Party Content β) :
    ((if condition then first else second) >>= follow) = if condition then first >>= follow else second >>= follow :=
  apply_ite (· >>= follow) condition first second

/-- Speak one message. -/
def speak (kind : Kind) (content : Content kind) : Party Content Unit := .speaks kind content (.ends ())

/-- Hear one message. -/
def hear (kind : Kind) : Party Content (Content kind) := .hears kind .ends

variable [DecidableEq Kind]

/-- Both results, if the parties stay in step to the end. -/
def converse : Party Content α → Party Content β → Option (α × β)
  | .ends result, .ends other => some (result, other)
  | .speaks kind content next, .hears expected listen =>
    if same : kind = expected then converse next (listen (same ▸ content)) else none
  | .hears expected listen, .speaks kind content next =>
    if same : kind = expected then converse (listen (same ▸ content)) next else none
  | _, _ => none

/-- The parties stay in step to the end. -/
def InStep (first : Party Content α) (second : Party Content β) : Prop := (converse first second).isSome

instance (first : Party Content α) (second : Party Content β) : Decidable (InStep first second) :=
  inferInstanceAs (Decidable (_ = true))

@[simp] theorem converse_ends (result : α) (other : β) :
    converse (.ends result : Party Content α) (.ends other) = some (result, other) := rfl

@[simp] theorem converse_speak (kind : Kind) (content : Content kind) (next : Unit → Party Content α)
    (listen : Content kind → Party Content β) :
    converse (speak kind content >>= next) (hear kind >>= listen) = converse (next ()) (listen content) :=
  dif_pos rfl

@[simp] theorem converse_hear (kind : Kind) (content : Content kind) (listen : Content kind → Party Content α)
    (next : Unit → Party Content β) :
    converse (hear kind >>= listen) (speak kind content >>= next) = converse (listen content) (next ()) :=
  dif_pos rfl

theorem converse_speak_of_ne {kind expected : Kind} (other : kind ≠ expected) (content : Content kind)
    (next : Unit → Party Content α) (listen : Content expected → Party Content β) :
    converse (speak kind content >>= next) (hear expected >>= listen) = none := dif_neg other

theorem converse_hear_of_ne {kind expected : Kind} (other : kind ≠ expected) (content : Content kind)
    (listen : Content expected → Party Content α) (next : Unit → Party Content β) :
    converse (hear expected >>= listen) (speak kind content >>= next) = none := dif_neg other

@[simp] theorem converse_pure (result : α) (other : β) :
    converse (pure result : Party Content α) (pure other) = some (result, other) := rfl

/-- Both speak at once. -/
@[simp] theorem converse_speak_speak (kind other : Kind) (content : Content kind) (answer : Content other)
    (next : Unit → Party Content α) (follow : Unit → Party Content β) :
    converse (speak kind content >>= next) (speak other answer >>= follow) = none := rfl

/-- One party has ended while the other still speaks. -/
@[simp] theorem converse_ends_speak (result : α) (kind : Kind) (content : Content kind)
    (next : Unit → Party Content β) :
    converse (.ends result : Party Content α) (speak kind content >>= next) = none := rfl

/-- Parties that end a dialogue in step go on with what follows. -/
theorem converse_bind {first : Party Content α} {second : Party Content β} {result : α} {other : β}
    (inStep : converse first second = some (result, other)) (next : α → Party Content γ)
    (follow : β → Party Content δ) :
    converse (first >>= next) (second >>= follow) = converse (next result) (follow other) := by
  induction first generalizing second with
  | ends a =>
    cases second with
    | ends b =>
      obtain ⟨rfl, rfl⟩ := Prod.mk.inj (Option.some.inj inStep)
      rfl
    | speaks kind content rest => cases inStep
    | hears kind rest => cases inStep
  | speaks kind content rest ih =>
    cases second with
    | ends b => cases inStep
    | speaks expected spoken others => cases inStep
    | hears expected listen =>
      unfold converse at inStep
      split_ifs at inStep with same
      cases same
      rw [speaks_bind, hears_bind]
      exact (dif_pos rfl).trans (ih inStep)
  | hears expected listen ih =>
    cases second with
    | ends b => cases inStep
    | hears kind others => cases inStep
    | speaks kind content rest =>
      unfold converse at inStep
      split_ifs at inStep with same
      cases same
      rw [speaks_bind, hears_bind]
      exact (dif_pos rfl).trans (ih content inStep)

end Party

end Machine
