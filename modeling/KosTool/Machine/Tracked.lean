import KosTool.Machine.Fallible
import Mathlib.Data.List.TakeWhile

/-! # Computations whose accesses to memory are recorded

A computation lists the ranges of the buffers that it reads and writes, also those outside, and it may stop with an
error. It is safe if all the ranges are inside their buffers.
-/

universe u

/-- Some consecutive bytes of a buffer of a size. -/
structure Access (memory : Type) where
  memory : memory
  offset : ℕ
  count : ℕ
  size : ℕ
deriving Repr

/-- The bytes belong to the buffer. -/
def Access.Inside {memory : Type} (access : Access memory) : Prop := access.offset + access.count ≤ access.size

instance {memory : Type} (access : Access memory) : Decidable access.Inside := Nat.decLe _ _

/-- A computation: what it accesses, in order, and how it ends. -/
structure Tracked (memory : Type) (ε α : Type u) where
  trace : List (Access memory)
  result : Except ε α

namespace Tracked

variable {memory : Type} {ε α β : Type u}

instance : Monad (Tracked memory ε) where
  pure value := ⟨[], .ok value⟩
  bind first next :=
    match first.result with
    | .error message => ⟨first.trace, .error message⟩
    | .ok value => ⟨first.trace ++ (next value).trace, (next value).result⟩

theorem bind_of_error {first : Tracked memory ε α} {message : ε} (stops : first.result = .error message)
    (next : α → Tracked memory ε β) : first >>= next = ⟨first.trace, .error message⟩ := by
  obtain ⟨trace, result⟩ := first
  cases stops
  rfl

theorem bind_of_ok {first : Tracked memory ε α} {value : α} (through : first.result = .ok value)
    (next : α → Tracked memory ε β) : first >>= next = ⟨first.trace ++ (next value).trace, (next value).result⟩ := by
  obtain ⟨trace, result⟩ := first
  cases through
  rfl

instance : LawfulMonad (Tracked memory ε) := by
  refine LawfulMonad.mk' _ ?_ ?_ ?_
  · rintro α ⟨trace, message | value⟩
    · rfl
    · change Tracked.mk (trace ++ []) (.ok value) = _
      rw [List.append_nil]
  · exact fun _ _ => rfl
  · rintro α β γ ⟨trace, message | value⟩ next last
    · rfl
    · change Tracked.mk (trace ++ (next value).trace) (next value).result >>= last =
        Tracked.mk (trace ++ (next value >>= last).trace) (next value >>= last).result
      rcases here : (next value).result with message | middle
      · rw [bind_of_error here, bind_of_error rfl]
      · rw [bind_of_ok here, bind_of_ok rfl, List.append_assoc]

/-- An access to memory. -/
def touch (access : Access memory) : Tracked memory ε PUnit := ⟨[access], .ok ⟨⟩⟩

/-- A computation that accesses nothing. -/
def ofExcept (computed : Except ε α) : Tracked memory ε α := ⟨[], computed⟩

/-- Every access is inside its buffer. -/
def Inside (computed : Tracked memory ε α) : Prop := ∀ access ∈ computed.trace, access.Inside

theorem result_bind_eq_ok {first : Tracked memory ε α} {next : α → Tracked memory ε β} {value : β} :
    (first >>= next).result = .ok value ↔ ∃ middle, first.result = .ok middle ∧ (next middle).result = .ok value := by
  rcases here : first.result with message | middle
  · rw [bind_of_error here]
    exact ⟨nofun, fun ⟨_, same, _⟩ => nomatch same⟩
  · rw [bind_of_ok here]
    exact ⟨fun same => ⟨middle, rfl, same⟩, fun ⟨_, same, rest⟩ => Except.ok.inj same ▸ rest⟩

/-- A sequence is inside if both parts are, the second as far as it is reached. -/
theorem inside_bind_iff {first : Tracked memory ε α} {next : α → Tracked memory ε β} :
    (first >>= next).Inside ↔ first.Inside ∧ ∀ middle, first.result = .ok middle → (next middle).Inside := by
  rcases here : first.result with message | middle
  · rw [bind_of_error here]
    exact ⟨fun all => ⟨all, nofun⟩, And.left⟩
  · rw [bind_of_ok here]
    constructor
    · intro all
      refine ⟨fun access member => all access (List.mem_append_left _ member), ?_⟩
      rintro _ ⟨⟩ access member
      exact all access (List.mem_append_right _ member)
    · rintro ⟨front, back⟩ access member
      rcases List.mem_append.mp member with member | member
      · exact front access member
      · exact back middle rfl access member

theorem inside_touch_iff {access : Access memory} : (touch access : Tracked memory ε PUnit).Inside ↔ access.Inside :=
  List.forall_mem_singleton

theorem inside_ofExcept (computed : Except ε α) : (ofExcept computed : Tracked memory ε α).Inside := nofun

theorem inside_pure (value : α) : (pure value : Tracked memory ε α).Inside := nofun

/-- All accesses are inside, and a result has the property. -/
structure Safe (computed : Tracked memory ε α) (post : α → Prop) : Prop where
  inside : computed.Inside
  result : ∀ value, computed.result = .ok value → post value

namespace Safe

variable {post : α → Prop} {post' : β → Prop}

theorem pure {value : α} (holds : post value) : Safe (Pure.pure value : Tracked memory ε α) post :=
  ⟨inside_pure value, fun _ same => Except.ok.inj same ▸ holds⟩

theorem bind {first : Tracked memory ε α} {next : α → Tracked memory ε β} (safe : Safe first post)
    (rest : ∀ middle, post middle → Safe (next middle) post') : Safe (first >>= next) post' := by
  constructor
  · exact inside_bind_iff.mpr ⟨safe.inside, fun middle through => (rest middle (safe.result middle through)).inside⟩
  · intro value through
    obtain ⟨middle, front, back⟩ := result_bind_eq_ok.mp through
    exact (rest middle (safe.result middle front)).result value back

theorem mono {computed : Tracked memory ε α} {weaker : α → Prop} (safe : Safe computed post)
    (le : ∀ value, post value → weaker value) : Safe computed weaker :=
  ⟨safe.inside, fun value through => le value (safe.result value through)⟩

theorem touch {access : Access memory} (inside : access.Inside) :
    Safe (Tracked.touch access : Tracked memory ε PUnit) fun _ => True :=
  ⟨inside_touch_iff.mpr inside, fun _ _ => trivial⟩

/-- A computation that accesses nothing is safe, with what is known of its result. -/
theorem ofExcept {computed : Except ε α} (holds : ∀ value, computed = .ok value → post value) :
    Safe (Tracked.ofExcept computed : Tracked memory ε α) post :=
  ⟨inside_ofExcept computed, holds⟩

/-- A map has the property of every element. -/
theorem mapM {γ : Type u} {f : γ → Tracked memory ε α} {values : List γ} (safe : ∀ value ∈ values, Safe (f value) post) :
    Safe (values.mapM f) fun results => ∀ result ∈ results, post result := by
  induction values with
  | nil =>
    rw [List.mapM_nil]
    exact .pure nofun
  | cons value rest ih =>
    rw [List.mapM_cons]
    refine (safe value List.mem_cons_self).bind fun result head => ?_
    refine (ih fun other later => safe other (List.mem_cons_of_mem value later)).bind fun results tail => ?_
    exact .pure (List.forall_mem_cons.mpr ⟨head, tail⟩)

/-- A loop that goes through has established what its body does, for every element. -/
theorem forM {γ : Type u} {f : γ → Tracked memory ε PUnit} {each : γ → Prop} {values : List γ}
    (safe : ∀ value ∈ values, Safe (f value) fun _ => each value) :
    Safe (values.forM f) fun _ => ∀ value ∈ values, each value := by
  induction values with
  | nil => exact .pure nofun
  | cons value rest ih =>
    refine (safe value List.mem_cons_self).bind fun _ head => ?_
    refine (ih fun other later => safe other (List.mem_cons_of_mem value later)).mono fun _ tail => ?_
    exact List.forall_mem_cons.mpr ⟨head, tail⟩

/-- A loop whose body establishes nothing. -/
theorem loop {γ : Type u} {f : γ → Tracked memory ε PUnit} {values : List γ}
    (safe : ∀ value ∈ values, Safe (f value) fun _ => True) : Safe (values.forM f) fun _ => True :=
  (forM safe).mono fun _ _ => trivial

/-- A loop with a state keeps a property of it. -/
theorem foldlM {γ : Type u} {f : α → γ → Tracked memory ε α} {values : List γ} {start : α} (holds : post start)
    (safe : ∀ state, post state → ∀ value ∈ values, Safe (f state value) post) : Safe (values.foldlM f start) post := by
  induction values generalizing start with
  | nil => exact .pure holds
  | cons value rest ih =>
    rw [List.foldlM_cons]
    refine (safe start holds value List.mem_cons_self).bind fun next kept => ?_
    exact ih kept fun state holds other later => safe state holds other (List.mem_cons_of_mem value later)

end Safe

/-- A loop goes through if all its rounds do. -/
theorem result_forM {γ : Type u} {f : γ → Tracked memory ε PUnit} {values : List γ}
    (through : ∀ value ∈ values, (f value).result = .ok ⟨⟩) : (values.forM f).result = .ok ⟨⟩ := by
  induction values with
  | nil => rfl
  | cons value rest ih =>
    have tail := ih fun other later => through other (List.mem_cons_of_mem value later)
    exact result_bind_eq_ok.mpr ⟨⟨⟩, through value List.mem_cons_self, tail⟩

/-- A computation that takes steps until one stops it: it is inside if all steps before that one are. -/
structure Steps {γ : Type u} (computed : Tracked memory ε PUnit) (goes : γ → Bool) (inside : γ → Prop)
    (steps : List γ) : Prop where
  inside : computed.Inside ↔ ∀ step ∈ steps.takeWhile goes, inside step
  through : computed.result = .ok ⟨⟩ ↔ ∀ step ∈ steps, goes step = true

namespace Steps

variable {γ : Type u} {goes : γ → Bool} {inside : γ → Prop} {computed : Tracked memory ε PUnit}

/-- A computation that takes no step. -/
theorem nil (safe : computed.Inside) (through : computed.result = .ok ⟨⟩) : Steps computed goes inside [] :=
  ⟨⟨fun _ => nofun, fun _ => safe⟩, ⟨fun _ => nofun, fun _ => through⟩⟩

/-- A computation that takes one step, which may stop it before it accesses anything. -/
theorem one {step : γ} (through : goes step = true ↔ computed.result = .ok ⟨⟩)
    (safe : goes step = true → (computed.Inside ↔ inside step)) (stops : goes step = false → computed.Inside) :
    Steps computed goes inside [step] := by
  refine ⟨?_, through.symm.trans (List.forall_mem_singleton (p := fun other => goes other = true)).symm⟩
  rcases here : goes step
  · rw [List.takeWhile_cons_of_neg (by simp [here])]
    exact ⟨fun _ => nofun, fun _ => stops here⟩
  · rw [List.takeWhile_cons_of_pos here, List.takeWhile_nil, List.forall_mem_singleton]
    exact safe here

/-- The second part takes its steps if none of the first part stops it. -/
theorem bind {next : PUnit → Tracked memory ε PUnit} {front back : List γ} (first : Steps computed goes inside front)
    (second : Steps (next ⟨⟩) goes inside back) : Steps (computed >>= next) goes inside (front ++ back) := by
  constructor
  · rw [inside_bind_iff, first.inside]
    by_cases all : ∀ step ∈ front, goes step = true
    · have whole : front.takeWhile goes = front := List.takeWhile_eq_self_iff.mpr all
      rw [List.takeWhile_append, whole, if_pos rfl, List.forall_mem_append, ← second.inside]
      exact and_congr_right fun _ => ⟨fun rest => rest ⟨⟩ (first.through.mpr all), fun rest _ _ => rest⟩
    · have part : (front.takeWhile goes).length ≠ front.length := fun same =>
        all (List.takeWhile_eq_self_iff.mp ((List.takeWhile_prefix goes).eq_of_length same))
      rw [List.takeWhile_append, if_neg part]
      refine ⟨And.left, fun inside => ⟨inside, fun _ through => ?_⟩⟩
      exact absurd (first.through.mp through) all
  · rw [result_bind_eq_ok, List.forall_mem_append, ← first.through, ← second.through]
    exact ⟨fun ⟨_, head, tail⟩ => ⟨head, tail⟩, fun ⟨head, tail⟩ => ⟨⟨⟩, head, tail⟩⟩

/-- What comes before the first step changes nothing. -/
theorem after {first : Tracked memory ε α} {next : α → Tracked memory ε PUnit} {value : α} {steps : List γ}
    (safe : first.Inside) (through : first.result = .ok value) (rest : Steps (next value) goes inside steps) :
    Steps (first >>= next) goes inside steps := by
  have only {middle : α} (same : first.result = .ok middle) : middle = value := Except.ok.inj (same.symm.trans through)
  constructor
  · rw [inside_bind_iff, ← rest.inside]
    exact ⟨fun ⟨_, all⟩ => all value through, fun all => ⟨safe, fun _ same => only same ▸ all⟩⟩
  · rw [result_bind_eq_ok, ← rest.through]
    exact ⟨fun ⟨_, same, all⟩ => only same ▸ all, fun all => ⟨value, through, all⟩⟩

/-- A computation that no step stops is inside if all steps are. -/
theorem inside_iff_of_all {steps : List γ} (taken : Steps computed goes inside steps) (all : ∀ step, goes step = true) :
    computed.Inside ↔ ∀ step ∈ steps, inside step := by
  rw [taken.inside, List.takeWhile_eq_self_iff.mpr fun step _ => all step]

/-- A loop takes the steps of its rounds. -/
theorem forM {δ : Type u} {f : δ → Tracked memory ε PUnit} {steps : δ → List γ} {values : List δ}
    (rounds : ∀ value ∈ values, Steps (f value) goes inside (steps value)) :
    Steps (values.forM f) goes inside (values.flatMap steps) := by
  induction values with
  | nil => exact nil (inside_pure _) rfl
  | cons value rest ih =>
    rw [List.flatMap_cons]
    refine bind (rounds value List.mem_cons_self) ?_
    exact ih fun other later => rounds other (List.mem_cons_of_mem value later)

end Steps

end Tracked
