import Mathlib.Data.List.Forall2
import Mathlib.Data.List.Induction

/-! # Computations that may stop with an error

What is known of the parts once a sequence of them has gone through.
-/

namespace Fallible

universe u v w

variable {ε : Type u} {α β : Type v} {γ : Type w}

/-- A sequence has gone through exactly if both parts have. -/
theorem bind_eq_ok {first : Except ε α} {next : α → Except ε β} {result : β} :
    (first >>= next) = .ok result ↔ ∃ value, first = .ok value ∧ next value = .ok result := by
  cases first with
  | error message => exact ⟨nofun, fun ⟨_, same, _⟩ => nomatch same⟩
  | ok value => exact ⟨fun same => ⟨value, rfl, same⟩, fun ⟨_, same, rest⟩ => Except.ok.inj same ▸ rest⟩

theorem pure_eq_ok {value result : α} : (pure value : Except ε α) = .ok result ↔ value = result :=
  ⟨Except.ok.inj, congrArg Except.ok⟩

/-- A function of a result goes through exactly if the result does. -/
theorem map_eq_ok {computed : Except ε α} {f : α → β} {result : β} :
    computed.map f = .ok result ↔ ∃ value, computed = .ok value ∧ f value = result := by
  cases computed with
  | error message => exact ⟨nofun, fun ⟨_, same, _⟩ => nomatch same⟩
  | ok value => exact ⟨fun same => ⟨value, rfl, Except.ok.inj same⟩, fun ⟨_, same, rest⟩ => Except.ok.inj same ▸ rest ▸ rfl⟩

/-- A result that is there is that of a computation that has gone through. -/
theorem eq_ok_of_toOption {computed : Except ε α} {result : α} (there : computed.toOption = some result) :
    computed = .ok result := by
  cases computed with
  | error message => nomatch there
  | ok value => exact congrArg Except.ok (Option.some.inj there)

/-- A map that has gone through has a result for every element. -/
theorem forall₂_of_mapM {f : γ → Except ε β} {values : List γ} {results : List β}
    (through : values.mapM f = .ok results) : List.Forall₂ (fun value result => f value = .ok result) values results := by
  induction values generalizing results with
  | nil =>
    cases pure_eq_ok.mp (List.mapM_nil.symm.trans through)
    exact .nil
  | cons value rest ih =>
    rw [List.mapM_cons] at through
    obtain ⟨result, head, through⟩ := bind_eq_ok.mp through
    obtain ⟨others, tail, through⟩ := bind_eq_ok.mp through
    cases pure_eq_ok.mp through
    exact .cons head (ih tail)

/-- A map goes through if it does so for every element. -/
theorem exists_mapM {f : γ → Except ε β} {values : List γ} (all : ∀ value ∈ values, ∃ result, f value = .ok result) :
    ∃ results, values.mapM f = .ok results := by
  induction values with
  | nil => exact ⟨[], List.mapM_nil⟩
  | cons value rest ih =>
    obtain ⟨result, head⟩ := all value List.mem_cons_self
    obtain ⟨others, tail⟩ := ih fun other later => all other (List.mem_cons_of_mem value later)
    refine ⟨result :: others, ?_⟩
    rw [List.mapM_cons]
    exact bind_eq_ok.mpr ⟨result, head, bind_eq_ok.mpr ⟨others, tail, rfl⟩⟩

/-- A loop without a result that has gone through has done so for every element. -/
theorem forall_of_forM {f : γ → Except ε PUnit} {values : List γ} (through : values.forM f = .ok ⟨⟩) :
    ∀ value ∈ values, f value = .ok ⟨⟩ := by
  induction values with
  | nil => exact nofun
  | cons value rest ih =>
    obtain ⟨⟨⟩, head, tail⟩ := bind_eq_ok.mp through
    intro other member
    rcases List.mem_cons.mp member with rfl | later
    · exact head
    · exact ih tail other later

/-- What a loop with a state keeps, with the elements that it has been through. -/
theorem foldlM_induct {f : β → γ → Except ε β} {start result : β} {motive : List γ → β → Prop} (first : motive [] start)
    (step : ∀ done value state next, motive done state → f state value = .ok next → motive (done ++ [value]) next)
    {values : List γ} (through : values.foldlM f start = .ok result) : motive values result := by
  induction values using List.reverseRecOn generalizing result with
  | nil =>
    cases pure_eq_ok.mp through
    exact first
  | append_singleton done value ih =>
    rw [List.foldlM_append] at through
    obtain ⟨state, front, through⟩ := bind_eq_ok.mp through
    rw [List.foldlM_cons] at through
    obtain ⟨next, here, through⟩ := bind_eq_ok.mp through
    cases pure_eq_ok.mp through
    exact step done value state _ (ih front) here

/-- The position of a result is that of its element. -/
theorem getElem?_of_forall₂ {r : γ → β → Prop} {values : List γ} {results : List β}
    (related : List.Forall₂ r values results) {k : ℕ} {result : β} (at_k : results[k]? = some result) :
    ∃ value, values[k]? = some value ∧ r value result := by
  induction related generalizing k with
  | nil => nomatch at_k
  | cons head tail ih =>
    cases k with
    | zero =>
      cases at_k
      exact ⟨_, rfl, head⟩
    | succ k => exact ih at_k

end Fallible
