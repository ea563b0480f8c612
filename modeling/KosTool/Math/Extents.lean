import Mathlib.Algebra.GroupWithZero.Nat
import Mathlib.Data.List.Chain
import Mathlib.Data.List.Nodup
import Mathlib.Data.List.Perm.Subperm
import Mathlib.Data.List.Range

/-! # Extents that follow one another

An extent is a range of places by its start and its size. A cursor that only moves on places extents before one another,
and extents before one another share no place.
-/

/-- The places from a start on, as many as the size. -/
structure Extent where
  start : ℕ
  size : ℕ
deriving DecidableEq, Repr

namespace Extent

/-- The first place behind the extent. -/
def stop (extent : Extent) : ℕ := extent.start + extent.size

/-- The place belongs to the extent. -/
def Holds (extent : Extent) (place : ℕ) : Prop := extent.start ≤ place ∧ place < extent.stop

/-- The first extent ends where the second starts, or before it. -/
def Before (first second : Extent) : Prop := first.stop ≤ second.start

instance (first second : Extent) : Decidable (first.Before second) := inferInstanceAs (Decidable (_ ≤ _))

theorem start_le_stop (extent : Extent) : extent.start ≤ extent.stop := Nat.le_add_right _ _

theorem Before.trans {first second third : Extent} (front : first.Before second) (rest : second.Before third) :
    first.Before third := (Nat.le_trans front second.start_le_stop).trans rest

instance : IsTrans Extent Before := ⟨fun _ _ _ => Before.trans⟩

/-- Extents of which one is before the other share no place. -/
theorem Before.apart {first second : Extent} (before : first.Before second) {place : ℕ} (inside : first.Holds place) :
    ¬second.Holds place := fun other => absurd (inside.2.trans_le before) (Nat.not_lt.mpr other.1)

/-- The extents share no place, for one of them is before the other. -/
def Clear (first second : Extent) : Prop := first.Before second ∨ second.Before first

instance (first second : Extent) : Decidable (first.Clear second) := inferInstanceAs (Decidable (_ ∨ _))

theorem Clear.symm {first second : Extent} (clear : first.Clear second) : second.Clear first := Or.symm clear

theorem Clear.apart {first second : Extent} (clear : first.Clear second) {place : ℕ} (inside : first.Holds place) :
    ¬second.Holds place := by
  rcases clear with before | behind
  · exact before.apart inside
  · exact fun other => behind.apart other inside

/-- The extents stand in their order, each before all later ones. -/
def Ordered (extents : List Extent) : Prop := extents.Pairwise Before

/-- It is enough that each extent is before the next one. -/
theorem ordered_of_chain {extents : List Extent} (chain : extents.IsChain Before) : Ordered extents :=
  List.isChain_iff_pairwise.mp chain

/-- No two extents in their order share a place. -/
theorem Ordered.apart {extents : List Extent} (ordered : Ordered extents) {a b place : ℕ} {first second : Extent}
    (at_a : extents[a]? = some first) (at_b : extents[b]? = some second) (other : a ≠ b) (inside : first.Holds place) :
    ¬second.Holds place := by
  obtain ⟨bound, rfl⟩ := List.getElem?_eq_some_iff.mp at_a
  obtain ⟨bound', rfl⟩ := List.getElem?_eq_some_iff.mp at_b
  have order := List.pairwise_iff_getElem.mp ordered
  rcases Nat.lt_or_gt_of_ne other with less | greater
  · exact (order a b bound bound' less).apart inside
  · exact fun inside' => (order b a bound' bound greater).apart inside' inside

/-- The extents of the sizes, each where the one before it ends. -/
def stack (start : ℕ) : List ℕ → List Extent
  | [] => []
  | size :: rest => ⟨start, size⟩ :: stack (start + size) rest

theorem start_le_of_mem_stack {start : ℕ} {sizes : List ℕ} {extent : Extent} (member : extent ∈ stack start sizes) :
    start ≤ extent.start := by
  induction sizes generalizing start with
  | nil => nomatch member
  | cons size rest ih =>
    rcases List.mem_cons.mp member with rfl | later
    · exact le_rfl
    · exact (Nat.le_add_right _ _).trans (ih later)

theorem stop_le_of_mem_stack {start : ℕ} {sizes : List ℕ} {extent : Extent} (member : extent ∈ stack start sizes) :
    extent.stop ≤ start + sizes.sum := by
  induction sizes generalizing start with
  | nil => nomatch member
  | cons size rest ih =>
    rw [List.sum_cons, ← Nat.add_assoc]
    rcases List.mem_cons.mp member with rfl | later
    · exact Nat.le_add_right _ _
    · exact ih later

theorem stack_ordered (start : ℕ) (sizes : List ℕ) : Ordered (stack start sizes) := by
  induction sizes generalizing start with
  | nil => exact .nil
  | cons size rest ih => exact .cons (fun _ later => start_le_of_mem_stack later) (ih (start + size))

/-- The extents stand in their order between two places. -/
structure Fills (low high : ℕ) (extents : List Extent) : Prop where
  le : low ≤ high
  ordered : Ordered extents
  above : ∀ extent ∈ extents, low ≤ extent.start
  below : ∀ extent ∈ extents, extent.stop ≤ high

section Fills

variable {low low' middle middle' high high' : ℕ} {extents others : List Extent}

theorem Fills.nil (le : low ≤ high) : Fills low high [] := ⟨le, .nil, nofun, nofun⟩

theorem Fills.single {extent : Extent} (above : low ≤ extent.start) (below : extent.stop ≤ high) :
    Fills low high [extent] where
  le := above.trans (extent.start_le_stop.trans below)
  ordered := List.pairwise_singleton _ _
  above _ member := by rwa [List.mem_singleton.mp member]
  below _ member := by rwa [List.mem_singleton.mp member]

/-- Extents behind others. -/
theorem Fills.append (first : Fills low middle extents) (gap : middle ≤ middle') (second : Fills middle' high others) :
    Fills low high (extents ++ others) where
  le := first.le.trans (gap.trans second.le)
  ordered := List.pairwise_append.mpr ⟨first.ordered, second.ordered, fun extent early other late =>
    (first.below extent early).trans (gap.trans (second.above other late))⟩
  above extent member := (List.mem_append.mp member).elim (first.above extent)
    fun late => first.le.trans (gap.trans (second.above extent late))
  below extent member := (List.mem_append.mp member).elim
    (fun early => (first.below extent early).trans (gap.trans second.le)) (second.below extent)

theorem Fills.cons {extent : Extent} (above : low ≤ extent.start) (rest : Fills extent.stop high others) :
    Fills low high (extent :: others) := (Fills.single above le_rfl).append le_rfl rest

theorem Fills.mono (fills : Fills low high extents) (under : low' ≤ low) (overrun : high ≤ high') :
    Fills low' high' extents where
  le := under.trans (fills.le.trans overrun)
  ordered := fills.ordered
  above extent member := under.trans (fills.above extent member)
  below extent member := (fills.below extent member).trans overrun

/-- A cursor can go through the extents from one place to another. -/
def Fits (low high : ℕ) : List Extent → Prop
  | [] => low ≤ high
  | extent :: rest => low ≤ extent.start ∧ Fits extent.stop high rest

theorem fills_of_fits (fits : Fits low high extents) : Fills low high extents := by
  induction extents generalizing low with
  | nil => exact .nil fits
  | cons extent rest ih => exact .cons fits.1 (ih fits.2)

theorem stack_fills (start : ℕ) (sizes : List ℕ) : Fills start (start + sizes.sum) (stack start sizes) where
  le := Nat.le_add_right _ _
  ordered := stack_ordered start sizes
  above _ := start_le_of_mem_stack
  below _ := stop_le_of_mem_stack

end Fills

/-- The extents share no place with one another and stand between two places, in any order. -/
structure Scattered (low high : ℕ) (extents : List Extent) : Prop where
  apart : extents.Pairwise Clear
  above : ∀ extent ∈ extents, low ≤ extent.start
  below : ∀ extent ∈ extents, extent.stop ≤ high

section Scattered

variable {low middle high high' : ℕ} {extents others : List Extent}

theorem Scattered.nil : Scattered low high [] := ⟨.nil, nofun, nofun⟩

theorem Fills.scattered (fills : Fills low high extents) : Scattered low high extents where
  apart := fills.ordered.imp .inl
  above := fills.above
  below := fills.below

theorem Scattered.perm (scattered : Scattered low high extents) (perm : extents.Perm others) :
    Scattered low high others where
  apart := (perm.pairwise_iff fun clear => clear.symm).mp scattered.apart
  above extent member := scattered.above extent (perm.mem_iff.mpr member)
  below extent member := scattered.below extent (perm.mem_iff.mpr member)

/-- Extents behind others. -/
theorem Scattered.append (first : Scattered low middle extents) (second : Scattered middle high others)
    (le : low ≤ middle) (le' : middle ≤ high) : Scattered low high (extents ++ others) where
  apart := List.pairwise_append.mpr ⟨first.apart, second.apart, fun extent early other late =>
    .inl ((first.below extent early).trans (second.above other late))⟩
  above extent member := (List.mem_append.mp member).elim (first.above extent)
    fun late => le.trans (second.above extent late)
  below extent member := (List.mem_append.mp member).elim
    (fun early => (first.below extent early).trans le') (second.below extent)

/-- Extents that share no place do not take more places than there are. -/
theorem Scattered.sum_le (scattered : Scattered low high extents) : (extents.map Extent.size).sum ≤ high - low := by
  have distinct : (extents.flatMap fun extent => List.range' extent.start extent.size).Nodup := by
    refine List.nodup_flatMap.mpr ⟨fun _ _ => List.nodup_range', scattered.apart.imp fun {first second} clear => ?_⟩
    intro place early late
    rw [List.mem_range'_1] at early late
    have inside : first.Holds place := early
    exact clear.apart inside late
  have inside : (extents.flatMap fun extent => List.range' extent.start extent.size) ⊆ List.range' low (high - low) := by
    intro place member
    obtain ⟨extent, there, holds⟩ := List.mem_flatMap.mp member
    have above := scattered.above extent there
    have below := scattered.below extent there
    rw [stop] at below
    rw [List.mem_range'_1] at holds ⊢
    omega
  have count := (List.subperm_of_subset distinct inside).length_le
  rw [List.length_flatMap, List.length_range'] at count
  simpa only [List.length_range'] using count

end Scattered

section Cut

variable {α : Type} {first second third : List α} {extent : Extent}

/-- The values of a list at the places of an extent. -/
def cut (values : List α) (extent : Extent) : List α := (values.drop extent.start).take extent.size

/-- What stands behind a part does not change it. -/
theorem cut_append (inside : extent.stop ≤ first.length) : cut (first ++ second) extent = cut first extent := by
  rw [stop] at inside
  rw [cut, cut, List.drop_append_of_le_length (by omega), List.take_append_of_le_length (by rw [List.length_drop]; omega)]

/-- A part that is put behind others is found there. -/
theorem cut_middle (first second third : List α) :
    cut (first ++ second ++ third) ⟨first.length, second.length⟩ = second := by
  rw [cut, List.append_assoc, List.drop_left, List.take_left]

/-- A list that is written over the front of another leaves what is behind it. -/
theorem cut_overwrite (front : List α) {values : List α} (behind : front.length ≤ extent.start) :
    cut (front ++ values.drop front.length) extent = cut values extent := by
  rw [cut, cut, List.drop_append, List.drop_eq_nil_of_le behind, List.nil_append, List.drop_drop,
    Nat.add_sub_cancel' behind]

end Cut

end Extent
