import Mathlib.Data.List.Basic

/-! # Framed packets in a stream

A packet is an entry that starts it, a payload, an entry that ends this, and a trailer of fixed length; the starting entry is in neither
and starts a packet anew wherever it comes. A reader that takes the stream entry by entry finds exactly the packets it contains.
-/

namespace Framing

variable {α : Type*} (start stop : α) (tail : ℕ)

/-- Where a reader stands: between packets, in a payload, or in the trailer behind one. -/
inductive State (α : Type*) where
  | idle
  | body (payload : List α)
  | trailer (payload : List α) (seen : ℕ)

/-- The stream contains a packet. -/
def Framed (payload stream : List α) : Prop :=
  ∃ before trailer after, stream = before ++ start :: (payload ++ stop :: (trailer ++ after)) ∧ trailer.length = tail ∧
    start ∉ payload ∧ stop ∉ payload ∧ start ∉ trailer

/-- The stream completes what the reader has of a packet. -/
def Completes : State α → List α → List α → Prop
  | .idle, _, _ => False
  | .body front, payload, stream => ∃ rest trailer after, stream = rest ++ stop :: (trailer ++ after) ∧ payload = front ++ rest ∧
      trailer.length = tail ∧ start ∉ rest ∧ stop ∉ rest ∧ start ∉ trailer
  | .trailer front seen, payload, stream => ∃ trailer after, stream = trailer ++ after ∧ payload = front ∧
      trailer.length + seen = tail ∧ start ∉ trailer

/-- The trailer is not complete. -/
def State.Open : State α → Prop
  | .trailer _ seen => seen < tail
  | _ => True

variable {start stop tail}

theorem framed_cons_start {payload rest : List α} :
    Framed start stop tail payload (start :: rest) ↔
      Completes start stop tail (.body []) payload rest ∨ Framed start stop tail payload rest := by
  constructor
  · rintro ⟨before, trailer, after, split, long, outside⟩
    cases before with
    | nil =>
      obtain ⟨-, split⟩ := List.cons.inj split
      exact .inl ⟨payload, trailer, after, split, rfl, long, outside⟩
    | cons first before =>
      obtain ⟨-, split⟩ := List.cons.inj split
      exact .inr ⟨before, trailer, after, split, long, outside⟩
  · rintro (⟨payload', trailer, after, rfl, rfl, long, outside⟩ | ⟨before, trailer, after, rfl, long, outside⟩)
    · exact ⟨[], trailer, after, rfl, long, outside⟩
    · exact ⟨start :: before, trailer, after, rfl, long, outside⟩

theorem framed_cons {payload rest : List α} {c : α} (other : c ≠ start) :
    Framed start stop tail payload (c :: rest) ↔ Framed start stop tail payload rest := by
  constructor
  · rintro ⟨before, trailer, after, split, long, outside⟩
    cases before with
    | nil => exact absurd (List.cons.inj split).1 other
    | cons first before => exact ⟨before, trailer, after, (List.cons.inj split).2, long, outside⟩
  · rintro ⟨before, trailer, after, rfl, long, outside⟩
    exact ⟨c :: before, trailer, after, rfl, long, outside⟩

/-- A packet that starts anew is not completed. -/
theorem not_completes_start (distinct : start ≠ stop) {state : State α} (isOpen : state.Open tail) {payload rest : List α} :
    ¬Completes start stop tail state payload (start :: rest) := by
  cases state with
  | idle => exact id
  | body front =>
    rintro ⟨rest', trailer, after, split, -, -, outside, -, -⟩
    cases rest' with
    | nil => exact distinct (List.cons.inj split).1
    | cons first rest' => exact outside (by rw [(List.cons.inj split).1]; exact List.mem_cons_self)
  | trailer front seen =>
    rintro ⟨trailer, after, split, -, long, outside⟩
    cases trailer with
    | nil =>
      rw [List.length_nil, Nat.zero_add] at long
      exact absurd long (Nat.ne_of_lt isOpen)
    | cons first trailer => exact outside (by rw [(List.cons.inj split).1]; exact List.mem_cons_self)

/-- The end of the payload. -/
theorem completes_stop {front payload rest : List α} :
    Completes start stop tail (.body front) payload (stop :: rest) ↔
      Completes start stop tail (.trailer front 0) payload rest := by
  constructor
  · rintro ⟨rest', trailer, after, split, rfl, long, -, outside, without⟩
    cases rest' with
    | nil => exact ⟨trailer, after, (List.cons.inj split).2, List.append_nil _, long, without⟩
    | cons first rest' => exact absurd (by rw [(List.cons.inj split).1]; exact List.mem_cons_self) outside
  · rintro ⟨trailer, after, rfl, rfl, long, without⟩
    exact ⟨[], trailer, after, rfl, (List.append_nil _).symm, long, List.not_mem_nil, List.not_mem_nil, without⟩

theorem completes_body {front payload rest : List α} {c : α} (other : c ≠ start) (inside : c ≠ stop) :
    Completes start stop tail (.body front) payload (c :: rest) ↔
      Completes start stop tail (.body (front ++ [c])) payload rest := by
  constructor
  · rintro ⟨rest', trailer, after, split, rfl, long, outside, beyond, without⟩
    cases rest' with
    | nil => exact absurd (List.cons.inj split).1 inside
    | cons first rest' =>
      obtain ⟨rfl, tails⟩ := List.cons.inj split
      exact ⟨rest', trailer, after, tails, List.append_cons _ _ _, long, fun member => outside (List.mem_cons_of_mem _ member),
        fun member => beyond (List.mem_cons_of_mem _ member), without⟩
  · rintro ⟨rest', trailer, after, rfl, rfl, long, outside, beyond, without⟩
    refine ⟨c :: rest', trailer, after, rfl, (List.append_cons _ _ _).symm, long, ?_, ?_, without⟩
    · exact fun member => (List.mem_cons.mp member).elim (fun same => other same.symm) outside
    · exact fun member => (List.mem_cons.mp member).elim (fun same => inside same.symm) beyond

theorem completes_trailer {front payload rest : List α} {seen : ℕ} {c : α} (other : c ≠ start) (isOpen : seen < tail) :
    Completes start stop tail (.trailer front seen) payload (c :: rest) ↔
      Completes start stop tail (.trailer front (seen + 1)) payload rest := by
  constructor
  · rintro ⟨trailer, after, split, rfl, long, without⟩
    cases trailer with
    | nil =>
      rw [List.length_nil, Nat.zero_add] at long
      exact absurd long (Nat.ne_of_lt isOpen)
    | cons first trailer =>
      rw [List.length_cons] at long
      exact ⟨trailer, after, (List.cons.inj split).2, rfl, by omega, fun member => without (List.mem_cons_of_mem _ member)⟩
  · rintro ⟨trailer, after, rfl, rfl, long, without⟩
    refine ⟨c :: trailer, after, rfl, rfl, by rw [List.length_cons]; omega, ?_⟩
    exact fun member => (List.mem_cons.mp member).elim (fun same => other same.symm) without

theorem completes_ended {front payload rest : List α} :
    Completes start stop tail (.trailer front tail) payload rest ↔ payload = front := by
  constructor
  · rintro ⟨-, -, -, same, -⟩
    exact same
  · rintro rfl
    exact ⟨[], rest, rfl, rfl, Nat.zero_add _, List.not_mem_nil⟩

section Reader

variable [DecidableEq α]

variable (start stop tail) in
/-- One entry of the stream: what the reader goes on with, and the packet that it ends. -/
def step (state : State α) (c : α) : State α × Option (List α) :=
  if c = start then (.body [], none)
  else
    match state with
    | .idle => (.idle, none)
    | .body payload => if c = stop then (.trailer payload 0, none) else (.body (payload ++ [c]), none)
    | .trailer payload seen => if seen + 1 = tail then (.idle, some payload) else (.trailer payload (seen + 1), none)

variable (start stop tail) in
/-- The packets that a stream ends. -/
def read : State α → List α → List (List α)
  | _, [] => []
  | state, c :: rest => (step start stop tail state c).2.toList ++ read (step start stop tail state c).1 rest

theorem step_open (positive : 0 < tail) {state : State α} (isOpen : state.Open tail) (c : α) :
    (step start stop tail state c).1.Open tail := by
  rw [step.eq_def]
  by_cases starts : c = start
  · rw [if_pos starts]
    trivial
  · rw [if_neg starts]
    cases state with
    | idle => trivial
    | body front =>
      dsimp only
      split_ifs
      · exact positive
      · trivial
    | trailer front seen =>
      dsimp only
      split_ifs with last
      · trivial
      · have below : seen < tail := isOpen
        exact (by omega : seen + 1 < tail)

/-- The reader finds what completes its packet, and the packets of the stream. -/
theorem mem_read_iff (positive : 0 < tail) (distinct : start ≠ stop) {state : State α} (isOpen : state.Open tail)
    {payload stream : List α} : payload ∈ read start stop tail state stream ↔
      Completes start stop tail state payload stream ∨ Framed start stop tail payload stream := by
  induction stream generalizing state with
  | nil =>
    refine iff_of_false (fun member => nomatch member) ?_
    rintro (completes | ⟨before, trailer, after, split, -⟩)
    · cases state with
      | idle => exact completes
      | body front =>
        obtain ⟨rest, trailer, after, split, -⟩ := completes
        exact absurd split.symm (List.append_ne_nil_of_right_ne_nil _ (List.cons_ne_nil _ _))
      | trailer front seen =>
        obtain ⟨trailer, after, split, -, long, -⟩ := completes
        rw [(List.append_eq_nil_iff.mp split.symm).1, List.length_nil, Nat.zero_add] at long
        exact absurd long (Nat.ne_of_lt isOpen)
    · exact absurd split.symm (List.append_ne_nil_of_right_ne_nil _ (List.cons_ne_nil _ _))
  | cons c rest ih =>
    rw [read, List.mem_append, ih (step_open positive isOpen c), step.eq_def]
    by_cases starts : c = start
    · subst starts
      rw [if_pos rfl, framed_cons_start, or_iff_right (not_completes_start distinct isOpen), Option.toList_none,
        or_iff_right List.not_mem_nil]
    · rw [if_neg starts, framed_cons starts, ← or_assoc]
      refine or_congr_left ?_
      cases state with
      | idle => exact or_iff_right List.not_mem_nil
      | body front =>
        dsimp only
        split_ifs with stops
        · rw [stops, completes_stop]
          exact or_iff_right List.not_mem_nil
        · rw [completes_body starts stops]
          exact or_iff_right List.not_mem_nil
      | trailer front seen =>
        rw [completes_trailer starts isOpen]
        dsimp only
        split_ifs with last
        · rw [last, completes_ended, Option.toList_some, List.mem_singleton]
          exact or_iff_left id
        · exact or_iff_right List.not_mem_nil

end Reader

end Framing
