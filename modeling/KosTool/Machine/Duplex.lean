import KosTool.Machine.Settling
import Mathlib.Data.List.Basic

/-! # Two programs on a duplex line

Each program writes to one queue and reads from the other, waiting while it is empty. What one does never takes an
action away from the other, so all runs of the pair end alike.
-/

namespace Machine

/-- What a program does up to its next loop head or its end. Payload is written like anything else, but a line may
treat it otherwise. -/
inductive Talk (Symbol Loop Result : Type) where
  | write (symbols : List Symbol) (next : Talk Symbol Loop Result)
  | payload (symbols : List Symbol) (next : Talk Symbol Loop Result)
  | read (next : Symbol → Talk Symbol Loop Result)
  | again (head : Loop)
  | done (result : Result)

namespace Talk

variable {Symbol Loop Result : Type}

/-- Read a number of symbols. -/
def readMany : ℕ → (List Symbol → Talk Symbol Loop Result) → Talk Symbol Loop Result
  | 0, next => next []
  | count + 1, next => .read fun symbol => readMany count fun symbols => next (symbol :: symbols)

/-- The program over a line that hands on the `n`th payload as `line n` has it. -/
def overLine (line : ℕ → List Symbol → List Symbol) : ℕ → Talk Symbol Loop Result → Talk Symbol (Loop × ℕ) Result
  | count, .write symbols next => .write symbols (overLine line count next)
  | count, .payload symbols next => .write (line count symbols) (overLine line (count + 1) next)
  | count, .read next => .read fun symbol => overLine line count (next symbol)
  | count, .again head => .again (head, count)
  | _, .done result => .done result

@[simp] theorem overLine_readMany (line : ℕ → List Symbol → List Symbol) (count payloads : ℕ)
    (next : List Symbol → Talk Symbol Loop Result) :
    (readMany count next).overLine line payloads = readMany count fun symbols => (next symbols).overLine line payloads := by
  induction count generalizing next with
  | zero => rfl
  | succ count ih =>
    simp only [readMany, overLine]
    congr 1
    funext symbol
    exact ih fun symbols => next (symbol :: symbols)

/-- One action: the program after it, what it has written, and what it has left unread. -/
def act (body : Loop → Talk Symbol Loop Result) :
    Talk Symbol Loop Result → List Symbol → Option (Talk Symbol Loop Result × List Symbol × List Symbol)
  | .write symbols next, incoming => some (next, symbols, incoming)
  | .payload symbols next, incoming => some (next, symbols, incoming)
  | .read next, symbol :: incoming => some (next symbol, [], incoming)
  | .read _, [] => none
  | .again head, incoming => some (body head, [], incoming)
  | .done _, _ => none

/-- What arrives later does not matter to an action that is possible now. -/
theorem act_append {body : Loop → Talk Symbol Loop Result} {talk next : Talk Symbol Loop Result}
    {incoming written rest : List Symbol} (acts : act body talk incoming = some (next, written, rest))
    (later : List Symbol) : act body talk (incoming ++ later) = some (next, written, rest ++ later) := by
  cases talk with
  | write symbols follow => cases acts; rfl
  | payload symbols follow => cases acts; rfl
  | read follow =>
    cases incoming with
    | nil => cases acts
    | cons symbol incoming => cases acts; rfl
  | again head => cases acts; rfl
  | done result => cases acts

end Talk

/-- Two programs and what is on its way between them. -/
structure Duplex (Symbol LeftLoop LeftResult RightLoop RightResult : Type) where
  left : Talk Symbol LeftLoop LeftResult
  right : Talk Symbol RightLoop RightResult
  toRight : List Symbol
  toLeft : List Symbol

namespace Duplex

variable {Symbol LeftLoop LeftResult RightLoop RightResult : Type}
  (leftBody : LeftLoop → Talk Symbol LeftLoop LeftResult) (rightBody : RightLoop → Talk Symbol RightLoop RightResult)

/-- Either program acts. -/
inductive Step : Duplex Symbol LeftLoop LeftResult RightLoop RightResult →
    Duplex Symbol LeftLoop LeftResult RightLoop RightResult → Prop
  | left {left next : Talk Symbol LeftLoop LeftResult} {right : Talk Symbol RightLoop RightResult}
      {toRight toLeft written rest : List Symbol} (acts : left.act leftBody toLeft = some (next, written, rest)) :
    Step ⟨left, right, toRight, toLeft⟩ ⟨next, right, toRight ++ written, rest⟩
  | right {left : Talk Symbol LeftLoop LeftResult} {right next : Talk Symbol RightLoop RightResult}
      {toRight toLeft written rest : List Symbol} (acts : right.act rightBody toRight = some (next, written, rest)) :
    Step ⟨left, right, toRight, toLeft⟩ ⟨left, next, rest, toLeft ++ written⟩

variable {leftBody rightBody}

/-- The actions of the two programs commute. -/
theorem diamond : Diamond (Step leftBody rightBody) := by
  intro source one other first second
  cases first with
  | left acts =>
    cases second with
    | left also =>
      rw [acts] at also
      cases also
      exact Or.inl rfl
    | right also => exact Or.inr ⟨_, .right (Talk.act_append also _), .left (Talk.act_append acts _)⟩
  | right acts =>
    cases second with
    | left also => exact Or.inr ⟨_, .left (Talk.act_append also _), .right (Talk.act_append acts _)⟩
    | right also =>
      rw [acts] at also
      cases also
      exact Or.inl rfl

/-- Two programs that have ended do nothing more. -/
theorem terminal_done (result : LeftResult) (other : RightResult) (toRight toLeft : List Symbol) :
    Terminal (Step leftBody rightBody) ⟨.done result, .done other, toRight, toLeft⟩ := by
  intro next move
  cases move with
  | left acts => cases acts
  | right acts => cases acts

/-- A program that waits for a symbol while the other has ended waits forever. -/
theorem terminal_rightWaiting (result : LeftResult) (next : Symbol → Talk Symbol RightLoop RightResult)
    (toLeft : List Symbol) : Terminal (Step leftBody rightBody) ⟨.done result, .read next, [], toLeft⟩ := by
  intro state move
  cases move with
  | left acts => cases acts
  | right acts => cases acts

/-- A program that waits for a symbol while the other has ended waits forever. -/
theorem terminal_leftWaiting (next : Symbol → Talk Symbol LeftLoop LeftResult) (other : RightResult)
    (toRight : List Symbol) : Terminal (Step leftBody rightBody) ⟨.read next, .done other, toRight, []⟩ := by
  intro state move
  cases move with
  | left acts => cases acts
  | right acts => cases acts

section Runs

variable {left : Talk Symbol LeftLoop LeftResult} {right : Talk Symbol RightLoop RightResult}
  {toRight toLeft : List Symbol}

theorem reaches_leftWrite (symbols : List Symbol) (next : Talk Symbol LeftLoop LeftResult) :
    Reaches (Step leftBody rightBody) ⟨.write symbols next, right, toRight, toLeft⟩
      ⟨next, right, toRight ++ symbols, toLeft⟩ := .single (.left rfl)

theorem reaches_leftRead (next : Symbol → Talk Symbol LeftLoop LeftResult) (symbol : Symbol) :
    Reaches (Step leftBody rightBody) ⟨.read next, right, toRight, symbol :: toLeft⟩
      ⟨next symbol, right, toRight, toLeft⟩ := by
  have move : Step leftBody rightBody ⟨.read next, right, toRight, symbol :: toLeft⟩
    ⟨next symbol, right, toRight ++ [], toLeft⟩ := .left rfl
  rw [List.append_nil] at move
  exact .single move

theorem reaches_leftAgain (head : LeftLoop) :
    Reaches (Step leftBody rightBody) ⟨.again head, right, toRight, toLeft⟩
      ⟨leftBody head, right, toRight, toLeft⟩ := by
  have move : Step leftBody rightBody ⟨.again head, right, toRight, toLeft⟩
    ⟨leftBody head, right, toRight ++ [], toLeft⟩ := .left rfl
  rw [List.append_nil] at move
  exact .single move

theorem reaches_leftReadMany (symbols : List Symbol) (next : List Symbol → Talk Symbol LeftLoop LeftResult) :
    Reaches (Step leftBody rightBody) ⟨.readMany symbols.length next, right, toRight, symbols ++ toLeft⟩
      ⟨next symbols, right, toRight, toLeft⟩ := by
  induction symbols generalizing next with
  | nil => exact .refl _
  | cons symbol symbols ih => exact (reaches_leftRead _ symbol).trans (ih fun symbols => next (symbol :: symbols))

/-- Reads everything there is. -/
theorem reaches_leftReadAll (symbols : List Symbol) (next : List Symbol → Talk Symbol LeftLoop LeftResult) :
    Reaches (Step leftBody rightBody) ⟨.readMany symbols.length next, right, toRight, symbols⟩
      ⟨next symbols, right, toRight, []⟩ := by
  have reads : Reaches (Step leftBody rightBody) ⟨.readMany symbols.length next, right, toRight, symbols ++ []⟩
    ⟨next symbols, right, toRight, []⟩ := reaches_leftReadMany symbols next
  rwa [List.append_nil] at reads

theorem reaches_rightWrite (symbols : List Symbol) (next : Talk Symbol RightLoop RightResult) :
    Reaches (Step leftBody rightBody) ⟨left, .write symbols next, toRight, toLeft⟩
      ⟨left, next, toRight, toLeft ++ symbols⟩ := .single (.right rfl)

theorem reaches_rightRead (next : Symbol → Talk Symbol RightLoop RightResult) (symbol : Symbol) :
    Reaches (Step leftBody rightBody) ⟨left, .read next, symbol :: toRight, toLeft⟩
      ⟨left, next symbol, toRight, toLeft⟩ := by
  have move : Step leftBody rightBody ⟨left, .read next, symbol :: toRight, toLeft⟩
    ⟨left, next symbol, toRight, toLeft ++ []⟩ := .right rfl
  rw [List.append_nil] at move
  exact .single move

theorem reaches_rightAgain (head : RightLoop) :
    Reaches (Step leftBody rightBody) ⟨left, .again head, toRight, toLeft⟩
      ⟨left, rightBody head, toRight, toLeft⟩ := by
  have move : Step leftBody rightBody ⟨left, .again head, toRight, toLeft⟩
    ⟨left, rightBody head, toRight, toLeft ++ []⟩ := .right rfl
  rw [List.append_nil] at move
  exact .single move

theorem reaches_rightReadMany (symbols : List Symbol) (next : List Symbol → Talk Symbol RightLoop RightResult) :
    Reaches (Step leftBody rightBody) ⟨left, .readMany symbols.length next, symbols ++ toRight, toLeft⟩
      ⟨left, next symbols, toRight, toLeft⟩ := by
  induction symbols generalizing next with
  | nil => exact .refl _
  | cons symbol symbols ih => exact (reaches_rightRead _ symbol).trans (ih fun symbols => next (symbol :: symbols))

/-- Reads everything there is. -/
theorem reaches_rightReadAll (symbols : List Symbol) (next : List Symbol → Talk Symbol RightLoop RightResult) :
    Reaches (Step leftBody rightBody) ⟨left, .readMany symbols.length next, symbols, toLeft⟩
      ⟨left, next symbols, [], toLeft⟩ := by
  have reads : Reaches (Step leftBody rightBody) ⟨left, .readMany symbols.length next, symbols ++ [], toLeft⟩
    ⟨left, next symbols, [], toLeft⟩ := reaches_rightReadMany symbols next
  rwa [List.append_nil] at reads

end Runs

end Duplex

end Machine
