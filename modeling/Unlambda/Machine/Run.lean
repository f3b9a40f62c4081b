import Unlambda.Machine.Step

/-!
# Runs

A run repeats the step until the program halts, or until a given number of steps has been
taken. Reaching the end of a run is no step of its own, so a program that halts after `n`
steps does so within a limit of `n`, and not within a smaller one.

## Main definitions

* `Unlambda.Machine.Evaluation`: a run that is over
* `Unlambda.Machine.State.run`: at most so many steps
* `Unlambda.Machine.EvaluationError`: the ways in which a run can fail
* `Unlambda.Machine.State.evaluateWithin`: a run under a step limit
* `Unlambda.Machine.State.evaluate`: a run without a step limit, as far as the fuel goes

## Main results

* `Unlambda.Machine.State.runOnto_eq_shift`: counting may start anywhere
-/

namespace Unlambda.Machine

/-- A run that is over. -/
structure Evaluation where
  result : Value
  /-- The console as the run has left it. -/
  console : Console
  /-- The number of steps that have really been taken. It has no bound, unlike what a machine
  word can count. -/
  steps : Nat
  /-- Whether the program ended itself with `e`. -/
  exited : Bool
  /-- The next serial. Nothing in the result carries it or a later one. -/
  fresh : Serial
  deriving Inhabited

namespace Evaluation

/-- The output of the run as a string. -/
def output (evaluation : Evaluation) : String := evaluation.console.outputText

end Evaluation

/-- How a run of a limited number of steps can end. -/
inductive Outcome
  | halted (evaluation : Evaluation)
  /-- The function was applied and has no rule for that. -/
  | stuck (function : Value)
  /-- All steps have been taken, and the program has come to `state`. -/
  | paused (state : State)

namespace State

/-- Takes at most `fuel` steps, where `taken` steps have been taken before. -/
def runOnto (taken : Nat) : (fuel : Nat) → State → Outcome
  | 0, state => .paused state
  | fuel + 1, state =>
    match state.step with
    | .next state' => runOnto (taken + 1) fuel state'
    | .halt result exited => .halted ⟨result, state.console, taken + 1, exited, state.fresh⟩
    | .stuck function => .stuck function

/-- Takes at most `fuel` steps. -/
def run (fuel : Nat) (state : State) : Outcome := runOnto 0 fuel state

end State

/-- Why a run has no result. -/
inductive EvaluationError
  /-- A function was applied that has no rule for it. Only `d` has none, and its operand is
  always taken before it can be applied. -/
  | inapplicable (function : String)
  /-- The program did not halt within `limit` steps, and had written `output` by then. -/
  | stepLimitExceeded (limit : Nat) (output : String)
  deriving DecidableEq

namespace EvaluationError

/-- The wording of the error. -/
def message : EvaluationError → String
  | inapplicable function =>
    "internal evaluator error: no application rule for `" ++ function ++ "`"
  | stepLimitExceeded limit _ => "gave up after " ++ toString limit ++ " reduction steps"

instance : ToString EvaluationError := ⟨message⟩

end EvaluationError

namespace State

/-- Runs a program under a step limit. -/
def evaluateWithin (limit : Nat) (state : State) : Except EvaluationError Evaluation :=
  match state.run limit with
  | .halted evaluation => .ok evaluation
  | .stuck function => .error (.inapplicable function.text)
  | .paused state' => .error (.stepLimitExceeded limit state'.console.outputText)

/-- Runs a program without a step limit. The answer is `none` if `fuel` steps do not
suffice to tell. -/
def evaluate (fuel : Nat) (state : State) : Option (Except EvaluationError Evaluation) :=
  match state.run fuel with
  | .halted evaluation => some (.ok evaluation)
  | .stuck function => some (.error (.inapplicable function.text))
  | .paused _ => none

end State

namespace Outcome

/-- The same outcome after `taken` more steps. -/
def shift (taken : Nat) : Outcome → Outcome
  | halted evaluation => halted { evaluation with steps := taken + evaluation.steps }
  | stuck function => stuck function
  | paused state => paused state

end Outcome

namespace State

@[simp] theorem run_zero (state : State) : state.run 0 = .paused state := rfl

/-- Steps taken before a run only add to the count. -/
theorem runOnto_eq_shift (taken fuel : Nat) (state : State) :
    state.runOnto taken fuel = (state.run fuel).shift taken := by
  induction fuel generalizing taken state with
  | zero => rfl
  | succ fuel ih =>
    rw [run, runOnto, runOnto]
    cases state.step with
    | next state' =>
      simp only [ih (taken + 1), ih (0 + 1)]
      cases state'.run fuel <;> simp [Outcome.shift]; omega
    | halt result exited => simp [Outcome.shift]
    | stuck function => rfl

end State

end Unlambda.Machine
