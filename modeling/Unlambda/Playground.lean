import Unlambda.Run

/-!
# The playground

In the playground a visitor types a program and its input, and is shown one text: what the
program printed, or why it could not run. A run is stopped after a fixed number of steps.

## Main definitions

* `Unlambda.Playground.stepLimit`: when a run is stopped
* `Unlambda.Playground.answer`: what the visitor is shown
-/

namespace Unlambda.Playground

open Machine

/-- The number of steps after which a run is stopped. -/
def stepLimit : Nat := 50000000

/-- What is shown of a run. -/
def display : Except Failure Evaluation → String
  | .ok evaluation => evaluation.output
  | .error (.unreadable error) => "parse error: " ++ error.message
  | .error (.unfinished (.stepLimitExceeded limit output)) =>
    output ++ "\n[stopped after " ++ toString limit ++ " steps]"
  | .error (.unfinished error) => "error: " ++ error.message

/-- What the visitor is shown. -/
def answer (source input : List Char) : String := display (runWithin stepLimit source input)

end Unlambda.Playground
