import Unlambda.Expression.Parser
import Unlambda.Machine.Run

/-!
# Running a program from its text

## Main definitions

* `Unlambda.Expression.evaluateWithin`, `Unlambda.Expression.evaluate`: a program that has
  been read is run on an input
* `Unlambda.Failure`: a text is no program, or the program has no result
* `Unlambda.run`: a text is read and run on an input
-/

namespace Unlambda

open Source Machine

namespace Expression

/-- Runs a program on an input under a step limit. -/
def evaluateWithin (limit : Nat) (e : Expression) (input : List Char) :
    Except EvaluationError Evaluation :=
  (State.ofExpression e input 0).evaluateWithin limit

/-- Runs a program on an input without a step limit. The answer is `none` if `fuel` steps do
not suffice to tell. -/
def evaluate (fuel : Nat) (e : Expression) (input : List Char) :
    Option (Except EvaluationError Evaluation) :=
  (State.ofExpression e input 0).evaluate fuel

end Expression

/-- Why running a text has no result. -/
inductive Failure
  /-- The text is not a program. -/
  | unreadable (error : SyntaxError)
  /-- The program has no result. -/
  | unfinished (error : EvaluationError)
  deriving DecidableEq

namespace Failure

/-- The wording of a failure is that of its cause. -/
def message : Failure → String
  | unreadable error => error.message
  | unfinished error => error.message

end Failure

/-- Reads a text and runs it on an input without a step limit. The answer is `none` if `fuel`
steps do not suffice to tell. -/
def run (fuel : Nat) (source input : List Char) : Option (Except Failure Evaluation) :=
  match Expression.parse source with
  | .error error => some (.error (.unreadable error))
  | .ok e => (e.evaluate fuel input).map (·.mapError .unfinished)

/-- Reads a text and runs it on an input under a step limit. -/
def runWithin (limit : Nat) (source input : List Char) : Except Failure Evaluation :=
  match Expression.parse source with
  | .error error => .error (.unreadable error)
  | .ok e => (e.evaluateWithin limit input).mapError .unfinished

end Unlambda
