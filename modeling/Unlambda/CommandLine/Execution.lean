import Unlambda.CommandLine.Arguments
import Unlambda.CommandLine.Session

/-!
# Executing commands

A command that runs a program reads it first, then its input, and then runs it. Whatever
fails first decides the report.

## Main definitions

* `Unlambda.CommandLine.runProgram`: runs a program text with options
* `Unlambda.CommandLine.checkProgram`: tells whether a text is a program
* `Unlambda.CommandLine.Command.execute`: the report of a command
-/

namespace Unlambda.CommandLine

open Machine

/-- The input that the options choose. -/
def chosenInput (surroundings : Surroundings) (options : Options) : Except ReadError String :=
  match options.input with
  | none => .ok ""
  | some (.text input) => .ok input
  | some .standardInput => surroundings.readInput

/-- The report of a run. A run that reaches the step limit still prints its output. -/
def reportRun (showResult : Bool) : Except EvaluationError Evaluation → Report
  | .ok evaluation => .success (printed showResult evaluation)
  | .error (.stepLimitExceeded limit output) =>
    .failure output ("program did not finish within " ++ toString limit ++ " steps") none
  | .error error => .failure "" error.message none

/-- Runs a program on an input, within a step limit if there is one. Without a limit the
answer is `none` if `fuel` steps do not suffice to tell. -/
def evaluateFor (fuel : Nat) (limit : Option Nat) (e : Expression) (input : List Char) :
    Option (Except EvaluationError Evaluation) :=
  match limit with
  | some limit => some (e.evaluateWithin limit input)
  | none => e.evaluate fuel input

/-- Reads a program text and its input and runs it. -/
def runProgram (fuel : Nat) (surroundings : Surroundings) (options : Options)
    (source : String) : Option Report :=
  match Expression.parse source.toList with
  | .error error => some (.failure "" "failed to parse program" (some error.message))
  | .ok e =>
    match chosenInput surroundings options with
    | .error error => some (.failure "" "failed to read standard input" (some error.message))
    | .ok input =>
      (evaluateFor fuel options.maxSteps e input.toList).map (reportRun options.showResult)

/-- Tells whether the text of a file is a program, and how large it is. -/
def checkProgram (file source : String) : Report :=
  match Expression.parse source.toList with
  | .error error => .failure "" (file ++ " does not parse") (some error.message)
  | .ok e => .success (file ++ ": ok, " ++ toString e.size ++ " primitives\n")

/-- Goes on with the text of a file. -/
def withFile (surroundings : Surroundings) (file : String) (use : String → Option Report) :
    Option Report :=
  match surroundings.readFile file with
  | .error error => some (.failure "" ("failed to read " ++ file) (some error.message))
  | .ok source => use source

namespace Command

/-- The report of a command. The answer is `none` if a program that runs without a step limit
has not come to an end within `fuel` steps. -/
def execute (fuel : Nat) (surroundings : Surroundings) : Command → Option Report
  | session => some (Session.report surroundings.standardInput)
  | run file options => withFile surroundings file (runProgram fuel surroundings options)
  | eval code options => runProgram fuel surroundings options code
  | check file => withFile surroundings file fun source => some (checkProgram file source)

end Command

end Unlambda.CommandLine
