import Unlambda.Run

/-!
# What a command leaves behind

## Main definitions

* `Unlambda.CommandLine.Report`: exit code, standard output and standard error
* `Unlambda.CommandLine.Report.success`, `Unlambda.CommandLine.Report.failure`: the two kinds
  of reports
* `Unlambda.CommandLine.printed`: what is printed of a run that is over
-/

namespace Unlambda.CommandLine

open Machine

/-- What a command leaves behind. -/
structure Report where
  code : UInt8
  stdout : String
  stderr : String
  deriving DecidableEq, Inhabited

namespace Report

/-- The report of a command that has done what it was asked to do. -/
def success (stdout : String) : Report := ⟨0, stdout, ""⟩

/-- The report of a command that has failed. The error is told on standard error, with its
cause set off from it if there is one. -/
def failure (stdout error : String) (cause : Option String) : Report :=
  let causes := match cause with
    | some cause => "\n\nCaused by:\n    " ++ cause
    | none => ""
  ⟨1, stdout, "Error: " ++ error ++ causes ++ "\n"⟩

end Report

/-- The newline that is needed to begin a new line behind what has been written. -/
def lineBreak (console : Console) : String :=
  match console.written with
  | [] => ""
  | '\n' :: _ => ""
  | _ :: _ => "\n"

/-- What is printed of a run that is over: its output and, if `showResult` is set, a line with
its result. -/
def printed (showResult : Bool) (evaluation : Evaluation) : String :=
  if showResult then
    evaluation.output ++ lineBreak evaluation.console ++ "=> " ++ evaluation.result.text ++ "\n"
  else evaluation.output

end Unlambda.CommandLine
