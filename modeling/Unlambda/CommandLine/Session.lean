import Unlambda.Text.Blank
import Unlambda.Text.Lines
import Unlambda.CommandLine.Report
import Unlambda.CommandLine.Surroundings

/-!
# Sessions

In a session each line of standard input is a program of its own, which is run without input
and answered at once. Nothing carries over from one line to the next. A session ends with the
input, or in front of the first line that is not text.

## Main definitions

* `Unlambda.CommandLine.Session.respond`: the answer to a line
* `Unlambda.CommandLine.Session.transcript`: what a session over a text prints
* `Unlambda.CommandLine.Session.report`: a session over bytes
-/

namespace Unlambda.CommandLine.Session

/-- What is printed before each line is read. -/
def prompt : String := "ski> "

/-- The number of steps after which the program on a line is given up. -/
def stepLimit : Nat := 10000000

/-- The answer to a line, which still has its newline. A blank line has none. -/
def respond (line : List Char) : String :=
  if Text.isBlankLine line then ""
  else match runWithin stepLimit line [] with
    | .ok evaluation => printed true evaluation
    | .error failure => failure.message ++ "\n"

/-- What is printed for each line in order: the answer and the next prompt. -/
def respondAll (written : String) : List (List Char) → String
  | [] => written
  | line :: lines => respondAll (written ++ respond line ++ prompt) lines

/-- What a session over a text prints. -/
def transcript (text : List Char) : String := respondAll prompt (Text.lines (· == '\n') text)

/-- A session over lines of bytes, of which some may not be text. -/
def reportAll (written : String) : List (List UInt8) → Report
  | [] => .success written
  | line :: lines =>
    match decode ⟨line.toArray⟩ with
    | .ok text => reportAll (written ++ respond text.toList ++ prompt) lines
    | .error error => .failure written error.message none

/-- A session over the bytes of standard input. -/
def report (bytes : ByteArray) : Report :=
  match decode bytes with
  | .ok text => .success (transcript text.toList)
  | .error _ => reportAll prompt (Text.lines (· == 10) bytes.toList)

end Unlambda.CommandLine.Session
