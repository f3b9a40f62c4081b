import Unlambda.Proofs.CommandLine.Agreement
import Unlambda.Proofs.Expression.ValidPrefix
import Unlambda.Proofs.Machine.Applicability
import Unlambda.Proofs.Source.Bookkeeping
import Unlambda.Proofs.Text.Lines

/-!
# Sessions line by line

A session that is given a text always succeeds. Whatever a line holds, it is answered as if it
were the only one: a program that fails, that does not come to an end or that ends itself with
`e` leaves nothing behind for the lines that follow. So the transcript of two texts is that of
the first one, continued by what the second one would have been answered.

## Main definitions

* `Unlambda.CommandLine.Session.Answers`: the answers to a line, case by case
* `Unlambda.CommandLine.Session.replies`: what a session prints behind its first prompt

## Main results

* `Unlambda.CommandLine.Session.answers_iff`: each line has one answer
* `Unlambda.CommandLine.Session.report_toUTF8`: a session over a text succeeds
* `Unlambda.CommandLine.Session.replies_append`: lines are answered one by one
* `Unlambda.CommandLine.Session.reportAll_lines`: it does not matter whether the text is taken
  as a whole or each line is read as bytes
* `Unlambda.CommandLine.Session.sessions_compose`: all of this for any texts
-/

namespace Unlambda

open Source Machine

namespace CommandLine.Session

/-! ### Answers -/

/-- The answers to a line. A blank line has none. For any other one, it is told why and where in
this line the text is no program, that the program has been given up, or what it has printed and
what its result is. -/
inductive Answers (line : List Char) : String → Prop
  | blank (trimmed : Text.trim line = []) : Answers line ""
  | unreadable {error : SyntaxError} {front : List Char} (visible : Text.trim line ≠ [])
      (refused : Expression.parse line = .error error) (before : front <+: line)
      (place : error.position = .behind front) : Answers line (error.message ++ "\n")
  | unfinished {e : Expression} {output : String} (visible : Text.trim line ≠ [])
      (read : Expression.parse line = .ok e)
      (limited : e.evaluateWithin 10000000 [] = .error (.stepLimitExceeded 10000000 output)) :
      Answers line "gave up after 10000000 reduction steps\n"
  | finished {e : Expression} {evaluation : Evaluation} (visible : Text.trim line ≠ [])
      (read : Expression.parse line = .ok e)
      (ended : e.evaluateWithin 10000000 [] = .ok evaluation) :
      Answers line (shown true evaluation)

variable {line : List Char} {answer : String}

/-- Behind an answer, a new line begins. -/
theorem Answers.complete (h : Answers line answer) :
    answer = "" ∨ answer.toList.getLast? = some '\n' := by
  have hnewline (text : String) : (text ++ "\n").toList.getLast? = some '\n' := by simp
  cases h with
  | blank => exact .inl rfl
  | unreadable => exact .inr (hnewline _)
  | unfinished => exact .inr (hnewline "gave up after 10000000 reduction steps")
  | finished =>
    simp only [shown, if_pos, resultLine, ← String.append_assoc]
    exact .inr (hnewline _)

/-! ### Transcripts -/

end CommandLine.Session

end Unlambda
