import Unlambda.Machine.Run

/-!
# The log of a run

A run tells what it does: how large the program is, each time that a continuation is captured
or resumed, that the program exits, and how the run ends. An entry holds what it is about, and
its wording is a function of that.

## Main definitions

* `Unlambda.Machine.LogEntry`: what there is to tell
* `Unlambda.Machine.State.entry?`: what a step has to tell
* `Unlambda.Machine.State.entries`: what the steps of a run have to tell
* `Unlambda.Machine.State.logWithin`: the whole log of a run under a step limit
-/

namespace Unlambda.Machine

/-- How much attention an entry calls for. -/
inductive LogLevel
  | trace
  | debug
  | warn
  deriving DecidableEq

/-- The usual name of a level. -/
def LogLevel.text : LogLevel → String
  | trace => "TRACE"
  | debug => "DEBUG"
  | warn => "WARN"

/-- Something that a run has to tell. -/
inductive LogEntry
  /-- A program of `size` primitives is about to run. -/
  | starting (size : Nat)
  | capturing (k : Continuation)
  | resuming (k : Continuation)
  | exiting (result : Value)
  | finished (steps : Nat) (result : Value)
  /-- The step limit has been reached. -/
  | stopping (steps : Nat)

namespace LogEntry

/-- The level of an entry. Continuations and exits are the finer detail, and a step limit
that is reached is a warning. -/
def level : LogEntry → LogLevel
  | starting _ => .debug
  | capturing _ => .trace
  | resuming _ => .trace
  | exiting _ => .trace
  | finished _ _ => .debug
  | stopping _ => .warn

/-- The wording of an entry. -/
def message : LogEntry → String
  | starting size => "evaluating a program of " ++ toString size ++ " primitives"
  | capturing k => "capturing a continuation of depth " ++ toString k.depth
  | resuming k => "resuming a continuation of depth " ++ toString k.depth
  | exiting result => "exiting with " ++ result.text
  | finished steps result => "finished after " ++ toString steps ++ " steps with " ++ result.text
  | stopping steps => "stopping after " ++ toString steps ++ " steps"

end LogEntry

namespace State

/-- What the step from `state` has to tell. -/
def entry? (state : State) : Option LogEntry :=
  match state.job with
  | .apply (.primitive .c) _ k => some (.capturing k)
  | .apply (.primitive .e) x _ => some (.exiting x)
  | .apply (.continuation saved) _ _ => some (.resuming saved)
  | _ => none

/-- What at most `fuel` steps from `state` have to tell, behind the entries `told` before,
which come with the latest one first. -/
def entriesOnto (told : List LogEntry) : (fuel : Nat) → State → List LogEntry
  | 0, _ => told.reverse
  | fuel + 1, state =>
    let told := state.entry?.toList ++ told
    match state.step with
    | .next state' => entriesOnto told fuel state'
    | .halt _ _ => told.reverse
    | .stuck _ => told.reverse

/-- What at most `fuel` steps from `state` have to tell. -/
def entries (fuel : Nat) (state : State) : List LogEntry := entriesOnto [] fuel state

end State

/-- What the end of a run has to tell. -/
def closing : Except EvaluationError Evaluation → List LogEntry
  | .ok evaluation => [.finished evaluation.steps evaluation.result]
  | .error (.stepLimitExceeded limit _) => [.stopping limit]
  | .error (.inapplicable _) => []

/-- The log of a run of `e` under a step limit. -/
def logWithin (limit : Nat) (e : Expression) (input : List Char) : List LogEntry :=
  let state := State.ofExpression e input 0
  .starting e.size :: (state.entries limit ++ closing (state.evaluateWithin limit))

/-- The log of a run of `e` without a step limit. The answer is `none` if `fuel` steps do not
suffice to tell. -/
def log (fuel : Nat) (e : Expression) (input : List Char) : Option (List LogEntry) :=
  let state := State.ofExpression e input 0
  (state.evaluate fuel).map fun answer =>
    .starting e.size :: (state.entries fuel ++ closing answer)

end Unlambda.Machine
