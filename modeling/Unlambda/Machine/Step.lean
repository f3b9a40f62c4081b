import Unlambda.Console
import Unlambda.Value.Spelling

/-!
# One step of a computation

A running program is a job together with the console and the supply of serial numbers. The
job is to evaluate a term, to hand a value to a continuation, or to apply a function to an
argument; in each case the rest of the computation is a continuation, so that no job ever
waits for another one. A step turns a job into the next, or ends the run.

## Main definitions

* `Unlambda.Machine.Job`, `Unlambda.Machine.State`: what is going on at some moment
* `Unlambda.Machine.Move`: what a step leads to
* `Unlambda.Machine.State.step`: the step, with the three rules `evalStep`, `resumeStep` and
  `applyStep`
* `Unlambda.Machine.State.ofExpression`: the state in which a program starts
-/

namespace Unlambda.Machine

/-- What a running program does at some moment. -/
inductive Job
  /-- Evaluate `t` and hand its value to `k`. -/
  | eval (t : Term) (k : Continuation)
  /-- Go on with `k`, which has waited for `v`. -/
  | resume (k : Continuation) (v : Value)
  /-- Apply `f` to `x` and hand the value to `k`. -/
  | apply (f x : Value) (k : Continuation)
  deriving Inhabited

/-- A running program. -/
structure State where
  job : Job
  console : Console
  /-- The next serial. No promise and no link of the state carries it or a later one. -/
  fresh : Serial
  deriving Inhabited

/-- What a step leads to. -/
inductive Move
  /-- The run goes on. -/
  | next (state : State)
  /-- The run is over; `exited` tells whether the program ended itself with `e`. -/
  | halt (result : Value) (exited : Bool)
  /-- The function has no rule for its application. -/
  | stuck (function : Value)

namespace State

/-- The state in which a program starts. -/
def ofExpression (e : Expression) (input : List Char) (fresh : Serial) : State :=
  ⟨.eval (.source e) .done, .ofInput input, fresh⟩

/-- The same moment with another job. -/
def become (state : State) (job : Job) : State := { state with job := job }

/-- The same moment with another job, which holds one new serial. -/
def becomeFresh (state : State) (job : Serial → Job) : State :=
  { state with job := job state.fresh, fresh := state.fresh + 1 }

/-- **Evaluation.** A value is there already, and a primitive is its own value. Of an
application the operator comes first; the operand waits in a frame. -/
def evalStep (state : State) (t : Term) (k : Continuation) : State :=
  match t with
  | .value v => state.become (.resume k v)
  | .application f x => state.becomeFresh fun link => .eval f (k.push link (.awaitOperand x))
  | .source (.primitive p) => state.become (.resume k (.primitive p))
  | .source (.application f x) =>
    state.becomeFresh fun link => .eval (.source f) (k.push link (.awaitOperand (.source x)))

/-- **Resumption.** An operator that turns out to be `d` keeps its operand unevaluated, in a
promise. Any other operator waits in a frame while its operand is evaluated, and is then
applied. A value for which nothing waits is the result. -/
def resumeStep (state : State) (k : Continuation) (v : Value) : Move :=
  match k with
  | .done => .halt v false
  | .awaitOperand _ operand next =>
    if v.isPrimitive .d then
      .next (state.becomeFresh fun promise => .resume next (.delayed promise operand))
    else .next (state.becomeFresh fun link => .eval operand (next.push link (.awaitApply v)))
  | .awaitApply _ function next => .next (state.become (.apply function v next))

/-- The function that `@` and `?x` hand to their argument: `i` for yes and `v` for no. -/
def verdict (yes : Bool) : Value := .primitive (if yes then .i else .v)

/-- The function that `|` hands to its argument: one that prints the current character, or
`v` if there is none. -/
def echo (current : Option Char) : Value :=
  match current with
  | some x => .primitive (.print x)
  | none => .primitive .v

/-- **Application of a primitive** to an argument `x`. -/
def applyPrimitive (state : State) (p : Primitive) (x : Value) (k : Continuation) : Move :=
  match p with
  | .i => .next (state.become (.resume k x))
  | .k => .next (state.become (.resume k (.k1 x)))
  | .s => .next (state.become (.resume k (.s1 x)))
  | .v => .next (state.become (.resume k (.primitive .v)))
  | .c => .next (state.become (.eval (.applyValues x (.continuation k)) k))
  | .d => .stuck (.primitive .d)
  | .e => .halt x true
  | .r => .next ⟨.resume k x, state.console.write '\n', state.fresh⟩
  | .print y => .next ⟨.resume k x, state.console.write y, state.fresh⟩
  | .read =>
    let console := state.console.read
    .next ⟨.eval (.applyValues x (verdict console.current.isSome)) k, console, state.fresh⟩
  | .compare y =>
    .next (state.become (.eval (.applyValues x (verdict (state.console.current == some y))) k))
  | .reprint => .next (state.become (.eval (.applyValues x (echo state.console.current)) k))

/-- **Application** of a function to an argument `x`. A `k` with its first argument returns
that; an `s` with two distributes `x` over them, without evaluating it again; a promise is
evaluated each time that it is applied; and a captured continuation takes the place of the
present one. -/
def applyStep (state : State) (f x : Value) (k : Continuation) : Move :=
  match f with
  | .primitive p => state.applyPrimitive p x k
  | .k1 y => .next (state.become (.resume k y))
  | .s1 y => .next (state.become (.resume k (.s2 y x)))
  | .s2 y z => .next (state.become (.eval (.application (.applyValues y x) (.applyValues z x)) k))
  | .delayed _ body => .next (state.become (.eval (.application body (.value x)) k))
  | .continuation saved => .next (state.become (.resume saved x))

/-- One step of a running program. -/
def step (state : State) : Move :=
  match state.job with
  | .eval t k => .next (state.evalStep t k)
  | .resume k v => state.resumeStep k v
  | .apply f x k => state.applyStep f x k

end State

end Unlambda.Machine
