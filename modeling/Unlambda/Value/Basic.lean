import Unlambda.Expression.Basic

/-!
# Values, terms and continuations

While a program runs, every function is a value: a primitive, a primitive that waits for
further arguments, a promise, or a captured continuation. What is still to be evaluated is a
term, in which parts of the program stand beside values that are already there. The rest of
the computation is a continuation, a chain of frames that is never changed once it is built,
so that it can be captured once and resumed any number of times.

Promises and continuations carry a serial number. Two copies of one promise have the same
number, and two promises made at different moments have different ones, although they may
hold the same term; the same goes for the links of a chain.

## Main definitions

* `Unlambda.Value`, `Unlambda.Term`, `Unlambda.Continuation`: the three kinds of run-time data
* `Unlambda.Frame`: one pending step
* `Unlambda.Continuation.push`, `Unlambda.Continuation.split?`: building and opening a chain
* `Unlambda.Continuation.depth`: the number of frames
* `Unlambda.Continuation.sameChain`: whether two continuations are one chain

## Main results

* `Unlambda.Value.kChain_succ`: a chain of `k` grows at its outer end
* `Unlambda.Continuation.depth_push`: each frame that is pushed counts
-/

namespace Unlambda

/-- What tells promises, and links of a chain of frames, apart from each other. -/
abbrev Serial := Nat

mutual

/-- A function, as a program holds it while it runs. -/
inductive Value
  | primitive (p : Primitive)
  /-- `k` with its first argument. -/
  | k1 (x : Value)
  /-- `s` with its first argument. -/
  | s1 (x : Value)
  /-- `s` with its first two arguments. -/
  | s2 (x y : Value)
  /-- A promise to evaluate `body` each time that the promise is applied. -/
  | delayed (promise : Serial) (body : Term)
  /-- The rest of the computation at the point where `c` was applied. -/
  | continuation (k : Continuation)

/-- Something that is still to be evaluated. -/
inductive Term
  /-- A part of the program, as it was written. -/
  | source (e : Expression)
  | value (v : Value)
  /-- `operator` applied to `operand`. -/
  | application (operator operand : Term)

/-- The rest of a computation: frames, the innermost first. -/
inductive Continuation
  /-- Nothing is left to do. -/
  | done
  /-- An operator is being evaluated, and `operand` comes next. -/
  | awaitOperand (link : Serial) (operand : Term) (next : Continuation)
  /-- An operand is being evaluated, and `function` is applied to it next. -/
  | awaitApply (link : Serial) (function : Value) (next : Continuation)

end

instance : Inhabited Value := ⟨.primitive .i⟩

instance : Inhabited Term := ⟨.value default⟩

instance : Inhabited Continuation := ⟨.done⟩

namespace Value

/-- Whether a value is the primitive `p` and nothing more. -/
def isPrimitive (v : Value) (p : Primitive) : Bool :=
  match v with
  | primitive q => q == p
  | _ => false

/-- `k` with its first argument, `count` times over: what `k` makes of `x` in `count`
steps. -/
def kChain (x : Value) : Nat → Value
  | 0 => x
  | count + 1 => kChain (k1 x) count

theorem kChain_succ (x : Value) (count : Nat) : x.kChain (count + 1) = k1 (x.kChain count) := by
  induction count generalizing x with
  | zero => rfl
  | succ count ih => exact ih (k1 x)

end Value

namespace Term

/-- One value applied to another. -/
def applyValues (f x : Value) : Term := application (value f) (value x)

end Term

/-- One pending step of a computation. -/
inductive Frame
  /-- An operator is being evaluated, and `operand` comes next. -/
  | awaitOperand (operand : Term)
  /-- An operand is being evaluated, and `function` is applied to it next. -/
  | awaitApply (function : Value)
  deriving Inhabited

namespace Continuation

/-- The continuation that does `frame` first and then goes on with `next`. The new link is
known by its serial. -/
def push (link : Serial) (frame : Frame) (next : Continuation) : Continuation :=
  match frame with
  | .awaitOperand operand => awaitOperand link operand next
  | .awaitApply function => awaitApply link function next

/-- The innermost frame and the continuation beneath it. -/
def split? : Continuation → Option (Frame × Continuation)
  | done => none
  | awaitOperand _ operand next => some (.awaitOperand operand, next)
  | awaitApply _ function next => some (.awaitApply function, next)

/-- The serial of the innermost link. -/
def link? : Continuation → Option Serial
  | done => none
  | awaitOperand link _ _ => some link
  | awaitApply link _ _ => some link

/-- Whether no frame is left. -/
def isDone (k : Continuation) : Bool := k.split?.isNone

/-- Adds the number of frames to what is already counted. -/
def depthOnto (counted : Nat) : Continuation → Nat
  | done => counted
  | awaitOperand _ _ next => depthOnto (counted + 1) next
  | awaitApply _ _ next => depthOnto (counted + 1) next

/-- The number of frames. -/
def depth (k : Continuation) : Nat := depthOnto 0 k

/-- Whether two continuations are one chain. It is enough to compare the innermost links,
since a link never changes what lies beneath it. -/
def sameChain (k l : Continuation) : Bool := k.link? == l.link?

/-- A continuation as it is shown to someone who looks into a computation. -/
def describe (k : Continuation) : String :=
  "<cont of depth " ++ toString k.depth ++ ">"

theorem depthOnto_eq (counted : Nat) : ∀ k : Continuation, depthOnto counted k = counted + depth k
  | done => rfl
  | awaitOperand _ _ next => by
    rw [depth, depthOnto, depthOnto, depthOnto_eq (counted + 1), depthOnto_eq (0 + 1)]; omega
  | awaitApply _ _ next => by
    rw [depth, depthOnto, depthOnto, depthOnto_eq (counted + 1), depthOnto_eq (0 + 1)]; omega

@[simp] theorem depth_done : depth done = 0 := rfl

@[simp] theorem depth_push (link : Serial) (frame : Frame) (next : Continuation) :
    (push link frame next).depth = next.depth + 1 := by
  cases frame <;> simp only [push, depth, depthOnto] <;> rw [depthOnto_eq] <;>
    simp only [depth] <;> omega

end Continuation

end Unlambda
