import Unlambda.Console
import Unlambda.Value.Basic

/-!
# Natural semantics

What a program does, without a machine: a term has a value, or it exits from the whole program,
and meanwhile something happens to the console. The operator of an application comes first. If
it is `d`, the operand is kept as a promise. Any other operator has its operand evaluated and
is then applied to it, by the rule for this function. A promise is evaluated each time that it
is applied, and nothing follows an exit.

There are no continuations here, and no rules for `c`.

## Main definitions

* `Unlambda.Natural.Task`: what there is to do
* `Unlambda.Natural.Result`: what it leads to
* `Unlambda.Natural.Yields`: the rules
-/

namespace Unlambda

/-- `t` is an application of `f` to `x`, made by the program or written in its text. -/
inductive Term.Applies : Term → Term → Term → Prop
  | made (f x : Term) : Applies (.application f x) f x
  | written (f x : Expression) : Applies (.source (.application f x)) (.source f) (.source x)

namespace Natural

/-- Something to be done. -/
inductive Task
  | evaluate (t : Term)
  /-- Apply `f` to `x`. -/
  | apply (f x : Value)

/-- What a task leads to. -/
inductive Result
  | value (v : Value)
  /-- The whole program ends here. -/
  | exit (v : Value)

/-- `Yields task before result after`: the task has this result, and meanwhile the console
changes from `before` to `after`. -/
inductive Yields : Task → Console → Result → Console → Prop
  -- Evaluation.
  | value (v : Value) (io : Console) : Yields (.evaluate (.value v)) io (.value v) io
  | primitive (p : Primitive) (io : Console) :
      Yields (.evaluate (.source (.primitive p))) io (.value (.primitive p)) io
  | operatorExit {t f x : Term} {v : Value} {io io' : Console} (term : t.Applies f x)
      (operator : Yields (.evaluate f) io (.exit v) io') :
      Yields (.evaluate t) io (.exit v) io'
  /-- The identity of the promise does not matter. -/
  | delay {t f x : Term} {io io' : Console} (promise : Serial) (term : t.Applies f x)
      (operator : Yields (.evaluate f) io (.value (.primitive .d)) io') :
      Yields (.evaluate t) io (.value (.delayed promise x)) io'
  | operandExit {t f x : Term} {g v : Value} {io io₁ io' : Console} (term : t.Applies f x)
      (operator : Yields (.evaluate f) io (.value g) io₁) (other : g ≠ .primitive .d)
      (operand : Yields (.evaluate x) io₁ (.exit v) io') :
      Yields (.evaluate t) io (.exit v) io'
  | application {t f x : Term} {g y : Value} {io io₁ io₂ io' : Console} {r : Result}
      (term : t.Applies f x)
      (operator : Yields (.evaluate f) io (.value g) io₁) (other : g ≠ .primitive .d)
      (operand : Yields (.evaluate x) io₁ (.value y) io₂)
      (call : Yields (.apply g y) io₂ r io') : Yields (.evaluate t) io r io'
  -- Functions that return at once.
  | i (x : Value) (io : Console) : Yields (.apply (.primitive .i) x) io (.value x) io
  | k (x : Value) (io : Console) : Yields (.apply (.primitive .k) x) io (.value (.k1 x)) io
  | k1 (x y : Value) (io : Console) : Yields (.apply (.k1 x) y) io (.value x) io
  | s (x : Value) (io : Console) : Yields (.apply (.primitive .s) x) io (.value (.s1 x)) io
  | s1 (x y : Value) (io : Console) : Yields (.apply (.s1 x) y) io (.value (.s2 x y)) io
  | v (x : Value) (io : Console) :
      Yields (.apply (.primitive .v) x) io (.value (.primitive .v)) io
  | r (x : Value) (io : Console) :
      Yields (.apply (.primitive .r) x) io (.value x) (io.write '\n')
  | print (c : Char) (x : Value) (io : Console) :
      Yields (.apply (.primitive (.print c)) x) io (.value x) (io.write c)
  -- Functions that lead to an evaluation.
  | s2 {x y z : Value} {io io' : Console} {r : Result}
      (body : Yields (.evaluate (.application (.applyValues x z) (.applyValues y z))) io r io') :
      Yields (.apply (.s2 x y) z) io r io'
  | force {promise : Serial} {t : Term} {x : Value} {io io' : Console} {r : Result}
      (body : Yields (.evaluate (.application t (.value x))) io r io') :
      Yields (.apply (.delayed promise t) x) io r io'
  | read {x : Value} {c : Char} {unread : List Char} {io io' : Console} {r : Result}
      (available : io.unread = c :: unread)
      (body : Yields (.evaluate (.applyValues x (.primitive .i)))
        ⟨c :: io.consumed, unread, io.written, some c⟩ r io') :
      Yields (.apply (.primitive .read) x) io r io'
  | readEnd {x : Value} {io io' : Console} {r : Result} (ended : io.unread = [])
      (body : Yields (.evaluate (.applyValues x (.primitive .v))) { io with current := none } r
        io') :
      Yields (.apply (.primitive .read) x) io r io'
  | compareEqual {x : Value} {c : Char} {io io' : Console} {r : Result}
      (equal : io.current = some c)
      (body : Yields (.evaluate (.applyValues x (.primitive .i))) io r io') :
      Yields (.apply (.primitive (.compare c)) x) io r io'
  | compareOther {x : Value} {c : Char} {io io' : Console} {r : Result}
      (other : io.current ≠ some c)
      (body : Yields (.evaluate (.applyValues x (.primitive .v))) io r io') :
      Yields (.apply (.primitive (.compare c)) x) io r io'
  | reprint {x : Value} {c : Char} {io io' : Console} {r : Result} (current : io.current = some c)
      (body : Yields (.evaluate (.applyValues x (.primitive (.print c)))) io r io') :
      Yields (.apply (.primitive .reprint) x) io r io'
  | reprintNone {x : Value} {io io' : Console} {r : Result} (unset : io.current = none)
      (body : Yields (.evaluate (.applyValues x (.primitive .v))) io r io') :
      Yields (.apply (.primitive .reprint) x) io r io'
  -- The exit.
  | e (x : Value) (io : Console) : Yields (.apply (.primitive .e) x) io (.exit x) io

end Natural

end Unlambda
