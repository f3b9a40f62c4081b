import Unlambda.Value.Basic

/-!
# The text of values and terms

A value is shown as source text that produces it. Captured continuations have no such text
and are shown as `<cont>`. The recursive definition comes first, and then a loop over the
parts still to be written, which computes the same text for values of any depth in constant
stack space.

## Main definitions

* `Unlambda.Value.spelling`, `Unlambda.Term.spelling`: the text, by recursion
* `Unlambda.Part`: a value or a term
* `Unlambda.Value.text`, `Unlambda.Term.text`: the text, by a loop
* `Unlambda.Frame.text`: a frame as it is shown to someone who looks into a computation

## Main results

* `Unlambda.Value.toList_text`, `Unlambda.Term.toList_text`: the loop computes the recursive
  definition
-/

namespace Unlambda

mutual

/-- The text of a value. -/
def Value.spelling : Value → List Char
  | .primitive p => p.spelling
  | .k1 x => '\x60' :: 'k' :: x.spelling
  | .s1 x => '\x60' :: 's' :: x.spelling
  | .s2 x y => '\x60' :: '\x60' :: 's' :: (x.spelling ++ y.spelling)
  | .delayed _ body => '\x60' :: 'd' :: body.spelling
  | .continuation _ => ['<', 'c', 'o', 'n', 't', '>']

/-- The text of a term. Where a value is held in it, the text does not show that it is one. -/
def Term.spelling : Term → List Char
  | .source e => e.spelling
  | .value v => v.spelling
  | .application f x => '\x60' :: (f.spelling ++ x.spelling)

end

mutual

/-- How much work it is to write a value. -/
def Value.nodes : Value → Nat
  | .primitive _ => 1
  | .k1 x => x.nodes + 1
  | .s1 x => x.nodes + 1
  | .s2 x y => x.nodes + y.nodes + 1
  | .delayed _ body => body.nodes + 1
  | .continuation _ => 1

/-- How much work it is to write a term. -/
def Term.nodes : Term → Nat
  | .source _ => 1
  | .value v => v.nodes + 1
  | .application f x => f.nodes + x.nodes + 1

end

/-- A value or a term, as something to be written. -/
inductive Part
  | value (v : Value)
  | term (t : Term)

namespace Part

/-- The text of a part. -/
def spelling : Part → List Char
  | value v => v.spelling
  | term t => t.spelling

/-- How much work it is to write a part. -/
def nodes : Part → Nat
  | value v => v.nodes
  | term t => t.nodes

/-- Writes the pending parts one after the other behind what is already written. -/
def writeAll (written : String) : List Part → String
  | [] => written
  | value (.primitive p) :: pending => writeAll (written ++ p.text) pending
  | value (.k1 x) :: pending => writeAll (written ++ "`k") (value x :: pending)
  | value (.s1 x) :: pending => writeAll (written ++ "`s") (value x :: pending)
  | value (.s2 x y) :: pending => writeAll (written ++ "``s") (value x :: value y :: pending)
  | value (.delayed _ body) :: pending => writeAll (written ++ "`d") (term body :: pending)
  | value (.continuation _) :: pending => writeAll (written ++ "<cont>") pending
  | term (.source e) :: pending => writeAll (written ++ e.text) pending
  | term (.value v) :: pending => writeAll written (value v :: pending)
  | term (.application f x) :: pending =>
    writeAll (written ++ "`") (term f :: term x :: pending)
termination_by pending => pendingSum nodes pending
decreasing_by all_goals simp [nodes, Value.nodes, Term.nodes]; try omega

theorem toList_writeAll (written : String) (pending : List Part) :
    (writeAll written pending).toList = written.toList ++ pending.flatMap spelling := by
  fun_induction writeAll written pending with
  | case1 => simp
  | case2 written p pending ih => simp [ih, spelling, Value.spelling]
  | case3 written x pending ih => simp [ih, spelling, Value.spelling]
  | case4 written x pending ih => simp [ih, spelling, Value.spelling]
  | case5 written x y pending ih => simp [ih, spelling, Value.spelling]
  | case6 written promise body pending ih => simp [ih, spelling, Value.spelling]
  | case7 written k pending ih => simp [ih, spelling, Value.spelling]
  | case8 written e pending ih => simp [ih, spelling, Term.spelling, Expression.toList_text]
  | case9 written v pending ih => simp [ih, spelling, Term.spelling]
  | case10 written f x pending ih => simp [ih, spelling, Term.spelling]

end Part

namespace Value

/-- The text of a value, as a string. -/
def text (v : Value) : String := Part.writeAll "" [.value v]

instance : ToString Value := ⟨text⟩

theorem toList_text (v : Value) : v.text.toList = v.spelling := by
  simp [text, Part.toList_writeAll, Part.spelling]

theorem spelling_kChain (x : Value) (count : Nat) :
    (x.kChain count).spelling = (List.replicate count ['\x60', 'k']).flatten ++ x.spelling := by
  induction count with
  | zero => rfl
  | succ count ih => simp [kChain_succ, spelling, ih, List.replicate_succ]

end Value

namespace Term

/-- The text of a term, as a string. -/
def text (t : Term) : String := Part.writeAll "" [.term t]

instance : ToString Term := ⟨text⟩

theorem toList_text (t : Term) : t.text.toList = t.spelling := by
  simp [text, Part.toList_writeAll, Part.spelling]

end Term

/-- The kind of a frame, with what it holds in parentheses. -/
def Frame.text : Frame → String
  | awaitOperand operand => "AwaitOperand(" ++ operand.text ++ ")"
  | awaitApply function => "AwaitApply(" ++ function.text ++ ")"

end Unlambda
