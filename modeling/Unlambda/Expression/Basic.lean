import Unlambda.Pending
import Unlambda.Source.Lexer

/-!
# Expressions

A program is an expression: a primitive, or the application of one expression to another.
Each notion below is defined by recursion on the expression, and beside it stands a loop over
a list of expressions still to be visited, which computes the same thing for expressions of
any depth in constant stack space.

## Main definitions

* `Unlambda.Expression`: primitives under application
* `Unlambda.Expression.spelling`, `Unlambda.Expression.text`: the shortest source text
* `Unlambda.Expression.leaves`, `Unlambda.Expression.size`: the number of primitives
* `Unlambda.Expression.same`: whether two expressions are the same tree

## Main results

* `Unlambda.Expression.toList_text`, `Unlambda.Expression.size_eq_leaves`: the loops compute
  the recursive definitions
-/

namespace Unlambda

/-- An Unlambda program, or a part of one. -/
inductive Expression
  | primitive (p : Primitive)
  /-- `operator` applied to `operand`. -/
  | application (operator operand : Expression)
  deriving Inhabited

namespace Expression

/-- The shortest source text of an expression: lower-case letters, and neither white space
nor comments. -/
def spelling : Expression → List Char
  | primitive p => p.spelling
  | application f x => '\x60' :: (f.spelling ++ x.spelling)

/-- The number of primitives in an expression. -/
def leaves : Expression → Nat
  | primitive _ => 1
  | application f x => f.leaves + x.leaves

/-- The number of primitives and applications in an expression. -/
def nodes : Expression → Nat
  | primitive _ => 1
  | application f x => f.nodes + x.nodes + 1

/-! ### Loops over pending expressions -/

/-- Writes the pending expressions one after the other behind what is already written. -/
def writeAll (written : String) : List Expression → String
  | [] => written
  | primitive p :: pending => writeAll (written ++ p.text) pending
  | application f x :: pending => writeAll (written.push '\x60') (f :: x :: pending)
termination_by pending => pendingSum nodes pending
decreasing_by all_goals simp [nodes]; try omega

/-- Adds the numbers of primitives in the pending expressions to what is already counted. -/
def countAll (counted : Nat) : List Expression → Nat
  | [] => counted
  | primitive _ :: pending => countAll (counted + 1) pending
  | application f x :: pending => countAll counted (f :: x :: pending)
termination_by pending => pendingSum nodes pending
decreasing_by all_goals simp [nodes]; try omega

/-- The shortest source text of an expression, as a string. -/
def text (e : Expression) : String := writeAll "" [e]

instance : ToString Expression := ⟨text⟩

/-- The number of primitives in an expression. -/
def size (e : Expression) : Nat := countAll 0 [e]

theorem toList_writeAll (written : String) (pending : List Expression) :
    (writeAll written pending).toList = written.toList ++ pending.flatMap spelling := by
  fun_induction writeAll written pending with
  | case1 written => simp
  | case2 written p pending ih => simp [ih, spelling]
  | case3 written f x pending ih => simp [ih, spelling]

theorem toList_text (e : Expression) : e.text.toList = e.spelling := by
  simp [text, toList_writeAll]

theorem countAll_eq (counted : Nat) (pending : List Expression) :
    countAll counted pending = counted + pendingSum leaves pending := by
  fun_induction countAll counted pending with
  | case1 counted => simp
  | case2 counted p pending ih => simp [ih, leaves]; omega
  | case3 counted f x pending ih => simp [ih, leaves]; omega

theorem size_eq_leaves (e : Expression) : e.size = e.leaves := by
  simp [size, countAll_eq]

/-! ### Sameness -/

/-- Whether the members of each pending pair are the same tree. Parts for which `shared`
answers yes are not visited. -/
def sameAll (shared : Expression → Expression → Bool) : List (Expression × Expression) → Bool
  | [] => true
  | (primitive p, primitive q) :: pending => p == q && sameAll shared pending
  | (application f x, application g y) :: pending =>
    sameAll shared (compareUnless (shared f g) f g (compareUnless (shared x y) x y pending))
  | _ :: _ => false
termination_by pending => pendingSum (fun pair => pair.1.nodes) pending
decreasing_by
  · simp [nodes]
  · have operands := pendingSum_compareUnless_le nodes (shared x y) x y pending
    have operators := pendingSum_compareUnless_le nodes (shared f g) f g
      (compareUnless (shared x y) x y pending)
    simp only [pendingSum_cons, nodes]
    omega

/-- Whether two expressions are the same tree. -/
def same (a b : Expression) : Bool := sameAll (fun _ _ => false) [(a, b)]

end Expression

end Unlambda
