import Mathlib.Computability.StateTransition
import Unlambda.Value.Spelling

/-!
# Loops over pending items

Expressions, values and terms are written, and primitives are counted, by loops over a list of
items that are still to be visited. Each pass takes the first item off, does what is to be done
for the item by itself, and puts its children in its place. The items behind it are not touched
until all of it has been visited, whatever kinds of items are mixed. So a loop computes what the
recursion over an item computes, and it ends with nothing pending.

## Main definitions

* `Unlambda.Worklist`: what a pass does with an item
* `Unlambda.Worklist.pass`: one pass of the loop
* `Unlambda.Worklist.Computes`: a function of what is pending is the result of the loop
* `Unlambda.Expression.writing`, `Unlambda.Expression.counting`, `Unlambda.Part.writing`: the
  three loops
* `Unlambda.Expression.applications`: the number of applications in an expression

## Main results

* `Unlambda.Worklist.Computes.reaches`: passes visit the pending items, and stop in front of
  whatever comes behind them
* `Unlambda.Worklist.Computes.mem_eval`: a loop ends with nothing pending
* `Unlambda.loops_follow_structure`: the three loops compute the recursive definitions
-/

namespace Unlambda

/-- What a pass of a loop does with the first pending item. -/
structure Worklist (α β : Type) where
  /-- Adds to what has been found so far what the item contributes by itself. -/
  visit : β → α → β
  /-- The items that take its place. -/
  children : α → List α

namespace Worklist

open StateTransition

variable {α β : Type} {w : Worklist α β} {loop : β → List α → β} {size : α → Nat}

/-- One pass of the loop. There is none where nothing is pending. -/
def pass (w : Worklist α β) : β × List α → Option (β × List α)
  | (_, []) => none
  | (found, item :: pending) => some (w.visit found item, w.children item ++ pending)

/-- The function is the result of the loop: it is what has been found where nothing is pending,
and a pass does not change it. -/
structure Computes (w : Worklist α β) (loop : β → List α → β) : Prop where
  nil : ∀ found, loop found [] = found
  cons : ∀ found item pending,
    loop found (item :: pending) = loop (w.visit found item) (w.children item ++ pending)

/-- **The pending items are visited, and nothing else is.** Where an item is larger than its
children together, the loop comes to the end of the pending items with its result, in front of
whatever is pending behind them. -/
theorem Computes.reaches (h : w.Computes loop)
    (smaller : ∀ item, pendingSum size (w.children item) < size item) (found : β)
    (pending rest : List α) :
    Reaches w.pass (found, pending ++ rest) (loop found pending, rest) := by
  -- The induction is on the size of all pending items together, which each pass reduces.
  induction hsize : pendingSum size pending using Nat.strongRecOn generalizing found pending with
  | _ total ih =>
  subst hsize
  cases pending with
  | nil =>
    rw [h.nil]
    exact .refl
  | cons item pending =>
    have hpass : w.pass (found, item :: pending ++ rest) =
        some (w.visit found item, w.children item ++ pending ++ rest) := by
      rw [List.append_assoc]
      rfl
    have hless :
        pendingSum size (w.children item ++ pending) < pendingSum size (item :: pending) := by
      rw [pendingSum_append, pendingSum_cons]
      exact Nat.add_lt_add_right (smaller item) _
    rw [h.cons]
    exact .head hpass (ih _ hless _ _ rfl)

/-- **A loop ends with nothing pending.** -/
theorem Computes.mem_eval (h : w.Computes loop)
    (smaller : ∀ item, pendingSum size (w.children item) < size item) (found : β)
    (pending : List α) : (loop found pending, []) ∈ eval w.pass (found, pending) := by
  have hreaches := h.reaches smaller found pending []
  rw [List.append_nil] at hreaches
  exact StateTransition.mem_eval.mpr ⟨hreaches, rfl⟩

end Worklist

/-! ### Expressions -/

namespace Expression

/-- The operator and the operand of an application. -/
def children : Expression → List Expression
  | primitive _ => []
  | application f x => [f, x]

theorem nodes_children_lt (e : Expression) : pendingSum nodes e.children < e.nodes := by
  cases e <;> simp [children, nodes]

/-- An expression is written from the front: primitives as they are spelled, and a backquote for
each application. -/
def writing : Worklist Expression String where
  visit written
    | primitive p => written ++ p.text
    | application _ _ => written.push '\x60'
  children := children

theorem writing_computes_writeAll : writing.Computes writeAll where
  nil written := by rw [writeAll]
  cons written e pending := by cases e <;> rw [writeAll] <;> rfl

/-- Only primitives are counted. -/
def counting : Worklist Expression Nat where
  visit counted
    | primitive _ => counted + 1
    | application _ _ => counted
  children := children

theorem counting_computes_countAll : counting.Computes countAll where
  nil counted := by rw [countAll]
  cons counted e pending := by cases e <;> rw [countAll] <;> rfl

/-- The number of applications in an expression. -/
def applications : Expression → Nat
  | primitive _ => 0
  | application f x => f.applications + x.applications + 1

theorem leaves_eq_applications_add_one (e : Expression) : e.leaves = e.applications + 1 := by
  induction e with
  | primitive p => rfl
  | application f x ihf ihx =>
    rw [leaves, ihf, ihx, applications]
    omega

end Expression

/-! ### Values and terms -/

namespace Part

/-- The values and terms that a part is written with, in the order of its text. The frames of a
captured continuation are not among them. -/
def children : Part → List Part
  | value (.primitive _) => []
  | value (.k1 x) => [value x]
  | value (.s1 x) => [value x]
  | value (.s2 x y) => [value x, value y]
  | value (.delayed _ body) => [term body]
  | value (.continuation _) => []
  | term (.source _) => []
  | term (.value v) => [value v]
  | term (.application f x) => [term f, term x]

theorem nodes_children_lt (part : Part) : pendingSum nodes part.children < part.nodes := by
  cases part with
  | value v => cases v <;> simp [children, nodes, Value.nodes]
  | term t => cases t <;> simp [children, nodes, Term.nodes]

/-- What the text of a part has in front of the texts of its children. A part of the program is
written at once, by the loop for expressions. -/
def front : Part → String
  | value (.primitive p) => p.text
  | value (.k1 _) => "`k"
  | value (.s1 _) => "`s"
  | value (.s2 _ _) => "``s"
  | value (.delayed _ _) => "`d"
  | value (.continuation _) => "<cont>"
  | term (.source e) => e.text
  | term (.value _) => ""
  | term (.application _ _) => "`"

/-- A part is written from the front. -/
def writing : Worklist Part String where
  visit written part := written ++ part.front
  children := children

theorem writing_computes_writeAll : writing.Computes writeAll where
  nil written := by rw [writeAll]
  cons written part pending := by
    cases part with
    | value v => cases v <;> rw [writeAll] <;> rfl
    | term t => cases t <;> rw [writeAll] <;> simp [writing, children, front]

end Part

/-- **The loops compute what the recursive definitions say.** Expressions, values and terms have
the texts that are defined by recursion, and the size of an expression is the number of its
primitives, of which there is one more than there are applications. Each loop ends with nothing
pending. -/
theorem loops_follow_structure :
    (∀ e : Expression, e.text.toList = e.spelling ∧
      (e.text, []) ∈ StateTransition.eval Expression.writing.pass ("", [e])) ∧
    (∀ v : Value, v.text.toList = v.spelling ∧
      (v.text, []) ∈ StateTransition.eval Part.writing.pass ("", [.value v])) ∧
    (∀ t : Term, t.text.toList = t.spelling ∧
      (t.text, []) ∈ StateTransition.eval Part.writing.pass ("", [.term t])) ∧
    ∀ e : Expression, e.size = e.leaves ∧ e.leaves = e.applications + 1 ∧
      (e.size, []) ∈ StateTransition.eval Expression.counting.pass (0, [e]) := by
  have part (p : Part) := Part.writing_computes_writeAll.mem_eval Part.nodes_children_lt "" [p]
  refine ⟨fun e => ⟨e.toList_text, ?_⟩, fun v => ⟨v.toList_text, part (.value v)⟩,
    fun t => ⟨t.toList_text, part (.term t)⟩,
    fun e => ⟨e.size_eq_leaves, e.leaves_eq_applications_add_one, ?_⟩⟩
  · exact Expression.writing_computes_writeAll.mem_eval Expression.nodes_children_lt "" [e]
  · exact Expression.counting_computes_countAll.mem_eval Expression.nodes_children_lt 0 [e]

end Unlambda
