import Mathlib.Logic.Relation
import Unlambda.Proofs.Machine.Applicability
import Unlambda.Proofs.Machine.Origin
import Unlambda.Proofs.Value.Tree

/-!
# Programs of combinators

A program that is written with `s`, `k` and `i` alone is a term of combinatory logic, and the
machine reduces it. At every moment the job and the frames of its continuation make up one tree,
the program as it has become by then. Most steps only move the point of attention in this tree.
The others contract one redex of it. Where the machine ends, no redex is left.

## Main definitions

* `Unlambda.Tree.Contracts`, `Unlambda.Tree.Reduces`: weak reduction
* `Unlambda.Tree.Normal`: no redex is left
* `Unlambda.Continuation.plug`, `Unlambda.Machine.Job.tree`: the program as it has become
* `Unlambda.Primitive.IsCombinator`: `s`, `k` and `i`

## Main results

* `Unlambda.Value.normal_tree`: a value of pure combinators is in normal form
* `Unlambda.Machine.State.contracts_of_step`: a step contracts at most one redex
* `Unlambda.Machine.State.Reaches.reduces`: a run is a reduction
* `Unlambda.Machine.evaluation_is_weak_reduction`: programs reduce to their results
-/

namespace Unlambda

/-! ### Weak reduction -/

namespace Tree

/-- **Contraction** of one redex of combinatory logic, anywhere in a tree. -/
inductive Contracts : Tree → Tree → Prop
  | i (x : Tree) : Contracts (.application (.primitive .i) x) x
  | k (x y : Tree) : Contracts (.application (.application (.primitive .k) x) y) x
  | s (x y z : Tree) :
      Contracts (.application (.application (.application (.primitive .s) x) y) z)
        (.application (.application x z) (.application y z))
  | operator {f g : Tree} (x : Tree) (contracts : Contracts f g) :
      Contracts (.application f x) (.application g x)
  | operand (f : Tree) {x y : Tree} (contracts : Contracts x y) :
      Contracts (.application f x) (.application f y)

/-- **Weak reduction**: any number of contractions, one after the other. -/
def Reduces : Tree → Tree → Prop := Relation.ReflTransGen Contracts

/-- A tree in normal form holds no redex. -/
def Normal (t : Tree) : Prop := ∀ u, ¬t.Contracts u

variable {f x y : Tree} {p : Primitive}

theorem normal_primitive (p : Primitive) : (primitive p).Normal := by
  intro u h
  cases h

/-- With its first argument a primitive other than `i` still waits. -/
theorem Normal.waiting (hp : p ≠ .i) (hx : x.Normal) :
    (application (primitive p) x).Normal := by
  intro u h
  cases h with
  | i => exact hp rfl
  | operator _ hf => exact normal_primitive p _ hf
  | operand _ hx' => exact hx _ hx'

/-- With two arguments `s` still waits. -/
theorem Normal.waiting_s (hx : x.Normal) (hy : y.Normal) :
    (application (application (primitive .s) x) y).Normal := by
  intro u h
  cases h with
  | operator _ hf => exact Normal.waiting (by simp) hx _ hf
  | operand _ hy' => exact hy _ hy'

end Tree

/-! ### Values made of combinators -/

/-- The combinators among the primitives. -/
def Primitive.IsCombinator (p : Primitive) : Prop := p = .s ∨ p = .k ∨ p = .i

instance : DecidablePred Primitive.IsCombinator := fun _ => inferInstanceAs (Decidable (_ ∨ _))

/-- **A value of pure combinators is in normal form.** -/
theorem Value.normal_tree :
    ∀ {v : Value}, StemsFrom Primitive.IsCombinator v.pieces → v.tree.Normal
  | .primitive p, _ => Tree.normal_primitive p
  | .k1 x, h => .waiting (by simp) (normal_tree h.tail)
  | .s1 x, h => .waiting (by simp) (normal_tree h.tail)
  | .s2 x y, h => by
    obtain ⟨hx, hy⟩ := h.tail.of_append
    exact .waiting_s (normal_tree hx) (normal_tree hy)
  | .delayed promise body, h => absurd (h.value rfl) (by decide)
  | .continuation k, h => absurd (h.value rfl) (by decide)

/-! ### The program as it has become -/

/-- The tree that a continuation makes of the tree for which it waits. -/
def Continuation.plug : Continuation → Tree → Tree
  | .done, t => t
  | .awaitOperand _ operand next, t => next.plug (.application t operand.tree)
  | .awaitApply _ function next, t => next.plug (.application function.tree t)

/-- What is contracted in one place is contracted in the whole program. -/
theorem Tree.Contracts.plug {t u : Tree} (h : t.Contracts u) :
    ∀ k : Continuation, (k.plug t).Contracts (k.plug u)
  | .done => h
  | .awaitOperand _ x next => (operator x.tree h).plug next
  | .awaitApply _ f next => (operand f.tree h).plug next

namespace Machine

/-- The program as it has become: what the job works on, in the middle of all that waits. -/
def Job.tree : Job → Tree
  | .eval t k => k.plug t.tree
  | .resume k v => k.plug v.tree
  | .apply f x k => k.plug (.application f.tree x.tree)

namespace State

variable {state state' : State} {n : Nat}

theorem tree_evalStep (state : State) (t : Term) (k : Continuation) :
    (state.evalStep t k).job.tree = (Job.eval t k).tree := by
  cases t with
  | value v | application f x => rfl
  | source e => cases e <;> rfl

theorem tree_of_resumeStep {k : Continuation} {v : Value}
    (hstep : state.resumeStep k v = .next state') : state'.job.tree = (Job.resume k v).tree := by
  rcases resumeStep_next_cases hstep with ⟨link, operand, next, rfl, rfl, rfl⟩ |
    ⟨link, operand, next, rfl, -, rfl⟩ | ⟨link, function, next, rfl, rfl⟩
  · -- A promise is read back as the application of `d` that it has come from.
    rfl
  · rfl
  · rfl

/-- To apply a combinator to its last argument is a contraction. -/
theorem contracts_of_applyStep {f x : Value} {k : Continuation}
    (hf : StemsFrom Primitive.IsCombinator f.pieces)
    (hstep : state.applyStep f x k = .next state') :
    Relation.ReflGen Tree.Contracts (Job.apply f x k).tree state'.job.tree := by
  cases f with
  | primitive p =>
    rcases hf.value rfl with rfl | rfl | rfl
    · obtain rfl := Move.next.inj hstep
      exact .refl
    · obtain rfl := Move.next.inj hstep
      exact .refl
    · obtain rfl := Move.next.inj hstep
      exact .single (.plug (.i x.tree) k)
  | k1 y =>
    obtain rfl := Move.next.inj hstep
    exact .single (.plug (.k y.tree x.tree) k)
  | s1 y =>
    obtain rfl := Move.next.inj hstep
    exact .refl
  | s2 y z =>
    obtain rfl := Move.next.inj hstep
    exact .single (.plug (.s y.tree z.tree x.tree) k)
  | delayed promise body => exact absurd (hf.value rfl) (by decide)
  | continuation saved => exact absurd (hf.value rfl) (by decide)

/-- **A step contracts at most one redex** of the program as it has become. -/
theorem contracts_of_step (hall : StemsFrom Primitive.IsCombinator state.pieces)
    (hstep : state.step = .next state') :
    Relation.ReflGen Tree.Contracts state.job.tree state'.job.tree := by
  rcases step_next_cases hstep with ⟨t, k, hjob, rfl⟩ | ⟨k, v, hjob, hresume⟩ |
    ⟨f, x, k, hjob, happly⟩
  · rw [hjob, tree_evalStep]
  · rw [hjob, tree_of_resumeStep hresume]
  · rw [pieces, hjob, Job.pieces] at hall
    rw [hjob]
    exact contracts_of_applyStep hall.of_append.1 happly

/-- **A run is a reduction,** as long as it meets combinators only. -/
theorem Reaches.reduces
    (hall : ∀ m middle, state.Reaches m middle →
      StemsFrom Primitive.IsCombinator middle.pieces)
    (hreach : state.Reaches n state') : state.job.tree.Reduces state'.job.tree := by
  induction n generalizing state' with
  | zero =>
    obtain rfl := reaches_zero.mp hreach
    exact .refl
  | succ n ih =>
    obtain ⟨middle, hmiddle, hstep⟩ := reaches_succ_last.mp hreach
    have hlast := contracts_of_step (hall n middle hmiddle) hstep
    exact (ih hmiddle).trans hlast.to_reflTransGen

end State

/-! ### Whole programs -/

section Programs

variable {e : Expression} {input : List Char} {pieces : List Piece} {console : Console}

/-- Combinators neither ask nor print, so nothing else can come up. -/
theorem Traced.combinatory (hleaves : ∀ p, .primitive p ∈ e.parts → p.IsCombinator)
    (h : Traced e input pieces console) : StemsFrom Primitive.IsCombinator pieces := by
  have silent {q : Primitive} (asks : q.asks = true) : .primitive q ∉ e.parts := by
    intro written
    rcases hleaves q written with rfl | rfl | rfl <;> cases asks
  intro piece hpiece p hstem
  cases h.origin piece hpiece p hstem with
  | written written => exact hleaves p written
  | yes asks written | no asks written => exact absurd written (silent asks)
  | echo _ reads _ => exact absurd reads (silent rfl)

theorem Traced.console_eq (hleaves : ∀ p, .primitive p ∈ e.parts → p.IsCombinator)
    (h : Traced e input pieces console) : console.output = [] ∧ console.unread = input := by
  have absent {p : Primitive} (hp : ¬p.IsCombinator) : .primitive p ∉ e.parts :=
    fun written => hp (hleaves p written)
  constructor
  · refine List.eq_nil_iff_forall_not_mem.mpr fun x hx => ?_
    rcases h.output x hx with ⟨-, hr⟩ | hprint | ⟨-, hread, -⟩
    · exact absent (by decide) hr
    · exact absent (by simp [Primitive.IsCombinator]) hprint
    · exact absent (by decide) hread
  · exact (h.untouched (absent (by decide))).2.1

/-- **Evaluation is weak reduction.** If a program that is written with `s`, `k` and `i` alone
comes to an end, then it has not failed and not exited, and the program reduces to its result,
in which no redex is left. Nothing is written, and the whole input remains. -/
theorem evaluation_is_weak_reduction (e : Expression)
    (hleaves : ∀ p, .primitive p ∈ e.parts → p = .s ∨ p = .k ∨ p = .i) (input : List Char)
    (fuel : Nat) (answer : Except EvaluationError Evaluation)
    (h : e.evaluate fuel input = some answer) :
    ∃ evaluation, answer = .ok evaluation ∧
      e.tree.Reduces evaluation.result.tree ∧ evaluation.result.tree.Normal ∧
      evaluation.console.output = [] ∧ evaluation.console.unread = input ∧
      evaluation.exited = false := by
  obtain ⟨evaluation, hrun, rfl⟩ :=
    (State.sparesDelay_ofExpression e input 0).evaluate_eq_some_iff.mp h
  obtain ⟨n, -, last, result, exited, hreach, hstep, rfl⟩ := State.run_eq_halted_iff.mp hrun
  have hall (m : Nat) (middle : State) (hmiddle : (State.ofExpression e input 0).Reaches m middle) :
      StemsFrom Primitive.IsCombinator middle.pieces := hmiddle.traced.combinatory hleaves
  have hreduces : e.tree.Reduces last.job.tree := hreach.reduces hall
  obtain ⟨houtput, hunread⟩ := hreach.traced.console_eq hleaves
  rcases State.step_eq_halt_iff.mp hstep with ⟨hjob, rfl⟩ | ⟨k, hjob, -⟩
  · rw [hjob] at hreduces
    have hnormal : result.tree.Normal :=
      Value.normal_tree fun piece hpiece =>
        hall n last hreach piece (State.mem_pieces_of_halt hstep hpiece)
    exact ⟨_, rfl, hreduces, hnormal, houtput, hunread, rfl⟩
  · -- An exit is not written in the program.
    have hexit : Primitive.IsCombinator .e :=
      hall n last hreach _ (State.function_mem_pieces hjob) .e rfl
    exact absurd hexit (by decide)

/-- In ` ```skk`ki ` the argument ` `ki ` is copied, and one of the copies is dropped. This is a
reduction to ` `ki `, which is what the machine comes to. -/
theorem skk_reduces_to_its_argument :
    let argument : Expression := .application (.primitive .k) (.primitive .i)
    let e : Expression := .application (.application (.application (.primitive .s)
      (.primitive .k)) (.primitive .k)) argument
    (∀ p, .primitive p ∈ e.parts → p = .s ∨ p = .k ∨ p = .i) ∧
      ∃ evaluation, e.evaluate 40 ['x'] = some (.ok evaluation) ∧
        evaluation.result = .k1 (.primitive .i) ∧
        e.tree.Reduces argument.tree ∧ argument.tree.Normal ∧
        evaluation.console.output = [] ∧ evaluation.console.unread = ['x'] ∧
        evaluation.exited = false := by
  intro argument e
  have hleaves : ∀ p, .primitive p ∈ e.parts → p = .s ∨ p = .k ∨ p = .i := by
    intro p hp
    simp only [e, argument, Expression.parts, List.cons_append, List.nil_append, List.mem_cons,
      Expression.primitive.injEq, reduceCtorEq, false_or, List.not_mem_nil, or_false] at hp
    rcases hp with rfl | rfl | rfl | rfl | rfl <;> simp
  refine ⟨hleaves, _, rfl, rfl, ?_⟩
  obtain ⟨evaluation, hanswer, hfinished⟩ :=
    evaluation_is_weak_reduction e hleaves ['x'] 40 _ rfl
  obtain rfl := Except.ok.inj hanswer
  exact hfinished

end Programs

end Machine

end Unlambda
