import Unlambda.Proofs.Machine.Extension
import Unlambda.Proofs.Machine.Similarity

/-!
# Contexts that pass a value on

A program can stand in a context that does nothing with its value but hand it on. The context may
return the value, or it may throw it to a captured continuation and leave other work undone: to
escape is to return. While the program runs, its continuations go through such a context, and it
can capture them, keep them and resume them at any time. None of this can be seen at the end.

## Main definitions

* `Unlambda.Expression.passed`, `Unlambda.Expression.returned`, `Unlambda.Expression.thrown`: a
  program in three such contexts
* `Unlambda.Continuation.Forwards`: a continuation hands every value on to the end of the run
* `Unlambda.Expression.Surrounds`: a program evaluates another one in front of such a continuation

## Main results

* `Unlambda.Value.text_extend`: what follows a captured continuation is not seen in a text
* `Unlambda.Continuation.forwards_throw`: to throw a value is to forward it
* `Unlambda.Expression.Surrounds.exists_run_eq_halted`,
  `Unlambda.Expression.Surrounds.run_ne_halted`: the program ends as it does alone
* `Unlambda.Machine.passing_contexts_are_transparent`: the three contexts together
-/

namespace Unlambda

open Machine

/-! ### Texts in a context -/

mutual

/-- A continuation is shown by a mark, whatever comes after it. -/
theorem Value.spelling_extend : ∀ (v : Value) (k : Continuation), (v.extend k).spelling = v.spelling
  | .primitive p, k => rfl
  | .k1 x, k => by rw [Value.extend, Value.spelling, x.spelling_extend, Value.spelling]
  | .s1 x, k => by rw [Value.extend, Value.spelling, x.spelling_extend, Value.spelling]
  | .s2 x y, k => by
    rw [Value.extend, Value.spelling, x.spelling_extend, y.spelling_extend, Value.spelling]
  | .delayed promise body, k => by
    rw [Value.extend, Value.spelling, body.spelling_extend, Value.spelling]
  | .continuation saved, k => rfl

theorem Term.spelling_extend : ∀ (t : Term) (k : Continuation), (t.extend k).spelling = t.spelling
  | .source e, k => rfl
  | .value v, k => by rw [Term.extend, Term.spelling, v.spelling_extend, Term.spelling]
  | .application f x, k => by
    rw [Term.extend, Term.spelling, f.spelling_extend, x.spelling_extend, Term.spelling]

end

/-- **What follows a captured continuation is not seen in a text.** -/
theorem Value.text_extend (v : Value) (k : Continuation) : (v.extend k).text = v.text := by
  rw [← String.toList_inj, toList_text, toList_text, spelling_extend]

/-! ### Continuations that forward -/

/-- Every value that is handed to `k` becomes the result, and nothing else happens. -/
def Continuation.Forwards (k : Continuation) : Prop :=
  ∀ v console fresh, ∃ n later,
    State.Reaches ⟨.resume k v, console, fresh⟩ n ⟨.resume .done v, console, later⟩

namespace Continuation

theorem forwards_done : Forwards .done :=
  fun _ _ fresh => ⟨0, fresh, .refl _⟩

theorem forwards_pass (link : Serial) : (awaitApply link (.primitive .i) done).Forwards :=
  fun _ _ fresh => ⟨2, fresh, rfl⟩

/-- Behind `c` a waiting `k` drops the continuation and returns its value. -/
theorem forwards_return (link link' : Serial) :
    (awaitApply link (.primitive .k) (awaitApply link' (.primitive .c) done)).Forwards :=
  fun _ _ fresh => ⟨10, fresh + 2, rfl⟩

/-- **To throw a value is to forward it.** The value becomes a part of a function that `c` applies
to the end of the run. This function has `p` wait for the value of a call that never returns. If
`p` were `d`, then the call would not take place. -/
theorem forwards_throw {p : Primitive} (hp : p ≠ .d) (l₁ l₂ l₃ l₄ : Serial) :
    (awaitApply l₁ (.primitive .k) (awaitApply l₂ (.s1 (.primitive .i))
      (awaitApply l₃ (.s1 (.k1 (.primitive p))) (awaitApply l₄ (.primitive .c) done)))).Forwards := by
  intro v console fresh
  let thrower : Value := .s2 (.primitive .i) (.k1 v)
  let call : Term := .applyValues thrower (.continuation done)
  -- The value is wrapped up, and `c` hands the end of the run to the function made of it.
  have hwrap : State.Reaches ⟨.resume (awaitApply l₁ (.primitive .k)
      (awaitApply l₂ (.s1 (.primitive .i)) (awaitApply l₃ (.s1 (.k1 (.primitive p)))
        (awaitApply l₄ (.primitive .c) done)))) v, console, fresh⟩ 13
      ⟨.apply (.s2 (.k1 (.primitive p)) thrower) (.continuation done) done, console, fresh + 2⟩ :=
    rfl
  -- The operator comes to `p`, and the operand is the call.
  have hoperator : State.Reaches
      ⟨.apply (.s2 (.k1 (.primitive p)) thrower) (.continuation done) done, console, fresh + 2⟩ 8
      ⟨.resume (awaitOperand (fresh + 2) call done) (.primitive p), console, fresh + 5⟩ := rfl
  have hpending : State.step
      ⟨.resume (awaitOperand (fresh + 2) call done) (.primitive p), console, fresh + 5⟩ =
      .next ⟨.eval call (awaitApply (fresh + 5) (.primitive p) done), console, fresh + 6⟩ :=
    step_resume_of_ne fun h => hp (Value.primitive.inj h)
  -- The call resumes the continuation, and `p` is left waiting.
  have hthrow : State.Reaches
      ⟨.eval call (awaitApply (fresh + 5) (.primitive p) done), console, fresh + 6⟩ 22
      ⟨.resume done v, console, fresh + 14⟩ := rfl
  exact ⟨_, fresh + 14, hwrap.trans (hoperator.trans (.head hpending hthrow))⟩

end Continuation

/-! ### Programs in a context -/

namespace Expression

/-- ` `ix `: the value is passed through the identity. -/
def passed (x : Expression) : Expression := .application (.primitive .i) x

/-- ` `c`kx `: the value is returned, and the continuation that `c` captures is dropped. -/
def returned (x : Expression) : Expression :=
  .application (.primitive .c) (.application (.primitive .k) x)

/-- ` `c``s`kp``si`kx `: the value is thrown to the continuation that `c` captures, while `p` waits
to be applied. -/
def thrown (p : Primitive) (x : Expression) : Expression :=
  .application (.primitive .c)
    (.application (.application (.primitive .s) (.application (.primitive .k) (.primitive p)))
      (.application (.application (.primitive .s) (.primitive .i))
        (.application (.primitive .k) x)))

variable {e x : Expression} {input : List Char} {fuel : Nat} {evaluation : Evaluation}

/-- Before anything has happened to the console, `e` comes to evaluate `x` in front of a
continuation that forwards. -/
def Surrounds (e x : Expression) : Prop :=
  ∃ n k fresh, k.Forwards ∧ ∀ input,
    (State.ofExpression e input 0).Reaches n ⟨.eval (.source x) k, .ofInput input, fresh⟩

theorem surrounds_self (x : Expression) : x.Surrounds x :=
  ⟨0, .done, 0, Continuation.forwards_done, fun _ => .refl _⟩

theorem surrounds_passed (x : Expression) : x.passed.Surrounds x :=
  ⟨3, _, 2, Continuation.forwards_pass 1, fun _ => rfl⟩

theorem surrounds_returned (x : Expression) : x.returned.Surrounds x :=
  ⟨6, _, 4, Continuation.forwards_return 3 1, fun _ => rfl⟩

theorem surrounds_thrown {p : Primitive} (hp : p ≠ .d) (x : Expression) :
    (x.thrown p).Surrounds x :=
  ⟨27, _, 14, Continuation.forwards_throw hp 13 11 7 1, fun _ => rfl⟩

/-- **If `x` ends alone, then it ends in a context that forwards,** with a result that has the same
text. -/
theorem Surrounds.exists_run_eq_halted (h : e.Surrounds x)
    (hrun : (State.ofExpression x input 0).run fuel = .halted evaluation) :
    ∃ fuel' evaluation', (State.ofExpression e input 0).run fuel' = .halted evaluation' ∧
      evaluation'.result.text = evaluation.result.text ∧
      evaluation'.console = evaluation.console ∧ evaluation'.exited = evaluation.exited := by
  obtain ⟨n, k, fresh, hforwards, hreach⟩ := h
  -- In the context `x` starts with a later serial.
  let alone : State := .ofExpression x input fresh
  obtain ⟨fuel₁, evaluation₁, hrun₁, htree, hconsole, hexited⟩ :=
    (State.similar_ofExpression x input 0 fresh).exists_run_eq_halted hrun
  have htext : (evaluation₁.result.extend k).text = evaluation.result.text := by
    rw [Value.text_extend, Value.text_eq_of_tree_eq htree]
  have hstart : (State.ofExpression e input 0).Reaches n (alone.extend k) := hreach input
  cases hend : evaluation₁.exited with
  | false =>
    obtain ⟨m, -, hvalue⟩ := State.run_extend_of_returns k hrun₁ hend
    obtain ⟨m', later, hforward⟩ :=
      hforwards (evaluation₁.result.extend k) evaluation₁.console evaluation₁.fresh
    have hlast := (hstart.trans (State.Reaches.trans hvalue hforward)).run_eq_halted rfl
      (Nat.lt_succ_self _)
    exact ⟨_, _, hlast, htext, hconsole.symm, (hexited.trans hend).symm⟩
  | true =>
    have hexit := State.run_extend_of_exits k hrun₁ hend
    have hlast : (State.ofExpression e input 0).run (n + evaluation₁.steps) =
        .halted { evaluation₁ with
          result := evaluation₁.result.extend k
          steps := n + evaluation₁.steps } := by
      rw [State.run_of_reaches hstart, hexit]
      rfl
    exact ⟨_, _, hlast, htext, hconsole.symm, hexited.symm⟩

/-- **If `x` does not end alone, then it does not end in a context that forwards.** -/
theorem Surrounds.run_ne_halted (h : e.Surrounds x)
    (hendless : ∀ fuel evaluation, (State.ofExpression x input 0).run fuel ≠ .halted evaluation) :
    (State.ofExpression e input 0).run fuel ≠ .halted evaluation := by
  obtain ⟨n, k, fresh, -, hreach⟩ := h
  intro hrun
  let alone : State := .ofExpression x input fresh
  have halone (fuel : Nat) (evaluation : Evaluation) : alone.run fuel ≠ .halted evaluation := by
    intro hrun
    obtain ⟨fuel', evaluation', hrun', -⟩ :=
      (State.similar_ofExpression x input fresh 0).exists_run_eq_halted hrun
    exact hendless fuel' evaluation' hrun'
  -- The end of the run lies behind the point where `x` is evaluated, and there is no such end.
  obtain ⟨m, -, last, result, exited, hlast, hstep, -⟩ := State.run_eq_halted_iff.mp hrun
  obtain ⟨rest, rfl, hrest⟩ := hlast.of_reaches hstep (hreach input)
  obtain ⟨state, hpaused, -⟩ := State.run_extend_of_endless k
    (State.sparesDelay_ofExpression x input fresh) halone (rest + 1)
  have hhalted := hrest.run_eq_halted hstep rest.lt_succ_self
  cases hhalted.symm.trans hpaused

end Expression

namespace Machine

/-- **Contexts that pass a value on are transparent,** and to escape through a continuation is to
return. Let a program `x` be given, with any primitives in it, and a primitive `p` other than `d`.
On every input either none of ` x `, ` `ix `, ` `c`kx ` and ` `c``s`kp``si`kx ` comes to an end, or
they all do. Then their results have the same text, their consoles are the same, and they have all
exited or none has. -/
theorem passing_contexts_are_transparent (x : Expression) (p : Primitive) (hp : p ≠ .d)
    (input : List Char) :
    let programs := [x, x.passed, x.returned, x.thrown p]
    (∀ e ∈ programs, ∀ fuel, e.evaluate fuel input = none) ∨
      ∃ text console exited, ∀ e ∈ programs, ∃ fuel evaluation,
        e.evaluate fuel input = some (.ok evaluation) ∧ evaluation.result.text = text ∧
          evaluation.console = console ∧ evaluation.exited = exited := by
  intro programs
  have hsurrounds : ∀ e ∈ programs, e.Surrounds x := by
    simp only [programs, List.forall_mem_cons]
    exact ⟨x.surrounds_self, x.surrounds_passed, x.surrounds_returned, x.surrounds_thrown hp,
      List.forall_mem_nil _⟩
  by_cases hends : ∃ fuel evaluation, (State.ofExpression x input 0).run fuel = .halted evaluation
  · right
    obtain ⟨fuel, evaluation, hrun⟩ := hends
    refine ⟨evaluation.result.text, evaluation.console, evaluation.exited, fun e he => ?_⟩
    obtain ⟨fuel', evaluation', hrun', hsame⟩ := (hsurrounds e he).exists_run_eq_halted hrun
    exact ⟨fuel', evaluation', State.evaluate_eq_ok_iff.mpr hrun', hsame⟩
  · left
    intro e he fuel
    refine Option.eq_none_iff_forall_ne_some.mpr fun answer hanswer => ?_
    obtain ⟨evaluation, hrun, -⟩ :=
      (State.sparesDelay_ofExpression e input 0).evaluate_eq_some_iff.mp hanswer
    exact (hsurrounds e he).run_ne_halted
      (fun fuel evaluation hrun => hends ⟨fuel, evaluation, hrun⟩) hrun

/-- If `d` waits for the call that throws the value, then the call is kept in a promise. -/
example : ∃ evaluation promise body,
    ((Expression.primitive .i).thrown .d).evaluate 60 [] = some (.ok evaluation) ∧
      evaluation.result = .delayed promise body :=
  ⟨_, _, _, rfl, rfl⟩

/-- The program ` `.a`ci ` captures the continuation behind its operand, writes `a`, and returns
that continuation. The continuation leads on through the context, and so it is a different one in
each context, but the text of the result is always the same. -/
theorem captured_context_is_not_seen :
    let x : Expression := .application (.primitive (.print 'a'))
      (.application (.primitive .c) (.primitive .i))
    Primitive.print 'y' ≠ .d ∧
      ∀ e ∈ [x, x.passed, x.returned, x.thrown (.print 'y')], ∃ fuel evaluation,
        e.evaluate fuel [] = some (.ok evaluation) ∧ evaluation.result.text = "<cont>" ∧
          evaluation.console = ⟨[], [], ['a'], none⟩ ∧ evaluation.exited = false := by
  intro x
  have hp : Primitive.print 'y' ≠ .d := by decide
  have halone : x.evaluate 20 [] = some (.ok ⟨.continuation (.awaitApply 1 (.primitive (.print 'a'))
      .done), ⟨[], [], ['a'], none⟩, 18, false, 6⟩) := rfl
  refine ⟨hp, ?_⟩
  rcases passing_contexts_are_transparent x (.print 'y') hp [] with hnone | ⟨text, console, exited, h⟩
  · rw [hnone x List.mem_cons_self 20] at halone
    cases halone
  · -- The program alone tells what the common end is.
    obtain ⟨fuel, evaluation, hrun, rfl, rfl, rfl⟩ := h x List.mem_cons_self
    obtain rfl := State.eq_of_run_eq_halted (State.evaluate_eq_ok_iff.mp hrun)
      (State.evaluate_eq_ok_iff.mp halone)
    have hmark : (Value.continuation (.awaitApply 1 (.primitive (.print 'a')) .done)).text =
        "<cont>" := by
      rw [← String.toList_inj, Value.toList_text, Value.spelling]
      rfl
    rw [← hmark]
    exact h

end Machine

end Unlambda
