import Unlambda.Proofs.Machine.Limit
import Unlambda.Proofs.Machine.Origin

/-!
# Programs without `s` and `c`

Of all primitives only `s` copies its argument, and only `c` lets control go back to where it has
been before. A program without them comes to an end, and soon. To see this, every part of a
running program is given some credit, and every step is paid for. Evaluation turns a primitive of
the program into a value, and the value keeps what its application will cost: `@`, `|` and `?x`
make a new application, and so does a promise each time that it is forced. As nothing is copied,
a promise is not forced more often than it has been made.

## Main definitions

* `Unlambda.Value.credit`, `Unlambda.Term.credit`, `Unlambda.Continuation.credit`: the steps that
  are paid for in advance
* `Unlambda.Machine.Job.credit`: the steps that a state has still paid for
* `Unlambda.Primitive.IsLinear`: all primitives but `s` and `c`

## Main results

* `Unlambda.Expression.credit_add_four_le`: the credit of a program
* `Unlambda.Machine.State.credit_lt_of_step`: every step costs something
* `Unlambda.Machine.State.Reaches.add_credit_le`: a whole run is paid for
* `Unlambda.Machine.evaluates_within_eleven_times_size`: programs end within the bound
-/

namespace Unlambda

/-! ### Credit -/

/-- What the application of a primitive costs, apart from the step itself. To ask is to make an
application of two values, and `d` makes a promise that has to be forced later. -/
def Primitive.credit : Primitive → Nat
  | .read | .reprint | .compare _ => 6
  | .d => 3
  | .s | .k | .i | .v | .c | .e | .r | .print _ => 0

/-- The credit of an expression. It is spent on its evaluation, except for what is left for its
primitives. -/
def Expression.credit : Expression → Nat
  | .primitive p => p.credit + 1
  | .application f x => f.credit + x.credit + 4

mutual

/-- The credit of a value. -/
def Value.credit : Value → Nat
  | .primitive p => p.credit
  | .k1 x => x.credit
  | .s1 x => x.credit
  | .s2 x y => x.credit + y.credit
  | .delayed _ body => body.credit + 5
  | .continuation _ => 0

/-- The credit of a term. -/
def Term.credit : Term → Nat
  | .source e => e.credit
  | .value v => v.credit + 1
  | .application f x => f.credit + x.credit + 4

end

/-- The credit of a continuation, where the last step of the run is paid for as well. -/
def Continuation.credit : Continuation → Nat
  | .done => 1
  | .awaitOperand _ operand next => operand.credit + 3 + next.credit
  | .awaitApply _ function next => function.credit + 2 + next.credit

theorem Primitive.credit_le (p : Primitive) : p.credit ≤ 6 := by
  cases p <;> simp [credit]

/-- **The credit of a program** is at most eleven for each primitive. -/
theorem Expression.credit_add_four_le (e : Expression) : e.credit + 4 ≤ 11 * e.leaves := by
  induction e with
  | primitive p =>
    have hp := p.credit_le
    rw [credit, leaves]
    omega
  | application f x ihf ihx =>
    rw [credit, leaves]
    omega

/-- The primitives that neither copy anything nor let control go back. -/
def Primitive.IsLinear (p : Primitive) : Prop := p ≠ .s ∧ p ≠ .c

namespace Machine

/-- The credit of a job, together with that of the continuation. -/
def Job.credit : Job → Nat
  | .eval t k => t.credit + k.credit
  | .resume k v => k.credit + v.credit
  | .apply f x k => f.credit + x.credit + 1 + k.credit

namespace State

variable {state state' : State} {n : Nat}

/-! ### One step -/

theorem credit_evalStep (state : State) (t : Term) (k : Continuation) :
    (state.evalStep t k).job.credit < (Job.eval t k).credit := by
  cases t with
  | value v =>
    simp only [evalStep, become, Job.credit, Term.credit]
    omega
  | application f x =>
    simp only [evalStep, becomeFresh, Continuation.push, Job.credit, Term.credit,
      Continuation.credit]
    omega
  | source e =>
    cases e with
    | primitive p =>
      simp only [evalStep, become, Job.credit, Term.credit, Expression.credit, Value.credit]
      omega
    | application f x =>
      simp only [evalStep, becomeFresh, Continuation.push, Job.credit, Term.credit,
        Continuation.credit, Expression.credit]
      omega

theorem credit_of_resumeStep {k : Continuation} {v : Value}
    (hstep : state.resumeStep k v = .next state') :
    state'.job.credit < (Job.resume k v).credit := by
  rcases resumeStep_next_cases hstep with ⟨link, operand, next, rfl, rfl, rfl⟩ |
    ⟨link, operand, next, rfl, -, rfl⟩ | ⟨link, function, next, rfl, rfl⟩
  · -- What `d` has kept goes to the promise.
    simp only [becomeFresh, Job.credit, Continuation.credit, Value.credit, Primitive.credit]
    omega
  · simp only [becomeFresh, Continuation.push, Job.credit, Continuation.credit]
    omega
  · simp only [become, Job.credit, Continuation.credit]
    omega

/-- The answers `i` and `v` and the functions that print are free, so that whoever asks only pays
for the new application. -/
theorem credit_verdict (yes : Bool) : (verdict yes).credit = 0 := by
  cases yes <;> rfl

theorem credit_echo (current : Option Char) : (echo current).credit = 0 := by
  cases current <;> rfl

theorem credit_of_applyStep {f x : Value} {k : Continuation}
    (hf : StemsFrom Primitive.IsLinear f.pieces)
    (hstep : state.applyStep f x k = .next state') :
    state'.job.credit < (Job.apply f x k).credit := by
  cases f with
  | primitive p =>
    obtain ⟨hs, hc⟩ : p.IsLinear := hf.value rfl
    cases p with
    | s => exact absurd rfl hs
    | c => exact absurd rfl hc
    | d | e => cases hstep
    | k | i | v | r | print y =>
      obtain rfl := Move.next.inj hstep
      simp only [become, Job.credit, Value.credit, Primitive.credit]
      omega
    | read | compare y =>
      obtain rfl := Move.next.inj hstep
      simp only [become, Job.credit, Term.applyValues, Term.credit, credit_verdict, Value.credit,
        Primitive.credit]
      omega
    | reprint =>
      obtain rfl := Move.next.inj hstep
      simp only [become, Job.credit, Term.applyValues, Term.credit, credit_echo, Value.credit,
        Primitive.credit]
      omega
  | k1 y =>
    obtain rfl := Move.next.inj hstep
    simp only [become, Job.credit, Value.credit]
    omega
  | s1 y | s2 y z => exact absurd rfl (hf.value rfl).1
  | delayed promise body =>
    obtain rfl := Move.next.inj hstep
    simp only [become, Job.credit, Term.credit, Value.credit]
    omega
  | continuation saved => exact absurd rfl (hf.value rfl).2

/-- **Every step costs something.** -/
theorem credit_lt_of_step (hall : StemsFrom Primitive.IsLinear state.pieces)
    (hstep : state.step = .next state') : state'.job.credit < state.job.credit := by
  rcases step_next_cases hstep with ⟨t, k, hjob, rfl⟩ | ⟨k, v, hjob, hresume⟩ |
    ⟨f, x, k, hjob, happly⟩
  · rw [hjob]
    exact credit_evalStep state t k
  · rw [hjob]
    exact credit_of_resumeStep hresume
  · rw [pieces, hjob, Job.pieces] at hall
    rw [hjob]
    exact credit_of_applyStep hall.of_append.1 happly

/-! ### Whole runs -/

/-- **A whole run is paid for** by the credit of its start. -/
theorem Reaches.add_credit_le
    (hall : ∀ m middle, state.Reaches m middle → StemsFrom Primitive.IsLinear middle.pieces)
    (hreach : state.Reaches n state') : n + state'.job.credit ≤ state.job.credit := by
  induction n generalizing state' with
  | zero =>
    obtain rfl := reaches_zero.mp hreach
    exact Nat.le_of_eq (Nat.zero_add _)
  | succ n ih =>
    obtain ⟨middle, hmiddle, hstep⟩ := reaches_succ_last.mp hreach
    have hbefore := ih hmiddle
    have hlast := credit_lt_of_step (hall n middle hmiddle) hstep
    omega

end State

section Programs

variable {e : Expression} {input : List Char} {pieces : List Piece} {console : Console}

theorem Traced.linear (hs : .primitive .s ∉ e.parts) (hc : .primitive .c ∉ e.parts)
    (h : Traced e input pieces console) : StemsFrom Primitive.IsLinear pieces := by
  intro piece hpiece p hstem
  constructor
  · rintro rfl
    cases h.origin piece hpiece .s hstem with
    | written written => exact hs written
  · rintro rfl
    cases h.origin piece hpiece .c hstem with
    | written written => exact hc written

/-- **Without `s` and `c` a program ends, and soon.** It takes at most eleven steps for each of
its primitives, whatever the input is, so that it does not notice a step limit of this height. -/
theorem evaluates_within_eleven_times_size (e : Expression) (hs : .primitive .s ∉ e.parts)
    (hc : .primitive .c ∉ e.parts) (input : List Char) :
    ∃ evaluation, e.evaluate (11 * e.size) input = some (.ok evaluation) ∧
      evaluation.steps ≤ 11 * e.size ∧
      ∀ limit, 11 * e.size ≤ limit → e.evaluateWithin limit input = .ok evaluation := by
  have hall (m : Nat) (middle : State) (hmiddle : (State.ofExpression e input 0).Reaches m middle) :
      StemsFrom Primitive.IsLinear middle.pieces := hmiddle.traced.linear hs hc
  have hstart : (State.ofExpression e input 0).job.credit < 11 * e.size := by
    have he := e.credit_add_four_le
    have hcredit : (State.ofExpression e input 0).job.credit = e.credit + 1 := rfl
    rw [e.size_eq_leaves]
    omega
  cases hrun : (State.ofExpression e input 0).run (11 * e.size) with
  | stuck function =>
    exact absurd hrun ((State.sparesDelay_ofExpression e input 0).run_ne_stuck _ function)
  | paused state =>
    -- There is not enough credit for so many steps.
    have hspent := State.Reaches.add_credit_le hall hrun
    omega
  | halted evaluation =>
    obtain ⟨n, hn, last, result, exited, -, -, rfl⟩ := State.run_eq_halted_iff.mp hrun
    exact ⟨_, State.evaluate_eq_ok_iff.mpr hrun, hn,
      fun limit hlimit => State.evaluateWithin_of_steps_le hrun (Nat.le_trans hn hlimit)⟩

/-- In ` ``d``@|k`?ad ` a promise is made and forced, and three primitives ask. On the input `a` the
program takes 45 steps, and 66 are allowed to its six primitives. -/
theorem forced_promise_ends_in_time :
    let e : Expression := .application
      (.application (.primitive .d) (.application (.application (.primitive .read)
        (.primitive .reprint)) (.primitive .k)))
      (.application (.primitive (.compare 'a')) (.primitive .d))
    .primitive .s ∉ e.parts ∧ .primitive .c ∉ e.parts ∧ 11 * e.size = 66 ∧
      ∃ evaluation, e.evaluate (11 * e.size) ['a'] = some (.ok evaluation) ∧
        evaluation.steps = 45 ∧
        ∀ limit, 11 * e.size ≤ limit → e.evaluateWithin limit ['a'] = .ok evaluation := by
  intro e
  have hs : .primitive .s ∉ e.parts := by simp [e, Expression.parts]
  have hc : .primitive .c ∉ e.parts := by simp [e, Expression.parts]
  have hsize : 11 * e.size = 66 := by rw [e.size_eq_leaves]; rfl
  obtain ⟨evaluation, hevaluate, -, hlimit⟩ := evaluates_within_eleven_times_size e hs hc ['a']
  refine ⟨hs, hc, hsize, evaluation, hevaluate, ?_, hlimit⟩
  -- The run is the one that 66 steps show.
  rw [hsize] at hevaluate
  exact congrArg Evaluation.steps (Except.ok.inj (Option.some.inj hevaluate)).symm

end Programs

end Machine

end Unlambda
