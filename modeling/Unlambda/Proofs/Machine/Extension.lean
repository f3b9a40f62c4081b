import Unlambda.Proofs.Machine.Applicability

/-!
# Evaluation in a context

A program that runs alone captures continuations that end where the program ends. If the same
program runs as a part of something larger, each of these continuations goes on with what is
left to do there. Apart from that the two runs are the same, step by step, although the program
may store such continuations anywhere and enter them again at any time.

## Main definitions

* `Unlambda.Value.extend`, `Unlambda.Term.extend`, `Unlambda.Continuation.extend`: everything
  that a run alone produces, as it is in a context
* `Unlambda.Machine.State.extend`: the same for a state

## Main results

* `Unlambda.Machine.State.step_extend`: the steps in a context are the steps alone
* `Unlambda.Machine.run_in_context`: what becomes of the three ways in which a run alone can
  end, or not end
-/

namespace Unlambda

mutual

/-- A value in whose captured continuations `k` comes last. -/
def Value.extend : Value → Continuation → Value
  | .primitive p, _ => .primitive p
  | .k1 x, k => .k1 (x.extend k)
  | .s1 x, k => .s1 (x.extend k)
  | .s2 x y, k => .s2 (x.extend k) (y.extend k)
  | .delayed promise body, k => .delayed promise (body.extend k)
  | .continuation saved, k => .continuation (saved.extend k)

/-- A term in whose captured continuations `k` comes last. -/
def Term.extend : Term → Continuation → Term
  | .source e, _ => .source e
  | .value v, k => .value (v.extend k)
  | .application f x, k => .application (f.extend k) (x.extend k)

/-- The continuation that goes on with `k` where the given one is done. The same holds of the
continuations that occur in its frames. -/
def Continuation.extend : Continuation → Continuation → Continuation
  | .done, k => k
  | .awaitOperand link operand next, k => .awaitOperand link (operand.extend k) (next.extend k)
  | .awaitApply link function next, k => .awaitApply link (function.extend k) (next.extend k)

end

theorem Value.isPrimitive_extend (v : Value) (k : Continuation) (p : Primitive) :
    (v.extend k).isPrimitive p = v.isPrimitive p := by
  cases v <;> simp [extend, isPrimitive]

namespace Continuation

theorem depth_awaitOperand (link : Serial) (operand : Term) (next : Continuation) :
    (awaitOperand link operand next).depth = next.depth + 1 :=
  depth_push link (.awaitOperand operand) next

theorem depth_awaitApply (link : Serial) (function : Value) (next : Continuation) :
    (awaitApply link function next).depth = next.depth + 1 :=
  depth_push link (.awaitApply function) next

theorem depth_extend (k : Continuation) : ∀ c : Continuation, (c.extend k).depth = c.depth + k.depth
  | .done => by rw [extend, depth_done, Nat.zero_add]
  | .awaitOperand link operand next => by
    rw [extend, depth_awaitOperand, depth_awaitOperand, depth_extend k next, Nat.add_right_comm]
  | .awaitApply link function next => by
    rw [extend, depth_awaitApply, depth_awaitApply, depth_extend k next, Nat.add_right_comm]

theorem eq_done_of_depth_eq_zero {c : Continuation} (h : c.depth = 0) : c = .done := by
  cases c with
  | done => rfl
  | awaitOperand link operand next =>
    rw [depth_awaitOperand] at h
    exact absurd h next.depth.succ_ne_zero
  | awaitApply link function next =>
    rw [depth_awaitApply] at h
    exact absurd h next.depth.succ_ne_zero

/-- A continuation that still has frames of its own is not the one that comes after it. -/
theorem extend_eq_self_iff {c k : Continuation} : c.extend k = k ↔ c = .done := by
  constructor
  · intro h
    -- The frames of `c` would make `k` deeper than it is.
    have hdepth : k.depth = c.depth + k.depth := by
      rw [← depth_extend k c, h]
    exact eq_done_of_depth_eq_zero (by omega)
  · rintro rfl
    rw [extend]

end Continuation

namespace Machine

/-- A job in a context. -/
def Job.extend : Job → Continuation → Job
  | .eval t c, k => .eval (t.extend k) (c.extend k)
  | .resume c v, k => .resume (c.extend k) (v.extend k)
  | .apply f x c, k => .apply (f.extend k) (x.extend k) (c.extend k)

/-- A state in a context. -/
def State.extend (state : State) (k : Continuation) : State :=
  { state with job := state.job.extend k }

/-- What a step leads to in a context. -/
def Move.extend : Move → Continuation → Move
  | .next state, k => .next (state.extend k)
  | .halt result exited, k => .halt (result.extend k) exited
  | .stuck function, k => .stuck (function.extend k)

namespace State

variable {state state' : State} {k : Continuation} {n : Nat}

theorem resumeStep_extend (state : State) {c : Continuation} (hc : c ≠ .done) (v : Value)
    (k : Continuation) :
    (state.extend k).resumeStep (c.extend k) (v.extend k) = (state.resumeStep c v).extend k := by
  cases c with
  | done => exact absurd rfl hc
  | awaitOperand link operand next =>
    simp only [Continuation.extend, resumeStep, Value.isPrimitive_extend]
    split <;> rfl
  | awaitApply link function next => rfl

theorem echo_extend (current : Option Char) (k : Continuation) :
    (echo current).extend k = echo current := by
  cases current <;> rfl

theorem applyPrimitive_extend (state : State) (p : Primitive) (x : Value) (c k : Continuation) :
    (state.extend k).applyPrimitive p (x.extend k) (c.extend k) =
      (state.applyPrimitive p x c).extend k := by
  cases p with
  | reprint =>
    simp only [applyPrimitive, become, Move.extend, extend, Job.extend, Term.applyValues,
      Term.extend, echo_extend]
  | s | k | i | v | c | d | e | r | read | print y | compare y => rfl

theorem applyStep_extend (state : State) (f x : Value) (c k : Continuation) :
    (state.extend k).applyStep (f.extend k) (x.extend k) (c.extend k) =
      (state.applyStep f x c).extend k := by
  cases f with
  | primitive p => exact applyPrimitive_extend state p x c k
  | k1 y | s1 y | s2 y z | delayed promise body | continuation saved => rfl

theorem evalStep_extend (state : State) (t : Term) (c k : Continuation) :
    (state.extend k).evalStep (t.extend k) (c.extend k) = (state.evalStep t c).extend k := by
  cases t with
  | source e => cases e <;> rfl
  | value v | application f x => rfl

/-- **One step in a context.** Unless the program alone is done, its next step is the same in
every context. -/
theorem step_extend (k : Continuation) (h : ∀ v, state.job ≠ .resume .done v) :
    (state.extend k).step = state.step.extend k := by
  unfold step
  rw [extend]
  cases hjob : state.job with
  | eval t c => exact congrArg Move.next (evalStep_extend state t c k)
  | resume c v =>
    refine resumeStep_extend state ?_ v k
    rintro rfl
    exact h v hjob
  | apply f x c => exact applyStep_extend state f x c k

theorem job_ne_resume_done_of_step (hstep : state.step = .next state') (v : Value) :
    state.job ≠ .resume .done v := by
  intro hjob
  rw [step_eq_halt_iff.mpr (.inl ⟨hjob, rfl⟩)] at hstep
  cases hstep

/-- **A run in a context.** As long as the program alone is not done, it comes to the same
states in every context. -/
theorem Reaches.extend (h : state.Reaches n state') (k : Continuation) :
    (state.extend k).Reaches n (state'.extend k) := by
  induction n generalizing state with
  | zero => exact reaches_zero.mpr (congrArg (extend · k) (reaches_zero.mp h))
  | succ n ih =>
    obtain ⟨middle, hstep, hrest⟩ := reaches_succ.mp h
    refine .head ?_ (ih hrest)
    rw [step_extend k (job_ne_resume_done_of_step hstep), hstep, Move.extend]

/-- A state from which there is a next one does not yet hand a value to the context. -/
theorem job_extend_ne_resume (hstep : state.step = .next state') (k : Continuation) (v : Value) :
    (state.extend k).job ≠ .resume k v := by
  intro hjob
  rw [State.extend] at hjob
  cases hbefore : state.job with
  | resume c w =>
    rw [hbefore] at hjob
    obtain ⟨hk, -⟩ := Job.resume.inj hjob
    rw [Continuation.extend_eq_self_iff.mp hk] at hbefore
    exact job_ne_resume_done_of_step hstep w hbefore
  | eval t c | apply f x c =>
    rw [hbefore] at hjob
    cases hjob

theorem run_extend_of_returns {fuel : Nat} {evaluation : Evaluation} (k : Continuation)
    (hrun : state.run fuel = .halted evaluation) (hexited : evaluation.exited = false) :
    ∃ n, evaluation.steps = n + 1 ∧ (state.extend k).run n =
      .paused ⟨.resume k (evaluation.result.extend k), evaluation.console, evaluation.fresh⟩ := by
  obtain ⟨n, -, last, result, exited, hreach, hstep, rfl⟩ := run_eq_halted_iff.mp hrun
  rcases step_eq_halt_iff.mp hstep with ⟨hjob, -⟩ | ⟨c, -, rfl⟩
  · -- Where nothing has waited for the value, `k` does so now.
    have hlast : last.extend k = ⟨.resume k (result.extend k), last.console, last.fresh⟩ := by
      rw [State.extend, hjob, Job.extend, Continuation.extend]
    exact ⟨n, rfl, hlast ▸ hreach.extend k⟩
  · cases hexited

theorem run_extend_of_exits {fuel : Nat} {evaluation : Evaluation} (k : Continuation)
    (hrun : state.run fuel = .halted evaluation) (hexited : evaluation.exited = true) :
    (state.extend k).run evaluation.steps =
      .halted { evaluation with result := evaluation.result.extend k } := by
  obtain ⟨n, -, last, result, exited, hreach, hstep, rfl⟩ := run_eq_halted_iff.mp hrun
  obtain rfl : exited = true := hexited
  -- The exit is an application of `e`, which does not look at the continuation.
  have hcontext : (last.extend k).step = .halt (result.extend k) true := by
    rw [step_extend k, hstep, Move.extend]
    intro v hjob
    rcases step_eq_halt_iff.mp hstep with ⟨-, habsurd⟩ | ⟨c, happly, -⟩
    · cases habsurd
    · rw [hjob] at happly
      cases happly
  exact (hreach.extend k).run_eq_halted hcontext n.lt_succ_self

theorem run_extend_of_endless (k : Continuation) (hspares : state.SparesDelay)
    (hendless : ∀ fuel evaluation, state.run fuel ≠ .halted evaluation) (n : Nat) :
    ∃ state', (state.extend k).run n = .paused state' ∧ ∀ v, state'.job ≠ .resume k v := by
  -- After `n` steps there is another one, so the program alone is not done by then.
  obtain ⟨later, hlater⟩ := hspares.reaches_of_endless hendless (n + 1)
  obtain ⟨state', hreach, hstep⟩ := reaches_succ_last.mp hlater
  exact ⟨state'.extend k, hreach.extend k, job_extend_ne_resume hstep k⟩

end State

/-- **Evaluation in a context.** A part of a program is evaluated in front of `k` as it is
evaluated alone.

* If alone it has a value after `n + 1` steps, then after `n` steps it hands this value to `k`,
  and the console is the same; the continuations captured in the value go on with `k`.
* If alone it ends the program with `e`, then it does so in the same number of steps.
* If alone it does not end, then it never hands anything to `k`. -/
theorem run_in_context (e : Expression) (k : Continuation) (console : Console) (fresh : Serial) :
    let alone : State := ⟨.eval (.source e) .done, console, fresh⟩
    let inContext : State := ⟨.eval (.source e) k, console, fresh⟩
    (∀ fuel evaluation, alone.run fuel = .halted evaluation → evaluation.exited = false →
      ∃ n, evaluation.steps = n + 1 ∧ inContext.run n =
        .paused ⟨.resume k (evaluation.result.extend k), evaluation.console, evaluation.fresh⟩) ∧
    (∀ fuel evaluation, alone.run fuel = .halted evaluation → evaluation.exited = true →
      inContext.run evaluation.steps =
        .halted { evaluation with result := evaluation.result.extend k }) ∧
    ((∀ fuel evaluation, alone.run fuel ≠ .halted evaluation) →
      ∀ n, ∃ state, inContext.run n = .paused state ∧ ∀ v, state.job ≠ .resume k v) := by
  intro alone inContext
  -- The program itself holds no continuations, so only the one in front of it changes.
  have hextend : alone.extend k = inContext := rfl
  rw [← hextend]
  exact ⟨fun _ _ => State.run_extend_of_returns k, fun _ _ => State.run_extend_of_exits k,
    State.run_extend_of_endless k (State.sparesDelay_of_job rfl)⟩

end Machine

end Unlambda
