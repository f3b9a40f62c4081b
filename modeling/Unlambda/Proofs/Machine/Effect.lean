import Unlambda.Proofs.Machine.Reach

/-!
# What a step does to the console

Only the application of `@`, `r` and `.x` changes the console, and none of them takes back what
has been written. To capture a continuation, to resume one, to keep an operand and to force a
promise are all without effect.

## Main definitions

* `Unlambda.Machine.Job.effect`: what a job does to the console

## Main results

* `Unlambda.Machine.State.console_of_step`: a step has the effect of its job
* `Unlambda.Machine.State.Reaches.output_prefix`: what has been written stays written
-/

namespace Unlambda.Machine

/-- What the step that works on a job does to the console. -/
def Job.effect : Job → Console → Console
  | .apply (.primitive .read) _ _, console => console.read
  | .apply (.primitive .r) _ _, console => console.write '\n'
  | .apply (.primitive (.print y)) _ _, console => console.write y
  | _, console => console

theorem Job.output_prefix_effect (job : Job) (console : Console) :
    console.output <+: (job.effect console).output := by
  unfold effect
  split
  · simp only [Console.output_read, List.prefix_refl]
  · rw [Console.output_write]
    exact List.prefix_append console.output ['\n']
  · next y _ _ =>
    rw [Console.output_write]
    exact List.prefix_append console.output [y]
  · exact List.prefix_refl console.output

namespace State

variable {state state' : State} {n : Nat}

theorem console_of_evalStep (state : State) (t : Term) (k : Continuation) :
    (state.evalStep t k).console = state.console := by
  cases t with
  | source e => cases e <;> rfl
  | value v | application f x => rfl

theorem console_of_resumeStep {k : Continuation} {v : Value}
    (hstep : state.resumeStep k v = .next state') : state'.console = state.console := by
  rcases resumeStep_next_cases hstep with ⟨_, _, _, -, -, rfl⟩ | ⟨_, _, _, -, -, rfl⟩ |
    ⟨_, _, _, -, rfl⟩ <;> rfl

theorem console_of_applyStep {f x : Value} {k : Continuation}
    (hstep : state.applyStep f x k = .next state') :
    state'.console = (Job.apply f x k).effect state.console := by
  cases f with
  | primitive p => cases p <;> cases hstep <;> rfl
  | k1 y | s1 y | s2 y z | delayed promise body | continuation saved =>
    cases hstep
    rfl

/-- A step has the effect of its job, and no other. -/
theorem console_of_step (hstep : state.step = .next state') :
    state'.console = state.job.effect state.console := by
  rcases step_next_cases hstep with ⟨t, k, hjob, rfl⟩ | ⟨k, v, hjob, hresume⟩ |
    ⟨f, x, k, hjob, happly⟩
  · rw [hjob]
    exact console_of_evalStep state t k
  · rw [hjob]
    exact console_of_resumeStep hresume
  · rw [hjob]
    exact console_of_applyStep happly

/-- **What has been written stays written.** -/
theorem Reaches.output_prefix (h : state.Reaches n state') :
    state.console.output <+: state'.console.output := by
  induction n generalizing state with
  | zero =>
    obtain rfl := reaches_zero.mp h
    exact List.prefix_refl _
  | succ n ih =>
    obtain ⟨middle, hstep, hrest⟩ := reaches_succ.mp h
    have hfirst : state.console.output <+: middle.console.output := by
      rw [console_of_step hstep]
      exact state.job.output_prefix_effect state.console
    exact hfirst.trans (ih hrest)

end State

end Unlambda.Machine
