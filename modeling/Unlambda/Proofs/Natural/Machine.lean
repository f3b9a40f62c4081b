import Unlambda.Proofs.Machine.Capture
import Unlambda.Proofs.Machine.Steps
import Unlambda.Proofs.Value.Alike

/-!
# The machine computes the natural semantics

Where `c` does not occur, the machine and the natural semantics agree about every program: on
its value, on whether it exits, and on the console. The identity of promises is all in which
they may differ.

## Main definitions

* `Unlambda.Natural.Task.job`: a task as a job of the machine
* `Unlambda.Natural.Result.Reached`, `Unlambda.Natural.Result.ReachedBy`: the machine comes to
  a result
* `Unlambda.Natural.Explained`: a run that comes to an end passes through a result that the
  natural semantics yields

## Main results

* `Unlambda.Natural.Yields.reached`: what the semantics yields is reached by the machine
* `Unlambda.Natural.explained_of_reaches`: what the machine reaches is yielded by the semantics
* `Unlambda.Natural.evaluate_iff_yields`: both, for whole programs
-/

namespace Unlambda.Natural

open Machine

variable {io io' : Console} {fresh : Serial} {k : Continuation} {n : Nat}

/-- The job of doing a task in front of `k`. -/
def Task.job : Task → Continuation → Job
  | evaluate t, k => .eval t k
  | apply f x, k => .apply f x k

/-- Two tasks that differ at most in serials. -/
def Task.Alike : Task → Task → Prop
  | evaluate t, evaluate u => t.Alike u
  | apply f x, apply g y => f.Alike g ∧ x.Alike y
  | _, _ => False

theorem Task.Alike.refl (task : Task) : task.Alike task := by
  cases task with
  | evaluate t => exact Term.Alike.refl t
  | apply f x => exact ⟨Value.Alike.refl f, Value.Alike.refl x⟩

theorem Task.alike_evaluate_iff {task : Task} {t : Term} :
    task.Alike (.evaluate t) ↔ ∃ t', task = .evaluate t' ∧ t'.Alike t := by
  cases task <;> simp [Alike]

theorem Task.alike_apply_iff {task : Task} {f x : Value} :
    task.Alike (.apply f x) ↔ ∃ f' x', task = .apply f' x' ∧ f'.Alike f ∧ x'.Alike x := by
  cases task <;> simp [Alike, and_assoc]

theorem Task.alike_apply_primitive_iff {task : Task} {p : Primitive} {x : Value} :
    task.Alike (.apply (.primitive p) x) ↔ ∃ x', task = .apply (.primitive p) x' ∧ x'.Alike x := by
  rw [alike_apply_iff]
  constructor
  · rintro ⟨f', x', rfl, hf, hx⟩
    obtain rfl := Value.alike_primitive_iff.mp hf
    exact ⟨x', rfl, hx⟩
  · rintro ⟨x', rfl, hx⟩
    exact ⟨_, x', rfl, .refl _, hx⟩

theorem Task.applies_of_alike {task : Task} {t f x : Term} (h : task.Alike (.evaluate t))
    (term : t.Applies f x) :
    ∃ t' f' x', task = .evaluate t' ∧ t'.Applies f' x' ∧ f'.Alike f ∧ x'.Alike x := by
  obtain ⟨t', rfl, ht⟩ := alike_evaluate_iff.mp h
  cases term with
  | made f x =>
    obtain ⟨f', x', rfl, hf, hx⟩ := Term.alike_application_iff.mp ht
    exact ⟨_, f', x', rfl, .made f' x', hf, hx⟩
  | written f x =>
    obtain rfl := Term.alike_source_iff.mp ht
    exact ⟨_, .source f, .source x, rfl, .written f x, .refl _, .refl _⟩

theorem ne_of_alike {v v' : Value} {p : Primitive} (halike : v'.Alike v) (h : v ≠ .primitive p) :
    v' ≠ .primitive p := by
  rintro rfl
  exact h (Value.alike_primitive_iff.mp halike.symm)

/-! ### From the semantics to the machine -/

/-- From `state` the machine comes to the result `r`: it hands a value like the given one to
`k`, or it exits with one. -/
def Result.Reached (state : State) (k : Continuation) : Result → Console → Prop
  | value v, io => ∃ n v' fresh, v'.Alike v ∧ state.Reaches n ⟨.resume k v', io, fresh⟩
  | exit v, io => ∃ n v' last, v'.Alike v ∧ state.Reaches n last ∧
      last.step = .halt v' true ∧ last.console = io

theorem Result.Reached.head {state middle : State} {r : Result}
    (hstep : state.step = .next middle) (h : r.Reached middle k io) : r.Reached state k io := by
  cases r with
  | value v =>
    obtain ⟨n, v', fresh, hv, hreach⟩ := h
    exact ⟨n + 1, v', fresh, hv, .head hstep hreach⟩
  | exit v =>
    obtain ⟨n, v', last, hv, hreach, hlast⟩ := h
    exact ⟨n + 1, v', last, hv, .head hstep hreach, hlast⟩

theorem Result.Reached.trans {state middle : State} {r : Result} (hreach : state.Reaches n middle)
    (h : r.Reached middle k io) : r.Reached state k io := by
  induction n generalizing state with
  | zero =>
    obtain rfl := State.reaches_zero.mp hreach
    exact h
  | succ n ih =>
    obtain ⟨next, hstep, hnext⟩ := State.reaches_succ.mp hreach
    exact (ih hnext).head hstep

/-- From every task that is like `task`, and in front of every continuation, the machine comes
to `r`. -/
def Result.ReachedBy (r : Result) (task : Task) (io io' : Console) : Prop :=
  ∀ (task' : Task), task'.Alike task → ∀ (k : Continuation) (fresh : Serial),
    r.Reached ⟨task'.job k, io, fresh⟩ k io'

section ReachedBy

variable {p : Primitive} {x v w : Value} {r : Result} {io₁ : Console}

/-- A value that is like a given one, handed to `k` by the next step. -/
theorem Result.reached_of_step {state : State} {v' : Value}
    (hstep : state.step = .next ⟨.resume k v', io, fresh⟩) (hv : v'.Alike v) :
    (Result.value v).Reached state k io :=
  ⟨1, v', fresh, hv, State.reaches_one.mpr hstep⟩

/-- A primitive that returns its argument. -/
theorem Result.reachedBy_of_return
    (hstep : ∀ x k fresh, State.step ⟨.apply (.primitive p) x k, io, fresh⟩ =
      .next ⟨.resume k x, io', fresh⟩) :
    (Result.value x).ReachedBy (.apply (.primitive p) x) io io' := by
  intro task' halike k fresh
  obtain ⟨x', rfl, hx⟩ := Task.alike_apply_primitive_iff.mp halike
  exact reached_of_step (hstep x' k fresh) hx

/-- A primitive that leads to the application of its argument to some value. -/
theorem Result.ReachedBy.of_call
    (hstep : ∀ x k fresh, State.step ⟨.apply (.primitive p) x k, io, fresh⟩ =
      .next ⟨.eval (.applyValues x w) k, io₁, fresh⟩)
    (h : r.ReachedBy (.evaluate (.applyValues x w)) io₁ io') :
    r.ReachedBy (.apply (.primitive p) x) io io' := by
  intro task' halike k fresh
  obtain ⟨x', rfl, hx⟩ := Task.alike_apply_primitive_iff.mp halike
  have hcall : (Term.applyValues x' w).Alike (.applyValues x w) := .applyValues hx (.refl w)
  exact .head (hstep x' k fresh) (h (.evaluate (.applyValues x' w)) hcall k fresh)

/-- An application goes on from the value of its operator. -/
theorem Result.Reached.of_operator {t f x : Term} {g : Value} (hterm : t.Applies f x)
    (hoperator : (Result.value g).Reached
      ⟨.eval f (.awaitOperand fresh x k), io, fresh + 1⟩ (.awaitOperand fresh x k) io₁)
    (hrest : ∀ g' later, g'.Alike g →
      r.Reached ⟨.resume (.awaitOperand fresh x k) g', io₁, later⟩ k io') :
    r.Reached ⟨.eval t k, io, fresh⟩ k io' := by
  obtain ⟨n, g', later, hg, hreach⟩ := hoperator
  exact .head (step_eval_of_applies hterm) (.trans hreach (hrest g' later hg))

/-- **What the semantics yields is reached by the machine,** in front of every continuation and
from every task that is like the given one. -/
theorem Yields.reached {task : Task} (h : Yields task io r io') : r.ReachedBy task io io' := by
  induction h with
  | value v io =>
    intro task' halike k fresh
    obtain ⟨t', rfl, ht⟩ := Task.alike_evaluate_iff.mp halike
    obtain ⟨v', rfl, hv⟩ := Term.alike_value_iff.mp ht
    exact Result.reached_of_step rfl hv
  | primitive p io =>
    intro task' halike k fresh
    obtain ⟨t', rfl, ht⟩ := Task.alike_evaluate_iff.mp halike
    obtain rfl := Term.alike_source_iff.mp ht
    exact Result.reached_of_step rfl (.refl _)
  | operatorExit term operator ihf =>
    intro task' halike k fresh
    obtain ⟨t', f', x', rfl, hterm, hf, hx⟩ := Task.applies_of_alike halike term
    have hexit := ihf (.evaluate f') hf (.awaitOperand fresh x' k) (fresh + 1)
    exact .head (step_eval_of_applies hterm) hexit
  | delay promise term operator ihf =>
    intro task' halike k fresh
    obtain ⟨t', f', x', rfl, hterm, hf, hx⟩ := Task.applies_of_alike halike term
    have hoperator := ihf (.evaluate f') hf (.awaitOperand fresh x' k) (fresh + 1)
    refine .of_operator hterm hoperator fun g' later hg => ?_
    obtain rfl := Value.alike_primitive_iff.mp hg
    -- The machine takes its next serial, and the semantics any one.
    have hpromise : (Value.delayed later x').Alike (.delayed promise _) :=
      Value.alike_delayed_iff.mpr ⟨later, x', rfl, hx⟩
    exact Result.reached_of_step rfl hpromise
  | operandExit term operator other operand ihf ihx =>
    intro task' halike k fresh
    obtain ⟨t', f', x', rfl, hterm, hf, hx⟩ := Task.applies_of_alike halike term
    have hoperator := ihf (.evaluate f') hf (.awaitOperand fresh x' k) (fresh + 1)
    refine .of_operator hterm hoperator fun g' later hg => ?_
    have hother := ne_of_alike hg other
    have hexit := ihx (.evaluate x') hx (.awaitApply later g' k) (later + 1)
    exact .head (step_resume_of_ne hother) hexit
  | application term operator other operand call ihf ihx ihcall =>
    intro task' halike k fresh
    obtain ⟨t', f', x', rfl, hterm, hf, hx⟩ := Task.applies_of_alike halike term
    have hoperator := ihf (.evaluate f') hf (.awaitOperand fresh x' k) (fresh + 1)
    refine .of_operator hterm hoperator fun g' later hg => ?_
    have hother := ne_of_alike hg other
    obtain ⟨n, y', last, hy, hreach⟩ :=
      ihx (.evaluate x') hx (.awaitApply later g' k) (later + 1)
    have hcall := ihcall (.apply g' y') ⟨hg, hy⟩ k last
    exact .head (step_resume_of_ne hother) (.trans hreach (.head rfl hcall))
  | i x io | r x io | print c x io => exact Result.reachedBy_of_return fun x k fresh => rfl
  | v x io =>
    intro task' halike k fresh
    obtain ⟨x', rfl, hx⟩ := Task.alike_apply_primitive_iff.mp halike
    exact Result.reached_of_step rfl (.refl _)
  | k x io =>
    intro task' halike k fresh
    obtain ⟨x', rfl, hx⟩ := Task.alike_apply_primitive_iff.mp halike
    exact Result.reached_of_step rfl (Value.alike_k1_iff.mpr ⟨x', rfl, hx⟩)
  | s x io =>
    intro task' halike k fresh
    obtain ⟨x', rfl, hx⟩ := Task.alike_apply_primitive_iff.mp halike
    exact Result.reached_of_step rfl (Value.alike_s1_iff.mpr ⟨x', rfl, hx⟩)
  | k1 x y io =>
    intro task' halike k fresh
    obtain ⟨f', y', rfl, hf, hy⟩ := Task.alike_apply_iff.mp halike
    obtain ⟨x', rfl, hx⟩ := Value.alike_k1_iff.mp hf
    exact Result.reached_of_step rfl hx
  | s1 x y io =>
    intro task' halike k fresh
    obtain ⟨f', y', rfl, hf, hy⟩ := Task.alike_apply_iff.mp halike
    obtain ⟨x', rfl, hx⟩ := Value.alike_s1_iff.mp hf
    exact Result.reached_of_step rfl (Value.alike_s2_iff.mpr ⟨x', y', rfl, hx, hy⟩)
  | s2 body ih =>
    intro task' halike k fresh
    obtain ⟨f', z', rfl, hf, hz⟩ := Task.alike_apply_iff.mp halike
    obtain ⟨x', y', rfl, hx, hy⟩ := Value.alike_s2_iff.mp hf
    have hbody := Term.Alike.application (.applyValues hx hz) (.applyValues hy hz)
    exact .head rfl (ih (.evaluate _) hbody k _)
  | force body ih =>
    intro task' halike k fresh
    obtain ⟨f', x', rfl, hf, hx⟩ := Task.alike_apply_iff.mp halike
    obtain ⟨promise', t', rfl, ht⟩ := Value.alike_delayed_iff.mp hf
    have hbody := Term.Alike.application ht (Term.alike_value_iff.mpr ⟨x', rfl, hx⟩)
    exact .head rfl (ih (.evaluate _) hbody k _)
  | read available body ih => exact .of_call (fun x k fresh => step_read_of_unread available) ih
  | readEnd ended body ih => exact .of_call (fun x k fresh => step_read_of_end ended) ih
  | compareEqual equal body ih => exact .of_call (fun x k fresh => step_compare_of_eq equal) ih
  | compareOther other body ih => exact .of_call (fun x k fresh => step_compare_of_ne other) ih
  | reprint current body ih => exact .of_call (fun x k fresh => step_reprint_of_some current) ih
  | reprintNone unset body ih => exact .of_call (fun x k fresh => step_reprint_of_none unset) ih
  | e x io =>
    intro task' halike k fresh
    obtain ⟨x', rfl, hx⟩ := Task.alike_apply_primitive_iff.mp halike
    exact ⟨0, x', _, hx, .refl _, rfl, rfl⟩

end ReachedBy

/-! ### From the machine to the semantics -/

/-- How a function other than `c` and a captured continuation is applied: it returns, it leads
to an evaluation, it exits, or it has no rule. The rules of the semantics say the same. -/
theorem step_apply_cases {f x : Value} (hc : f ≠ .primitive .c)
    (hsaved : ∀ saved, f ≠ .continuation saved) :
    (∃ v io', State.step ⟨.apply f x k, io, fresh⟩ = .next ⟨.resume k v, io', fresh⟩ ∧
      Yields (.apply f x) io (.value v) io') ∨
    (∃ t io', State.step ⟨.apply f x k, io, fresh⟩ = .next ⟨.eval t k, io', fresh⟩ ∧
      ∀ r io'', Yields (.evaluate t) io' r io'' → Yields (.apply f x) io r io'') ∨
    (State.step ⟨.apply f x k, io, fresh⟩ = .halt x true ∧
      Yields (.apply f x) io (.exit x) io) ∨
    State.step ⟨.apply f x k, io, fresh⟩ = .stuck f := by
  cases f with
  | primitive p =>
    cases p with
    | c => exact absurd rfl hc
    | d => exact .inr (.inr (.inr rfl))
    | e => exact .inr (.inr (.inl ⟨rfl, .e x io⟩))
    | i => exact .inl ⟨x, io, rfl, .i x io⟩
    | k => exact .inl ⟨.k1 x, io, rfl, .k x io⟩
    | s => exact .inl ⟨.s1 x, io, rfl, .s x io⟩
    | v => exact .inl ⟨.primitive .v, io, rfl, .v x io⟩
    | r => exact .inl ⟨x, io.write '\n', rfl, .r x io⟩
    | print y => exact .inl ⟨x, io.write y, rfl, .print y x io⟩
    | read =>
      right; left
      cases hunread : io.unread with
      | nil => exact ⟨_, _, step_read_of_end hunread, fun r io'' => .readEnd hunread⟩
      | cons y unread =>
        exact ⟨_, _, step_read_of_unread hunread, fun r io'' => .read hunread⟩
    | compare y =>
      right; left
      by_cases hcurrent : io.current = some y
      · exact ⟨_, _, step_compare_of_eq hcurrent, fun r io'' => .compareEqual hcurrent⟩
      · exact ⟨_, _, step_compare_of_ne hcurrent, fun r io'' => .compareOther hcurrent⟩
    | reprint =>
      right; left
      cases hcurrent : io.current with
      | none => exact ⟨_, _, step_reprint_of_none hcurrent, fun r io'' => .reprintNone hcurrent⟩
      | some y => exact ⟨_, _, step_reprint_of_some hcurrent, fun r io'' => .reprint hcurrent⟩
  | k1 y => exact .inl ⟨y, io, rfl, .k1 y x io⟩
  | s1 y => exact .inl ⟨.s2 y x, io, rfl, .s1 y x io⟩
  | s2 y z => exact .inr (.inl ⟨_, io, rfl, fun r io'' => .s2⟩)
  | delayed promise body => exact .inr (.inl ⟨_, io, rfl, fun r io'' => .force⟩)
  | continuation saved => exact absurd rfl (hsaved saved)

/-- A task in front of `k` that ends in `last` after `n` steps is explained by the semantics:
either the end is an exit from the task, or the task has a value, which has been handed to `k`
on the way. -/
def Explained (task : Task) (io : Console) (k : Continuation) (n : Nat) (last : State)
    (result : Value) (exited : Bool) : Prop :=
  (exited = true ∧ Yields task io (.exit result) last.console) ∨
    ∃ v io' fresh, ∃ m < n, Yields task io (.value v) io' ∧
      State.CaptureFree ⟨.resume k v, io', fresh⟩ ∧
      State.Reaches ⟨.resume k v, io', fresh⟩ m last

section Explained

variable {task task' : Task} {m : Nat} {last : State} {result : Value} {exited : Bool}

/-- A task is explained by a part of it that comes last. -/
theorem Explained.of_part (h : Explained task' io' k m last result exited) (hle : m ≤ n)
    (hyields : ∀ r io'', Yields task' io' r io'' → Yields task io r io'') :
    Explained task io k n last result exited := by
  rcases h with ⟨hexited, h⟩ | ⟨v, io'', fresh, m', hm, h, hfree, hreach⟩
  · exact .inl ⟨hexited, hyields _ _ h⟩
  · exact .inr ⟨v, io'', fresh, m', Nat.lt_of_lt_of_le hm hle, hyields _ _ h, hfree, hreach⟩

/-- A task is explained by a value that the next step hands to `k`. -/
theorem Explained.of_resume {state : State} {v : Value} (hfree : state.CaptureFree)
    (hreach : state.Reaches n last) (hlast : last.step = .halt result exited)
    (hstep : state.step = .next ⟨.resume k v, io', fresh⟩)
    (h : Yields task io (.value v) io') : Explained task io k n last result exited := by
  obtain ⟨m, rfl, hrest⟩ := hreach.of_next hlast hstep
  exact .inr ⟨v, io', fresh, m, m.lt_succ_self, h, hfree.step hstep, hrest⟩

/-- **What the machine reaches is yielded by the semantics.** -/
theorem explained_of_reaches (hlast : last.step = .halt result exited) (task : Task)
    (hfree : State.CaptureFree ⟨task.job k, io, fresh⟩)
    (hreach : State.Reaches ⟨task.job k, io, fresh⟩ n last) :
    Explained task io k n last result exited := by
  -- The parts of a task end in the same state after fewer steps.
  induction n using Nat.strongRecOn generalizing task io k fresh with
  | _ n ih =>
  cases task with
  | evaluate t =>
    rcases term_cases t with ⟨v, rfl⟩ | ⟨p, rfl⟩ | ⟨f, x, term⟩
    · exact .of_resume hfree hreach hlast rfl (.value v io)
    · exact .of_resume hfree hreach hlast rfl (.primitive p io)
    · obtain ⟨n₁, rfl, hreach₁⟩ := hreach.of_next hlast (step_eval_of_applies term)
      have hfree₁ := hfree.step (step_eval_of_applies term)
      -- The operator.
      rcases ih n₁ (by omega) (.evaluate f) hfree₁ hreach₁ with
        ⟨hexited, operator⟩ | ⟨g, io₁, fresh₁, n₂, hn₂, operator, hfree₂, hreach₂⟩
      · exact .inl ⟨hexited, .operatorExit term operator⟩
      by_cases hg : g = .primitive .d
      · -- The operand is kept.
        subst hg
        obtain ⟨n₃, rfl, hreach₃⟩ := hreach₂.of_next hlast rfl
        exact .inr ⟨.delayed fresh₁ x, io₁, fresh₁ + 1, n₃, by omega,
          .delay fresh₁ term operator, hfree₂.step rfl, hreach₃⟩
      obtain ⟨n₃, rfl, hreach₃⟩ := hreach₂.of_next hlast (step_resume_of_ne hg)
      have hfree₃ := hfree₂.step (step_resume_of_ne hg)
      -- The operand.
      rcases ih n₃ (by omega) (.evaluate x) hfree₃ hreach₃ with
        ⟨hexited, operand⟩ | ⟨y, io₂, fresh₂, n₄, hn₄, operand, hfree₄, hreach₄⟩
      · exact .inl ⟨hexited, .operandExit term operator hg operand⟩
      -- The call, in front of the same continuation as the application.
      obtain ⟨n₅, rfl, hreach₅⟩ := hreach₄.of_next hlast rfl
      have hcall := ih n₅ (by omega) (.apply g y) (hfree₄.step rfl) hreach₅
      exact hcall.of_part (by omega) fun r io'' call => .application term operator hg operand call
  | apply f x =>
    obtain ⟨hc, hsaved⟩ := hfree.function rfl
    rcases step_apply_cases hc hsaved with
      ⟨v, io', hstep, h⟩ | ⟨t, io', hstep, h⟩ | ⟨hstep, h⟩ | hstep
    · exact .of_resume hfree hreach hlast hstep h
    · obtain ⟨n₁, rfl, hreach₁⟩ := hreach.of_next hlast hstep
      have hbody := ih n₁ (by omega) (.evaluate t) (hfree.step hstep) hreach₁
      exact hbody.of_part (by omega) h
    · -- The application is the end of the run.
      obtain ⟨-, rfl⟩ := hreach.eq_of_ended (by simp [Task.job, hstep])
      obtain ⟨rfl, rfl⟩ := Move.halt.inj (hstep.symm.trans hlast)
      exact .inl ⟨rfl, h⟩
    · obtain ⟨-, rfl⟩ := hreach.eq_of_ended (by simp [Task.job, hstep])
      cases hstep.symm.trans hlast

end Explained

/-! ### Whole programs -/

/-- What the end of a run means: `exited` tells whether it is an exit. -/
def Result.ofEnd : (exited : Bool) → Value → Result
  | false, v => value v
  | true, v => exit v

variable {e : Expression} {input : List Char} {v : Value} {console : Console} {exited : Bool}

theorem yields_of_evaluate {fuel : Nat} {evaluation : Evaluation} (h : .primitive .c ∉ e.parts)
    (heval : e.evaluate fuel input = some (.ok evaluation)) :
    Yields (.evaluate (.source e)) (.ofInput input) (.ofEnd evaluation.exited evaluation.result)
      evaluation.console := by
  rw [Expression.evaluate, State.evaluate_eq_ok_iff, State.run_eq_halted_iff] at heval
  obtain ⟨n, -, last, result, exited, hreach, hlast, rfl⟩ := heval
  have hfree := State.captureFree_ofExpression h input 0
  rcases explained_of_reaches hlast (.evaluate (.source e)) hfree hreach with
    ⟨rfl, hyields⟩ | ⟨w, io', fresh, m, -, hyields, -, hrest⟩
  · exact hyields
  · -- No frame waits for the value of the program, so it is the result.
    obtain ⟨-, rfl⟩ := hrest.eq_of_ended (by simp [State.step, State.resumeStep])
    obtain ⟨rfl, rfl⟩ := Move.halt.inj hlast
    exact hyields

theorem evaluate_of_yields
    (h : Yields (.evaluate (.source e)) (.ofInput input) (.ofEnd exited v) console) :
    ∃ fuel evaluation, e.evaluate fuel input = some (.ok evaluation) ∧
      evaluation.exited = exited ∧ evaluation.result.Alike v ∧ evaluation.console = console := by
  have hreached := h.reached (.evaluate (.source e)) (.refl _) .done 0
  cases exited with
  | false =>
    obtain ⟨n, w, fresh, halike, hreach⟩ := hreached
    refine ⟨n + 1, ⟨w, console, n + 1, false, fresh⟩, ?_, rfl, halike, rfl⟩
    rw [Expression.evaluate, State.evaluate_eq_ok_iff]
    exact hreach.run_eq_halted rfl n.lt_succ_self
  | true =>
    obtain ⟨n, w, last, halike, hreach, hlast, rfl⟩ := hreached
    refine ⟨n + 1, ⟨w, last.console, n + 1, true, last.fresh⟩, ?_, rfl, halike, rfl⟩
    rw [Expression.evaluate, State.evaluate_eq_ok_iff]
    exact hreach.run_eq_halted hlast n.lt_succ_self

theorem ends_iff_yields (h : .primitive .c ∉ e.parts) :
    (∃ fuel evaluation, e.evaluate fuel input = some (.ok evaluation) ∧
      evaluation.exited = exited ∧ evaluation.result.Alike v ∧ evaluation.console = console) ↔
    ∃ w, w.Alike v ∧
      Yields (.evaluate (.source e)) (.ofInput input) (.ofEnd exited w) console := by
  constructor
  · rintro ⟨fuel, evaluation, heval, rfl, halike, rfl⟩
    exact ⟨evaluation.result, halike, yields_of_evaluate h heval⟩
  · rintro ⟨w, hw, hyields⟩
    obtain ⟨fuel, evaluation, heval, hexited, halike, hconsole⟩ := evaluate_of_yields hyields
    exact ⟨fuel, evaluation, heval, hexited, halike.trans hw, hconsole⟩

/-- **The machine computes the natural semantics.** A program without `c` returns a value, up
to the identity of promises, just if the semantics yields it, and exits with one just if the
semantics yields this exit; and the console is the same. -/
theorem evaluate_iff_yields (e : Expression) (h : .primitive .c ∉ e.parts) (input : List Char)
    (v : Value) (console : Console) :
    ((∃ fuel evaluation, e.evaluate fuel input = some (.ok evaluation) ∧
        evaluation.exited = false ∧ evaluation.result.Alike v ∧ evaluation.console = console) ↔
      ∃ w, w.Alike v ∧
        Yields (.evaluate (.source e)) (.ofInput input) (.value w) console) ∧
    ((∃ fuel evaluation, e.evaluate fuel input = some (.ok evaluation) ∧
        evaluation.exited = true ∧ evaluation.result.Alike v ∧ evaluation.console = console) ↔
      ∃ w, w.Alike v ∧
        Yields (.evaluate (.source e)) (.ofInput input) (.exit w) console) :=
  ⟨ends_iff_yields h, ends_iff_yields h⟩

/-- In ` ``d`.xi.y ` the operand of `d` is evaluated when the promise is applied, and not
before: the semantics yields that `x` is written once, because the machine does so. -/
theorem delayed_print_yields :
    let e : Expression := .application
      (.application (.primitive .d) (.application (.primitive (.print 'x')) (.primitive .i)))
      (.primitive (.print 'y'))
    .primitive .c ∉ e.parts ∧
      ∃ w, w.Alike (.primitive (.print 'y')) ∧
        Yields (.evaluate (.source e)) (.ofInput []) (.value w) ⟨[], [], ['x'], none⟩ := by
  intro e
  have h : .primitive .c ∉ e.parts := by simp [e, Expression.parts]
  exact ⟨h, (evaluate_iff_yields e h [] _ _).1.mp ⟨20, _, rfl, rfl, rfl, rfl⟩⟩

end Unlambda.Natural
