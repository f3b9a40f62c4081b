import Unlambda.Proofs.Machine.Reach
import Unlambda.Proofs.Natural.Rules

/-!
# The next step

The form of a job does not always tell what the next step is. It can also depend on whether an
application has been made by the program or is a part of its text, on whether an operator is
`d`, and on what the console holds. There is one lemma for each of these cases; where the form
of the job is enough, the step is known by definition.

## Main results

* `Unlambda.Machine.term_cases`, `Unlambda.Machine.step_eval_of_applies`: the evaluation of an
  application
* `Unlambda.Machine.step_resume_of_ne`: an operator other than `d`
* `Unlambda.Machine.step_read_of_unread`, `Unlambda.Machine.step_compare_of_eq`,
  `Unlambda.Machine.step_reprint_of_some` and their companions: what depends on the console
-/

namespace Unlambda.Machine

variable {io : Console} {fresh : Serial} {k : Continuation}

/-- Every term is a value, a primitive of the program, or an application. -/
theorem term_cases (t : Term) :
    (∃ v, t = .value v) ∨ (∃ p, t = .source (.primitive p)) ∨ ∃ f x, t.Applies f x := by
  cases t with
  | value v => exact .inl ⟨v, rfl⟩
  | application f x => exact .inr (.inr ⟨f, x, .made f x⟩)
  | source e =>
    cases e with
    | primitive p => exact .inr (.inl ⟨p, rfl⟩)
    | application f x => exact .inr (.inr ⟨_, _, .written f x⟩)

theorem step_eval_of_applies {t f x : Term} (h : t.Applies f x) :
    State.step ⟨.eval t k, io, fresh⟩ =
      .next ⟨.eval f (.awaitOperand fresh x k), io, fresh + 1⟩ := by
  cases h <;> rfl

theorem step_resume_of_ne {x : Term} {g : Value} {link : Serial} (other : g ≠ .primitive .d) :
    State.step ⟨.resume (.awaitOperand link x k) g, io, fresh⟩ =
      .next ⟨.eval x (.awaitApply fresh g k), io, fresh + 1⟩ := by
  have hother : g.isPrimitive .d ≠ true := mt Value.isPrimitive_eq_true_iff.mp other
  simp only [State.step, State.resumeStep, if_neg hother]
  rfl

theorem step_read_of_unread {x : Value} {c : Char} {unread : List Char}
    (available : io.unread = c :: unread) :
    State.step ⟨.apply (.primitive .read) x k, io, fresh⟩ =
      .next ⟨.eval (.applyValues x (.primitive .i)) k,
        ⟨c :: io.consumed, unread, io.written, some c⟩, fresh⟩ := by
  change Move.next ⟨.eval (.applyValues x (State.verdict io.read.current.isSome)) k, io.read,
    fresh⟩ = _
  rw [Console.read_of_unread available]
  rfl

theorem step_read_of_end {x : Value} (ended : io.unread = []) :
    State.step ⟨.apply (.primitive .read) x k, io, fresh⟩ =
      .next ⟨.eval (.applyValues x (.primitive .v)) k, { io with current := none }, fresh⟩ := by
  change Move.next ⟨.eval (.applyValues x (State.verdict io.read.current.isSome)) k, io.read,
    fresh⟩ = _
  rw [Console.read_of_end ended]
  rfl

theorem step_compare_of_eq {x : Value} {c : Char} (equal : io.current = some c) :
    State.step ⟨.apply (.primitive (.compare c)) x k, io, fresh⟩ =
      .next ⟨.eval (.applyValues x (.primitive .i)) k, io, fresh⟩ := by
  change Move.next ⟨.eval (.applyValues x (State.verdict (io.current == some c))) k, io,
    fresh⟩ = _
  rw [beq_iff_eq.mpr equal]
  rfl

theorem step_compare_of_ne {x : Value} {c : Char} (other : io.current ≠ some c) :
    State.step ⟨.apply (.primitive (.compare c)) x k, io, fresh⟩ =
      .next ⟨.eval (.applyValues x (.primitive .v)) k, io, fresh⟩ := by
  change Move.next ⟨.eval (.applyValues x (State.verdict (io.current == some c))) k, io,
    fresh⟩ = _
  rw [beq_eq_false_iff_ne.mpr other]
  rfl

theorem step_reprint_of_some {x : Value} {c : Char} (current : io.current = some c) :
    State.step ⟨.apply (.primitive .reprint) x k, io, fresh⟩ =
      .next ⟨.eval (.applyValues x (.primitive (.print c))) k, io, fresh⟩ := by
  change Move.next ⟨.eval (.applyValues x (State.echo io.current)) k, io, fresh⟩ = _
  rw [current]
  rfl

theorem step_reprint_of_none {x : Value} (unset : io.current = none) :
    State.step ⟨.apply (.primitive .reprint) x k, io, fresh⟩ =
      .next ⟨.eval (.applyValues x (.primitive .v)) k, io, fresh⟩ := by
  change Move.next ⟨.eval (.applyValues x (State.echo io.current)) k, io, fresh⟩ = _
  rw [unset]
  rfl

end Unlambda.Machine
