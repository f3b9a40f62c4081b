import Unlambda.Proofs.Machine.Pieces

/-!
# Every value is applicable

The one function without a rule for its application is `d`. It is recognised while it is an
operator, and then its operand is kept instead of being evaluated; so no frame ever holds it,
and it is never applied. Frames can be captured, stored in promises and closures, and entered
again much later, and therefore the invariant speaks about every frame that occurs anywhere in
a state.

## Main definitions

* `Unlambda.Machine.State.SparesDelay`: the invariant

## Main results

* `Unlambda.Machine.State.SparesDelay.step`: every step keeps it
* `Unlambda.Machine.evaluate_never_inapplicable`: no run fails for want of a rule
-/

namespace Unlambda.Machine

/-- A continuation that applies `d` to the next value. -/
def AppliesDelay (piece : Piece) : Prop :=
  ∃ link next, piece = .continuation (.awaitApply link (.primitive .d) next)

namespace State

variable {state state' : State} {n : Nat}

/-- `d` is not being applied, and nothing in the state waits to apply it. -/
structure SparesDelay (state : State) : Prop where
  job (x : Value) (k : Continuation) : state.job ≠ .apply (.primitive .d) x k
  pieces : ∀ piece ∈ state.pieces, ¬ AppliesDelay piece

theorem not_appliesDelay_of_builds {piece : Piece} (h : state.Builds piece) :
    ¬ AppliesDelay piece := by
  rintro ⟨link, next, rfl⟩
  cases h with
  | awaitApply _ _ other => exact other rfl

theorem SparesDelay.step (h : state.SparesDelay) (hstep : state.step = .next state') :
    state'.SparesDelay where
  job x k hjob := by
    -- A frame has held `d` before.
    obtain ⟨link, hresume⟩ := job_eq_resume_of_step hstep hjob
    refine h.pieces _ ?_ ⟨link, k, rfl⟩
    rw [State.pieces, hresume]
    exact List.mem_append_left _ (Continuation.mem_pieces_self _)
  pieces := forall_pieces_of_step h.pieces (fun _ => not_appliesDelay_of_builds) hstep

theorem sparesDelay_of_job {e : Expression} (hjob : state.job = .eval (.source e) .done) :
    state.SparesDelay where
  job x k h := by
    rw [hjob] at h
    cases h
  pieces piece h := by
    rintro ⟨link, next, rfl⟩
    simp [State.pieces, hjob, Job.pieces, Term.pieces, Continuation.pieces] at h

theorem sparesDelay_ofExpression (e : Expression) (input : List Char) (fresh : Serial) :
    (ofExpression e input fresh).SparesDelay :=
  sparesDelay_of_job rfl

theorem SparesDelay.reaches (h : state.SparesDelay) (hreach : state.Reaches n state') :
    state'.SparesDelay :=
  hreach.invariant SparesDelay.step h

theorem SparesDelay.run_ne_stuck (h : state.SparesDelay) (fuel : Nat) (function : Value) :
    state.run fuel ≠ .stuck function := by
  intro hrun
  obtain ⟨n, -, last, hreach, hstep⟩ := run_eq_stuck_iff.mp hrun
  obtain ⟨⟨x, k, hjob⟩, -⟩ := step_eq_stuck_iff.mp hstep
  exact (h.reaches hreach).job x k hjob

/-- Such a run has no answer other than the evaluation that it comes to. -/
theorem SparesDelay.evaluate_eq_some_iff (h : state.SparesDelay) {fuel : Nat}
    {answer : Except EvaluationError Evaluation} :
    state.evaluate fuel = some answer ↔
      ∃ evaluation, state.run fuel = .halted evaluation ∧ answer = .ok evaluation := by
  unfold evaluate
  cases hrun : state.run fuel with
  | halted evaluation => simp [eq_comm]
  | stuck function => exact absurd hrun (h.run_ne_stuck fuel function)
  | paused state' => simp

/-- A run that never ends takes as many steps as one likes. -/
theorem SparesDelay.reaches_of_endless (h : state.SparesDelay)
    (hendless : ∀ fuel evaluation, state.run fuel ≠ .halted evaluation) (n : Nat) :
    ∃ state', state.Reaches n state' := by
  cases hrun : state.run n with
  | halted evaluation => exact absurd hrun (hendless n evaluation)
  | stuck function => exact absurd hrun (h.run_ne_stuck n function)
  | paused state' => exact ⟨state', hrun⟩

end State

/-- **Every value is applicable.** Whatever a program does and wherever it is stopped, it never
fails for want of a rule: no state that it reaches applies `d`, and neither in such a state nor
in a result does any frame, at whatever depth, wait to apply `d`. -/
theorem evaluate_never_inapplicable (e : Expression) (input : List Char) :
    (∀ fuel function, e.evaluate fuel input ≠ some (.error (.inapplicable function))) ∧
    (∀ limit function, e.evaluateWithin limit input ≠ .error (.inapplicable function)) ∧
    ∀ n state, (State.ofExpression e input 0).Reaches n state →
      (∀ x k, state.job ≠ .apply (.primitive .d) x k) ∧
      (∀ link next, .continuation (.awaitApply link (.primitive .d) next) ∉ state.pieces) ∧
      ∀ result exited, state.step = .halt result exited →
        ∀ link next, .continuation (.awaitApply link (.primitive .d) next) ∉ result.pieces := by
  have start : (State.ofExpression e input 0).SparesDelay := State.sparesDelay_of_job rfl
  refine ⟨fun fuel function h => ?_, fun limit function h => ?_, fun n state hreach => ?_⟩
  · obtain ⟨stuck, hrun, -⟩ := State.evaluate_eq_inapplicable_iff.mp h
    exact start.run_ne_stuck fuel stuck hrun
  · obtain ⟨stuck, hrun, -⟩ := State.evaluateWithin_eq_inapplicable_iff.mp h
    exact start.run_ne_stuck limit stuck hrun
  · have hspares := start.reaches hreach
    refine ⟨hspares.job, fun link next h => hspares.pieces _ h ⟨link, next, rfl⟩, ?_⟩
    intro result exited hstep link next h
    exact hspares.pieces _ (State.mem_pieces_of_halt hstep h) ⟨link, next, rfl⟩

end Unlambda.Machine
