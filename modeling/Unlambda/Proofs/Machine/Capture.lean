import Unlambda.Proofs.Machine.Pieces

/-!
# Captured continuations

A captured continuation can be copied, dropped, stored in closures and promises and in other
captured continuations, and resumed any number of times. It stays what it was when `c` was
applied: every continuation that is a value anywhere in a state is one in front of which the
same run has applied `c` before, link by link. To apply it is therefore to return from that
application of `c`.

## Main definitions

* `Unlambda.Machine.State.CapturesWithin`: a run applies `c` in front of a continuation
* `Unlambda.Machine.State.CaptureFree`: nothing in a state captures a continuation

## Main results

* `Unlambda.Machine.State.Reaches.capturesWithin`: a continuation that has become a value has
  been captured
* `Unlambda.Machine.State.CaptureFree.step`: a program without `c` never captures anything
* `Unlambda.Machine.captured_continuation_is_exact`: what it means to apply one
-/

namespace Unlambda

/-- What can bring a program to capture a continuation or to resume a captured one. -/
inductive Piece.Captures : Piece → Prop
  | written : Captures (.term (.source (.primitive .c)))
  | function : Captures (.value (.primitive .c))
  | continuation (k : Continuation) : Captures (.value (.continuation k))

namespace Machine

namespace State

variable {state state' : State} {k : Continuation} {m n : Nat}

/-- Within `n` steps from `state` the program applies `c` in front of `k`. -/
def CapturesWithin (state : State) (n : Nat) (k : Continuation) : Prop :=
  ∃ m < n, ∃ earlier f, state.Reaches m earlier ∧ earlier.job = .apply (.primitive .c) f k

theorem CapturesWithin.mono (h : state.CapturesWithin m k) (hmn : m ≤ n) :
    state.CapturesWithin n k := by
  obtain ⟨i, hi, earlier, f, hreach, hjob⟩ := h
  exact ⟨i, Nat.lt_of_lt_of_le hi hmn, earlier, f, hreach, hjob⟩

/-- A continuation becomes a value only when it is captured. -/
theorem job_eq_apply_c_of_builds (h : state.Builds (.value (.continuation k))) :
    ∃ f, state.job = .apply (.primitive .c) f k := by
  cases h with
  | captured capturing => exact ⟨_, capturing⟩

/-- **Provenance.** If no continuation is a value at the start, then each one that has become
a value, anywhere in a state, has been captured by an earlier step. -/
theorem Reaches.capturesWithin (hnone : ∀ k, .value (.continuation k) ∉ state.pieces)
    (hreach : state.Reaches n state') (hk : .value (.continuation k) ∈ state'.pieces) :
    state.CapturesWithin n k := by
  induction n generalizing state' with
  | zero =>
    obtain rfl := reaches_zero.mp hreach
    exact absurd hk (hnone k)
  | succ n ih =>
    obtain ⟨middle, hmiddle, hstep⟩ := reaches_succ_last.mp hreach
    -- It was a value before the last step, or the last step has captured it.
    rcases mem_pieces_of_step hstep hk with hbefore | hbuilt
    · exact (ih hmiddle hbefore).mono n.le_succ
    · obtain ⟨f, hjob⟩ := job_eq_apply_c_of_builds hbuilt
      exact ⟨n, n.lt_succ_self, middle, f, hmiddle, hjob⟩

theorem continuation_not_mem_pieces_ofExpression (e : Expression) (input : List Char)
    (fresh : Serial) (k : Continuation) :
    .value (.continuation k) ∉ (ofExpression e input fresh).pieces := by
  simp [pieces, ofExpression, Job.pieces, Term.pieces, Continuation.pieces]

theorem step_of_apply_c {f : Value} (hjob : state.job = .apply (.primitive .c) f k) :
    state.step = .next (state.become (.eval (.applyValues f (.continuation k)) k)) := by
  rw [step, hjob]
  rfl

theorem step_of_apply_continuation {x : Value} {dropped : Continuation}
    (hjob : state.job = .apply (.continuation k) x dropped) :
    state.step = .next (state.become (.resume k x)) := by
  rw [step, hjob]
  rfl

/-! ### Programs that capture nothing -/

/-- Nothing in the state captures a continuation. -/
def CaptureFree (state : State) : Prop := ∀ piece ∈ state.pieces, ¬piece.Captures

/-- A function that is applied neither captures a continuation nor is one. -/
theorem CaptureFree.function {f x : Value} (h : state.CaptureFree)
    (hjob : state.job = .apply f x k) : f ≠ .primitive .c ∧ ∀ saved, f ≠ .continuation saved := by
  have hf : .value f ∈ state.pieces := function_mem_pieces hjob
  constructor
  · rintro rfl
    exact h _ hf .function
  · rintro saved rfl
    exact h _ hf (.continuation saved)

theorem CaptureFree.step (h : state.CaptureFree) (hstep : state.step = .next state') :
    state'.CaptureFree := by
  refine forall_pieces_of_step h ?_ hstep
  intro piece hbuilt hcaptures
  cases hcaptures with
  | written => cases hbuilt
  | function =>
    cases hbuilt with
    | primitive written => exact h _ written .written
  | continuation k =>
    obtain ⟨f, hjob⟩ := job_eq_apply_c_of_builds hbuilt
    exact (h.function hjob).1 rfl

theorem captureFree_ofExpression {e : Expression} (h : .primitive .c ∉ e.parts)
    (input : List Char) (fresh : Serial) : (ofExpression e input fresh).CaptureFree := by
  intro piece hpiece hcaptures
  rcases List.mem_append.mp hpiece with hprogram | hdone
  · obtain ⟨part, hpart, rfl⟩ := List.mem_map.mp hprogram
    cases hcaptures
    exact h hpart
  · obtain rfl := List.mem_singleton.mp hdone
    cases hcaptures

end State

/-- **Captured continuations are exact.** In every state that a program reaches, and in every
result, each continuation that is a value has been captured by an earlier step of the same run.
To apply it to `x`, at any time and however often that has been done before, is to drop the
present continuation and to hand `x` to the captured one, with the console as it is. That is
where the earlier `c` has left its body to return to. -/
theorem captured_continuation_is_exact (e : Expression) (input : List Char) (fresh : Serial)
    (n : Nat) (state : State) (hreach : (State.ofExpression e input fresh).Reaches n state) :
    (∀ k, .value (.continuation k) ∈ state.pieces →
      (State.ofExpression e input fresh).CapturesWithin n k) ∧
    (∀ result exited, state.step = .halt result exited →
      ∀ k, .value (.continuation k) ∈ result.pieces →
        (State.ofExpression e input fresh).CapturesWithin n k) ∧
    ∀ k x dropped, state.job = .apply (.continuation k) x dropped →
      state.step = .next ⟨.resume k x, state.console, state.fresh⟩ ∧
      ∃ m < n, ∃ earlier f, (State.ofExpression e input fresh).Reaches m earlier ∧
        earlier.job = .apply (.primitive .c) f k ∧
        earlier.step =
          .next ⟨.eval (.applyValues f (.continuation k)) k, earlier.console, earlier.fresh⟩ := by
  have captured (k : Continuation) (hk : .value (.continuation k) ∈ state.pieces) :
      (State.ofExpression e input fresh).CapturesWithin n k :=
    hreach.capturesWithin (State.continuation_not_mem_pieces_ofExpression e input fresh) hk
  refine ⟨captured, fun result exited hstep k hk => ?_, fun k x dropped hjob => ?_⟩
  · exact captured k (State.mem_pieces_of_halt hstep hk)
  · have hk : .value (.continuation k) ∈ state.pieces := by
      rw [State.pieces, hjob]
      exact List.mem_append_left _ (Value.mem_pieces_self _)
    obtain ⟨m, hm, earlier, f, hearlier, hcapture⟩ := captured k hk
    exact ⟨State.step_of_apply_continuation hjob, m, hm, earlier, f, hearlier, hcapture,
      State.step_of_apply_c hcapture⟩

/-- In ``` ``ci`ci ``` the continuation that the first `c` captures is resumed again and again.
When it is resumed for the second time it is still the one in front of which `c` was applied. -/
theorem captured_continuation_resumed_twice :
    let again : Expression := .application (.primitive .c) (.primitive .i)
    let start := State.ofExpression (.application again again) [] 0
    let k : Continuation := .awaitOperand 0 (.source again) .done
    (∃ state x dropped, start.Reaches 27 state ∧ state.job = .apply (.continuation k) x dropped) ∧
    ∃ state x dropped, start.Reaches 44 state ∧ state.job = .apply (.continuation k) x dropped ∧
      state.step = .next ⟨.resume k x, state.console, state.fresh⟩ ∧
      ∃ m < 44, ∃ earlier f, start.Reaches m earlier ∧ earlier.job = .apply (.primitive .c) f k ∧
        earlier.step =
          .next ⟨.eval (.applyValues f (.continuation k)) k, earlier.console, earlier.fresh⟩ := by
  intro again start k
  refine ⟨⟨_, _, _, rfl, rfl⟩, _, _, _, rfl, rfl, ?_⟩
  exact (captured_continuation_is_exact (.application again again) [] 0 44 _ rfl).2.2 _ _ _ rfl

end Machine

end Unlambda
