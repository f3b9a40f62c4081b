import Unlambda.Run

/-!
# Runs as sequences of steps

A run of limited length either pauses in a state or has come to an end before. This module
says what both mean in terms of single steps: a state is reached after exactly so many steps,
and a run is over when one of the states it reaches takes a step that ends it.

## Main definitions

* `Unlambda.Machine.State.Reaches`: a state is reached after exactly so many steps

## Main results

* `Unlambda.Machine.State.step_next_cases`, `Unlambda.Machine.State.resumeStep_next_cases`: what
  a step that goes on can be
* `Unlambda.Machine.State.reaches_succ`, `Unlambda.Machine.State.reaches_succ_last`: a
  sequence of steps taken apart at its first and at its last step
* `Unlambda.Machine.State.Reaches.invariant`: what every step preserves holds of every state
  that is reached
* `Unlambda.Machine.State.run_eq_halted_iff`, `Unlambda.Machine.State.run_eq_stuck_iff`: how
  a run comes to an end
-/

namespace Unlambda

theorem Value.isPrimitive_eq_true_iff {v : Value} {p : Primitive} :
    v.isPrimitive p = true ↔ v = .primitive p := by
  cases v <;> simp [isPrimitive]

namespace Machine

namespace Outcome

theorem shift_zero (outcome : Outcome) : outcome.shift 0 = outcome := by
  cases outcome <;> simp [shift]

theorem shift_shift (m n : Nat) (outcome : Outcome) :
    (outcome.shift n).shift m = outcome.shift (m + n) := by
  cases outcome <;> simp [shift, Nat.add_assoc]

end Outcome

namespace State

variable {state middle state' last : State} {m n fuel : Nat} {result function : Value}
  {exited : Bool}

/-! ### Steps that end a run -/

theorem resumeStep_eq_halt_iff {k : Continuation} {v : Value} :
    state.resumeStep k v = .halt result exited ↔ k = .done ∧ v = result ∧ exited = false := by
  cases k with
  | done => simp [resumeStep, eq_comm]
  | awaitOperand link operand next =>
    rw [resumeStep]
    split <;> simp
  | awaitApply link function next => simp [resumeStep]

theorem resumeStep_ne_stuck {k : Continuation} {v : Value} :
    state.resumeStep k v ≠ .stuck function := by
  cases k with
  | done => simp [resumeStep]
  | awaitOperand link operand next =>
    rw [resumeStep]
    split <;> simp
  | awaitApply link function next => simp [resumeStep]

theorem applyStep_eq_halt_iff {f x : Value} {k : Continuation} :
    state.applyStep f x k = .halt result exited ↔
      f = .primitive .e ∧ x = result ∧ exited = true := by
  cases f with
  | primitive p => cases p <;> simp [applyStep, applyPrimitive, eq_comm]
  | k1 y | s1 y | s2 y z | delayed promise body | continuation saved => simp [applyStep]

theorem applyStep_eq_stuck_iff {f x : Value} {k : Continuation} :
    state.applyStep f x k = .stuck function ↔ f = .primitive .d ∧ function = .primitive .d := by
  cases f with
  | primitive p => cases p <;> simp [applyStep, applyPrimitive, eq_comm]
  | k1 y | s1 y | s2 y z | delayed promise body | continuation saved => simp [applyStep]

/-- A run ends when nothing waits for a value, or when `e` is applied. -/
theorem step_eq_halt_iff :
    state.step = .halt result exited ↔
      (state.job = .resume .done result ∧ exited = false) ∨
        ∃ k, state.job = .apply (.primitive .e) result k ∧ exited = true := by
  unfold step
  cases state.job with
  | eval t k => simp
  | resume k v => simp [resumeStep_eq_halt_iff, and_assoc]
  | apply f x k => simp [applyStep_eq_halt_iff, and_assoc]

/-- Nothing but the application of `d` has no rule. -/
theorem step_eq_stuck_iff :
    state.step = .stuck function ↔
      (∃ x k, state.job = .apply (.primitive .d) x k) ∧ function = .primitive .d := by
  unfold step
  cases state.job with
  | eval t k => simp
  | resume k v => simp [resumeStep_ne_stuck]
  | apply f x k => simp [applyStep_eq_stuck_iff]

/-! ### Steps that go on -/

/-- **A step that goes on** follows the rule for its job. -/
theorem step_next_cases (hstep : state.step = .next state') :
    (∃ t k, state.job = .eval t k ∧ state' = state.evalStep t k) ∨
      (∃ k v, state.job = .resume k v ∧ state.resumeStep k v = .next state') ∨
        ∃ f x k, state.job = .apply f x k ∧ state.applyStep f x k = .next state' := by
  unfold step at hstep
  split at hstep
  · next t k hjob => exact .inl ⟨t, k, hjob, (Move.next.inj hstep).symm⟩
  · next k v hjob => exact .inr (.inl ⟨k, v, hjob, hstep⟩)
  · next f x k hjob => exact .inr (.inr ⟨f, x, k, hjob, hstep⟩)

/-- What a frame does with a value: to `d` it gives its operand in a promise, behind any other
operator it evaluates the operand, and its function it applies. -/
theorem resumeStep_next_cases {k : Continuation} {v : Value}
    (hstep : state.resumeStep k v = .next state') :
    (∃ link operand next, k = .awaitOperand link operand next ∧ v = .primitive .d ∧
        state' = state.becomeFresh fun promise => .resume next (.delayed promise operand)) ∨
      (∃ link operand next, k = .awaitOperand link operand next ∧ v ≠ .primitive .d ∧
        state' = state.becomeFresh fun link => .eval operand (next.push link (.awaitApply v))) ∨
      ∃ link function next, k = .awaitApply link function next ∧
        state' = state.become (.apply function v next) := by
  cases k with
  | done => cases hstep
  | awaitOperand link operand next =>
    rw [resumeStep] at hstep
    split at hstep
    · next delay =>
      have hv : v = .primitive .d := Value.isPrimitive_eq_true_iff.mp delay
      exact .inl ⟨link, operand, next, rfl, hv, (Move.next.inj hstep).symm⟩
    · next other =>
      have hv : v ≠ .primitive .d := mt Value.isPrimitive_eq_true_iff.mpr other
      exact .inr (.inl ⟨link, operand, next, rfl, hv, (Move.next.inj hstep).symm⟩)
  | awaitApply link function next =>
    exact .inr (.inr ⟨link, function, next, rfl, (Move.next.inj hstep).symm⟩)

/-- Only a frame that holds a function brings the program to apply it. -/
theorem job_eq_resume_of_step {f x : Value} {k : Continuation} (hstep : state.step = .next state')
    (hjob : state'.job = .apply f x k) :
    ∃ link, state.job = .resume (.awaitApply link f k) x := by
  -- All other rules evaluate a term or resume a continuation next.
  rcases step_next_cases hstep with ⟨t, k, -, rfl⟩ | ⟨k, v, hbefore, hresume⟩ |
    ⟨g, y, k, -, happly⟩
  · cases t with
    | value v | application g y => cases hjob
    | source e => cases e <;> cases hjob
  · rcases resumeStep_next_cases hresume with ⟨link, operand, next, -, -, rfl⟩ |
      ⟨link, operand, next, -, -, rfl⟩ | ⟨link, function, next, rfl, rfl⟩
    · cases hjob
    · cases hjob
    · cases hjob
      exact ⟨link, hbefore⟩
  · cases g with
    | primitive p =>
      cases p <;> cases happly <;> cases hjob
    | k1 z | s1 z | s2 z w | delayed promise body | continuation saved =>
      cases happly
      cases hjob

/-! ### Sequences of steps -/

/-- After exactly `n` steps from `state` the program has come to `state'`. -/
def Reaches (state : State) (n : Nat) (state' : State) : Prop := state.run n = .paused state'

@[simp] theorem reaches_zero : state.Reaches 0 state' ↔ state = state' := by
  simp [Reaches]

theorem Reaches.refl (state : State) : state.Reaches 0 state := rfl

theorem run_succ (fuel : Nat) (state : State) :
    state.run (fuel + 1) = match state.step with
      | .next state' => (state'.run fuel).shift 1
      | .halt result exited => .halted ⟨result, state.console, 1, exited, state.fresh⟩
      | .stuck function => .stuck function := by
  rw [run, runOnto]
  cases state.step with
  | next state' => exact runOnto_eq_shift (0 + 1) fuel state'
  | halt result exited => rfl
  | stuck function => rfl

theorem reaches_succ :
    state.Reaches (n + 1) state' ↔
      ∃ middle, state.step = .next middle ∧ middle.Reaches n state' := by
  unfold Reaches
  rw [run_succ]
  cases hstep : state.step with
  | next middle =>
    cases hrun : middle.run n <;> simp [Outcome.shift, hrun]
  | halt result exited => simp
  | stuck function => simp

theorem Reaches.head (hstep : state.step = .next middle) (h : middle.Reaches n state') :
    state.Reaches (n + 1) state' :=
  reaches_succ.mpr ⟨middle, hstep, h⟩

theorem Reaches.trans (h : state.Reaches m middle) (h' : middle.Reaches n state') :
    state.Reaches (m + n) state' := by
  induction m generalizing state with
  | zero =>
    obtain rfl := reaches_zero.mp h
    rwa [Nat.zero_add]
  | succ m ih =>
    obtain ⟨next, hstep, hnext⟩ := reaches_succ.mp h
    rw [Nat.succ_add]
    exact Reaches.head hstep (ih hnext)

theorem reaches_add :
    state.Reaches (m + n) state' ↔ ∃ middle, state.Reaches m middle ∧ middle.Reaches n state' := by
  constructor
  · intro h
    induction m generalizing state with
    | zero => exact ⟨state, .refl state, by rwa [Nat.zero_add] at h⟩
    | succ m ih =>
      rw [Nat.succ_add] at h
      obtain ⟨next, hstep, hnext⟩ := reaches_succ.mp h
      obtain ⟨middle, hm, hn⟩ := ih hnext
      exact ⟨middle, .head hstep hm, hn⟩
  · rintro ⟨middle, hm, hn⟩
    exact hm.trans hn

@[simp] theorem reaches_one : state.Reaches 1 state' ↔ state.step = .next state' := by
  simp [reaches_succ (n := 0)]

theorem reaches_succ_last :
    state.Reaches (n + 1) state' ↔
      ∃ middle, state.Reaches n middle ∧ middle.step = .next state' := by
  simp [reaches_add]

/-- A state that has no next one is the only state that it reaches. -/
theorem Reaches.eq_of_ended (h : state.Reaches n last)
    (hend : ∀ next, state.step ≠ .next next) : n = 0 ∧ state = last := by
  cases n with
  | zero => exact ⟨rfl, reaches_zero.mp h⟩
  | succ n =>
    obtain ⟨middle, hstep, -⟩ := reaches_succ.mp h
    exact absurd hstep (hend middle)

/-- What is reached from a state and ends the run is reached from the next state. -/
theorem Reaches.of_next (h : state.Reaches n last) (hlast : last.step = .halt result exited)
    (hstep : state.step = .next middle) : ∃ m, n = m + 1 ∧ middle.Reaches m last := by
  cases n with
  | zero =>
    obtain rfl := reaches_zero.mp h
    rw [hstep] at hlast
    cases hlast
  | succ m =>
    obtain ⟨next, hnext, hreach⟩ := reaches_succ.mp h
    obtain rfl := Move.next.inj (hstep.symm.trans hnext)
    exact ⟨m, rfl, hreach⟩

/-- What is reached from a state and ends the run lies behind every other state that is
reached. -/
theorem Reaches.of_reaches (h : state.Reaches n last) (hlast : last.step = .halt result exited)
    (hmiddle : state.Reaches m middle) : ∃ rest, n = m + rest ∧ middle.Reaches rest last := by
  induction m generalizing state n with
  | zero =>
    obtain rfl := reaches_zero.mp hmiddle
    exact ⟨n, (Nat.zero_add n).symm, h⟩
  | succ m ih =>
    obtain ⟨next, hstep, hnext⟩ := reaches_succ.mp hmiddle
    obtain ⟨n, rfl, hreach⟩ := h.of_next hlast hstep
    obtain ⟨rest, rfl, hrest⟩ := ih hreach hnext
    exact ⟨rest, by omega, hrest⟩

/-- **Invariants.** What every step preserves holds of every state that is reached. -/
theorem Reaches.invariant {P : State → Prop}
    (preserved : ∀ {state state'}, P state → state.step = .next state' → P state')
    (start : P state) (h : state.Reaches n state') : P state' := by
  induction n generalizing state with
  | zero => exact reaches_zero.mp h ▸ start
  | succ n ih =>
    obtain ⟨middle, hstep, hmiddle⟩ := reaches_succ.mp h
    exact ih (preserved start hstep) hmiddle

/-! ### The end of a run -/

theorem run_of_reaches (h : state.Reaches n middle) (fuel : Nat) :
    state.run (n + fuel) = (middle.run fuel).shift n := by
  induction n generalizing state with
  | zero =>
    obtain rfl := reaches_zero.mp h
    rw [Nat.zero_add, Outcome.shift_zero]
  | succ n ih =>
    obtain ⟨next, hstep, hnext⟩ := reaches_succ.mp h
    rw [Nat.succ_add, run_succ, hstep]
    simp only [ih hnext, Outcome.shift_shift, Nat.add_comm 1]

/-- However many steps are asked for, they are either all taken, or some state that is reached
before has no next one. -/
theorem reaches_or_stops (state : State) (fuel : Nat) :
    (∃ state', state.Reaches fuel state') ∨
      ∃ n < fuel, ∃ last, state.Reaches n last ∧ ∀ next, last.step ≠ .next next := by
  induction fuel with
  | zero => exact .inl ⟨state, .refl state⟩
  | succ fuel ih =>
    rcases ih with ⟨state', hreach⟩ | ⟨n, hn, last, hreach, hstop⟩
    · -- All steps but one have been taken; the last one may not be there.
      by_cases hnext : ∃ next, state'.step = .next next
      · obtain ⟨next, hstep⟩ := hnext
        exact .inl ⟨next, reaches_succ_last.mpr ⟨state', hreach, hstep⟩⟩
      · exact .inr ⟨fuel, fuel.lt_succ_self, state', hreach, not_exists.mp hnext⟩
    · exact .inr ⟨n, Nat.lt_succ_of_lt hn, last, hreach, hstop⟩

theorem Reaches.run_eq_halted (h : state.Reaches n last)
    (hstep : last.step = .halt result exited) (hn : n < fuel) :
    state.run fuel = .halted ⟨result, last.console, n + 1, exited, last.fresh⟩ := by
  obtain ⟨rest, rfl⟩ := Nat.exists_eq_add_of_lt hn
  rw [Nat.add_assoc, run_of_reaches h, run_succ, hstep]
  rfl

theorem Reaches.run_eq_stuck (h : state.Reaches n last) (hstep : last.step = .stuck function)
    (hn : n < fuel) : state.run fuel = .stuck function := by
  obtain ⟨rest, rfl⟩ := Nat.exists_eq_add_of_lt hn
  rw [Nat.add_assoc, run_of_reaches h, run_succ, hstep]
  rfl

/-- A run is over when a state that it reaches takes a step that ends it. That step counts. -/
theorem run_eq_halted_iff {evaluation : Evaluation} :
    state.run fuel = .halted evaluation ↔
      ∃ n < fuel, ∃ last result exited, state.Reaches n last ∧
        last.step = .halt result exited ∧
        evaluation = ⟨result, last.console, n + 1, exited, last.fresh⟩ := by
  constructor
  · intro h
    -- A run that takes all its steps has paused. Otherwise the first state without a next one
    -- tells how it ends.
    rcases reaches_or_stops state fuel with ⟨state', hreach⟩ | ⟨n, hn, last, hreach, hstop⟩
    · rw [hreach] at h
      cases h
    · cases hstep : last.step with
      | next next => exact absurd hstep (hstop next)
      | halt result exited =>
        rw [hreach.run_eq_halted hstep hn] at h
        exact ⟨n, hn, last, result, exited, hreach, hstep, (Outcome.halted.inj h).symm⟩
      | stuck function =>
        rw [hreach.run_eq_stuck hstep hn] at h
        cases h
  · rintro ⟨n, hn, last, result, exited, hreach, hstep, rfl⟩
    exact hreach.run_eq_halted hstep hn

/-- A run that is over has only one end. -/
theorem eq_of_run_eq_halted {fuel' : Nat} {evaluation evaluation' : Evaluation}
    (h : state.run fuel = .halted evaluation) (h' : state.run fuel' = .halted evaluation') :
    evaluation = evaluation' := by
  obtain ⟨n, hn, last, result, exited, hreach, hstep, rfl⟩ := run_eq_halted_iff.mp h
  obtain ⟨n', hn', last', result', exited', hreach', hstep', rfl⟩ := run_eq_halted_iff.mp h'
  -- Both ends are found with enough fuel for the longer run.
  have hlong := hreach.run_eq_halted hstep (Nat.lt_add_right fuel' hn)
  have hlong' := hreach'.run_eq_halted hstep' (Nat.lt_add_left fuel hn')
  exact Outcome.halted.inj (hlong.symm.trans hlong')

/-- A run is stuck when a state that it reaches has no rule for its step. -/
theorem run_eq_stuck_iff :
    state.run fuel = .stuck function ↔
      ∃ n < fuel, ∃ last, state.Reaches n last ∧ last.step = .stuck function := by
  constructor
  · intro h
    rcases reaches_or_stops state fuel with ⟨state', hreach⟩ | ⟨n, hn, last, hreach, hstop⟩
    · rw [hreach] at h
      cases h
    · cases hstep : last.step with
      | next next => exact absurd hstep (hstop next)
      | halt result exited =>
        rw [hreach.run_eq_halted hstep hn] at h
        cases h
      | stuck function' =>
        rw [hreach.run_eq_stuck hstep hn] at h
        exact ⟨n, hn, last, hreach, hstep.trans (congrArg Move.stuck (Outcome.stuck.inj h))⟩
  · rintro ⟨n, hn, last, hreach, hstep⟩
    exact hreach.run_eq_stuck hstep hn

theorem evaluate_eq_ok_iff {evaluation : Evaluation} :
    state.evaluate fuel = some (.ok evaluation) ↔ state.run fuel = .halted evaluation := by
  unfold evaluate
  cases state.run fuel <;> simp

theorem evaluate_eq_inapplicable_iff {text : String} :
    state.evaluate fuel = some (.error (.inapplicable text)) ↔
      ∃ function, state.run fuel = .stuck function ∧ function.text = text := by
  unfold evaluate
  cases state.run fuel <;> simp

theorem evaluateWithin_eq_inapplicable_iff {text : String} :
    state.evaluateWithin fuel = .error (.inapplicable text) ↔
      ∃ function, state.run fuel = .stuck function ∧ function.text = text := by
  unfold evaluateWithin
  cases state.run fuel <;> simp

end State

/-- A text that is run to a result is a program, and the program comes to that result. -/
theorem run_eq_ok_iff {fuel : Nat} {source input : List Char} {evaluation : Evaluation} :
    run fuel source input = some (.ok evaluation) ↔
      ∃ e, Expression.parse source = .ok e ∧ e.evaluate fuel input = some (.ok evaluation) := by
  unfold run
  cases Expression.parse source with
  | error error => simp
  | ok e =>
    simp only [Except.ok.injEq, exists_eq_left']
    cases e.evaluate fuel input with
    | none => simp
    | some answer => cases answer <;> constructor <;> intro h <;> cases h <;> rfl

end Machine

end Unlambda
