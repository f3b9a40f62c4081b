import Unlambda.Proofs.Machine.Applicability
import Unlambda.Proofs.Machine.Effect

/-!
# Step limits

A step limit cuts a run off after so many steps and changes nothing else: a program that ends
within the limit does not notice it, and of any other program the output is seen as it is at
that moment.

Whoever counts the steps in a machine word has to raise the counter after each of them, and to
look at the limit before each of them but not after the last one. The loop that does so is
described here as well. It gives the same answer as a run of that many steps, and its counter
never passes the limit, so it never overflows.

## Main definitions

* `Unlambda.Machine.reportedOutput`: the output that comes with an answer
* `Unlambda.Machine.Lap`: the loop between two passes, with its counter
* `Unlambda.Machine.Lap.pass`: one pass of the loop
* `Unlambda.Machine.State.lapAfter`: the loop after so many passes

## Main results

* `Unlambda.Machine.State.evaluateWithin_of_steps_le`,
  `Unlambda.Machine.State.evaluateWithin_of_lt_steps`: a run that ends, under a limit
* `Unlambda.Machine.State.evaluate_of_halted`: the same run without one
* `Unlambda.Machine.State.reportedOutput_prefix`: a higher limit shows more of the same output
* `Unlambda.Machine.State.lapAfter_eq_evaluateWithin`: the loop answers as the run does
* `Unlambda.Machine.step_limit_is_exact`: all of this for programs
-/

namespace Unlambda.Machine

/-- The output that comes with an answer. -/
def reportedOutput : Except EvaluationError Evaluation → List Char
  | .ok evaluation => evaluation.console.output
  | .error (.stepLimitExceeded _ output) => output.toList
  | .error (.inapplicable _) => []

namespace State

variable {state state' last middle : State} {m n fuel limit : Nat} {result : Value}
  {exited : Bool} {evaluation : Evaluation}

/-! ### Runs under a limit -/

theorem Reaches.evaluateWithin_eq (h : state.Reaches limit state') :
    state.evaluateWithin limit =
      .error (.stepLimitExceeded limit state'.console.outputText) := by
  rw [evaluateWithin, h]

theorem reportedOutput_of_reaches (h : state.Reaches limit state') :
    reportedOutput (state.evaluateWithin limit) = state'.console.output := by
  rw [h.evaluateWithin_eq, reportedOutput, Console.toList_outputText]

/-- A run that goes on at the limit is stopped there, and its output is reported as it is. -/
theorem Reaches.exists_output (h : state.Reaches limit state') :
    ∃ output : String, state.evaluateWithin limit = .error (.stepLimitExceeded limit output) ∧
      output.toList = state'.console.output :=
  ⟨state'.console.outputText, h.evaluateWithin_eq, state'.console.toList_outputText⟩

/-- A limit that a run keeps to makes no difference to it. -/
theorem evaluateWithin_of_steps_le (hrun : state.run fuel = .halted evaluation)
    (hle : evaluation.steps ≤ limit) : state.evaluateWithin limit = .ok evaluation := by
  obtain ⟨n, -, last, result, exited, hreach, hstep, rfl⟩ := run_eq_halted_iff.mp hrun
  -- The step that ends the run is the last one that the limit has to allow.
  have hn : n < limit := hle
  rw [evaluateWithin, hreach.run_eq_halted hstep hn]

/-- A limit that a run would pass stops it on its way. -/
theorem evaluateWithin_of_lt_steps (hrun : state.run fuel = .halted evaluation)
    (hlt : limit < evaluation.steps) :
    ∃ middle, ∃ output : String, state.Reaches limit middle ∧
      state.evaluateWithin limit = .error (.stepLimitExceeded limit output) ∧
      output.toList = middle.console.output ∧ output.toList <+: evaluation.console.output := by
  obtain ⟨n, -, last, result, exited, hreach, -, rfl⟩ := run_eq_halted_iff.mp hrun
  obtain ⟨rest, rfl⟩ := Nat.exists_eq_add_of_le (Nat.le_of_lt_succ hlt)
  obtain ⟨middle, hmiddle, hrest⟩ := reaches_add.mp hreach
  obtain ⟨output, hanswer, houtput⟩ := hmiddle.exists_output
  exact ⟨middle, output, hmiddle, hanswer, houtput, houtput ▸ hrest.output_prefix⟩

/-- A run that ends answers under every limit: with its result, or else with a beginning of its
output. -/
theorem evaluateWithin_cases (hrun : state.run fuel = .halted evaluation) (limit : Nat) :
    (evaluation.steps ≤ limit ∧ state.evaluateWithin limit = .ok evaluation) ∨
      limit < evaluation.steps ∧ ∃ output : String, output.toList <+: evaluation.console.output ∧
        state.evaluateWithin limit = .error (.stepLimitExceeded limit output) := by
  rcases Nat.lt_or_ge limit evaluation.steps with hlt | hle
  · obtain ⟨-, output, -, hanswer, -, hprefix⟩ := evaluateWithin_of_lt_steps hrun hlt
    exact .inr ⟨hlt, output, hprefix, hanswer⟩
  · exact .inl ⟨hle, evaluateWithin_of_steps_le hrun hle⟩

/-- Without a limit it answers once the fuel suffices, and not before. -/
theorem evaluate_of_halted (hrun : state.run fuel = .halted evaluation) (fuel' : Nat) :
    state.evaluate fuel' =
      if fuel' < evaluation.steps then none else some (.ok evaluation) := by
  split
  · next hlt =>
    obtain ⟨middle, -, hmiddle, -⟩ := evaluateWithin_of_lt_steps hrun hlt
    rw [evaluate, hmiddle]
  · next hlt =>
    obtain ⟨n, -, last, result, exited, hreach, hstep, rfl⟩ := run_eq_halted_iff.mp hrun
    exact evaluate_eq_ok_iff.mpr (hreach.run_eq_halted hstep (Nat.not_lt.mp hlt))

/-- A run that never ends is stopped by every limit. -/
theorem evaluateWithin_of_endless (hspares : state.SparesDelay)
    (hendless : ∀ fuel evaluation, state.run fuel ≠ .halted evaluation) (limit : Nat) :
    ∃ state', ∃ output : String, state.Reaches limit state' ∧
      state.evaluateWithin limit = .error (.stepLimitExceeded limit output) ∧
      output.toList = state'.console.output := by
  obtain ⟨state', hreach⟩ := hspares.reaches_of_endless hendless limit
  obtain ⟨output, hanswer, houtput⟩ := hreach.exists_output
  exact ⟨state', output, hreach, hanswer, houtput⟩

/-- **A higher limit shows more of the same output.** -/
theorem reportedOutput_prefix (hspares : state.SparesDelay) (hmn : m ≤ n) :
    reportedOutput (state.evaluateWithin m) <+: reportedOutput (state.evaluateWithin n) := by
  cases hrun : state.run n with
  | stuck function => exact absurd hrun (hspares.run_ne_stuck n function)
  | halted evaluation =>
    have hanswer : state.evaluateWithin n = .ok evaluation := by rw [evaluateWithin, hrun]
    by_cases hm : evaluation.steps ≤ m
    · -- Neither limit is noticed.
      simp only [evaluateWithin_of_steps_le hrun hm, hanswer, List.prefix_refl]
    · obtain ⟨-, output, -, hshorter, -, hprefix⟩ :=
        evaluateWithin_of_lt_steps hrun (Nat.lt_of_not_le hm)
      rw [hshorter, hanswer]
      exact hprefix
  | paused state' =>
    obtain ⟨rest, rfl⟩ := Nat.exists_eq_add_of_le hmn
    obtain ⟨middle, hmiddle, hrest⟩ := reaches_add.mp hrun
    rw [reportedOutput_of_reaches hmiddle, reportedOutput_of_reaches hrun]
    exact hrest.output_prefix

end State

/-! ### The counting loop -/

/-- How far a program has come between two passes of the loop. -/
inductive Stage
  | working (state : State)
  /-- The step from `last` has ended the program. -/
  | arrived (result : Value) (exited : Bool) (last : State)

/-- The loop between two passes. The steps are counted in a machine word. -/
structure Lap where
  stage : Stage
  steps : UInt64

/-- One pass of the loop, which leads to the next lap or to an answer. A program that has
arrived is reported whatever the limit is. Otherwise the limit comes first, then the step, and
then the counter. An error names the counter and not the limit. -/
def Lap.pass (limit : UInt64) (lap : Lap) : Lap ⊕ Except EvaluationError Evaluation :=
  match lap.stage with
  | .arrived result exited last =>
    .inr (.ok ⟨result, last.console, lap.steps.toNat, exited, last.fresh⟩)
  | .working state =>
    if limit ≤ lap.steps then
      .inr (.error (.stepLimitExceeded lap.steps.toNat state.console.outputText))
    else
      match state.step with
      | .next state' => .inl ⟨.working state', lap.steps + 1⟩
      | .halt result exited => .inl ⟨.arrived result exited state, lap.steps + 1⟩
      | .stuck function => .inr (.error (.inapplicable function.text))

/-- Where the loop stands after so many passes, or its answer if it has one by then. -/
def State.lapAfter (limit : UInt64) (state : State) :
    (passes : Nat) → Lap ⊕ Except EvaluationError Evaluation
  | 0 => .inl ⟨.working state, 0⟩
  | passes + 1 =>
    match state.lapAfter limit passes with
    | .inl lap => lap.pass limit
    | .inr answer => .inr answer

/-- The state that a stage stands for is reached after `n` steps. -/
def Stage.ReachedFrom (state : State) (n : Nat) : Stage → Prop
  | working state' => state.Reaches n state'
  | arrived result exited last =>
    ∃ m, n = m + 1 ∧ state.Reaches m last ∧ last.step = .halt result exited

/-- A lap that comes after `n` passes of the loop for `state`. -/
structure Lap.Follows (lap : Lap) (state : State) (limit : UInt64) (n : Nat) : Prop where
  /-- The counter has not wrapped around. -/
  counts : lap.steps.toNat = n
  bounded : lap.steps ≤ limit
  reached : lap.stage.ReachedFrom state n

namespace Lap.Follows

variable {lap lap' : Lap} {state : State} {limit : UInt64} {n : Nat}
  {answer : Except EvaluationError Evaluation}

theorem start (state : State) (limit : UInt64) :
    Follows ⟨.working state, 0⟩ state limit 0 where
  counts := rfl
  bounded := UInt64.zero_le
  reached := .refl state

/-- Below the limit there is room for one more step. -/
theorem raise (h : lap.Follows state limit n) (hlimit : ¬limit ≤ lap.steps) {stage : Stage}
    (hstage : stage.ReachedFrom state (n + 1)) :
    Follows ⟨stage, lap.steps + 1⟩ state limit (n + 1) := by
  have hbelow : lap.steps.toNat < limit.toNat := UInt64.lt_iff_toNat_lt.mp (UInt64.not_le.mp hlimit)
  have hword : limit.toNat < 2 ^ 64 := limit.toNat_lt
  have hcounts : (lap.steps + 1).toNat = lap.steps.toNat + 1 := by
    rw [UInt64.toNat_add, UInt64.toNat_one]
    exact Nat.mod_eq_of_lt (by omega)
  constructor
  · rw [hcounts, h.counts]
  · rw [UInt64.le_iff_toNat_le, hcounts]
    exact hbelow
  · exact hstage

/-- **One pass.** The next lap has counted one step more, within the limit. -/
theorem pass (h : lap.Follows state limit n) (hpass : lap.pass limit = .inl lap') :
    lap'.Follows state limit (n + 1) := by
  unfold Lap.pass at hpass
  split at hpass
  · cases hpass
  · next current hstage =>
    have hreach : state.Reaches n current := by
      have hreached := h.reached
      rwa [hstage] at hreached
    split at hpass
    · cases hpass
    · next hlimit =>
      split at hpass
      · next next hstep =>
        obtain rfl := Sum.inl.inj hpass
        exact h.raise hlimit (State.reaches_succ_last.mpr ⟨current, hreach, hstep⟩)
      · next result exited hstep =>
        obtain rfl := Sum.inl.inj hpass
        exact h.raise hlimit ⟨n, rfl, hreach, hstep⟩
      · cases hpass

/-- **The last pass.** What the loop answers is the answer of the run. -/
theorem answer_eq (h : lap.Follows state limit n) (hpass : lap.pass limit = .inr answer) :
    answer = state.evaluateWithin limit.toNat := by
  have hbounded : n ≤ limit.toNat := h.counts ▸ UInt64.le_iff_toNat_le.mp h.bounded
  have hreached := h.reached
  unfold Lap.pass at hpass
  split at hpass
  · next result exited last hstage =>
    obtain rfl := Sum.inr.inj hpass
    rw [hstage] at hreached
    obtain ⟨m, rfl, hreach, hstep⟩ := hreached
    rw [State.evaluateWithin, hreach.run_eq_halted hstep hbounded, h.counts]
  · next current hstage =>
    rw [hstage] at hreached
    split at hpass
    · next hlimit =>
      -- The counter stands exactly at the limit, so that is what the error names.
      obtain rfl := Sum.inr.inj hpass
      have hn : lap.steps = limit := UInt64.le_antisymm h.bounded hlimit
      have hcounts := h.counts
      rw [hn] at hcounts
      have hlast : state.Reaches limit.toNat current := hcounts ▸ hreached
      rw [hlast.evaluateWithin_eq, hn]
    · next hlimit =>
      split at hpass
      · cases hpass
      · cases hpass
      · next function hstep =>
        obtain rfl := Sum.inr.inj hpass
        have hbelow : n < limit.toNat :=
          h.counts ▸ UInt64.lt_iff_toNat_lt.mp (UInt64.not_le.mp hlimit)
        rw [State.evaluateWithin, State.Reaches.run_eq_stuck hreached hstep hbelow]

end Lap.Follows

namespace State

variable {state : State} {limit : UInt64} {n : Nat} {lap : Lap}
  {answer : Except EvaluationError Evaluation}

theorem follows_of_lapAfter (h : state.lapAfter limit n = .inl lap) :
    lap.Follows state limit n := by
  induction n generalizing lap with
  | zero =>
    obtain rfl := Sum.inl.inj h
    exact .start state limit
  | succ n ih =>
    rw [lapAfter] at h
    split at h
    · next before hbefore => exact (ih hbefore).pass h
    · cases h

theorem answer_of_lapAfter (h : state.lapAfter limit n = .inr answer) :
    answer = state.evaluateWithin limit.toNat := by
  induction n with
  | zero => cases h
  | succ n ih =>
    rw [lapAfter] at h
    split at h
    · next before hbefore => exact (follows_of_lapAfter hbefore).answer_eq h
    · next earlier hearlier => exact ih (hearlier.trans h)

/-- **The loop answers as the run does,** at the latest in the pass that finds the counter at
the limit. -/
theorem lapAfter_eq_evaluateWithin (state : State) (limit : UInt64) :
    state.lapAfter limit (limit.toNat + 1) = .inr (state.evaluateWithin limit.toNat) := by
  cases h : state.lapAfter limit (limit.toNat + 1) with
  | inr answer => rw [answer_of_lapAfter h]
  | inl lap =>
    -- The counter of a further lap would be past the limit.
    have hfollows := follows_of_lapAfter h
    have hcounts := hfollows.counts
    have hbounded := UInt64.le_iff_toNat_le.mp hfollows.bounded
    omega

end State

/-- **A step limit is exact, and apart from that it does not show.**

* A program that ends after so many steps gives the same answer under every limit that is not
  lower. A lower limit stops it after as many steps as the limit says. The error names the limit
  and what the program has written by then, which is a prefix of all that it writes.
* A program that does not end is stopped by every limit, and in the same way.
* Under a higher limit the output that is reported can only be longer.
* A loop that counts the steps in a machine word, for any limit that is one, gives the same
  answer. Its counter is at all times the number of steps taken, and it does not pass the
  limit. -/
theorem step_limit_is_exact (e : Expression) (input : List Char) :
    (∀ fuel evaluation, e.evaluate fuel input = some (.ok evaluation) →
      (∀ limit, evaluation.steps ≤ limit → e.evaluateWithin limit input = .ok evaluation) ∧
      ∀ limit < evaluation.steps, ∃ state, ∃ output : String,
        (State.ofExpression e input 0).Reaches limit state ∧
        e.evaluateWithin limit input = .error (.stepLimitExceeded limit output) ∧
        output.toList = state.console.output ∧ output.toList <+: evaluation.console.output) ∧
    ((∀ fuel evaluation, e.evaluate fuel input ≠ some (.ok evaluation)) →
      ∀ limit, ∃ state, ∃ output : String,
        (State.ofExpression e input 0).Reaches limit state ∧
        e.evaluateWithin limit input = .error (.stepLimitExceeded limit output) ∧
        output.toList = state.console.output) ∧
    (∀ m n, m ≤ n →
      reportedOutput (e.evaluateWithin m input) <+: reportedOutput (e.evaluateWithin n input)) ∧
    ∀ limit : UInt64,
      (State.ofExpression e input 0).lapAfter limit (limit.toNat + 1) =
        .inr (e.evaluateWithin limit.toNat input) ∧
      ∀ n lap, (State.ofExpression e input 0).lapAfter limit n = .inl lap →
        lap.steps.toNat = n ∧ lap.steps ≤ limit := by
  have start : (State.ofExpression e input 0).SparesDelay := State.sparesDelay_of_job rfl
  refine ⟨fun fuel evaluation h => ?_, fun hendless limit => ?_, fun m n hmn => ?_,
    fun limit => ⟨?_, fun n lap h => ?_⟩⟩
  · have hrun := State.evaluate_eq_ok_iff.mp h
    exact ⟨fun limit => State.evaluateWithin_of_steps_le hrun,
      fun limit => State.evaluateWithin_of_lt_steps hrun⟩
  · refine State.evaluateWithin_of_endless start (fun fuel evaluation hrun => ?_) limit
    exact hendless fuel evaluation (State.evaluate_eq_ok_iff.mpr hrun)
  · exact State.reportedOutput_prefix start hmn
  · exact State.lapAfter_eq_evaluateWithin _ limit
  · have hfollows := State.follows_of_lapAfter h
    exact ⟨hfollows.counts, hfollows.bounded⟩

/-- A program that prints two characters is stopped between them. -/
theorem first_character_is_reported :
    let e : Expression := .application (.primitive (.print 'b'))
      (.application (.primitive (.print 'a')) (.primitive .i))
    ∃ evaluation, e.evaluate 12 [] = some (.ok evaluation) ∧ 9 < evaluation.steps ∧
      evaluation.console.output = ['a', 'b'] ∧
      ∃ state, ∃ output : String, (State.ofExpression e [] 0).Reaches 9 state ∧
        e.evaluateWithin 9 [] = .error (.stepLimitExceeded 9 output) ∧
        output.toList = state.console.output ∧ output.toList <+: evaluation.console.output ∧
        output = "a" := by
  intro e
  obtain ⟨evaluation, hevaluate, hsteps, houtput⟩ : ∃ evaluation,
      e.evaluate 12 [] = some (.ok evaluation) ∧ 9 < evaluation.steps ∧
        evaluation.console.output = ['a', 'b'] := ⟨_, rfl, by decide, rfl⟩
  obtain ⟨state, output, hreach, hanswer, hwritten, hprefix⟩ :=
    ((step_limit_is_exact e []).1 12 evaluation hevaluate).2 9 hsteps
  have hknown : e.evaluateWithin 9 [] = .error (.stepLimitExceeded 9 "a") := rfl
  have houtput' : output = "a" := by simpa [hanswer] using hknown
  exact ⟨evaluation, hevaluate, hsteps, houtput, state, output, hreach, hanswer, hwritten,
    hprefix, houtput'⟩

end Unlambda.Machine
