import Unlambda.Proofs.Machine.Account

/-!
# What a run cannot see

A program sees nothing of the console but the current character: whether it is there after a
read, and which one it is when `?x` or `|` is applied. So it cannot depend on what it has
written before, nor on input that it does not come to read, and not even on whether there is
any.

## Main definitions

* `Unlambda.Machine.Move.withConsole`: a move that leads to another console
* `Unlambda.Console.precede`, `Unlambda.Machine.State.precede`, `Unlambda.Machine.Outcome.precede`,
  `Unlambda.Machine.precedeAnswer`: everything as it is if something had been written before

## Main results

* `Unlambda.Machine.State.step_withConsole`: what a step depends on
* `Unlambda.Machine.State.run_precede`: earlier output stands in front of what a run writes
* `Unlambda.Machine.State.Reaches.exchange_rest`: input that is not read can be exchanged
* `Unlambda.Machine.unseen_changes_nothing`: both, for programs
-/

namespace Unlambda

/-! ### Steps on another console -/

namespace Machine

/-- The same move, but if the run goes on, then with another console. -/
def Move.withConsole (console : Console) : Move → Move
  | .next state => .next { state with console := console }
  | .halt result exited => .halt result exited
  | .stuck function => .stuck function

namespace State

variable {state state' : State} {console : Console} {n : Nat}

/-- **What a step depends on.** A step on another console is the same as long as the current
character is the same, before the step and after it. -/
theorem step_withConsole (state : State) (console : Console)
    (hbefore : console.current = state.console.current)
    (hafter : (state.job.effect console).current = (state.job.effect state.console).current) :
    State.step ⟨state.job, console, state.fresh⟩ =
      state.step.withConsole (state.job.effect console) := by
  obtain ⟨job, io, fresh⟩ := state
  cases job with
  | eval t k =>
    cases t with
    | source e => cases e <;> rfl
    | value v | application f x => rfl
  | resume k v =>
    cases k with
    | done | awaitApply link function next => rfl
    | awaitOperand link operand next =>
      simp only [step, resumeStep]
      split <;> rfl
  | apply f x k =>
    cases f with
    | primitive p =>
      cases p with
      | read =>
        replace hafter : console.read.current = io.read.current := hafter
        simp only [step, applyStep, applyPrimitive, hafter]
        rfl
      | compare y | reprint =>
        replace hbefore : console.current = io.current := hbefore
        simp only [step, applyStep, applyPrimitive, hbefore]
        rfl
      | s | k | i | v | c | d | e | r | print y => rfl
    | k1 y | s1 y | s2 y z | delayed promise body | continuation saved => rfl

/-- Whether a step ends the run does not depend on the console at all. -/
theorem step_eq_halt_of_job {result : Value} {exited : Bool}
    (hstep : state.step = .halt result exited) (hjob : state'.job = state.job) :
    state'.step = .halt result exited := by
  rw [step_eq_halt_iff] at hstep ⊢
  rwa [hjob]

end State

end Machine

/-! ### Earlier output -/

namespace Console

/-- The same console if `earlier` had been written before everything else. -/
def precede (earlier : List Char) (console : Console) : Console :=
  { console with written := console.written ++ earlier.reverse }

variable {console : Console} {earlier : List Char}

theorem output_precede : (console.precede earlier).output = earlier ++ console.output := by
  simp [precede, output]

theorem outputText_precede :
    (console.precede earlier).outputText = String.ofList earlier ++ console.outputText := by
  rw [outputText, output_precede, String.ofList_append, outputText]

theorem read_precede : (console.precede earlier).read = console.read.precede earlier := by
  cases hunread : console.unread with
  | nil => simp [read, precede, hunread]
  | cons x unread => simp [read, precede, hunread]

end Console

namespace Machine

theorem Job.effect_precede (job : Job) (earlier : List Char) (console : Console) :
    job.effect (console.precede earlier) = (job.effect console).precede earlier := by
  rcases job.effect_cases with ⟨-, -, heffect⟩ | ⟨x, -, -, heffect⟩ | ⟨-, -, heffect⟩
  · rw [heffect, Console.read_precede]
  · rw [heffect]
    rfl
  · rw [heffect]

/-- The same state if `earlier` had been written before everything else. -/
def State.precede (earlier : List Char) (state : State) : State :=
  { state with console := state.console.precede earlier }

/-- The same move if `earlier` had been written before everything else. -/
def Move.precede (earlier : List Char) : Move → Move
  | .next state => .next (state.precede earlier)
  | .halt result exited => .halt result exited
  | .stuck function => .stuck function

/-- The same outcome if `earlier` had been written before everything else. -/
def Outcome.precede (earlier : List Char) : Outcome → Outcome
  | .halted evaluation =>
    .halted { evaluation with console := evaluation.console.precede earlier }
  | .stuck function => .stuck function
  | .paused state => .paused (state.precede earlier)

/-- The same answer if `earlier` had been written before everything else. -/
def precedeAnswer (earlier : List Char) :
    Except EvaluationError Evaluation → Except EvaluationError Evaluation
  | .ok evaluation => .ok { evaluation with console := evaluation.console.precede earlier }
  | .error (.stepLimitExceeded limit output) =>
    .error (.stepLimitExceeded limit (String.ofList earlier ++ output))
  | .error (.inapplicable function) => .error (.inapplicable function)

theorem Outcome.shift_precede (earlier : List Char) (taken : Nat) (outcome : Outcome) :
    (outcome.precede earlier).shift taken = (outcome.shift taken).precede earlier := by
  cases outcome <;> rfl

namespace State

variable {state state' : State} {n : Nat}

theorem step_precede (earlier : List Char) (state : State) :
    (state.precede earlier).step = state.step.precede earlier := by
  have hafter : state.job.effect (state.console.precede earlier) =
      (state.job.effect state.console).precede earlier :=
    state.job.effect_precede earlier state.console
  have hstep : (state.precede earlier).step =
      state.step.withConsole ((state.job.effect state.console).precede earlier) := by
    rw [← hafter]
    exact step_withConsole state _ rfl (by rw [hafter]; rfl)
  rw [hstep]
  cases hmove : state.step with
  | next middle =>
    rw [Move.withConsole, Move.precede, precede, console_of_step hmove]
  | halt result exited | stuck function => rfl

/-- **Earlier output stands in front of what a run writes,** and makes no other difference. -/
theorem run_precede (earlier : List Char) (state : State) (n : Nat) :
    (state.precede earlier).run n = (state.run n).precede earlier := by
  induction n generalizing state with
  | zero => rfl
  | succ n ih =>
    rw [run_succ, run_succ, step_precede]
    cases state.step with
    | next middle =>
      simp only [Move.precede]
      rw [ih, Outcome.shift_precede]
    | halt result exited | stuck function => rfl

theorem evaluateWithin_precede (earlier : List Char) (state : State) (limit : Nat) :
    (state.precede earlier).evaluateWithin limit =
      precedeAnswer earlier (state.evaluateWithin limit) := by
  rw [evaluateWithin, evaluateWithin, run_precede]
  cases state.run limit with
  | halted evaluation | stuck function => rfl
  | paused last =>
    simp only [Outcome.precede, precedeAnswer]
    rw [precede, Console.outputText_precede]

theorem evaluate_precede (earlier : List Char) (state : State) (fuel : Nat) :
    (state.precede earlier).evaluate fuel = (state.evaluate fuel).map (precedeAnswer earlier) := by
  rw [evaluate, evaluate, run_precede]
  cases state.run fuel <;> rfl

end State

/-! ### Input that is not read -/

variable {u r output : List Char} {reads n : Nat} {state state' : State}

theorem current_after_append (hreads : reads ≤ u.length) :
    (Console.after (u ++ r) reads output).current = (Console.after u reads output).current := by
  cases reads with
  | zero => rfl
  | succ earlier => exact List.getElem?_append_left hreads

/-- **Input that is not read can be exchanged.** As long as no step reads beyond `u`, the run is
the same whatever comes after `u`. -/
theorem State.Reaches.exchange_rest (h : state.Reaches n state')
    (start : state.console = .after (u ++ r) reads output)
    (hreads : reads + readCount (state.jobs n) ≤ u.length) (r' : List Char) :
    State.Reaches ⟨state.job, .after (u ++ r') reads output, state.fresh⟩ n
      ⟨state'.job, .after (u ++ r') (reads + readCount (state.jobs n))
        (output ++ allWrites (state.jobs n)), state'.fresh⟩ := by
  induction n generalizing state reads output with
  | zero =>
    obtain rfl := reaches_zero.mp h
    simp [jobs]
  | succ n ih =>
    obtain ⟨middle, hstep, hrest⟩ := reaches_succ.mp h
    have hjobs : state.jobs (n + 1) = [state.job] ++ middle.jobs n := jobs_succ_of_step hstep n
    rw [hjobs, readCount_append, ← Nat.add_assoc] at hreads
    have hmiddle : middle.console = .after (u ++ r) (reads + readCount [state.job])
        (output ++ allWrites [state.job]) := by
      rw [console_of_step hstep, start, Job.effect_after]
    rw [hjobs, readCount_append, allWrites_append, ← Nat.add_assoc, ← List.append_assoc]
    refine .head ?_ (ih hrest hmiddle hreads)
    -- Neither before the step nor after it has anything beyond `u` been read.
    rw [step_withConsole, hstep, Move.withConsole, Job.effect_after]
    · rw [start, current_after_append (by omega), current_after_append (by omega)]
    · rw [start, Job.effect_after, Job.effect_after, current_after_append (by omega),
        current_after_append (by omega)]

/-- Where exactly `u` has been read, everything else is what is left. -/
theorem after_append_length (u r output : List Char) :
    Console.after (u ++ r) u.length output =
      ⟨u.reverse, r, output.reverse, (Console.after u u.length output).current⟩ := by
  have hcurrent : (Console.after (u ++ r) u.length output).current =
      (Console.after u u.length output).current := current_after_append (Nat.le_refl u.length)
  rw [← hcurrent]
  simp [Console.after]

/-- A run that leaves input behind does the same, and takes as many steps, if something else is
there to be left behind. -/
theorem evaluate_exchange_rest {e : Expression} {fuel : Nat} {evaluation : Evaluation}
    (hr : r ≠ []) (h : e.evaluate fuel (u ++ r) = some (.ok evaluation))
    (hunread : evaluation.console.unread = r) (r' : List Char) :
    e.evaluate fuel (u ++ r') =
      some (.ok { evaluation with console := { evaluation.console with unread := r' } }) := by
  obtain ⟨n, hn, last, result, exited, hreach, hstep, rfl⟩ :=
    State.run_eq_halted_iff.mp (State.evaluate_eq_ok_iff.mp h)
  have hconsole := State.Reaches.console_eq e (u ++ r) hreach
  -- As something is left, the reads have taken one character each: just those of `u`.
  have hreads : readCount ((State.ofExpression e (u ++ r) 0).jobs n) = u.length := by
    have hdrop : (u ++ r).drop (readCount ((State.ofExpression e (u ++ r) 0).jobs n)) = r :=
      (congrArg Console.unread hconsole).symm.trans hunread
    have hlength := congrArg List.length hdrop
    have hleft : 0 < r.length := List.length_pos_iff.mpr hr
    rw [List.length_drop, List.length_append] at hlength
    omega
  have hexchanged := hreach.exchange_rest (Console.ofInput_eq_after (u ++ r))
    (by rw [hreads]; omega) r'
  rw [hreads, Nat.zero_add, List.nil_append, after_append_length] at hexchanged
  rw [hreads, after_append_length] at hconsole
  have hend := hexchanged.run_eq_halted (State.step_eq_halt_of_job hstep rfl) hn
  refine State.evaluate_eq_ok_iff.mpr (hend.trans ?_)
  rw [hconsole]

/-- **What a program has not seen changes nothing.**

* If a program ends and leaves `r` unread, and `r` is not empty, then in place of `r` there may be
  any other input, or none. The program has the same result, output and current character, takes
  the same number of steps, and exits or not as before; and the other input is what is left.
* If something has been written before the program starts, then it stands in front of all output,
  also where the program does not end or is stopped, and nothing else changes. -/
theorem unseen_changes_nothing (e : Expression) :
    (∀ fuel u r r' evaluation, r ≠ [] → e.evaluate fuel (u ++ r) = some (.ok evaluation) →
      evaluation.console.unread = r →
      e.evaluate fuel (u ++ r') =
        some (.ok { evaluation with console := { evaluation.console with unread := r' } })) ∧
    ∀ input earlier,
      let start := State.ofExpression e input 0
      (start.precede earlier).console.output = earlier ∧
      (∀ n, (start.precede earlier).run n = (start.run n).precede earlier) ∧
      (∀ fuel, (start.precede earlier).evaluate fuel =
        (start.evaluate fuel).map (precedeAnswer earlier)) ∧
      ∀ limit, (start.precede earlier).evaluateWithin limit =
        precedeAnswer earlier (start.evaluateWithin limit) := by
  refine ⟨fun fuel u r r' evaluation hr h hunread => evaluate_exchange_rest hr h hunread r',
    fun input earlier => ⟨?_, ?_, ?_, ?_⟩⟩
  · exact Console.output_precede.trans (List.append_nil earlier)
  · exact State.run_precede earlier _
  · exact State.evaluate_precede earlier _
  · exact State.evaluateWithin_precede earlier _

/-- The program ` ``|`@ii ` reads one character and prints it. On the input `ab` it leaves `b`
unread, and so it does the same where `a` is the whole input. -/
theorem rest_is_not_seen :
    let program : Expression := .application (.application (.primitive .reprint)
      (.application (.primitive .read) (.primitive .i))) (.primitive .i)
    ∃ evaluation, program.evaluate 40 ['a', 'b'] = some (.ok evaluation) ∧
      evaluation.console = ⟨['a'], ['b'], ['a'], some 'a'⟩ ∧
      program.evaluate 40 ['a'] =
        some (.ok { evaluation with console := { evaluation.console with unread := [] } }) := by
  intro program
  refine ⟨_, rfl, rfl, ?_⟩
  exact (unseen_changes_nothing program).1 40 ['a'] ['b'] [] _ (by decide) rfl rfl

end Machine

end Unlambda
