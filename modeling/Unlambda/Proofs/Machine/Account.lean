import Unlambda.Proofs.Machine.Effect

/-!
# The account of a run

Control jumps back and forth through captured continuations and promises, but the console only
moves forward. How it stands after some steps is told by the jobs that these steps have worked
on, taken in their order: by the number of reads among them, and by what they have written.

## Main definitions

* `Unlambda.Console.after`: the console after so many reads and a given output
* `Unlambda.Machine.Job.reads`, `Unlambda.Machine.Job.writes`: what a job reads and writes
* `Unlambda.Machine.State.jobs`: the jobs that the first steps of a run work on
* `Unlambda.Machine.Accounts`: a console is accounted for by jobs
* `Unlambda.Machine.Job.Transfers`: the jobs that only move control

## Main results

* `Unlambda.Machine.Job.effect_after`: one job in the account
* `Unlambda.Machine.State.Reaches.console_eq_after`: a whole run in the account
* `Unlambda.Machine.console_is_accounted_for`: the same for programs, field by field
-/

namespace Unlambda

namespace Console

variable {input output : List Char} {reads : Nat} {x : Char}

/-- The console of a program that has been given `input`, has read `reads` times since then, and
has written `output`. Each read takes one character as long as there is one, and the last read
alone decides about the current character. -/
def after (input : List Char) (reads : Nat) (output : List Char) : Console where
  consumed := (input.take reads).reverse
  unread := input.drop reads
  written := output.reverse
  current :=
    match reads with
    | 0 => none
    | earlier + 1 => input[earlier]?

theorem ofInput_eq_after (input : List Char) : ofInput input = after input 0 [] := rfl

theorem read_after : (after input reads output).read = after input (reads + 1) output := by
  have htake : input.take (reads + 1) = input.take reads ++ input[reads]?.toList :=
    List.take_add_one
  cases hnext : input[reads]? with
  | none =>
    have hend : input.length ≤ reads := List.getElem?_eq_none_iff.mp hnext
    have hdrop : input.drop reads = [] := List.drop_eq_nil_of_le hend
    have hdrop' : input.drop (reads + 1) = [] := List.drop_eq_nil_of_le (Nat.le_succ_of_le hend)
    rw [read_of_end hdrop]
    simp [after, htake, hnext, hdrop, hdrop']
  | some x =>
    obtain ⟨hlt, hx⟩ := List.getElem?_eq_some_iff.mp hnext
    have hdrop : input.drop reads = x :: input.drop (reads + 1) := by
      rw [List.drop_eq_getElem_cons hlt, hx]
    rw [read_of_unread hdrop]
    simp [after, htake, hnext]

/-- A read behind the end clears the current character and takes nothing. -/
example : after ['x'] 2 [] = ⟨['x'], [], [], none⟩ := rfl

theorem write_after : (after input reads output).write x = after input reads (output ++ [x]) := by
  simp [after, write]

theorem output_after : (after input reads output).output = output := by
  simp [after, Console.output]

theorem input_after : (after input reads output).input = input := by
  simp [after, Console.input]

theorem cursor_after : (after input reads output).cursor = min reads input.length := by
  simp [after, cursor]

theorem consumed_subset_read (console : Console) : console.consumed ⊆ console.read.consumed := by
  unfold read
  split
  · exact List.subset_cons_self _ _
  · exact List.Subset.refl _

end Console

namespace Machine

/-! ### Jobs in the account -/

/-- Whether a job is to apply `@`. -/
def Job.reads : Job → Bool
  | .apply (.primitive .read) _ _ => true
  | _ => false

/-- What the step that works on a job writes: a newline for `r`, and its character for `.x`. -/
def Job.writes : Job → List Char
  | .apply (.primitive .r) _ _ => ['\n']
  | .apply (.primitive (.print y)) _ _ => [y]
  | _ => []

/-- Every job reads, or writes one character, or has no effect. -/
theorem Job.effect_cases (job : Job) :
    (job.reads = true ∧ job.writes = [] ∧ job.effect = Console.read) ∨
    (∃ x, job.reads = false ∧ job.writes = [x] ∧ job.effect = fun console => console.write x) ∨
    (job.reads = false ∧ job.writes = [] ∧ job.effect = fun console => console) := by
  cases job with
  | eval t k | resume k v => exact .inr (.inr ⟨rfl, rfl, rfl⟩)
  | apply f x k =>
    cases f with
    | primitive p =>
      cases p with
      | read => exact .inl ⟨rfl, rfl, rfl⟩
      | r => exact .inr (.inl ⟨'\n', rfl, rfl, rfl⟩)
      | print y => exact .inr (.inl ⟨y, rfl, rfl, rfl⟩)
      | s | k | i | v | c | d | e | reprint | compare y => exact .inr (.inr ⟨rfl, rfl, rfl⟩)
    | k1 y | s1 y | s2 y z | delayed promise body | continuation saved =>
      exact .inr (.inr ⟨rfl, rfl, rfl⟩)

/-- What has been read is never lost. -/
theorem Job.consumed_subset_effect (job : Job) (console : Console) :
    console.consumed ⊆ (job.effect console).consumed := by
  rcases job.effect_cases with ⟨-, -, heffect⟩ | ⟨x, -, -, heffect⟩ | ⟨-, -, heffect⟩
  · rw [heffect]
    exact console.consumed_subset_read
  · rw [heffect]
    exact List.Subset.refl _
  · rw [heffect]
    exact List.Subset.refl _

/-- The number of reads among some jobs. -/
def readCount (jobs : List Job) : Nat := jobs.countP Job.reads

/-- What some jobs write, one after the other. -/
def allWrites (jobs : List Job) : List Char := jobs.flatMap Job.writes

@[simp] theorem readCount_nil : readCount [] = 0 := rfl

@[simp] theorem allWrites_nil : allWrites [] = [] := rfl

theorem readCount_append (jobs jobs' : List Job) :
    readCount (jobs ++ jobs') = readCount jobs + readCount jobs' :=
  List.countP_append

theorem allWrites_append (jobs jobs' : List Job) :
    allWrites (jobs ++ jobs') = allWrites jobs ++ allWrites jobs' :=
  List.flatMap_append

/-- **One job in the account.** -/
theorem Job.effect_after (job : Job) (input : List Char) (reads : Nat) (output : List Char) :
    job.effect (.after input reads output) =
      .after input (reads + readCount [job]) (output ++ allWrites [job]) := by
  rcases job.effect_cases with ⟨hreads, hwrites, heffect⟩ | ⟨x, hreads, hwrites, heffect⟩ |
    ⟨hreads, hwrites, heffect⟩
  · simp [heffect, Console.read_after, readCount, allWrites, hreads, hwrites]
  · simp [heffect, Console.write_after, readCount, allWrites, hreads, hwrites]
  · simp [heffect, readCount, allWrites, hreads, hwrites]

/-- The jobs that move control and do nothing else. -/
inductive Job.Transfers : Job → Prop
  /-- The present continuation is captured. -/
  | capture (f : Value) (k : Continuation) : Transfers (.apply (.primitive .c) f k)
  /-- A captured continuation is resumed. -/
  | resume (saved : Continuation) (x : Value) (k : Continuation) :
      Transfers (.apply (.continuation saved) x k)
  /-- An operand is kept in a promise. -/
  | delay (link : Serial) (operand : Term) (k : Continuation) :
      Transfers (.resume (.awaitOperand link operand k) (.primitive .d))
  /-- A promise is forced. -/
  | force (promise : Serial) (body : Term) (x : Value) (k : Continuation) :
      Transfers (.apply (.delayed promise body) x k)

namespace State

variable {state state' last : State} {n : Nat} {input output : List Char} {reads : Nat}

theorem exists_step_of_transfers (h : state.job.Transfers) :
    ∃ state', state.step = .next state' ∧ state'.console = state.console := by
  obtain ⟨job, console, fresh⟩ := state
  cases h with
  | capture f k | resume saved x k | delay link operand k | force promise body x k =>
    exact ⟨_, rfl, rfl⟩

/-! ### Runs in the account -/

/-- The jobs that the first `n` steps work on, or all jobs of the run if it has fewer steps. -/
def jobs : (n : Nat) → State → List Job
  | 0, _ => []
  | n + 1, state =>
    state.job :: match state.step with
      | .next state' => state'.jobs n
      | .halt _ _ => []
      | .stuck _ => []

theorem jobs_one (state : State) : state.jobs 1 = [state.job] := by
  rw [jobs]
  cases state.step <;> rfl

theorem jobs_succ_of_step (hstep : state.step = .next state') (n : Nat) :
    state.jobs (n + 1) = state.job :: state'.jobs n := by
  rw [jobs, hstep]

/-- One step more works on one job more. -/
theorem Reaches.jobs_succ (h : state.Reaches n state') :
    state.jobs (n + 1) = state.jobs n ++ [state'.job] := by
  induction n generalizing state with
  | zero =>
    obtain rfl := reaches_zero.mp h
    exact jobs_one state
  | succ n ih =>
    obtain ⟨middle, hstep, hrest⟩ := reaches_succ.mp h
    rw [jobs_succ_of_step hstep, jobs_succ_of_step hstep, ih hrest, List.cons_append]

theorem Reaches.length_jobs (h : state.Reaches n state') : (state.jobs n).length = n := by
  induction n generalizing state with
  | zero => rfl
  | succ n ih =>
    obtain ⟨middle, hstep, hrest⟩ := reaches_succ.mp h
    rw [jobs_succ_of_step hstep, List.length_cons, ih hrest]

/-- **A run in the account.** -/
theorem Reaches.console_eq_after (h : state.Reaches n state')
    (start : state.console = .after input reads output) :
    state'.console =
      .after input (reads + readCount (state.jobs n)) (output ++ allWrites (state.jobs n)) := by
  induction n generalizing state' with
  | zero =>
    obtain rfl := reaches_zero.mp h
    simpa [jobs] using start
  | succ n ih =>
    obtain ⟨middle, hmiddle, hstep⟩ := reaches_succ_last.mp h
    rw [console_of_step hstep, ih hmiddle, Job.effect_after, hmiddle.jobs_succ, readCount_append,
      allWrites_append, Nat.add_assoc, List.append_assoc]

theorem Reaches.console_eq (e : Expression) (input : List Char)
    (h : (ofExpression e input 0).Reaches n state') :
    state'.console = .after input (readCount ((ofExpression e input 0).jobs n))
      (allWrites ((ofExpression e input 0).jobs n)) := by
  have hafter := h.console_eq_after (Console.ofInput_eq_after input)
  rwa [Nat.zero_add, List.nil_append] at hafter

/-- The step that ends a run has no effect. -/
theorem readCount_job_of_halt {result : Value} {exited : Bool}
    (hstep : state.step = .halt result exited) :
    readCount [state.job] = 0 ∧ allWrites [state.job] = [] := by
  rcases step_eq_halt_iff.mp hstep with ⟨hjob, -⟩ | ⟨k, hjob, -⟩ <;> rw [hjob] <;> exact ⟨rfl, rfl⟩

end State

/-- **A console is accounted for by jobs** that have been worked on since it held nothing but its
input. -/
structure Accounts (input : List Char) (jobs : List Job) (console : Console) : Prop where
  /-- Nothing is lost of the input, and nothing is added. -/
  wholeInput : console.input = input
  /-- Each read has taken one character, as long as there was one. -/
  cursor : console.cursor = min (readCount jobs) input.length
  /-- The cursor lies within the input, and what comes behind it has not been read. -/
  unread : console.cursor ≤ input.length ∧ console.unread = input.drop console.cursor
  /-- Before the first read there is no current character. -/
  unset : readCount jobs = 0 → console.current = none
  /-- After that it is the one that the last read has looked for, if there was one. -/
  current : ∀ earlier, readCount jobs = earlier + 1 → console.current = input[earlier]?
  output : console.output = allWrites jobs

theorem accounts_after (input : List Char) (jobs : List Job) :
    Accounts input jobs (.after input (readCount jobs) (allWrites jobs)) where
  wholeInput := Console.input_after
  cursor := Console.cursor_after
  unread := by
    rw [Console.cursor_after]
    exact ⟨Nat.min_le_right _ _, by simp [Console.after]⟩
  unset h := by rw [h]; rfl
  current earlier h := by rw [h]; rfl
  output := Console.output_after

/-- **The console is accounted for.** After any number of steps of a program, and at its end, the
input as a whole is what it was, the reads among the steps tell how far it has been read and what
the current character is, and the output is what the steps have written, in their order. To
capture a continuation or to resume one, and to keep an operand or to force a promise, changes
nothing of all this. -/
theorem console_is_accounted_for (e : Expression) (input : List Char) :
    let start := State.ofExpression e input 0
    (∀ n state, start.Reaches n state →
      (start.jobs n).length = n ∧ Accounts input (start.jobs n) state.console) ∧
    (∀ fuel evaluation, e.evaluate fuel input = some (.ok evaluation) →
      (start.jobs evaluation.steps).length = evaluation.steps ∧
      Accounts input (start.jobs evaluation.steps) evaluation.console) ∧
    ∀ n state, start.Reaches n state → state.job.Transfers →
      ∃ state', state.step = .next state' ∧ state'.console = state.console := by
  intro start
  refine ⟨fun n state hreach => ⟨hreach.length_jobs, ?_⟩, fun fuel evaluation h => ?_,
    fun n state _ => State.exists_step_of_transfers⟩
  · rw [State.Reaches.console_eq e input hreach]
    exact accounts_after input _
  · obtain ⟨n, -, last, result, exited, hreach, hstep, rfl⟩ :=
      State.run_eq_halted_iff.mp (State.evaluate_eq_ok_iff.mp h)
    obtain ⟨hreads, hwrites⟩ := State.readCount_job_of_halt hstep
    -- The last step is counted, but only the steps before it can have changed anything.
    have hlast : last.console = .after input (readCount (start.jobs (n + 1)))
        (allWrites (start.jobs (n + 1))) := by
      rw [hreach.jobs_succ, readCount_append, allWrites_append, hreads, hwrites, Nat.add_zero,
        List.append_nil]
      exact State.Reaches.console_eq e input hreach
    constructor
    · rw [hreach.jobs_succ, List.length_append, hreach.length_jobs, List.length_singleton]
    · change Accounts input (start.jobs (n + 1)) last.console
      rw [hlast]
      exact accounts_after input _

end Machine

end Unlambda
