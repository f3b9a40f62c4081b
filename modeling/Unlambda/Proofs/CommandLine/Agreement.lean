import Unlambda.CommandLine.Execution
import Unlambda.Playground
import Unlambda.Proofs.Machine.Limit

/-!
# The front ends agree

A text can be run in the playground and on the command line, from a file or from the arguments,
with or without a step limit. Each front end puts together by itself what is read, what is run
and what is shown of it. What they show is nevertheless what a run of the text without a step
limit determines: the same error if it is no program, the same output if the run keeps to the
limit, and a beginning of that output if it does not.

## Main definitions

* `Unlambda.CommandLine.Surroundings.Gives`: where the input of a program comes from
* `Unlambda.CommandLine.Command.Runs`: the commands that run a text
* `Unlambda.CommandLine.causedBy`: what is told of the cause of an error
* `Unlambda.CommandLine.shown`: what is shown of a run, with or without its result
* `Unlambda.CommandLine.Options.Keeps`: a run that the options do not cut off
* `Unlambda.CommandLine.Shows`: the report of a command that runs a program
* `Unlambda.Playground.Displays`: the text that the playground shows of a program

## Main results

* `Unlambda.CommandLine.Command.Runs.execute_eq`: both commands run a text in the same way
* `Unlambda.CommandLine.exists_shows`: a run as a command reports it
* `Unlambda.Playground.displays_answer`: a run as the playground displays it
* `Unlambda.CommandLine.front_ends_agree`: all front ends, for any text
-/

namespace Unlambda

open Source Machine

namespace CommandLine

/-! ### Texts in the surroundings -/

theorem decode_toUTF8 (text : String) : decode text.toUTF8 = .ok text := by
  have hvalid : text.toUTF8.IsValidUTF8 := text.isValidUTF8
  have hdecoded : String.fromUTF8? text.toUTF8 = some text := by
    rw [String.fromUTF8?, dif_pos hvalid]
    rfl
  rw [decode, hdecoded]

namespace Surroundings

variable {surroundings : Surroundings} {file text input : String} {options : Options}

/-- The file holds the text. -/
def Holds (surroundings : Surroundings) (file text : String) : Prop :=
  surroundings.file file = .ok text.toUTF8

theorem Holds.readFile_eq (h : surroundings.Holds file text) :
    surroundings.readFile file = .ok text := by
  rw [readFile, h]
  exact decode_toUTF8 text

/-- A program that chooses its input in this way is given the text. -/
inductive Gives (surroundings : Surroundings) : Option InputSource → String → Prop
  | nothing : Gives surroundings none ""
  | argument (input : String) : Gives surroundings (some (.text input)) input
  | standardInput {input : String} (bytes : surroundings.standardInput = input.toUTF8) :
      Gives surroundings (some .standardInput) input

theorem Gives.chosenInput_eq (h : surroundings.Gives options.input input) :
    chosenInput surroundings options = .ok input := by
  unfold chosenInput
  -- The cases of `h` are told apart by the choice, which has to be a variable for that.
  generalize options.input = choice at h
  cases h with
  | nothing | argument => rfl
  | standardInput bytes => exact (congrArg decode bytes).trans (decode_toUTF8 input)

end Surroundings

/-- The commands that run a text: it stands in the arguments, or in a file. -/
inductive Command.Runs (surroundings : Surroundings) (source : String) (options : Options) :
    Command → Prop
  | argument : Runs surroundings source options (.eval source options)
  | file {file : String} (holds : surroundings.Holds file source) :
      Runs surroundings source options (.run file options)

variable {surroundings : Surroundings} {source input file : String} {options : Options}
  {command : Command} {fuel fuel' : Nat} {e : Expression} {error : SyntaxError}
  {evaluation : Evaluation}

theorem withFile_eq (h : surroundings.Holds file source) (use : String → Option Report) :
    withFile surroundings file use = use source := by
  rw [withFile, h.readFile_eq]

/-- Both commands run a text in the same way. -/
theorem Command.Runs.execute_eq (h : command.Runs surroundings source options) (fuel : Nat) :
    command.execute fuel surroundings = runProgram fuel surroundings options source := by
  cases h with
  | argument => rfl
  | file holds => exact withFile_eq holds _

/-! ### Texts that are no programs -/

/-- What is told of the cause behind an error. -/
def causedBy (cause : String) : String := "\n\nCaused by:\n    " ++ cause ++ "\n"

theorem failure_of_cause (error cause : String) :
    Report.failure "" error (some cause) = ⟨1, "", "Error: " ++ error ++ causedBy cause⟩ :=
  congrArg (Report.mk 1 "") String.append_assoc

theorem failure_without_cause (stdout error : String) :
    Report.failure stdout error none = ⟨1, stdout, "Error: " ++ error ++ "\n"⟩ := by
  simp only [Report.failure, String.append_empty]

theorem runProgram_of_error (h : Expression.parse source.toList = .error error) (fuel : Nat) :
    runProgram fuel surroundings options source =
      some ⟨1, "", "Error: failed to parse program" ++ causedBy error.message⟩ := by
  simp [runProgram, h, failure_of_cause]

theorem checkProgram_of_error (h : Expression.parse source.toList = .error error) :
    checkProgram file source =
      ⟨1, "", "Error: " ++ (file ++ " does not parse") ++ causedBy error.message⟩ := by
  rw [checkProgram, h]
  exact failure_of_cause _ _

/-! ### What is shown of a run that comes to an end -/

/-- What is shown of a result behind an output: a line of its own. -/
def resultLine (output : List Char) (result : String) : String :=
  (if output = [] ∨ output.getLast? = some '\n' then "" else "\n") ++ "=> " ++ result ++ "\n"

/-- What is shown of a run that has ended: all that it has written and, if asked for, a line with
its result. -/
def shown (showResult : Bool) (evaluation : Evaluation) : String :=
  let output := evaluation.console.output
  String.ofList output ++ if showResult then resultLine output evaluation.result.text else ""

theorem lineBreak_eq (console : Console) :
    lineBreak console =
      if console.output = [] ∨ console.output.getLast? = some '\n' then "" else "\n" := by
  unfold lineBreak Console.output
  split
  · next h => simp [h]
  · next h => simp [h]
  · next x rest hx h => simpa [h] using hx

theorem printed_eq (showResult : Bool) (evaluation : Evaluation) :
    printed showResult evaluation = shown showResult evaluation := by
  have houtput : evaluation.output = String.ofList evaluation.console.output := rfl
  cases showResult with
  | false => simp [printed, shown, houtput]
  | true => simp [printed, shown, houtput, resultLine, lineBreak_eq, String.append_assoc]

/-- The run keeps to the limit that the options set, if they set one. -/
def Options.Keeps (options : Options) (evaluation : Evaluation) : Prop :=
  ∀ limit, options.maxSteps = some limit → evaluation.steps ≤ limit

/-- What a command that is given these options reports of a run. -/
inductive Shows (options : Options) (evaluation : Evaluation) : Report → Prop
  | whole (keeps : options.Keeps evaluation) :
      Shows options evaluation ⟨0, shown options.showResult evaluation, ""⟩
  | cutOff {limit : Nat} {output : String} (limited : options.maxSteps = some limit)
      (beyond : limit < evaluation.steps) (begins : output.toList <+: evaluation.console.output) :
      Shows options evaluation
        ⟨1, output, "Error: program did not finish within " ++ toString limit ++ " steps\n"⟩

/-- The exit code tells whether the run was cut off. -/
theorem Shows.code_eq_zero_iff {report : Report} (h : Shows options evaluation report) :
    report.code = 0 ↔ options.Keeps evaluation := by
  cases h with
  | whole keeps => exact iff_of_true rfl keeps
  | cutOff limited beyond _ =>
    exact iff_of_false (by decide : (1 : UInt8) ≠ 0)
      fun keeps => Nat.not_le_of_lt beyond (keeps _ limited)

theorem shows_reportRun {limit : Nat}
    (hrun : (State.ofExpression e input.toList 0).run fuel = .halted evaluation)
    (hlimit : options.maxSteps = some limit) :
    Shows options evaluation
      (reportRun options.showResult (e.evaluateWithin limit input.toList)) := by
  rw [Expression.evaluateWithin]
  rcases State.evaluateWithin_cases hrun limit with ⟨hle, hanswer⟩ | ⟨hlt, output, hbegins, hanswer⟩
  · rw [hanswer, reportRun, printed_eq]
    refine .whole fun limit' hlimit' => ?_
    obtain rfl : limit = limit' := Option.some.inj (hlimit.symm.trans hlimit')
    exact hle
  · rw [hanswer, reportRun, failure_without_cause, String.append_assoc, String.append_assoc]
    exact .cutOff hlimit hlt hbegins

theorem runProgram_of_ok (hparse : Expression.parse source.toList = .ok e)
    (hinput : chosenInput surroundings options = .ok input) (fuel : Nat) :
    runProgram fuel surroundings options source =
      (evaluateFor fuel options.maxSteps e input.toList).map
        (reportRun options.showResult) := by
  simp only [runProgram, hparse, hinput]

/-- **A run as a command reports it,** however much fuel there is beyond what it takes. -/
theorem exists_shows (hrun : (State.ofExpression e input.toList 0).run fuel = .halted evaluation)
    (options : Options) :
    ∃ report, Shows options evaluation report ∧ ∀ fuel',
      (evaluateFor fuel' options.maxSteps e input.toList).map (reportRun options.showResult) =
        if options.maxSteps = none ∧ fuel' < evaluation.steps then none else some report := by
  cases hlimit : options.maxSteps with
  -- Under a limit the fuel does not matter.
  | some limit => exact ⟨_, shows_reportRun hrun hlimit, fun fuel' => by simp [evaluateFor]⟩
  | none =>
    refine ⟨reportRun options.showResult (.ok evaluation), ?_, fun fuel' => ?_⟩
    · rw [reportRun, printed_eq]
      exact .whole fun limit hsome => absurd (hlimit.symm.trans hsome) (by simp)
    · rw [evaluateFor, Expression.evaluate, State.evaluate_of_halted hrun]
      by_cases hlt : fuel' < evaluation.steps <;> simp [hlt]

end CommandLine

/-! ### The playground -/

namespace Playground

/-- What the playground shows of a run. -/
inductive Displays (evaluation : Evaluation) : String → Prop
  | whole (keeps : evaluation.steps ≤ 50000000) :
      Displays evaluation (String.ofList evaluation.console.output)
  | cutOff {output : String} (beyond : 50000000 < evaluation.steps)
      (begins : output.toList <+: evaluation.console.output) :
      Displays evaluation (output ++ "\n[stopped after 50000000 steps]")

variable {source input : List Char} {e : Expression} {error : SyntaxError} {fuel : Nat}
  {evaluation : Evaluation}

theorem answer_of_error (h : Expression.parse source = .error error) :
    answer source input = "parse error: " ++ error.message := by
  rw [answer, runWithin, h, display]

theorem answer_of_ok (h : Expression.parse source = .ok e) :
    answer source input = display ((e.evaluateWithin stepLimit input).mapError .unfinished) := by
  rw [answer, runWithin, h]

/-- **A run as the playground displays it.** -/
theorem displays_answer (hparse : Expression.parse source = .ok e)
    (hrun : (State.ofExpression e input 0).run fuel = .halted evaluation) :
    Displays evaluation (answer source input) := by
  rw [answer_of_ok hparse, Expression.evaluateWithin]
  rcases State.evaluateWithin_cases hrun stepLimit with
    ⟨hle, hanswer⟩ | ⟨hlt, output, hbegins, hanswer⟩
  · rw [hanswer]
    exact .whole hle
  · have hnotice : "\n[stopped after " ++ (toString stepLimit ++ " steps]") =
        "\n[stopped after 50000000 steps]" := rfl
    rw [hanswer]
    change Displays evaluation (output ++ "\n[stopped after " ++ toString stepLimit ++ " steps]")
    rw [String.append_assoc, String.append_assoc, hnotice]
    exact .cutOff hlt hbegins

end Playground

/-! ### Agreement -/

/-- **The front ends agree.** Let a text be given to the playground, in a file, or in the
arguments of a command that runs it.

* If the text is no program, the playground and every command tell the same reason. Nothing is
  printed on standard output.
* If it is one, its size can be asked for.
* If it comes to an end on an input, a command that is given the input in either way succeeds
  unless it has been told to stop earlier. It prints the output and, if it has been told so,
  the result on a line of its own. Otherwise it fails, names the limit, and has printed a
  beginning of the output. Without a limit, it answers as soon as the fuel suffices. The
  playground shows the output, or a beginning of it and its own limit. -/
theorem CommandLine.front_ends_agree (source input : String) (surroundings : Surroundings) :
    (∀ error, Expression.parse source.toList = .error error →
      Playground.answer source.toList input.toList = "parse error: " ++ error.message ∧
      (∀ options command fuel, Command.Runs surroundings source options command →
        command.execute fuel surroundings =
          some ⟨1, "", "Error: failed to parse program" ++ causedBy error.message⟩) ∧
      ∀ file fuel, surroundings.Holds file source →
        (Command.check file).execute fuel surroundings =
          some ⟨1, "", "Error: " ++ (file ++ " does not parse") ++ causedBy error.message⟩) ∧
    (∀ e, Expression.parse source.toList = .ok e →
      ∀ file fuel, surroundings.Holds file source →
        (Command.check file).execute fuel surroundings =
          some ⟨0, file ++ ": ok, " ++ toString e.size ++ " primitives\n", ""⟩) ∧
    ∀ fuel evaluation, run fuel source.toList input.toList = some (.ok evaluation) →
      (∀ options command, surroundings.Gives options.input input →
        Command.Runs surroundings source options command →
        ∃ report, Shows options evaluation report ∧
          (report.code = 0 ↔ options.Keeps evaluation) ∧
          ∀ fuel', command.execute fuel' surroundings =
            if options.maxSteps = none ∧ fuel' < evaluation.steps then none else some report) ∧
      Playground.Displays evaluation (Playground.answer source.toList input.toList) := by
  refine ⟨fun error hparse => ⟨Playground.answer_of_error hparse, ?_, ?_⟩, ?_, ?_⟩
  · intro options command fuel hruns
    rw [hruns.execute_eq, runProgram_of_error hparse]
  · intro file fuel hholds
    rw [Command.execute, withFile_eq hholds, checkProgram_of_error hparse]
  · intro e hparse file fuel hholds
    rw [Command.execute, withFile_eq hholds, checkProgram, hparse]
    rfl
  · intro fuel evaluation hrun
    obtain ⟨e, hparse, hevaluate⟩ := run_eq_ok_iff.mp hrun
    have hhalted := State.evaluate_eq_ok_iff.mp hevaluate
    refine ⟨fun options command hgives hruns => ?_, Playground.displays_answer hparse hhalted⟩
    obtain ⟨report, hshows, hreport⟩ := exists_shows hhalted options
    refine ⟨report, hshows, hshows.code_eq_zero_iff, fun fuel' => ?_⟩
    rw [hruns.execute_eq, runProgram_of_ok hparse hgives.chosenInput_eq, hreport]

end Unlambda
