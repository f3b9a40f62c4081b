/-!
# Command-line arguments

Without arguments the program starts a session. Otherwise the first argument is a subcommand,
and behind it come one positional argument and options, in any order, each option at most
once. Behind `--` everything is positional. Arguments that do not fit this grammar are refused
as a whole.

## Main definitions

* `Unlambda.CommandLine.Command`: what the program is asked to do
* `Unlambda.CommandLine.Command.ofArguments`: the command that arguments ask for

## Main results

* `Unlambda.CommandLine.readLimit_le`: a step limit fits into 64 bits
-/

namespace Unlambda.CommandLine

/-- Where a program takes its input from, unless it has none. -/
inductive InputSource
  | text (input : String)
  | standardInput
  deriving DecidableEq

/-- How a program is run and what is printed of it. -/
structure Options where
  input : Option InputSource := none
  maxSteps : Option Nat := none
  showResult : Bool := false
  deriving DecidableEq, Inhabited

/-- What the program is asked to do. -/
inductive Command
  /-- Answer one line of standard input after the other. -/
  | session
  /-- Run the program in a file. -/
  | run (file : String) (options : Options)
  /-- Run a program that stands in the arguments. -/
  | eval (code : String) (options : Options)
  /-- Tell whether a file holds a program. -/
  | check (file : String)
  deriving DecidableEq

/-- The largest step limit that can be asked for. -/
def maxLimit : Nat := UInt64.size - 1

/-- The value of a decimal digit. -/
def digit? (x : Char) : Option Nat :=
  if '0' ≤ x ∧ x ≤ '9' then some (x.toNat - '0'.toNat) else none

/-- A number in decimal digits whose first digits have the value `read`. -/
def readDigits (read : Nat) : List Char → Option Nat
  | [] => some read
  | x :: text => (digit? x).bind fun digit => readDigits (10 * read + digit) text

/-- What is left of a number once one `+` in front is dropped. -/
def dropPlus : List Char → List Char
  | '+' :: digits => digits
  | digits => digits

/-- A step limit: decimal digits, at least one, with at most one `+` in front. -/
def readLimit (text : String) : Option Nat :=
  let digits := dropPlus text.toList
  if digits.isEmpty then none else (readDigits 0 digits).filter (· ≤ maxLimit)

theorem readLimit_le {text : String} {limit : Nat} (h : readLimit text = some limit) :
    limit ≤ maxLimit := by
  simp only [readLimit] at h
  split at h
  · cases h
  · simpa using (Option.filter_eq_some_iff.1 h).2

namespace Options

/-- Chooses where input comes from, which can be done once. -/
def chooseInput (options : Options) (source : InputSource) : Option Options :=
  match options.input with
  | none => some { options with input := some source }
  | some _ => none

/-- Chooses a step limit, which can be done once. -/
def chooseMaxSteps (options : Options) (value : String) : Option Options :=
  match options.maxSteps with
  | none => (readLimit value).map fun limit => { options with maxSteps := some limit }
  | some _ => none

/-- Chooses to show the result, which can be done once. -/
def chooseShowResult (options : Options) : Option Options :=
  if options.showResult then none else some { options with showResult := true }

/-- An option that takes a value, by its name. -/
def valued? (name : String) : Option (Options → String → Option Options) :=
  match name with
  | "--input" => some fun options value => options.chooseInput (.text value)
  | "--max-steps" => some chooseMaxSteps
  | _ => none

/-- An option that takes no value, by its name. -/
def flag? (name : String) : Option (Options → Option Options) :=
  match name with
  | "--stdin" => some fun options => options.chooseInput .standardInput
  | "--show-result" => some chooseShowResult
  | _ => none

end Options

/-- Whether an argument would be taken for an option. A lone `-` is not. -/
def isOptionLike (argument : String) : Bool :=
  match argument.toList with
  | '-' :: _ :: _ => true
  | _ => false

/-- The name of an option and the value attached to it behind the first `=`. -/
def splitValue (argument : String) : String × Option String :=
  match argument.toList.span (· != '=') with
  | (_, []) => (argument, none)
  | (name, _ :: value) => (String.ofList name, some (String.ofList value))

/-- What has been taken from the arguments behind a subcommand. -/
structure Taken where
  positional : Option String := none
  options : Options := {}

namespace Taken

/-- Takes the positional argument, of which there can be one. -/
def takePositional (taken : Taken) (argument : String) : Option Taken :=
  match taken.positional with
  | none => some { taken with positional := some argument }
  | some _ => none

/-- Takes positional arguments only. -/
def takePositionals (taken : Taken) : List String → Option Taken
  | [] => some taken
  | argument :: rest =>
    (taken.takePositional argument).bind fun taken => taken.takePositionals rest

/-- Takes the arguments behind a subcommand. The value of an option may be attached to its
name or follow as an argument of its own, which then must not look like an option. -/
def take (taken : Taken) : List String → Option Taken
  | [] => some taken
  | argument :: rest =>
    if argument = "--" then taken.takePositionals rest
    else if isOptionLike argument then
      match splitValue argument with
      | (name, some value) =>
        (Options.valued? name).bind fun choose =>
          (choose taken.options value).bind fun options => { taken with options }.take rest
      | (name, none) =>
        match Options.flag? name with
        | some choose => (choose taken.options).bind fun options => { taken with options }.take rest
        | none =>
          (Options.valued? name).bind fun choose =>
            match rest with
            | [] => none
            | value :: rest =>
              if isOptionLike value then none
              else (choose taken.options value).bind fun options => { taken with options }.take rest
    else (taken.takePositional argument).bind fun taken => taken.take rest

end Taken

namespace Command

/-- The command that a subcommand makes of its arguments. A file has a name, and `check`
has no options. -/
def ofTaken (subcommand : String) (positional : String) (options : Options) : Option Command :=
  match subcommand with
  | "run" => if positional.isEmpty then none else some (.run positional options)
  | "eval" => some (.eval positional options)
  | "check" =>
    if positional.isEmpty ∨ options ≠ {} then none else some (.check positional)
  | _ => none

/-- The command that the arguments ask for, or `none` if they are refused. -/
def ofArguments : List String → Option Command
  | [] => some .session
  | ["--"] => some .session
  | subcommand :: rest =>
    (Taken.take {} rest).bind fun taken =>
      taken.positional.bind fun positional => ofTaken subcommand positional taken.options

end Command

end Unlambda.CommandLine
