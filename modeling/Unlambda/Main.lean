import Unlambda.CommandLine.Execution

/-!
# The command line

The outer layer of the program: it reads arguments, files and standard input, and writes what
the commands answer. A session is held line by line, so that each answer is seen before the
next line is typed.
-/

namespace Unlambda.CommandLine

/-- Number of steps after which a run without a step limit would be given up. No machine gets
that far. -/
def ampleFuel : Nat := 1 <<< 62

/-- Whether a system error has a number, which some calls return negated. -/
def hasNumber (code number : UInt32) : Bool := code == number || code == 0 - number

/-- A failure of the system, as commands know it. -/
def ReadError.ofSystem : IO.Error → ReadError
  | .noFileOrDirectory _ _ _ => .notFound
  | .inappropriateType _ code details =>
    if hasNumber code 21 then .isDirectory
    else if hasNumber code 20 then .notDirectory
    else .other details
  | error => .other (toString error)

/-- The contents of a file. -/
def readSystemFile (path : String) : IO (Except ReadError ByteArray) := do
  try
    return .ok (← IO.FS.readBinFile path)
  catch error =>
    return .error (.ofSystem error)

/-- Writes a report and returns its exit code. -/
def deliver (report : Report) : IO UInt32 := do
  let stdout ← IO.getStdout
  stdout.putStr report.stdout
  stdout.flush
  (← IO.getStderr).putStr report.stderr
  return report.code.toUInt32

/-- The next line of standard input with its newline, or nothing at the end. -/
partial def readLine (stdin : IO.FS.Stream) (begun : ByteArray) : IO ByteArray := do
  let bytes ← stdin.read 1
  if bytes.isEmpty then return begun
  else if bytes.toList == [10] then return begun ++ bytes
  else readLine stdin (begun ++ bytes)

/-- Holds a session. -/
partial def converse (stdin stdout : IO.FS.Stream) : IO UInt32 := do
  stdout.putStr Session.prompt
  stdout.flush
  let line ← readLine stdin .empty
  if line.isEmpty then return 0
  else match decode line with
    | .ok text =>
      stdout.putStr (Session.respond text.toList)
      converse stdin stdout
    | .error error => deliver (.failure "" error.message none)

/-- Everything on standard input, if the command asks for it. -/
def readStandardInput (command : Command) : IO ByteArray := do
  match command with
  | .run _ ⟨some .standardInput, _, _⟩ => (← IO.getStdin).readBinToEnd
  | .eval _ ⟨some .standardInput, _, _⟩ => (← IO.getStdin).readBinToEnd
  | _ => return .empty

/-- The contents of the file that a command names. -/
def readNamedFile (command : Command) : IO (Except ReadError ByteArray) := do
  match command with
  | .run file _ => readSystemFile file
  | .check file => readSystemFile file
  | _ => return .ok .empty

/-- What is told to someone whose arguments are refused. -/
def usage : String :=
  "usage: ski [run FILE | eval CODE | check FILE]\n" ++
  "options of run and eval: [--input TEXT | --stdin] [--max-steps N] [--show-result]\n"

end Unlambda.CommandLine

open Unlambda.CommandLine in
/-- Runs the command that the arguments ask for. -/
def main (arguments : List String) : IO UInt32 := do
  match Command.ofArguments arguments with
  | none =>
    (← IO.getStderr).putStr usage
    return 2
  | some .session => converse (← IO.getStdin) (← IO.getStdout)
  | some command =>
    let contents ← readNamedFile command
    let input ← readStandardInput command
    match command.execute ampleFuel ⟨fun _ => contents, input⟩ with
    | some report => deliver report
    | none => return 1
