/-!
# The console of a running program

All that a program can see or change outside of its own reduction: the input still to be
read, the output written so far, and the current character, which the last read has left
behind.

## Main definitions

* `Unlambda.Console`: input, output and current character
* `Unlambda.Console.ofInput`: the console before anything happens
* `Unlambda.Console.read`, `Unlambda.Console.write`: the two things that happen

## Main results

* `Unlambda.Console.input_read`, `Unlambda.Console.input_write`: the input as a whole never
  changes
* `Unlambda.Console.read_of_unread`, `Unlambda.Console.read_of_end`: what a read does
* `Unlambda.Console.output_write`, `Unlambda.Console.output_writeAll`: what a write does
-/

namespace Unlambda

/-- Input, output and current character of a running program. -/
structure Console where
  /-- The input that has been read, the latest character first. -/
  consumed : List Char
  /-- The input that has not been read. -/
  unread : List Char
  /-- The output, the latest character first. -/
  written : List Char
  /-- The character most recently read, unless the last read found the end of the input. -/
  current : Option Char
  deriving BEq, Inhabited

namespace Console

/-- The console of a program that has not read or written anything. -/
def ofInput (input : List Char) : Console := ⟨[], input, [], none⟩

/-- Reads the next character into the current one. At the end of the input the current
character is cleared instead. -/
def read (console : Console) : Console :=
  match console.unread with
  | x :: unread =>
    { console with consumed := x :: console.consumed, unread := unread, current := some x }
  | [] => { console with current := none }

/-- Writes one character. -/
def write (console : Console) (x : Char) : Console :=
  { console with written := x :: console.written }

/-- Writes the characters of a text in order. -/
def writeAll (console : Console) (text : List Char) : Console := text.foldl write console

/-- The whole input, whether read or not. -/
def input (console : Console) : List Char := console.consumed.reverse ++ console.unread

/-- The number of characters read. -/
def cursor (console : Console) : Nat := console.consumed.length

/-- The output in the order in which it was written. -/
def output (console : Console) : List Char := console.written.reverse

/-- The output as a string. -/
def outputText (console : Console) : String := String.ofList console.output

@[simp] theorem toList_outputText (console : Console) :
    console.outputText.toList = console.output := String.toList_ofList

theorem read_of_unread {console : Console} {x : Char} {unread : List Char}
    (h : console.unread = x :: unread) :
    console.read = ⟨x :: console.consumed, unread, console.written, some x⟩ := by
  simp [read, h]

theorem read_of_end {console : Console} (h : console.unread = []) :
    console.read = { console with current := none } := by
  simp [read, h]

@[simp] theorem output_ofInput (input : List Char) : (ofInput input).output = [] := rfl

@[simp] theorem input_read (console : Console) : console.read.input = console.input := by
  unfold read
  split
  · next h => simp [input, h]
  · rfl

@[simp] theorem output_read (console : Console) : console.read.output = console.output := by
  unfold read
  split <;> rfl

@[simp] theorem input_write (console : Console) (x : Char) :
    (console.write x).input = console.input := rfl

@[simp] theorem output_write (console : Console) (x : Char) :
    (console.write x).output = console.output ++ [x] := by
  simp [write, output]

@[simp] theorem writeAll_nil (console : Console) : console.writeAll [] = console := rfl

theorem writeAll_append (console : Console) (a b : List Char) :
    console.writeAll (a ++ b) = (console.writeAll a).writeAll b := List.foldl_append

@[simp] theorem writeAll_concat (console : Console) (text : List Char) (x : Char) :
    console.writeAll (text ++ [x]) = (console.writeAll text).write x := writeAll_append ..

@[simp] theorem output_writeAll (console : Console) (text : List Char) :
    (console.writeAll text).output = console.output ++ text := by
  induction text generalizing console with
  | nil => rw [writeAll_nil, List.append_nil]
  | cons x text ih =>
    change ((console.write x).writeAll text).output = _
    rw [ih, output_write, List.append_assoc, List.singleton_append]

@[simp] theorem unread_writeAll (console : Console) (text : List Char) :
    (console.writeAll text).unread = console.unread := by
  induction text generalizing console with
  | nil => rfl
  | cons x text ih => exact ih (console.write x)

end Console

end Unlambda
