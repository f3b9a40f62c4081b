/-!
# Primitive functions

Every Unlambda program is built from the single-character functions below and from
application alone. Two of them carry a character of their own: `.x` prints `x` and `?x` asks
whether the current character is `x`.

## Main definitions

* `Unlambda.Primitive`: the primitive functions
* `Unlambda.Primitive.ofChar?`: the primitive that a single character names
* `Unlambda.Primitive.spelling`: the canonical source text of a primitive
* `Unlambda.IsProgramChar`: the characters that `.x` and `?x` may carry
-/

namespace Unlambda

/-- A primitive function, named by the letter that spells it or by what it does. -/
inductive Primitive
  /-- Distributes a third argument over the first two. -/
  | s
  /-- Keeps its first argument and drops the second. -/
  | k
  /-- Returns its argument. -/
  | i
  /-- Swallows its argument and returns itself. -/
  | v
  /-- Hands the current continuation to its argument. -/
  | c
  /-- Keeps its operand unevaluated. -/
  | d
  /-- Ends the program with its argument as the result. -/
  | e
  /-- Prints a newline and returns its argument; spelled `r`. -/
  | r
  /-- Reads a character into the current character; spelled `@`. -/
  | read
  /-- Hands the current character to its argument as a printing function; spelled `|`. -/
  | reprint
  /-- Prints its character and returns its argument; spelled `.x`. -/
  | print (x : Char)
  /-- Tests the current character against its own; spelled `?x`. -/
  | compare (x : Char)
  deriving DecidableEq, Inhabited

/-- **Program characters** are printable ASCII and the newline. They are the only
characters that `.x` and `?x` may carry in a program. -/
def IsProgramChar (x : Char) : Prop := x = '\n' ∨ (' ' ≤ x ∧ x ≤ '~')

instance : DecidablePred IsProgramChar := fun _ => inferInstanceAs (Decidable (_ ∨ _))

namespace Primitive

/-- The primitive that one character names by itself. Letters may be written in either
ASCII case. -/
def ofChar? (x : Char) : Option Primitive :=
  match x.toLower with
  | 's' => some s
  | 'k' => some k
  | 'i' => some i
  | 'v' => some v
  | 'c' => some c
  | 'd' => some d
  | 'e' => some e
  | 'r' => some r
  | '@' => some read
  | '|' => some reprint
  | _ => none

/-- The canonical source text of a primitive: lower-case letters, and a carried character
right after its `.` or `?`. -/
def spelling : Primitive → List Char
  | s => ['s']
  | k => ['k']
  | i => ['i']
  | v => ['v']
  | c => ['c']
  | d => ['d']
  | e => ['e']
  | r => ['r']
  | read => ['@']
  | reprint => ['|']
  | print x => ['.', x]
  | compare x => ['?', x]

/-- The canonical source text as a string. -/
def text (p : Primitive) : String := String.ofList p.spelling

instance : ToString Primitive := ⟨text⟩

@[simp] theorem toList_text (p : Primitive) : p.text.toList = p.spelling := by simp [text]

end Primitive

end Unlambda
