/-!
# Positions in program text

A position says how many characters come before it, and on which line and column that is.
Offsets count from zero, lines and columns from one.

## Main definitions

* `Unlambda.Source.Position`: an offset with its line and column
* `Unlambda.Source.Position.advance`: the position one character further
* `Unlambda.Source.Position.advanceAll`: the position behind a whole text
-/

namespace Unlambda.Source

/-- A place in program text, in front of some character or at the end. -/
structure Position where
  /-- The number of characters in front. -/
  offset : Nat
  /-- The line, counted from one. -/
  line : Nat
  /-- The column within the line, counted from one. -/
  column : Nat
  deriving DecidableEq, Inhabited

namespace Position

/-- The position in front of any text. -/
def start : Position := ⟨0, 1, 1⟩

/-- The position behind one more character. A newline still belongs to the line it ends. -/
def advance (position : Position) (x : Char) : Position :=
  if x = '\n' then ⟨position.offset + 1, position.line + 1, 1⟩
  else ⟨position.offset + 1, position.line, position.column + 1⟩

/-- The position behind a text that starts at `position`. -/
def advanceAll (position : Position) (text : List Char) : Position := text.foldl advance position

/-- Line and column as messages name them. -/
def text (position : Position) : String :=
  "line " ++ toString position.line ++ ", column " ++ toString position.column

instance : ToString Position := ⟨text⟩

@[simp] theorem offset_advance (position : Position) (x : Char) :
    (position.advance x).offset = position.offset + 1 := by
  unfold advance; split <;> rfl

@[simp] theorem advance_newline (position : Position) :
    position.advance '\n' = ⟨position.offset + 1, position.line + 1, 1⟩ := rfl

theorem advance_of_ne {x : Char} (h : x ≠ '\n') (position : Position) :
    position.advance x = ⟨position.offset + 1, position.line, position.column + 1⟩ :=
  if_neg h

@[simp] theorem advanceAll_nil (position : Position) : position.advanceAll [] = position := rfl

@[simp] theorem advanceAll_cons (position : Position) (x : Char) (text : List Char) :
    position.advanceAll (x :: text) = (position.advance x).advanceAll text := rfl

theorem advanceAll_append (position : Position) (a b : List Char) :
    position.advanceAll (a ++ b) = (position.advanceAll a).advanceAll b :=
  List.foldl_append

@[simp] theorem offset_advanceAll (position : Position) (text : List Char) :
    (position.advanceAll text).offset = position.offset + text.length := by
  induction text generalizing position with
  | nil => rfl
  | cons x text ih => simp [ih, Nat.add_assoc, Nat.add_comm 1]

end Position

end Unlambda.Source
