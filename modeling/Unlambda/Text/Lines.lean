/-!
# Lines

A text is a sequence of lines, each of which keeps its newline. Only the last one may have
none, and no line is empty. The items may be characters or bytes.

## Main definitions

* `Unlambda.Text.lines`: the lines of a text

## Main results

* `Unlambda.Text.flatten_lines`: nothing of the text is lost
-/

namespace Unlambda.Text

/-- The lines of a text, behind the lines `found` before and within a line that has begun
with `begun`. Both come with the latest item first. -/
def linesOnto {α : Type} (isNewline : α → Bool) (found : List (List α)) (begun : List α) :
    List α → List (List α)
  | [] => if begun.isEmpty then found.reverse else (begun.reverse :: found).reverse
  | x :: text =>
    if isNewline x then linesOnto isNewline ((x :: begun).reverse :: found) [] text
    else linesOnto isNewline found (x :: begun) text

/-- The lines of a text, where a line ends behind each item for which `isNewline` holds. -/
def lines {α : Type} (isNewline : α → Bool) (text : List α) : List (List α) :=
  linesOnto isNewline [] [] text

theorem flatten_linesOnto {α : Type} (isNewline : α → Bool) (found : List (List α))
    (begun text : List α) :
    (linesOnto isNewline found begun text).flatten
      = found.reverse.flatten ++ (begun.reverse ++ text) := by
  induction text generalizing found begun with
  | nil => cases begun <;> simp [linesOnto]
  | cons x text ih =>
    rw [linesOnto]
    split <;> simp [ih]

/-- The lines of a text, one after the other, are the text. -/
@[simp] theorem flatten_lines {α : Type} (isNewline : α → Bool) (text : List α) :
    (lines isNewline text).flatten = text := by
  simp [lines, flatten_linesOnto]

end Unlambda.Text
