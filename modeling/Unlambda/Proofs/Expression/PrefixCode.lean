import Unlambda.Expression.Basic

/-!
# Canonical texts are a prefix code

The canonical text of an expression says by itself where it ends: no text continues the one of
another expression. So an expression can be recovered from its text, whatever comes after it.
The characters that `.x` and `?x` carry may be any, also such as no program can contain, and the
reader is of no use here. It is enough to see that the text of a primitive can be split off.

## Main definitions

* `Unlambda.Primitive.split?`: the primitive that comes first in a text

## Main results

* `Unlambda.Primitive.split?_spelling_append`: the text of a primitive can be split off
* `Unlambda.Expression.spelling_append_inj`: so can the text of an expression
* `Unlambda.Expression.spelling_inj`: expressions with the same text are the same
-/

namespace Unlambda

namespace Primitive

/-- The primitive that comes first in a text, and what comes after it. A sign takes the next
character with it, whatever that is. -/
def split? : List Char → Option (Primitive × List Char)
  | '.' :: x :: rest => some (print x, rest)
  | '?' :: x :: rest => some (compare x, rest)
  | x :: rest => (ofChar? x).map fun p => (p, rest)
  | [] => none

/-- **The text of a primitive can be split off.** -/
theorem split?_spelling_append (p : Primitive) (rest : List Char) :
    split? (p.spelling ++ rest) = some (p, rest) := by
  cases p <;> rfl

theorem split?_backquote (rest : List Char) : split? ('\x60' :: rest) = none := rfl

theorem spelling_append_inj {p q : Primitive} {rest rest' : List Char}
    (h : p.spelling ++ rest = q.spelling ++ rest') : p = q ∧ rest = rest' := by
  have hsplit : some (p, rest) = some (q, rest') := by
    rw [← split?_spelling_append, h, split?_spelling_append]
  simpa using hsplit

/-- No primitive is spelled like the beginning of an application. -/
theorem spelling_append_ne_backquote (p : Primitive) (rest rest' : List Char) :
    p.spelling ++ rest ≠ '\x60' :: rest' := by
  intro h
  have hsplit : some (p, rest) = none := by
    rw [← split?_spelling_append, h, split?_backquote]
  cases hsplit

end Primitive

namespace Expression

/-- **The text of an expression can be split off:** where two texts of expressions begin in the
same way, the expressions are the same, and so is what comes after them. -/
theorem spelling_append_inj {e e' : Expression} {rest rest' : List Char}
    (h : e.spelling ++ rest = e'.spelling ++ rest') : e = e' ∧ rest = rest' := by
  induction e generalizing e' rest rest' with
  | primitive p =>
    cases e' with
    | primitive q =>
      obtain ⟨rfl, hrest⟩ := Primitive.spelling_append_inj h
      exact ⟨rfl, hrest⟩
    | application g y => exact absurd h (p.spelling_append_ne_backquote _ _)
  | application f x ihf ihx =>
    cases e' with
    | primitive q => exact absurd h.symm (q.spelling_append_ne_backquote _ _)
    | application g y =>
      -- Behind the backquote the operator comes first, and the operand is a part of its rest.
      have hparts : f.spelling ++ (x.spelling ++ rest) = g.spelling ++ (y.spelling ++ rest') := by
        simpa [spelling] using h
      obtain ⟨rfl, hoperand⟩ := ihf hparts
      obtain ⟨rfl, hrest⟩ := ihx hoperand
      exact ⟨rfl, hrest⟩

/-- Expressions with the same text are the same. -/
theorem spelling_inj {e e' : Expression} (h : e.spelling = e'.spelling) : e = e' :=
  (spelling_append_inj (congrArg (· ++ []) h)).1

end Expression

end Unlambda
