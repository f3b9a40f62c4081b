import Unlambda.Proofs.Expression.Grammar

/-!
# Written programs

The canonical text of an expression is one of its renderings, provided that every character
that `.x` and `?x` carry is a program character. The text has no trivia and one character for
each backquote, letter and sign, so no rendering is shorter. A carried character may itself be a
backquote, a `#` or a blank: it is read together with its `.` or `?`, and never by itself.

## Main definitions

* `Unlambda.Primitive.carried`, `Unlambda.Expression.carried`: the characters that `.x` and `?x`
  carry

## Main results

* `Unlambda.Expression.renders_spelling`: the canonical text renders the expression
* `Unlambda.Expression.Renders.length_spelling_le`: no rendering is shorter
* `Unlambda.Expression.text_is_shortest_source`: writing and reading, for whole programs
-/

namespace Unlambda

namespace Primitive

/-- The character that a primitive carries, if it is `.x` or `?x`. -/
def carried : Primitive → List Char
  | print x => [x]
  | compare x => [x]
  | _ => []

variable {p : Primitive} {text : List Char}

theorem spelled_spelling (h : ∀ x ∈ p.carried, IsProgramChar x) : p.Spelled p.spelling := by
  cases p with
  | print x => exact .print (h x List.mem_cons_self)
  | compare x => exact .compare (h x List.mem_cons_self)
  | s | k | i | v | c | d | e | r | read | reprint => exact .name List.mem_cons_self

theorem carried_of_mem_names {x : Char} (h : x ∈ p.names) : p.carried = [] := by
  cases p with
  | print x | compare x => exact absurd h List.not_mem_nil
  | s | k | i | v | c | d | e | r | read | reprint => rfl

theorem Spelled.isProgramChar (h : p.Spelled text) : ∀ x ∈ p.carried, IsProgramChar x := by
  cases h with
  | name named => simp [carried_of_mem_names named]
  | print hx | compare hx => exact List.forall_mem_singleton.mpr hx

/-- All spellings of a primitive have the same length. -/
theorem Spelled.length_eq (h : p.Spelled text) : text.length = p.spelling.length := by
  cases h with
  | name named =>
    cases p with
    | print x | compare x => exact absurd named List.not_mem_nil
    | s | k | i | v | c | d | e | r | read | reprint => rfl
  | print hx | compare hx => rfl

end Primitive

namespace Expression

open Source

/-- The characters that `.x` and `?x` carry in an expression. -/
def carried : Expression → List Char
  | primitive p => p.carried
  | application f x => f.carried ++ x.carried

variable {e : Expression} {text : List Char}

/-- **The canonical text renders the expression.** -/
theorem renders_spelling (h : ∀ x ∈ e.carried, IsProgramChar x) : e.Renders e.spelling := by
  induction e with
  | primitive p => exact .primitive .nil (Primitive.spelled_spelling h)
  | application f x ihf ihx =>
    rw [carried, List.forall_mem_append] at h
    exact .application .nil (ihf h.1) (ihx h.2)

theorem Renders.isProgramChar (h : e.Renders text) : ∀ x ∈ e.carried, IsProgramChar x := by
  induction h with
  | primitive space spelled => exact spelled.isProgramChar
  | application space operator operand ihf ihx => exact List.forall_mem_append.mpr ⟨ihf, ihx⟩

/-- **No rendering is shorter than the canonical text.** -/
theorem Renders.length_spelling_le (h : e.Renders text) : e.spelling.length ≤ text.length := by
  induction h with
  | @primitive p trivia text space spelled =>
    rw [spelling, List.length_append, spelled.length_eq]
    exact Nat.le_add_left _ _
  | application space operator operand ihf ihx =>
    simp only [spelling, List.length_append, List.length_cons]
    omega

theorem parse_spelling (h : ∀ x ∈ e.carried, IsProgramChar x) : parse e.spelling = .ok e := by
  rw [← List.append_nil e.spelling]
  exact (renders_spelling h).parse_eq_ok (.closed .nil)

theorem parse_text (h : ∀ x ∈ e.carried, IsProgramChar x) : parse e.text.toList = .ok e := by
  rw [toList_text, parse_spelling h]

/-- **Writing and reading.** If an expression carries program characters only, then it is read
from its canonical text. An expression that is read from any text does so, and the text has at
least as many characters as the canonical one. -/
theorem text_is_shortest_source :
    (∀ e : Expression, (∀ x ∈ e.carried, IsProgramChar x) → parse e.text.toList = .ok e) ∧
    ∀ source e, parse source = .ok e →
      (∀ x ∈ e.carried, IsProgramChar x) ∧
      parse e.text.toList = .ok e ∧ e.text.length ≤ source.length := by
  refine ⟨fun e h => parse_text h, fun source e h => ?_⟩
  obtain ⟨text, trailing, rfl, hrenders, -⟩ := exists_renders_of_parse h
  refine ⟨hrenders.isProgramChar, parse_text hrenders.isProgramChar, ?_⟩
  calc e.text.length
    _ = e.spelling.length := by rw [← toList_text, String.length_toList]
    _ ≤ text.length := hrenders.length_spelling_le
    _ ≤ (text ++ trailing).length := by
        rw [List.length_append]
        exact Nat.le_add_right _ _

end Expression

end Unlambda
