import Unlambda.Proofs.Expression.RoundTrip
import Unlambda.Proofs.Machine.Steps

/-!
# Programs that print a text

A text can be printed by as many printing functions as it has characters, in two ways. Nested in
their operators, each function is applied to the next one, and what it returns is applied in turn:
they print in the order in which they are written. Nested in their operands, each function waits
for the one behind it, so they print in the opposite order. The frames that wait are of different
kinds, but each application costs the same in both. The characters may be any that a program can
contain, also a backquote, a `#` or a newline.

## Main definitions

* `Unlambda.Expression.Writes`: an expression comes to a value after so many steps, and meanwhile
  writes a text
* `Unlambda.Expression.operatorNest`, `Unlambda.Expression.operandNest`: the two kinds of programs

## Main results

* `Unlambda.Expression.Writes.application`: what it costs to apply a printing function
* `Unlambda.Machine.nested_prints`: the output and the number of steps of the two programs
-/

namespace Unlambda

namespace Expression

open Machine

/-! ### What an expression writes -/

/-- After `steps` steps the expression has come to the value `v`, and has written `text`. This
holds in front of every continuation. -/
def Writes (e : Expression) (steps : Nat) (text : List Char) (v : Value) : Prop :=
  ∀ k console fresh, ∃ later, State.Reaches ⟨.eval (.source e) k, console, fresh⟩ steps
    ⟨.resume k v, console.writeAll text, later⟩

variable {e f x : Expression} {m n : Nat} {a b : List Char} {c : Char} {v : Value}

theorem writes_primitive (p : Primitive) : (primitive p).Writes 1 [] (.primitive p) :=
  fun _ _ fresh => ⟨fresh, State.reaches_one.mpr rfl⟩

/-- **A printing function** writes its character behind all that its operator and its operand
write. The application takes four steps besides theirs: one to open it, one between them, and two
to apply the function. -/
theorem Writes.application (hf : f.Writes m a (.primitive (.print c))) (hx : x.Writes n b v) :
    (application f x).Writes (m + n + 4) (a ++ b ++ [c]) v := by
  intro k console fresh
  obtain ⟨later, hoperator⟩ := hf (.awaitOperand fresh (.source x) k) console (fresh + 1)
  obtain ⟨last, hoperand⟩ :=
    hx (.awaitApply later (.primitive (.print c)) k) (console.writeAll a) (later + 1)
  have hother : Value.primitive (.print c) ≠ .primitive .d := by simp
  have hprint : State.Reaches
      ⟨.resume (.awaitApply later (.primitive (.print c)) k) v, (console.writeAll a).writeAll b,
        last⟩ 2 ⟨.resume k v, ((console.writeAll a).writeAll b).write c, last⟩ :=
    .head rfl (State.reaches_one.mpr rfl)
  refine ⟨last, ?_⟩
  rw [Console.writeAll_concat, Console.writeAll_append]
  have hsteps : m + n + 4 = m + (n + 2 + 1) + 1 := by omega
  rw [hsteps]
  exact .head (step_eval_of_applies (.written f x))
    (hoperator.trans (.head (step_resume_of_ne hother) (hoperand.trans hprint)))

/-- To reach the end of a program is one step more. -/
theorem Writes.evaluate_eq (h : e.Writes n a v) (input : List Char) :
    ∃ fresh, e.evaluate (n + 1) input =
      some (.ok ⟨v, (Console.ofInput input).writeAll a, n + 1, false, fresh⟩) := by
  obtain ⟨later, hreach⟩ := h .done (.ofInput input) 0
  exact ⟨later, State.evaluate_eq_ok_iff.mpr (hreach.run_eq_halted rfl n.lt_succ_self)⟩

/-! ### The two programs -/

/-- The functions that print the characters, from the last one to the first one, applied to each
other and then to `p`. -/
def operatorNest : List Char → Primitive → Expression
  | [], p => primitive p
  | c :: text, p => application (operatorNest text (.print c)) (primitive p)

/-- The functions that print the characters, each one applied to what comes behind it, and the
last one to `i`. -/
def operandNest : List Char → Expression
  | [] => primitive .i
  | c :: text => application (primitive (.print c)) (operandNest text)

theorem operatorNest_writes (text : List Char) (p : Primitive) :
    (operatorNest text p).Writes (5 * text.length + 1) text.reverse (.primitive p) := by
  -- For any `p`, since the operand is a printing function in the operator and `i` only outside.
  induction text generalizing p with
  | nil => exact writes_primitive p
  | cons c text ih =>
    have hnest := (ih (.print c)).application (writes_primitive p)
    rw [List.append_nil] at hnest
    rw [operatorNest, List.reverse_cons]
    exact hnest

theorem operandNest_writes (text : List Char) :
    (operandNest text).Writes (5 * text.length + 1) text.reverse (.primitive .i) := by
  induction text with
  | nil => exact writes_primitive .i
  | cons c text ih =>
    have hnest := (writes_primitive (.print c)).application ih
    have hsteps : 1 + (5 * text.length + 1) + 4 = 5 * (text.length + 1) + 1 := by omega
    rw [hsteps, List.nil_append] at hnest
    rw [operandNest, List.reverse_cons]
    exact hnest

theorem spelling_operatorNest (text : List Char) (p : Primitive) :
    (operatorNest text p).spelling =
      List.replicate text.length '\x60' ++ text.reverse.flatMap (fun c => ['.', c]) ++
        p.spelling := by
  induction text generalizing p with
  | nil => rfl
  | cons c text ih =>
    simp [operatorNest, spelling, ih, Primitive.spelling, List.replicate_succ]

theorem spelling_operandNest (text : List Char) :
    (operandNest text).spelling = text.flatMap (fun c => ['\x60', '.', c]) ++ ['i'] := by
  induction text with
  | nil => rfl
  | cons c text ih => simp [operandNest, spelling, ih, Primitive.spelling]

theorem carried_operatorNest (text : List Char) (p : Primitive) :
    (operatorNest text p).carried = text.reverse ++ p.carried := by
  induction text generalizing p with
  | nil => rfl
  | cons c text ih => simp [operatorNest, carried, ih, Primitive.carried]

theorem carried_operandNest (text : List Char) : (operandNest text).carried = text := by
  induction text with
  | nil => rfl
  | cons c text ih => simp [operandNest, carried, ih, Primitive.carried]

end Expression

namespace Machine

/-- The source is a program that prints `text` and nothing else: on every input it comes to `i`
after `steps` steps, without an exit, and reads nothing. -/
def PrintsIn (source : List Char) (steps : Nat) (text : List Char) : Prop :=
  ∀ input, ∃ fuel evaluation, run fuel source input = some (.ok evaluation) ∧
    evaluation.console.output = text ∧ evaluation.result = .primitive .i ∧
    evaluation.console.unread = input ∧ evaluation.exited = false ∧ evaluation.steps = steps

theorem printsIn_of_writes {e : Expression} {n : Nat} {text : List Char}
    (hchars : ∀ x ∈ e.carried, IsProgramChar x) (h : e.Writes n text (.primitive .i)) :
    PrintsIn e.spelling (n + 1) text := by
  intro input
  obtain ⟨fresh, hevaluate⟩ := h.evaluate_eq input
  refine ⟨n + 1, _, run_eq_ok_iff.mpr ⟨e, Expression.parse_spelling hchars, hevaluate⟩, ?_, rfl,
    ?_, rfl, rfl⟩
  · rw [Console.output_writeAll, Console.output_ofInput, List.nil_append]
  · rw [Console.unread_writeAll]
    rfl

/-- **Nested printing functions print their text.** For a text of program characters, write as
many backquotes, then the printing functions in the order of the text, then `i`: this program
prints the text. Write a backquote and a printing function for each character of the text, then
`i`: this one prints it in reverse. Both take five steps for each character and two for `i`. -/
theorem nested_prints (text : List Char) (hchars : ∀ c ∈ text, IsProgramChar c) :
    PrintsIn (List.replicate text.length '\x60' ++ text.flatMap (fun c => ['.', c]) ++ ['i'])
      (5 * text.length + 2) text ∧
    PrintsIn (text.flatMap (fun c => ['\x60', '.', c]) ++ ['i'])
      (5 * text.length + 2) text.reverse := by
  constructor
  · have hprints : PrintsIn (Expression.operatorNest text.reverse .i).spelling _ _ :=
      printsIn_of_writes
        (by simpa [Expression.carried_operatorNest, Primitive.carried] using hchars)
        (Expression.operatorNest_writes text.reverse .i)
    simpa [Expression.spelling_operatorNest, Primitive.spelling] using hprints
  · rw [← Expression.spelling_operandNest]
    exact printsIn_of_writes (by rwa [Expression.carried_operandNest])
      (Expression.operandNest_writes text)

/-- The characters look like other tokens, a comment and its end. -/
theorem signs_are_printed :
    let text := ['\x60', '#', '\n', '.', 'e']
    (∀ c ∈ text, IsProgramChar c) ∧ PrintsIn "`````.`.#.\n...ei".toList 27 text ∧
      PrintsIn "`.``.#`.\n`..`.ei".toList 27 text.reverse := by
  intro text
  have hchars : ∀ c ∈ text, IsProgramChar c := by simp [text, IsProgramChar]
  exact ⟨hchars, nested_prints text hchars⟩

end Machine

end Unlambda
