import Unlambda.Proofs.Expression.Grammar
import Unlambda.Proofs.Source.Bookkeeping

/-!
# Recursive descent

Expressions nest without a bound, so the reader does not recurse into operators and operands: it
keeps a list of openings. The procedure by recursion is shorter to say. It takes a token; a
primitive is an expression by itself, and behind a backquote it reads the operator as a whole and
then the operand as a whole. This module shows that both are the same function of the lexer: an
opening is a call of the procedure that waits for another one to return. They read the same
expression and stop at the same place, and if they fail they do so with the same error.

## Main definitions

* `Unlambda.Expression.descend`: reads one expression by recursive descent
* `Unlambda.Expression.andThen`: goes on with an expression that has been read

## Main results

* `Unlambda.Expression.descend_of_next`: the procedure by the next token
* `Unlambda.Expression.readWithin_eq_descend`: what the openings wait for comes after the descent
* `Unlambda.Expression.read_eq_descend`: the reader is the procedure
-/

namespace Unlambda.Expression

open Source

/-! ### The procedure -/

/-- What a reading that begins at a lexer can answer: an expression or an error, and the lexer
behind it, which never has more left. -/
abbrev Answer (lexer : Lexer) : Type :=
  { answer : Except SyntaxError Expression × Lexer // answer.2.rest.length ≤ lexer.rest.length }

theorem length_rest_le_of_next {lexer lexer' : Lexer} {answer : Except SyntaxError (Option Token)}
    (h : lexer.next = (answer, lexer')) : lexer'.rest.length ≤ lexer.rest.length := by
  have hcall : lexer.call .next = lexer' := congrArg Prod.snd h
  exact hcall ▸ lexer.length_rest_call_le .next

/-- Reads one expression by recursive descent. The operand is read from where the operator has
ended. -/
def descendFrom (lexer : Lexer) : Answer lexer :=
  match hnext : lexer.next with
  | (.error error, lexer') => ⟨(.error error, lexer'), length_rest_le_of_next hnext⟩
  | (.ok none, lexer') =>
    ⟨(.error (.unexpectedEnd "an expression" lexer'.position), lexer'),
      length_rest_le_of_next hnext⟩
  | (.ok (some token), lexer') =>
    have hshorter := Lexer.length_rest_lt_of_next hnext
    match token.lexeme with
    | .primitive p => ⟨(.ok (.primitive p), lexer'), Nat.le_of_lt hshorter⟩
    | .apply =>
      match descendFrom lexer' with
      | ⟨(.error error, lexer''), hle⟩ =>
        ⟨(.error error, lexer''), Nat.le_trans hle (Nat.le_of_lt hshorter)⟩
      | ⟨(.ok f, lexer''), hle⟩ =>
        have hstill : lexer''.rest.length < lexer.rest.length := Nat.lt_of_le_of_lt hle hshorter
        match descendFrom lexer'' with
        | ⟨(.error error, last), hle'⟩ =>
          ⟨(.error error, last), Nat.le_trans hle' (Nat.le_of_lt hstill)⟩
        | ⟨(.ok x, last), hle'⟩ =>
          ⟨(.ok (.application f x), last), Nat.le_trans hle' (Nat.le_of_lt hstill)⟩
termination_by lexer.rest.length

/-- Reads one expression by recursive descent, and returns it together with the lexer behind it,
or an error together with the lexer behind what caused it. -/
def descend (lexer : Lexer) : Except SyntaxError Expression × Lexer := (descendFrom lexer).val

/-- Goes on with an expression that has been read. An error is handed on as it is. -/
def andThen (answer : Except SyntaxError Expression × Lexer)
    (next : Expression → Lexer → Except SyntaxError Expression × Lexer) :
    Except SyntaxError Expression × Lexer :=
  match answer with
  | (.error error, lexer) => (.error error, lexer)
  | (.ok e, lexer) => next e lexer

variable {lexer middle : Lexer} {error : SyntaxError} {token : Token} {p : Primitive}

theorem length_rest_descend_le (lexer : Lexer) :
    (descend lexer).2.rest.length ≤ lexer.rest.length :=
  (descendFrom lexer).property

/-- The procedure by the next token. -/
theorem descend_of_next {answer : Except SyntaxError (Option Token)}
    (hnext : lexer.next = (answer, middle)) :
    descend lexer =
      match answer with
      | .error error => (.error error, middle)
      | .ok none => (.error (.unexpectedEnd "an expression" middle.position), middle)
      | .ok (some token) =>
        match token.lexeme with
        | .primitive p => (.ok (.primitive p), middle)
        | .apply =>
          andThen (descend middle) fun f lexer' =>
            andThen (descend lexer') fun x last => (.ok (.application f x), last) := by
  rw [descend, descendFrom]
  split
  · next h =>
    cases hnext.symm.trans h
    rfl
  · next h =>
    cases hnext.symm.trans h
    rfl
  · next token lexer' h =>
    cases hnext.symm.trans h
    cases htoken : token.lexeme with
    | primitive p => simp only [htoken]
    | apply =>
      simp only [htoken, descend]
      -- Each of the two calls is followed, or its error is handed on.
      rcases descendFrom middle with ⟨⟨error | f, lexer'⟩, hle⟩
      · rfl
      · simp only [andThen]
        rcases descendFrom lexer' with ⟨⟨error | x, last⟩, hle'⟩ <;> rfl

theorem descend_of_primitive (hnext : lexer.next = (.ok (some token), middle))
    (htoken : token.lexeme = .primitive p) : descend lexer = (.ok (.primitive p), middle) := by
  simp only [descend_of_next hnext, htoken]

/-- Behind a backquote comes the operator, and behind that the operand. -/
theorem descend_of_apply (hnext : lexer.next = (.ok (some token), middle))
    (htoken : token.lexeme = .apply) :
    descend lexer =
      andThen (descend middle) fun f lexer' =>
        andThen (descend lexer') fun x last => (.ok (.application f x), last) := by
  simp only [descend_of_next hnext, htoken]

/-! ### Openings are calls that wait -/

/-- **What the openings wait for comes after the descent.** To read within openings is to descend
once, and then to go on with the expression in the place that the innermost opening holds. -/
theorem readWithin_eq_descend (openings : List Opening) (lexer : Lexer) :
    readWithin openings lexer =
      andThen (descend lexer) fun e lexer' => proceed (complete e openings) lexer' := by
  -- Induction on what is left: behind a backquote there are two readings, the operator's with one
  -- more opening, and the operand's with this opening filled.
  induction hlength : lexer.rest.length using Nat.strongRecOn generalizing openings lexer with
  | _ n ih =>
  subst hlength
  rcases hnext : lexer.next with ⟨error | _ | token, middle⟩
  · rw [readWithin_of_error hnext, descend_of_next hnext]
    rfl
  · rw [readWithin_of_none hnext, descend_of_next hnext]
    rfl
  cases htoken : token.lexeme with
  | primitive p =>
    rw [readWithin_of_primitive hnext htoken, descend_of_primitive hnext htoken]
    rfl
  | apply =>
    have hshorter := Lexer.length_rest_lt_of_next hnext
    rw [readWithin_of_apply hnext htoken, descend_of_apply hnext htoken, ih _ hshorter _ _ rfl]
    have hoperator := length_rest_descend_le middle
    rcases hdescend : descend middle with ⟨error | f, lexer'⟩
    · rfl
    · rw [hdescend] at hoperator
      have hstill : lexer'.rest.length < lexer.rest.length := Nat.lt_of_le_of_lt hoperator hshorter
      change readWithin (.operand f :: openings) lexer' = andThen (andThen (descend lexer') _) _
      rw [ih _ hstill _ _ rfl]
      -- An application that is complete is put in the place of its backquote.
      rcases descend lexer' with ⟨error | x, last⟩ <;> rfl

/-- **The reader is the procedure by recursive descent.** From every lexer both read the same
expression and leave the same lexer, with its byte and its position, or both fail with the same
error. -/
theorem read_eq_descend (lexer : Lexer) : read lexer = descend lexer := by
  rw [read, readWithin_eq_descend]
  rcases descend lexer with ⟨error | e, lexer'⟩ <;> rfl

end Unlambda.Expression
