import Unlambda.Proofs.Source.Bookkeeping

/-!
# Draining a source

To drain a lexer is to take one token after the other, up to the end or the first error. The loop
that does this keeps the tokens it has found; here it is taken apart by the next token, so that
whoever takes the same tokens one by one can be compared with it.

## Main definitions

* `Unlambda.Source.Lexer.lexemes`: what the tokens of a lexer stand for
* `Unlambda.Source.Lexer.behind`: the lexer once some tokens have been taken
* `Unlambda.Source.Lexer.shortage`: what is wrong if one token more is needed than there are

## Main results

* `Unlambda.Source.Lexer.drainOnto_eq`: what has been found before only stands in front
* `Unlambda.Source.Lexer.drain_of_token` and its companions: draining by the next token
-/

namespace Unlambda.Source.Lexer

variable {lexer middle : Lexer} {error : SyntaxError} {token : Token}

/-! ### The loop -/

/-- Draining by the next token. -/
theorem drainOnto_of_next {answer : Except SyntaxError (Option Token)} (found : List Token)
    (hnext : lexer.next = (answer, middle)) :
    lexer.drainOnto found =
      match answer with
      | .error error => (found.reverse, some error, middle)
      | .ok none => (found.reverse, none, middle)
      | .ok (some token) => middle.drainOnto (token :: found) := by
  rw [drainOnto]
  split <;> next h =>
    cases hnext.symm.trans h
    rfl

/-- **What has been found before only stands in front** of what is found. -/
theorem drainOnto_eq (found : List Token) (lexer : Lexer) :
    lexer.drainOnto found = (found.reverse ++ lexer.drain.1, lexer.drain.2) := by
  induction hlength : lexer.rest.length using Nat.strongRecOn generalizing found lexer with
  | _ n ih =>
  subst hlength
  rw [drain]
  rcases hnext : lexer.next with ⟨error | _ | token, middle⟩
  · simp [drainOnto_of_next _ hnext]
  · simp [drainOnto_of_next _ hnext]
  · -- Both loops go on from the same lexer, the one with one token more than the other.
    have hshorter := length_rest_lt_of_next hnext
    rw [drainOnto_of_next _ hnext, drainOnto_of_next _ hnext]
    simp only [ih _ hshorter (token :: found) _ rfl, ih _ hshorter [token] _ rfl]
    simp

theorem drain_of_error (hnext : lexer.next = (.error error, middle)) :
    lexer.drain = ([], some error, middle) :=
  drainOnto_of_next [] hnext

theorem drain_of_none (hnext : lexer.next = (.ok none, middle)) :
    lexer.drain = ([], none, middle) :=
  drainOnto_of_next [] hnext

theorem drain_of_token (hnext : lexer.next = (.ok (some token), middle)) :
    lexer.drain = (token :: middle.drain.1, middle.drain.2) := by
  rw [drain, drainOnto_of_next [] hnext]
  exact drainOnto_eq [token] middle

/-! ### One token after the other -/

/-- What the tokens up to the end or the first error stand for. -/
def lexemes (lexer : Lexer) : List Lexeme := lexer.drain.1.map Token.lexeme

/-- The lexer behind the next `count` tokens. -/
def behind (lexer : Lexer) (count : Nat) : Lexer := lexer.callAll (.replicate count .next)

/-- What is wrong if one token more is needed than there are: the first error, if there is one,
and otherwise that the text ends where an expression should be. -/
def shortage (lexer : Lexer) : SyntaxError :=
  lexer.drain.2.1.getD (.unexpectedEnd "an expression" lexer.drain.2.2.position)

@[simp] theorem behind_zero (lexer : Lexer) : lexer.behind 0 = lexer := rfl

theorem behind_succ (hnext : lexer.next = (.ok (some token), middle)) (count : Nat) :
    lexer.behind (count + 1) = middle.behind count := by
  rw [behind, List.replicate_succ, callAll_cons, call, hnext]
  rfl

theorem lexemes_of_error (hnext : lexer.next = (.error error, middle)) : lexer.lexemes = [] := by
  rw [lexemes, drain_of_error hnext]
  rfl

theorem lexemes_of_none (hnext : lexer.next = (.ok none, middle)) : lexer.lexemes = [] := by
  rw [lexemes, drain_of_none hnext]
  rfl

theorem lexemes_of_token (hnext : lexer.next = (.ok (some token), middle)) :
    lexer.lexemes = token.lexeme :: middle.lexemes := by
  rw [lexemes, drain_of_token hnext]
  rfl

theorem shortage_of_error (hnext : lexer.next = (.error error, middle)) :
    lexer.shortage = error := by
  rw [shortage, drain_of_error hnext]
  rfl

theorem shortage_of_none (hnext : lexer.next = (.ok none, middle)) :
    lexer.shortage = .unexpectedEnd "an expression" middle.position := by
  rw [shortage, drain_of_none hnext]
  rfl

theorem shortage_of_token (hnext : lexer.next = (.ok (some token), middle)) :
    lexer.shortage = middle.shortage := by
  rw [shortage, drain_of_token hnext]
  rfl

end Unlambda.Source.Lexer
