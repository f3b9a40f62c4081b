import Unlambda.Expression.Basic

/-!
# Reading expressions

An expression is read from the front of a text, token by token. Instead of recursing into
operators and operands, the reader keeps the list of applications whose backquote it has
seen, the innermost first.

## Main definitions

* `Unlambda.Expression.Opening`: an application that is still being read
* `Unlambda.Expression.readWithin`: reads the expression that completes a list of openings
* `Unlambda.Expression.read`: reads one expression from a lexer
* `Unlambda.Expression.parse`: reads a text that is one program
* `Unlambda.Expression.parseFront`: reads one program and hands back the text behind it
-/

namespace Unlambda.Expression

open Source

/-- An application whose backquote has been read. -/
inductive Opening
  /-- Its operator comes next. -/
  | operator
  /-- Its operand comes next. -/
  | operand (operator : Expression)

/-- Puts a complete expression in the place that the innermost opening holds for it. An
application that becomes complete is put in place in turn. The result is the expression that
completes the outermost one, or the openings that are left. -/
def complete (e : Expression) : List Opening → Expression ⊕ List Opening
  | [] => .inl e
  | .operator :: openings => .inr (.operand e :: openings)
  | .operand f :: openings => complete (application f e) openings

/-- Reads tokens until all openings are complete, and returns the outermost expression
together with the lexer behind its last token, or an error together with the lexer behind
what caused it. -/
def readWithin (openings : List Opening) (lexer : Lexer) :
    Except SyntaxError Expression × Lexer :=
  match h : lexer.next with
  | (.error error, lexer') => (.error error, lexer')
  | (.ok none, lexer') =>
    (.error (.unexpectedEnd "an expression" lexer'.position), lexer')
  | (.ok (some token), lexer') =>
    have := Lexer.length_rest_lt_of_next h
    match token.lexeme with
    | .apply => readWithin (.operator :: openings) lexer'
    | .primitive p =>
      match complete (primitive p) openings with
      | .inl e => (.ok e, lexer')
      | .inr openings => readWithin openings lexer'
termination_by lexer.rest.length

/-- Reads one expression. -/
def read (lexer : Lexer) : Except SyntaxError Expression × Lexer := readWithin [] lexer

/-- Reads a text that is one program. White space and comments may follow the expression,
and nothing else. -/
def parse (source : List Char) : Except SyntaxError Expression :=
  match read (.ofText source) with
  | (.error error, _) => .error error
  | (.ok e, lexer) =>
    let lexer := lexer.skipTrivia
    if lexer.rest.isEmpty then .ok e else .error (.trailingInput lexer.position)

/-- Reads one program from the front of a text, and hands back what follows its last token
untouched. -/
def parseFront (source : List Char) : Except SyntaxError (Expression × List Char) :=
  match read (.ofText source) with
  | (.error error, _) => .error error
  | (.ok e, lexer) => .ok (e, lexer.rest)

end Unlambda.Expression
