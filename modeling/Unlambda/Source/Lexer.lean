import Unlambda.Primitive
import Unlambda.Source.SyntaxError

/-!
# Tokens of program text

A program is written with two kinds of tokens: the backquote, which applies one expression
to another, and the primitives. White space and comments may stand between tokens. They may
not stand inside one: the character right after `.` or `?` belongs to the token whatever it
is.

A lexer is what remains of a text together with what is known about the part already
consumed. It stays usable after an error, behind the text that caused it.

## Main definitions

* `Unlambda.Source.Lexeme`, `Unlambda.Source.Token`: a token, without and with its position
* `Unlambda.Source.Lexer`: a text that is being consumed
* `Unlambda.Source.Lexer.skipTrivia`: the lexer behind white space and comments
* `Unlambda.Source.Lexer.next`: the next token and the lexer behind it
* `Unlambda.Source.Lexer.drain`: all tokens up to the end or the first error

## Main results

* `Unlambda.Source.Lexer.length_rest_next_lt`: every token and every error consumes something
-/

namespace Unlambda.Source

/-- What a token stands for. -/
inductive Lexeme
  /-- The backquote. -/
  | apply
  | primitive (p : Primitive)
  deriving DecidableEq

namespace Lexeme

/-- The canonical source text of a token. -/
def spelling : Lexeme → List Char
  | apply => ['\x60']
  | primitive p => p.spelling

/-- The canonical source text as a string. -/
def text (lexeme : Lexeme) : String := String.ofList lexeme.spelling

instance : ToString Lexeme := ⟨text⟩

end Lexeme

/-- A token and the position of its first character. -/
structure Token where
  lexeme : Lexeme
  position : Position
  deriving DecidableEq

/-- What can stand between two tokens at some point: white space, or the rest of a
comment. -/
inductive Gap
  | space
  | comment
  deriving DecidableEq

namespace Gap

/-- The white space of programs. -/
def IsSpace (x : Char) : Prop := x = ' ' ∨ x = '\t' ∨ x = '\n'

instance : DecidablePred IsSpace := fun _ => inferInstanceAs (Decidable (_ ∨ _))

/-- How a gap goes on with `x`, or `none` if `x` begins a token. A comment runs from `#`
through the end of its line. -/
def after? (gap : Gap) (x : Char) : Option Gap :=
  match gap with
  | comment => some (if x = '\n' then space else comment)
  | space => if x = '#' then some comment else if IsSpace x then some space else none

end Gap

/-- A text that is being consumed from the front. -/
structure Lexer where
  /-- The position of the next character. -/
  position : Position
  /-- The length in UTF-8 of what has been consumed. -/
  bytes : Nat
  /-- What has not been consumed. -/
  rest : List Char

namespace Lexer

/-- The lexer in front of a whole text. -/
def ofText (source : List Char) : Lexer := ⟨.start, 0, source⟩

/-- The lexer once `x` has been consumed and `rest` is left. -/
def consume (lexer : Lexer) (x : Char) (rest : List Char) : Lexer :=
  ⟨lexer.position.advance x, lexer.bytes + x.utf8Size, rest⟩

/-- The lexer at the first character that does not belong to the gap. -/
def skip (gap : Gap) (position : Position) (bytes : Nat) : List Char → Lexer
  | [] => ⟨position, bytes, []⟩
  | x :: rest =>
    match gap.after? x with
    | some gap => skip gap (position.advance x) (bytes + x.utf8Size) rest
    | none => ⟨position, bytes, x :: rest⟩

/-- The lexer behind all white space and comments that come next. -/
def skipTrivia (lexer : Lexer) : Lexer := skip .space lexer.position lexer.bytes lexer.rest

/-- The rest of a token that begins with `.` or `?` at `start`: one character, taken as it
is, which has to be a program character. -/
def carried (lexer : Lexer) (start : Position) (primitive : Char → Primitive) :
    Except SyntaxError (Option Token) × Lexer :=
  match lexer.rest with
  | [] => (.error (.unexpectedEnd "a character after `.` or `?`" lexer.position), lexer)
  | x :: rest =>
    if IsProgramChar x then
      (.ok (some ⟨.primitive (primitive x), start⟩), lexer.consume x rest)
    else (.error (.unexpectedChar x lexer.position), lexer.consume x rest)

/-- The token that begins with `x` at `start`, where the lexer stands behind `x`. -/
def begun (lexer : Lexer) (start : Position) (x : Char) :
    Except SyntaxError (Option Token) × Lexer :=
  if x = '\x60' then (.ok (some ⟨.apply, start⟩), lexer)
  else if x = '.' then lexer.carried start .print
  else if x = '?' then lexer.carried start .compare
  else match Primitive.ofChar? x with
    | some p => (.ok (some ⟨.primitive p, start⟩), lexer)
    | none => (.error (.unexpectedChar x start), lexer)

/-- The next token, if anything but trivia is left, and the lexer behind it. -/
def next (lexer : Lexer) : Except SyntaxError (Option Token) × Lexer :=
  let lexer := lexer.skipTrivia
  match lexer.rest with
  | [] => (.ok none, lexer)
  | x :: rest => (lexer.consume x rest).begun lexer.position x

/-! ### What is consumed -/

@[simp] theorem rest_consume (lexer : Lexer) (x : Char) (rest : List Char) :
    (lexer.consume x rest).rest = rest := rfl

theorem length_rest_skip_le (gap : Gap) (position : Position) (bytes : Nat) (text : List Char) :
    (skip gap position bytes text).rest.length ≤ text.length := by
  induction text generalizing gap position bytes with
  | nil => simp [skip]
  | cons x rest ih =>
    rw [skip]
    split
    · exact Nat.le_succ_of_le (ih ..)
    · exact Nat.le_refl _

theorem length_rest_skipTrivia_le (lexer : Lexer) :
    lexer.skipTrivia.rest.length ≤ lexer.rest.length :=
  length_rest_skip_le ..

theorem length_rest_carried_le (lexer : Lexer) (start : Position) (primitive : Char → Primitive) :
    (lexer.carried start primitive).2.rest.length ≤ lexer.rest.length := by
  unfold carried
  split
  · exact Nat.le_refl _
  · next x rest h => split <;> simp [h]

theorem length_rest_begun_le (lexer : Lexer) (start : Position) (x : Char) :
    (lexer.begun start x).2.rest.length ≤ lexer.rest.length := by
  unfold begun
  split
  · exact Nat.le_refl _
  split
  · exact length_rest_carried_le ..
  split
  · exact length_rest_carried_le ..
  split <;> exact Nat.le_refl _

/-- Whatever `next` returns other than the end has been consumed. -/
theorem length_rest_next_lt {lexer : Lexer} (h : lexer.next.1 ≠ .ok none) :
    lexer.next.2.rest.length < lexer.rest.length := by
  have skipped := length_rest_skipTrivia_le lexer
  unfold next at h ⊢
  cases hrest : lexer.skipTrivia.rest with
  | nil => simp [hrest] at h
  | cons x rest =>
    have taken := length_rest_begun_le (lexer.skipTrivia.consume x rest) lexer.skipTrivia.position x
    simp only [hrest, List.length_cons, rest_consume] at skipped taken ⊢
    omega

theorem length_rest_lt_of_next {lexer lexer' : Lexer} {token : Token}
    (h : lexer.next = (.ok (some token), lexer')) : lexer'.rest.length < lexer.rest.length := by
  have consumed : lexer.next.2.rest.length < lexer.rest.length :=
    length_rest_next_lt (by simp [h])
  rwa [h] at consumed

/-! ### Draining -/

/-- The tokens up to the end or the first error, behind those already found. -/
def drainOnto (found : List Token) (lexer : Lexer) : List Token × Option SyntaxError × Lexer :=
  match h : lexer.next with
  | (.ok none, lexer') => (found.reverse, none, lexer')
  | (.error error, lexer') => (found.reverse, some error, lexer')
  | (.ok (some token), lexer') =>
    have := length_rest_lt_of_next h
    drainOnto (token :: found) lexer'
termination_by lexer.rest.length

/-- The tokens up to the end or the first error, the error if there is one, and the lexer
behind them. -/
def drain (lexer : Lexer) : List Token × Option SyntaxError × Lexer := drainOnto [] lexer

end Lexer

end Unlambda.Source
