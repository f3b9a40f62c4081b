import Unlambda.Source.Position
import Unlambda.Text.Quoted

/-!
# Syntax errors

The three ways in which a text can fail to be a program, each with the place where it does.

## Main definitions

* `Unlambda.Source.SyntaxError`: the causes
* `Unlambda.Source.SyntaxError.position`: where the text went wrong
* `Unlambda.Source.SyntaxError.message`: the wording shown to the user
-/

namespace Unlambda.Source

/-- A reason why a text is not a program. -/
inductive SyntaxError
  /-- The text ends where `expected` had to follow. -/
  | unexpectedEnd (expected : String) (position : Position)
  /-- The character found at the position can begin no token, or is not one that `.x` and
  `?x` may carry. -/
  | unexpectedChar (found : Char) (position : Position)
  /-- A complete program is followed by more than white space and comments. -/
  | trailingInput (position : Position)
  deriving DecidableEq

namespace SyntaxError

/-- Where the text went wrong. -/
def position : SyntaxError → Position
  | unexpectedEnd _ position => position
  | unexpectedChar _ position => position
  | trailingInput position => position

/-- The wording of the error. -/
def message : SyntaxError → String
  | unexpectedEnd expected position =>
    "unexpected end of input at " ++ position.text ++ ", expected " ++ expected
  | unexpectedChar found position =>
    "unexpected character " ++ Text.quote found ++ " at " ++ position.text
  | trailingInput position =>
    "unexpected input after the end of the program at " ++ position.text

instance : ToString SyntaxError := ⟨message⟩

end SyntaxError

end Unlambda.Source
