import Unlambda.Text.Printable

/-!
# Quoted characters

Messages show a character between single quotes. Five characters have an escape of their
own besides the quote; any other character that could not be read off the page is shown by
its code point.

## Main definitions

* `Unlambda.Text.codeEscape`: a character shown by its code point
* `Unlambda.Text.quote`: a character shown between single quotes
-/

namespace Unlambda.Text

/-- A character by its code point: a backslash, `u` and the lower-case hexadecimal digits in
braces, without leading zeros. -/
def codeEscape (x : Char) : String :=
  String.ofList ('\\' :: 'u' :: '\x7b' :: Nat.toDigits 16 x.toNat) ++ "\x7d"

/-- What stands for a character between single quotes. A double quote needs no escape
there. -/
def quotedForm (x : Char) : String :=
  match x with
  | '\x00' => "\\0"
  | '\t' => "\\t"
  | '\r' => "\\r"
  | '\n' => "\\n"
  | '\'' => "\\'"
  | '\\' => "\\\\"
  | x => if isGraphemeExtend x || !isPrintable x then codeEscape x else String.singleton x

/-- A character between single quotes. -/
def quote (x : Char) : String := "'" ++ quotedForm x ++ "'"

end Unlambda.Text
