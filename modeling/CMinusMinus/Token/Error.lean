import CMinusMinus.Position
import CMinusMinus.Text.Quoted

/-!
# What no token can be read from

A text that is no sequence of tokens is refused at its first fault, with the cause and the place.
Apart from these stands a numeral that is well placed but cannot be read as a number at all: the
scanner gives up on it without a message of its own.
-/

namespace CMinusMinus

/-- Why a text is refused. -/
inductive LexCause where
  /-- A string literal that does not end on its line. -/
  | unterminatedString
  /-- A backslash before a character that it does not escape. -/
  | unknownEscape (c : Char)
  /-- A numeral beyond the largest integer. -/
  | numeralRange (digits : String)
  /-- A numeral that runs into a name. -/
  | nameAfterNumeral (c : Char)
  /-- A character that begins no token. -/
  | unexpected (c : Char)
  deriving DecidableEq, Repr

namespace LexCause

/-- The cause in words. -/
def message : LexCause → String
  | .unterminatedString => "[LEX-0010] unterminated string literal"
  | .unknownEscape c => "[LEX-0020] unknown escape sequence \\" ++ c.toString
  | .numeralRange digits =>
    "[LEX-0030] integer literal '" ++ digits ++ "' exceeds 32-bit signed range"
  | .nameAfterNumeral c =>
    "[LEX-0031] invalid character '" ++ c.toString ++ "' after integer literal"
  | .unexpected c => "[LEX-0040] unexpected character " ++ Text.quoted c.toString

end LexCause

/-- A cause and where it was found. -/
structure LexError where
  cause : LexCause
  position : Position
  deriving DecidableEq, Repr

/-- How scanning fails. -/
inductive ScanError where
  /-- The text is refused. -/
  | refused (e : LexError)
  /-- A numeral has a digit without a value or more digits than are ever read. -/
  | unreadable (digits : String)
  deriving DecidableEq, Repr

end CMinusMinus
