import CMinusMinus.Text.Printable

/-!
# Quoted text

Messages, tree outlines and token listings show a text between quotes, with whatever would not
be seen escaped.  The quotes are single ones, unless the text has a single quote and no double
one.  Escaped are the backslash, the quote in use, line feed, carriage return and tab by their
short names, and every other unprintable character by its code point in lowercase hexadecimal:
two digits after `\x` below 256, four after `\u` below 65536, else eight after `\U`.
-/

namespace CMinusMinus.Text

/-- The hexadecimal digits of a number, the lowest `width` of them. -/
def hexDigits : Nat → Nat → List Char
  | 0, _ => []
  | width + 1, n => hexDigits width (n / 16) ++ [Nat.digitChar (n % 16)]

theorem length_hexDigits (width n : Nat) : (hexDigits width n).length = width := by
  induction width generalizing n with
  | zero => rfl
  | succ width ih => simp [hexDigits, ih]

/-- The code point of a character that is not shown as itself. -/
def escapeCode (c : Char) : List Char :=
  if c.toNat < 256 then '\\' :: 'x' :: hexDigits 2 c.toNat
  else if c.toNat < 65536 then '\\' :: 'u' :: hexDigits 4 c.toNat
  else '\\' :: 'U' :: hexDigits 8 c.toNat

/-- How one character is written between two of the given quotes. -/
def escapeIn (quote c : Char) : List Char :=
  if c = quote ∨ c = '\\' then ['\\', c]
  else if c = '\n' then ['\\', 'n']
  else if c = '\r' then ['\\', 'r']
  else if c = '\t' then ['\\', 't']
  else if isPrintable c then [c]
  else escapeCode c

/-- Single quotes, unless that would escape a quote and double quotes would not. -/
def quoteFor (cs : List Char) : Char :=
  if '\'' ∈ cs ∧ '"' ∉ cs then '"' else '\''

/-- The text between its quotes. -/
def quoted (s : String) : String :=
  let cs := s.toList
  let quote := quoteFor cs
  String.ofList (quote :: cs.flatMap (escapeIn quote) ++ [quote])

end CMinusMinus.Text
