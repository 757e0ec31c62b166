/-!
# Lines of a text

A file is read with its line ends made uniform: a carriage return, alone or before a line feed,
becomes a line feed.  For showing a line of it to the user the text is then cut at every
character that ends a line, of which the line feed is one of ten.  A line end closes a line and
does not open one, so there is no empty line after the last.
-/

namespace CMinusMinus.Text

/-- Every line end as a line feed. -/
def uniformLineEnds : List Char → List Char
  | [] => []
  | '\r' :: '\n' :: cs => '\n' :: uniformLineEnds cs
  | c :: cs => (if c = '\r' then '\n' else c) :: uniformLineEnds cs

/-- The characters that end a line on the screen. -/
def isLineEnd (c : Char) : Bool :=
  c ∈ ['\n', '\r', '\x0b', '\x0c', '\x1c', '\x1d', '\x1e', '\u0085', '\u2028', '\u2029']

/-- The lines of a text without their ends. -/
def lines : List Char → List (List Char)
  | [] => []
  | '\r' :: '\n' :: cs => [] :: lines cs
  | c :: cs =>
    if isLineEnd c then [] :: lines cs
    else match lines cs with
      | [] => [[c]]
      | l :: ls => (c :: l) :: ls

example : lines ['a', '\n', '\n', 'b'] = [['a'], [], ['b']] := by decide
example : lines ['a', '\n'] = [['a']] ∧ lines ['\n'] = [[]] := by decide

end CMinusMinus.Text
