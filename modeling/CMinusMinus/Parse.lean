import CMinusMinus.Parse.Program

/-!
# Reading source text

A source text is scanned, and its tokens are read as a program.
-/

namespace CMinusMinus

/-- Why a source text is no program. -/
inductive ParseError where
  /-- It cannot be cut into tokens. -/
  | scan (e : ScanError)
  /-- Its tokens are no program. -/
  | syntactic (e : SyntaxError)

/-- The program of a source text. -/
def Program.parse (file : Option String) (source : String) : Except ParseError Program :=
  match Token.scan source with
  | .error e => .error (.scan e)
  | .ok tokens =>
    match Program.ofTokens tokens with
    | .error e => .error (.syntactic e)
    | .ok p => .ok { p with filename := file }

end CMinusMinus
