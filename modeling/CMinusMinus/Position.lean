/-!
# Positions and spans

Lines and columns count from one; a column is one code point wide, whatever the code point.  A
span runs from its start up to, and not including, its end.
-/

namespace CMinusMinus

/-- A place in a text. -/
structure Position where
  line : Nat
  column : Nat
  deriving DecidableEq, Repr

namespace Position

/-- Where a text begins. -/
def start : Position := ⟨1, 1⟩

/-- The place after a character. -/
def advance (p : Position) (c : Char) : Position :=
  if c = '\n' then ⟨p.line + 1, 1⟩ else ⟨p.line, p.column + 1⟩

/-- The place after a text. -/
def after (p : Position) (cs : List Char) : Position := cs.foldl advance p

@[simp] theorem after_nil (p : Position) : p.after [] = p := rfl

@[simp] theorem after_cons (p : Position) (c : Char) (cs : List Char) :
    p.after (c :: cs) = (p.advance c).after cs := rfl

theorem after_append (p : Position) (cs ds : List Char) :
    p.after (cs ++ ds) = (p.after cs).after ds := List.foldl_append

/-- The order of reading. -/
def before (p q : Position) : Bool :=
  decide (p.line < q.line) || (p.line == q.line && decide (p.column < q.column))

end Position

/-- A stretch of a text. -/
structure Span where
  startLine : Nat
  startColumn : Nat
  endLine : Nat
  endColumn : Nat
  deriving DecidableEq, Repr

namespace Span

/-- The stretch of no character at a place. -/
def empty (p : Position) : Span := ⟨p.line, p.column, p.line, p.column⟩

/-- Where a stretch begins. -/
def start (s : Span) : Position := ⟨s.startLine, s.startColumn⟩

/-- The stretch of `width` characters at a place, all on its line. -/
def of (p : Position) (width : Nat) : Span := ⟨p.line, p.column, p.line, p.column + width⟩

end Span

end CMinusMinus
