import CMinusMinus.Syntax
import CMinusMinus.Syntax.Error

/-!
# Reading tokens

A *cursor* stands between two tokens.  A reader takes a cursor and returns what it read with the
cursor after it, and with a proof that it took some token, so that readers may call each other
without end only as long as there are tokens.

The span of what was read begins where the first of its tokens does and ends with the text of
the last one.
-/

namespace CMinusMinus

/-- A place among tokens: the tokens to come up to the end of the text, which is a token of its
own, and the token that was taken last, or else the first. -/
structure Cursor where
  last : Token
  rest : List Token
  eof : Token

namespace Cursor

/-- The cursor before the tokens of a text, the last of which is its end. -/
def ofTokens (tokens : List Token) (eof : Token) : Cursor :=
  ⟨tokens.headD eof, tokens, eof⟩

/-- The number of tokens to come. -/
def size (c : Cursor) : Nat := c.rest.length

/-- The token that comes after the next `n`. -/
def peekAt (c : Cursor) (n : Nat) : Token := (c.rest.drop n).headD c.eof

/-- The next token. -/
def peek (c : Cursor) : Token := c.rest.headD c.eof

/-- Where the next token begins. -/
def here (c : Cursor) : Position := c.peek.position

/-- The span of what was read since the given place. -/
def since (c : Cursor) (start : Position) : Span :=
  if c.last.position.before start then Span.empty start
  else ⟨start.line, start.column, c.last.line, c.last.column + c.last.text.length⟩

end Cursor

/-! ## Fewer tokens

What readers take one after another leaves fewer tokens to come. -/

namespace Cursor

variable {c c₁ c₂ c₃ c₄ : Cursor}

theorem shorter₂ (h₁ : c₁.size < c.size) (h₂ : c₂.size < c₁.size) : c₂.size < c.size :=
  Nat.lt_trans h₂ h₁

theorem shorter₃ (h₁ : c₁.size < c.size) (h₂ : c₂.size < c₁.size) (h₃ : c₃.size < c₂.size) :
    c₃.size < c.size :=
  shorter₂ (shorter₂ h₁ h₂) h₃

theorem shorter₄ (h₁ : c₁.size < c.size) (h₂ : c₂.size < c₁.size) (h₃ : c₃.size < c₂.size)
    (h₄ : c₄.size < c₃.size) : c₄.size < c.size :=
  shorter₂ (shorter₃ h₁ h₂ h₃) h₄

theorem shorter_of_succ (h₁ : c₁.size < c.size) (h₂ : c₂.size < c₁.size + 1) :
    c₂.size < c.size :=
  Nat.lt_of_le_of_lt (Nat.le_of_lt_succ h₂) h₁

theorem shorter_succ (h₁ : c₁.size < c.size) (h₂ : c₂.size < c₁.size + 1) :
    c₂.size < c.size + 1 :=
  Nat.lt_succ_of_lt (shorter_of_succ h₁ h₂)

end Cursor

/-! ## Readers -/

/-- What was read, and the cursor after it, with fewer than `n` tokens to come. -/
structure Read (α : Type) (n : Nat) where
  value : α
  next : Cursor
  shorter : next.size < n

/-- A reader's answer. -/
abbrev Reading (α : Type) (n : Nat) := Except SyntaxError (Read α n)

namespace Cursor

/-- Refuses the next token. -/
def refuse {α : Type} (c : Cursor) (cause : SyntaxCause) : Except SyntaxError α :=
  .error ⟨cause, c.peek⟩

/-- Takes the next token if it passes a test. -/
def takeIf? {α : Type} (c : Cursor) (test : Token → Option α) : Option (Read (α × Token) c.size) :=
  match _h : c.rest with
  | [] => none
  | t :: ts => (test t).map fun a => ⟨(a, t), { c with last := t, rest := ts }, by simp [size, _h]⟩

/-- Takes the next token if it is of the given kind. -/
def take? (c : Cursor) (kind : TokenKind) : Option (Read Token c.size) :=
  match _h : c.rest with
  | [] => none
  | t :: ts =>
    if t.kind = kind then some ⟨t, { c with last := t, rest := ts }, by simp [size, _h]⟩ else none

/-- Takes the next token, which has to be as wanted. -/
def expect (c : Cursor) (wanted : Wanted) : Reading Token c.size :=
  match c.take? wanted.kind with
  | some r => .ok r
  | none => c.refuse (.expected wanted)

/-- The identifier that a token is. -/
def identOf (t : Token) : Ident := { name := t.text, info := { span := some t.span } }

/-- Takes a name. -/
def ident (c : Cursor) (wanted : Wanted) : Reading Ident c.size := do
  let ⟨t, c₁, h⟩ ← c.expect wanted
  return ⟨identOf t, c₁, h⟩

end Cursor

end CMinusMinus
