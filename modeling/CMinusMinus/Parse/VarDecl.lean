import CMinusMinus.Parse.Cursor

/-!
# Reading declarations of variables

A variable is declared by its type and its name.  The type of a formal is a word type; a
variable or a field may also be of a struct.
-/

namespace CMinusMinus.Parse

open Cursor

/-- The word type that a token names, given the span of the token. -/
def wordType? (t : Token) : Option (Option Span → TypeNode) :=
  match t.kind with
  | .keyword .int => some .int
  | .keyword .bool => some .bool
  | .keyword .void => some .void
  | _ => none

/-- A word type. -/
def wordType (c : Cursor) : Reading TypeNode c.size :=
  match c.takeIf? wordType? with
  | some ⟨(node, _), c₁, h₁⟩ => .ok ⟨node (some (c₁.since c.here)), c₁, h₁⟩
  | none => c.refuse .typeName

/-- The type of a variable: `struct` and the name of one, or a word type. -/
def varType (c : Cursor) : Reading TypeNode c.size :=
  match c.take? (.keyword .struct) with
  | some ⟨_, c₁, h₁⟩ => do
    let ⟨x, c₂, h₂⟩ ← c₁.ident .structName
    return ⟨.struct (some (c₂.since c.here)) x, c₂, shorter₂ h₁ h₂⟩
  | none => wordType c

/-- A variable or a field. -/
def varDecl (c : Cursor) : Reading VarDecl c.size := do
  let ⟨type, c₁, h₁⟩ ← varType c
  let ⟨name, c₂, h₂⟩ ← c₁.ident .variableName
  let ⟨_, c₃, h₃⟩ ← c₂.expect .variableEnd
  return ⟨⟨.variable, some (c₃.since c.here), type, name⟩, c₃, shorter₃ h₁ h₂ h₃⟩

/-- Whether a token begins a declaration. -/
def beginsDecl (t : Token) : Bool := t.kind = .keyword .struct || (wordType? t).isSome

/-- The variables declared from here on. -/
def varDeclItems (c : Cursor) : Reading (List VarDecl) (c.size + 1) :=
  if beginsDecl c.peek then do
    let ⟨d, c₁, h₁⟩ ← varDecl c
    let ⟨ds, c₂, h₂⟩ ← varDeclItems c₁
    return ⟨d :: ds, c₂, shorter_succ h₁ h₂⟩
  else .ok ⟨[], c, Nat.lt_succ_self _⟩
termination_by c.size

/-- Any number of variables or fields. -/
def varDecls (c : Cursor) : Reading VarDecls (c.size + 1) := do
  let ⟨ds, c₁, h₁⟩ ← varDeclItems c
  return ⟨⟨some (c₁.since c.here), ds⟩, c₁, h₁⟩

/-- One or more formals and the parenthesis that ends them. -/
def formalItems (c : Cursor) : Reading (List VarDecl) c.size := do
  let ⟨type, c₁, h₁⟩ ← wordType c
  let ⟨name, c₂, h₂⟩ ← c₁.ident .formalName
  let d : VarDecl := ⟨.formal, some (c₂.since c.here), type, name⟩
  match c₂.take? (.mark .comma) with
  | some ⟨_, c₃, h₃⟩ =>
    let ⟨ds, c₄, h₄⟩ ← formalItems c₃
    return ⟨d :: ds, c₄, shorter₄ h₁ h₂ h₃ h₄⟩
  | none =>
    let ⟨_, c₃, h₃⟩ ← c₂.expect .formalsEnd
    return ⟨[d], c₃, shorter₃ h₁ h₂ h₃⟩
termination_by c.size

/-- The formals of a function in their parentheses. -/
def formals (c : Cursor) : Reading VarDecls c.size := do
  let ⟨_, c₁, h₁⟩ ← c.expect .formalsStart
  match c₁.take? (.mark .rightParen) with
  | some ⟨_, c₂, h₂⟩ => return ⟨⟨some (c₂.since c.here), []⟩, c₂, shorter₂ h₁ h₂⟩
  | none =>
    let ⟨ds, c₂, h₂⟩ ← formalItems c₁
    return ⟨⟨some (c₂.since c.here), ds⟩, c₂, shorter₂ h₁ h₂⟩

end CMinusMinus.Parse
