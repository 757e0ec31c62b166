import CMinusMinus.Parse.Stmt
import CMinusMinus.Token.Scan

/-!
# Reading programs

At the top of a program, what is declared shows in the third token of the declaration: a brace
makes it a struct, a parenthesis a function, and anything else a variable.
-/

namespace CMinusMinus

namespace Parse

open Cursor

/-- A struct. -/
def structDecl (c : Cursor) : Reading StructDecl c.size :=
  match c.take? (.keyword .struct) with
  | none => c.refuse .topLevel
  | some ⟨_, c₁, h₁⟩ => do
    let ⟨name, c₂, h₂⟩ ← c₁.ident .definedName
    let ⟨_, c₃, h₃⟩ ← c₂.expect .fieldsStart
    let ⟨fields, c₄, h₄⟩ ← varDecls c₃
    if fields.items.isEmpty then c₄.refuse .noFields
    else
      let ⟨_, c₅, h₅⟩ ← c₄.expect .fieldsEnd
      let ⟨_, c₆, h₆⟩ ← c₅.expect .structEnd
      have h₃ := shorter₃ h₁ h₂ h₃
      have h₄ := shorter_of_succ h₃ h₄
      return ⟨⟨some (c₆.since c.here), name, fields⟩, c₆, shorter₃ h₄ h₅ h₆⟩

/-- A function. -/
def fnDecl (c : Cursor) : Reading FnDecl c.size := do
  let ⟨returns, c₁, h₁⟩ ← wordType c
  let ⟨name, c₂, h₂⟩ ← c₁.ident .functionName
  let ⟨formals, c₃, h₃⟩ ← formals c₂
  let ⟨body, c₄, h₄⟩ ← block .bodyStart c₃
  return ⟨{ span := some (c₄.since c.here), returns, name, formals,
            bodySpan := some (c₄.since c₃.here), body }, c₄, shorter₄ h₁ h₂ h₃ h₄⟩

/-- A declaration at the top of a program. -/
def decl (c : Cursor) : Reading Decl c.size :=
  if c.peek.kind = .keyword .struct ∧ (c.peekAt 2).kind = .mark .leftCurly then do
    let ⟨d, c₁, h₁⟩ ← structDecl c
    return ⟨.struct d, c₁, h₁⟩
  else if (wordType? c.peek).isSome ∧ (c.peekAt 2).kind = .mark .leftParen then do
    let ⟨d, c₁, h₁⟩ ← fnDecl c
    return ⟨.fn d, c₁, h₁⟩
  else if beginsDecl c.peek then do
    let ⟨d, c₁, h₁⟩ ← varDecl c
    return ⟨.var d, c₁, h₁⟩
  else c.refuse .topLevel

/-- The declarations from here to the end. -/
def decls (c : Cursor) : Reading (List Decl) (c.size + 1) :=
  if c.rest.isEmpty then .ok ⟨[], c, Nat.lt_succ_self _⟩
  else do
    let ⟨d, c₁, h₁⟩ ← decl c
    let ⟨ds, c₂, h₂⟩ ← decls c₁
    return ⟨d :: ds, c₂, shorter_succ h₁ h₂⟩
termination_by c.size

/-- The program of the given tokens before the end of the text. -/
def program (tokens : List Token) (eof : Token) : Except SyntaxError Program := do
  let c := Cursor.ofTokens tokens eof
  let ⟨ds, c₁, _⟩ ← decls c
  let span := some (c₁.since c.here)
  return { span, declsSpan := span, decls := ds }

end Parse

/-- The program of the tokens of a text, the last of which is its end. -/
def Program.ofTokens (tokens : List Token) : Except SyntaxError Program :=
  match tokens.getLast? with
  | some eof => Parse.program tokens.dropLast eof
  | none => Parse.program [] ⟨.eof, "", 1, 1⟩

end CMinusMinus
