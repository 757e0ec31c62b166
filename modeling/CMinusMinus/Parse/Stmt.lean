import CMinusMinus.Parse.Exp
import CMinusMinus.Parse.VarDecl

/-!
# Reading statements

A statement that begins with a keyword is known by it.  Any other begins with an expression: a
location before `++` or `--`, or else an assignment or a call.
-/

namespace CMinusMinus.Parse

open Cursor

/-- The statement that a mark makes of a location. -/
def stepOp? (t : Token) : Option (Option Span → Exp → Stmt) :=
  match t.kind with
  | .mark .plusPlus => some .increment
  | .mark .minusMinus => some .decrement
  | _ => none

/-- The statement that an expression with the given span and its semicolon is. -/
def stmtOfExp? (span : Span) : Exp → Option Stmt
  | e@(.assign ..) => some (.assign (some span) e)
  | e@(.call ..) => some (.call (some span) e)
  | _ => none

/-- A statement that begins with an expression. -/
def expStmt (c : Cursor) : Reading Stmt c.size := do
  let ⟨e, c₁, h₁⟩ ← exp c
  match c₁.takeIf? stepOp? with
  | some ⟨(op, _), c₂, h₂⟩ =>
    if e.isLocation then
      let ⟨_, c₃, h₃⟩ ← c₂.expect .statementEnd
      return ⟨op (some (c₃.since c.here)) e, c₃, shorter₃ h₁ h₂ h₃⟩
    else c₁.refuse .stepTarget
  | none =>
    let ⟨semi, c₂, h₂⟩ ← c₁.expect .statementEnd
    match stmtOfExp? (c₂.since c.here) e with
    | some s => return ⟨s, c₂, shorter₂ h₁ h₂⟩
    | none => .error ⟨.idleExp, semi⟩

/-- What is left of an input statement after `cin`, which stood at `start`. -/
def readStmt (start : Position) (c : Cursor) : Reading Stmt c.size := do
  let ⟨_, c₁, h₁⟩ ← c.expect .readArrow
  let ⟨loc, c₂, h₂⟩ ← location c₁
  let ⟨_, c₃, h₃⟩ ← c₂.expect .readEnd
  return ⟨.read (some (c₃.since start)) loc, c₃, shorter₃ h₁ h₂ h₃⟩

/-- What is left of an output statement after `cout`, which stood at `start`. -/
def writeStmt (start : Position) (c : Cursor) : Reading Stmt c.size := do
  let ⟨_, c₁, h₁⟩ ← c.expect .writeArrow
  let ⟨e, c₂, h₂⟩ ← exp c₁
  let ⟨_, c₃, h₃⟩ ← c₂.expect .writeEnd
  return ⟨.write (some (c₃.since start)) e, c₃, shorter₃ h₁ h₂ h₃⟩

/-- What is left of a return statement after `return`, which stood at `start`. -/
def returnStmt (start : Position) (c : Cursor) : Reading Stmt c.size :=
  match c.take? (.mark .semi) with
  | some ⟨_, c₁, h₁⟩ => .ok ⟨.return (some (c₁.since start)) none, c₁, h₁⟩
  | none => do
    let ⟨e, c₁, h₁⟩ ← exp c
    let ⟨_, c₂, h₂⟩ ← c₁.expect .returnEnd
    return ⟨.return (some (c₂.since start)) (some e), c₂, shorter₂ h₁ h₂⟩

/-- A condition in its parentheses, after the given keyword. -/
def condition (keyword : Keyword) (c : Cursor) : Reading Exp c.size := do
  let ⟨_, c₁, h₁⟩ ← c.expect (.conditionStart keyword)
  let ⟨e, c₂, h₂⟩ ← exp c₁
  let ⟨_, c₃, h₃⟩ ← c₂.expect .conditionEnd
  return ⟨e, c₃, shorter₃ h₁ h₂ h₃⟩

mutual

/-- A statement. -/
def stmt (c : Cursor) : Reading Stmt c.size :=
  match c.take? (.keyword .cin) with
  | some ⟨_, c₁, h₁⟩ => do
    let ⟨s, c₂, h₂⟩ ← readStmt c.here c₁
    return ⟨s, c₂, shorter₂ h₁ h₂⟩
  | none =>
    match c.take? (.keyword .cout) with
    | some ⟨_, c₁, h₁⟩ => do
      let ⟨s, c₂, h₂⟩ ← writeStmt c.here c₁
      return ⟨s, c₂, shorter₂ h₁ h₂⟩
    | none =>
      match c.take? (.keyword .if) with
      | some ⟨_, c₁, h₁⟩ => do
        let ⟨s, c₂, h₂⟩ ← ifStmt c.here c₁
        return ⟨s, c₂, shorter₂ h₁ h₂⟩
      | none =>
        match c.take? (.keyword .while) with
        | some ⟨_, c₁, h₁⟩ => do
          let ⟨cond, c₂, h₂⟩ ← condition .while c₁
          let ⟨body, c₃, h₃⟩ ← block .loopStart c₂
          return ⟨.while (some (c₃.since c.here)) cond body, c₃, shorter₃ h₁ h₂ h₃⟩
        | none =>
          match c.take? (.keyword .return) with
          | some ⟨_, c₁, h₁⟩ => do
            let ⟨s, c₂, h₂⟩ ← returnStmt c.here c₁
            return ⟨s, c₂, shorter₂ h₁ h₂⟩
          | none => expStmt c
termination_by 2 * c.size

/-- What is left of an if statement after `if`, which stood at `start`. -/
def ifStmt (start : Position) (c : Cursor) : Reading Stmt c.size := do
  let ⟨cond, c₁, h₁⟩ ← condition .if c
  let ⟨yes, c₂, h₂⟩ ← block .thenStart c₁
  match c₂.take? (.keyword .else) with
  | some ⟨_, c₃, h₃⟩ =>
    let ⟨no, c₄, h₄⟩ ← block .elseStart c₃
    return ⟨.ifElse (some (c₄.since start)) cond yes no, c₄, shorter₄ h₁ h₂ h₃ h₄⟩
  | none => return ⟨.ifThen (some (c₂.since start)) cond yes, c₂, shorter₂ h₁ h₂⟩
termination_by 2 * c.size

/-- Declarations and statements in braces. -/
def block (wanted : Wanted) (c : Cursor) : Reading (Block Stmt) c.size := do
  let ⟨_, c₁, h₁⟩ ← c.expect wanted
  let ⟨decls, c₂, h₂⟩ ← varDecls c₁
  let ⟨(ss, span), c₃, h₃⟩ ← stmts c₂.here c₂
  return ⟨⟨decls, some span, ss⟩, c₃, by omega⟩
termination_by 2 * c.size

/-- The statements from here on, the first of which stands at `start`, and their span, up to the
brace that ends them. -/
def stmts (start : Position) (c : Cursor) : Reading (List Stmt × Span) c.size :=
  match c.take? (.mark .rightCurly) with
  | some ⟨_, c₁, h₁⟩ => .ok ⟨([], c.since start), c₁, h₁⟩
  | none =>
    if c.rest.isEmpty then c.refuse .unclosedBlock
    else if beginsDecl c.peek then c.refuse .lateDecl
    else do
      let ⟨s, c₁, h₁⟩ ← stmt c
      let ⟨(ss, span), c₂, h₂⟩ ← stmts start c₁
      return ⟨(s :: ss, span), c₂, shorter₂ h₁ h₂⟩
termination_by 2 * c.size + 1

end

end CMinusMinus.Parse
