import CMinusMinus.Syntax
import CMinusMinus.Text.Quoted

/-!
# Outlines of trees

An outline shows a tree node by node.  The line of a node has the node's kind, its values that
are no nodes themselves, and its span, as in `IdNode(name='x') @1:5-1:6`.  Each part follows on a
line of its own, one step deeper, and the nodes of the part two steps deeper.  Empty parts and
unset values are left out, and so are annotations.
-/

namespace CMinusMinus

namespace Outline

/-- Two spaces for each step. -/
def pad (depth : Nat) : String := String.ofList (List.replicate (2 * depth) ' ')

/-- How a span is shown after a node, if the node has one. -/
def spanned : Option Span → String
  | none => ""
  | some s =>
    " @" ++ toString s.startLine ++ ":" ++ toString s.startColumn ++ "-" ++ toString s.endLine
      ++ ":" ++ toString s.endColumn

/-- The line of a node. -/
def node (depth : Nat) (kind : String) (span : Option Span) : String :=
  pad depth ++ kind ++ spanned span

/-- The line of a node with one value. -/
def valued (depth : Nat) (kind name value : String) (span : Option Span) : String :=
  pad depth ++ kind ++ "(" ++ name ++ "=" ++ value ++ ")" ++ spanned span

/-- A part of the node at the given depth: its name above its lines, which are two steps deeper.
A part without lines is left out. -/
def part (depth : Nat) (name : String) (lines : List String) : List String :=
  if lines.isEmpty then [] else (pad (depth + 1) ++ name ++ ":") :: lines

end Outline

open Outline (node valued part)

/-! ## Expressions -/

/-- The outline of an identifier. -/
def Ident.outline (depth : Nat) (x : Ident) : List String :=
  [valued depth "IdNode" "name" (Text.quoted x.name) x.info.span]

/-- The outline of a list of expressions as a node, from the outlines of the expressions. -/
def Outline.exps (depth : Nat) (span : Option Span) (items : List String) : List String :=
  node depth "ExpList" span :: part depth "exps" items

mutual

/-- The outline of an expression. -/
def Exp.outline (depth : Nat) : Exp → List String
  | .int i v => [valued depth "IntLit" "value" (toString v) i.span]
  | .string i s => [valued depth "StringLit" "value" (Text.quoted s) i.span]
  | .bool i b => [node depth (Exp.bool i b).kind i.span]
  | .ident x => x.outline depth
  | .access i _ loc f =>
    node depth "DotAccessExp" i.span :: part depth "loc" (loc.outline (depth + 2))
      ++ part depth "id" (f.outline (depth + 2))
  | .assign i l r =>
    node depth "AssignExp" i.span :: part depth "lhs" (l.outline (depth + 2))
      ++ part depth "rhs" (r.outline (depth + 2))
  | .call i f s args =>
    node depth "CallExp" i.span :: part depth "id" (f.outline (depth + 2))
      ++ part depth "args" (Outline.exps (depth + 2) s (Exp.outlines (depth + 4) args))
  | .neg i e => node depth "UnaryMinusExp" i.span :: part depth "exp" (e.outline (depth + 2))
  | .not i e => node depth "NotExp" i.span :: part depth "exp" (e.outline (depth + 2))
  | .binary i op l r =>
    valued depth "BinaryExp" "op" (Text.quoted op.text) i.span
      :: part depth "left" (l.outline (depth + 2)) ++ part depth "right" (r.outline (depth + 2))
  | .unknown i => [node depth "Exp" i.span]
termination_by structural e => e

/-- The outlines of expressions, one after another. -/
def Exp.outlines (depth : Nat) : List Exp → List String
  | [] => []
  | e :: es => e.outline depth ++ Exp.outlines depth es
termination_by structural es => es

end

/-! ## Declarations of variables -/

/-- The outline of a type. -/
def TypeNode.outline (depth : Nat) : TypeNode → List String
  | .struct s x => node depth "StructTypeNode" s :: part depth "id" (x.outline (depth + 2))
  | t => [node depth t.kind t.span]

/-- The outline of a variable, field or formal. -/
def VarDecl.outline (depth : Nat) (d : VarDecl) : List String :=
  node depth d.kind d.span :: part depth "type" (d.type.outline (depth + 2))
    ++ part depth "id" (d.name.outline (depth + 2))

/-- The outline of a list of declarations, from the outlines of the declarations. -/
def Outline.decls (depth : Nat) (span : Option Span) (items : List String) : List String :=
  node depth "DeclList" span :: part depth "decls" items

/-- The outline of a list of variables or fields. -/
def VarDecls.outline (depth : Nat) (ds : VarDecls) : List String :=
  Outline.decls depth ds.span (ds.items.flatMap (VarDecl.outline (depth + 2)))

/-- The outline of a list of formals. -/
def VarDecls.formalsOutline (depth : Nat) (ds : VarDecls) : List String :=
  node depth "FormalsList" ds.span
    :: part depth "formals" (ds.items.flatMap (VarDecl.outline (depth + 2)))

/-! ## Statements -/

/-- The outline of a list of statements, from the outlines of the statements. -/
def Outline.stmts (depth : Nat) (span : Option Span) (items : List String) : List String :=
  node depth "StmtList" span :: part depth "stmts" items

mutual

/-- The outline of a statement. -/
def Stmt.outline (depth : Nat) : Stmt → List String
  | .assign s e => node depth "AssignStmt" s :: part depth "assign" (e.outline (depth + 2))
  | .increment s e => node depth "PostIncStmt" s :: part depth "exp" (e.outline (depth + 2))
  | .decrement s e => node depth "PostDecStmt" s :: part depth "exp" (e.outline (depth + 2))
  | .read s e => node depth "ReadStmt" s :: part depth "exp" (e.outline (depth + 2))
  | .write s e => node depth "WriteStmt" s :: part depth "exp" (e.outline (depth + 2))
  | .ifThen s e b =>
    node depth "IfStmt" s :: part depth "exp" (e.outline (depth + 2))
      ++ Stmt.blockOutline depth "decl_list" "stmt_list" b
  | .ifElse s e b₁ b₂ =>
    node depth "IfElseStmt" s :: part depth "exp" (e.outline (depth + 2))
      ++ Stmt.blockOutline depth "then_decls" "then_stmts" b₁
      ++ Stmt.blockOutline depth "else_decls" "else_stmts" b₂
  | .while s e b =>
    node depth "WhileStmt" s :: part depth "exp" (e.outline (depth + 2))
      ++ Stmt.blockOutline depth "decl_list" "stmt_list" b
  | .call s e => node depth "CallStmt" s :: part depth "call" (e.outline (depth + 2))
  | .return s none => [node depth "ReturnStmt" s]
  | .return s (some e) => node depth "ReturnStmt" s :: part depth "exp" (e.outline (depth + 2))
  | .unknown s => [node depth "Stmt" s]
termination_by structural s => s

/-- The two parts that a block is of the node at the given depth. -/
def Stmt.blockOutline (depth : Nat) (declsName stmtsName : String) : Block Stmt → List String
  | ⟨decls, span, ss⟩ =>
    part depth declsName (decls.outline (depth + 2))
      ++ part depth stmtsName (Outline.stmts (depth + 2) span (Stmt.outlines (depth + 4) ss))
termination_by structural b => b

/-- The outlines of statements, one after another. -/
def Stmt.outlines (depth : Nat) : List Stmt → List String
  | [] => []
  | s :: ss => s.outline depth ++ Stmt.outlines depth ss
termination_by structural ss => ss

end

/-! ## Programs -/

/-- The outline of the body of a function. -/
def Outline.body (depth : Nat) (span : Option Span) (b : Block Stmt) : List String :=
  node depth "FnBody" span :: Stmt.blockOutline depth "decl_list" "stmt_list" b

/-- The outline of a declaration at the top of a program. -/
def Decl.outline (depth : Nat) : Decl → List String
  | .var d => d.outline depth
  | .fn d =>
    node depth "FnDecl" d.span :: part depth "return_type" (d.returns.outline (depth + 2))
      ++ part depth "id" (d.name.outline (depth + 2))
      ++ part depth "formals" (d.formals.formalsOutline (depth + 2))
      ++ part depth "body" (Outline.body (depth + 2) d.bodySpan d.body)
  | .struct d =>
    node depth "StructDecl" d.span :: part depth "id" (d.name.outline (depth + 2))
      ++ part depth "decl_list" (d.fields.outline (depth + 2))
  | .unknown s => [node depth "Decl" s]

/-- The outline of a program. -/
def Program.outline (depth : Nat) (p : Program) : List String :=
  (match p.filename with
    | none => node depth "Program" p.span
    | some f => valued depth "Program" "filename" (Text.quoted f) p.span)
    :: part depth "decl_list"
      (Outline.decls (depth + 2) p.declsSpan (p.decls.flatMap (Decl.outline (depth + 4))))

end CMinusMinus
