import CMinusMinus.Fault
import CMinusMinus.Frame
import CMinusMinus.Symbol

/-!
# Syntax trees

A program is a list of declarations: variables, functions and structs.  Bodies are blocks,
declarations before statements.

Each node has a span.  Three kinds of *annotation* are left empty by reading and filled in later:
name resolution binds identifiers, links field accesses to structs and lays out the frames of
functions; type checking records the types of expressions.  Annotations are part of the tree, so
a pass is a function from trees to trees.

Every category has a node of unknown kind.  No text is read as one; it stands for whatever a
tree that was built by hand may hold, and each pass says what it does with it.
-/

namespace CMinusMinus

/-- What an expression node carries: its span, and its type once that is recorded. -/
structure Info where
  span : Option Span := none
  type : Option Ty := none

/-! ## Identifiers -/

/-- What name resolution found out about an identifier. -/
inductive Binding where
  /-- Nothing yet. -/
  | pending
  | bound (symbol : Symbol)
  /-- Nothing to bind it to, which was reported. -/
  | unresolved

/-- The symbol of a bound identifier. -/
def Binding.symbol? : Binding → Option Symbol
  | .bound s => some s
  | _ => none

/-- A use or a declaration of a name. -/
structure Ident where
  name : String
  info : Info := {}
  binding : Binding := .pending

/-- What name resolution found out about a field access: the struct that has the field, the
struct that the field is of, and whether some link of the chain up to here failed. -/
structure FieldLink where
  owner : Option StructDef := none
  target : Option StructDef := none
  bad : Bool := false

/-! ## Expressions -/

/-- Operators between two expressions. -/
inductive BinOp where
  | add | sub | mul | div
  | and | or
  | less | greater | lessEq | greaterEq
  | equal | notEqual
  /-- No operator of the language. -/
  | other (text : String)
  deriving DecidableEq, Repr

namespace BinOp

/-- How the operator is spelled. -/
def text : BinOp → String
  | .add => "+"
  | .sub => "-"
  | .mul => "*"
  | .div => "/"
  | .and => "&&"
  | .or => "||"
  | .less => "<"
  | .greater => ">"
  | .lessEq => "<="
  | .greaterEq => ">="
  | .equal => "=="
  | .notEqual => "!="
  | .other text => text

/-- The operators of the language. -/
def all : List BinOp :=
  [.add, .sub, .mul, .div, .and, .or, .less, .greater, .lessEq, .greaterEq, .equal, .notEqual]

/-- The operator of a spelling. -/
def ofText (text : String) : BinOp := (all.find? (·.text == text)).getD (.other text)

end BinOp

/-- Expressions. -/
inductive Exp where
  | int (info : Info) (value : Int)
  /-- A string literal; its text has its escapes as they were written. -/
  | string (info : Info) (text : String)
  | bool (info : Info) (value : Bool)
  | ident (x : Ident)
  | access (info : Info) (link : FieldLink) (loc : Exp) (field : Ident)
  | assign (info : Info) (lhs rhs : Exp)
  | call (info : Info) (callee : Ident) (argsSpan : Option Span) (args : List Exp)
  | neg (info : Info) (operand : Exp)
  | not (info : Info) (operand : Exp)
  | binary (info : Info) (op : BinOp) (left right : Exp)
  | unknown (info : Info)

namespace Exp

/-- What the expression's node carries. -/
def info : Exp → Info
  | .int i _ | .string i _ | .bool i _ | .access i _ _ _ | .assign i _ _ | .call i _ _ _
  | .neg i _ | .not i _ | .binary i _ _ _ | .unknown i => i
  | .ident x => x.info

/-- The stretch of text an expression was read from. -/
def span (e : Exp) : Option Span := e.info.span

/-- The same expression carrying something else. -/
def withInfo (i : Info) : Exp → Exp
  | .int _ v => .int i v
  | .string _ s => .string i s
  | .bool _ b => .bool i b
  | .ident x => .ident { x with info := i }
  | .access _ l loc f => .access i l loc f
  | .assign _ l r => .assign i l r
  | .call _ f sp args => .call i f sp args
  | .neg _ e => .neg i e
  | .not _ e => .not i e
  | .binary _ op l r => .binary i op l r
  | .unknown _ => .unknown i

/-- The same expression with its type recorded. -/
def record (t : Ty) (e : Exp) : Exp := e.withInfo { e.info with type := some t }

/-- The name of the kind of node, in outlines and reports. -/
def kind : Exp → String
  | .int .. => "IntLit"
  | .string .. => "StringLit"
  | .bool _ true => "TrueLit"
  | .bool _ false => "FalseLit"
  | .ident _ => "IdNode"
  | .access .. => "DotAccessExp"
  | .assign .. => "AssignExp"
  | .call .. => "CallExp"
  | .neg .. => "UnaryMinusExp"
  | .not .. => "NotExp"
  | .binary .. => "BinaryExp"
  | .unknown _ => "Exp"

/-- Whether the expression has the form of a location: a variable or a field. -/
def isLocation : Exp → Bool
  | .ident _ | .access .. => true
  | _ => false

/-- The leaf whose span tells where an expression is, in diagnostics about it: the leftmost one
of an operator or assignment, the name of a field or function in an access or call. -/
def anchor : Exp → Exp
  | .binary _ _ l _ => l.anchor
  | .assign _ l _ => l.anchor
  | .neg _ e => e.anchor
  | .not _ e => e.anchor
  | .access _ _ _ f => .ident f
  | .call _ f _ _ => .ident f
  | e => e

end Exp

/-! ## Declarations of variables -/

/-- Types as they are written. -/
inductive TypeNode where
  | int (span : Option Span)
  | bool (span : Option Span)
  | void (span : Option Span)
  | struct (span : Option Span) (name : Ident)
  | unknown (span : Option Span)

namespace TypeNode

def span : TypeNode → Option Span
  | .int s | .bool s | .void s | .struct s _ | .unknown s => s

/-- The name of the kind of node, in outlines and reports. -/
def kind : TypeNode → String
  | .int _ => "IntTypeNode"
  | .bool _ => "BoolTypeNode"
  | .void _ => "VoidTypeNode"
  | .struct .. => "StructTypeNode"
  | .unknown _ => "TypeNode"

/-- The type that is written. -/
def type : TypeNode → Except Fault Ty
  | .int _ => .ok .int
  | .bool _ => .ok .bool
  | .void _ => .ok .void
  | .struct _ x => .ok (.struct x.name)
  | .unknown s => .error ⟨.unknownType "TypeNode", s⟩

/-- Whether the type is `void`. -/
def isVoid : TypeNode → Bool
  | .void _ => true
  | _ => false

end TypeNode

/-- What a declaration of storage declares. -/
inductive Role where
  | variable
  | formal
  deriving DecidableEq, Repr

/-- A variable, a field of a struct or a formal of a function. -/
structure VarDecl where
  role : Role
  span : Option Span
  type : TypeNode
  name : Ident

/-- The name of the kind of node, in outlines and reports. -/
def VarDecl.kind (d : VarDecl) : String :=
  match d.role with
  | .variable => "VarDecl"
  | .formal => "FormalDecl"

/-- Variables, fields or formals as they were listed. -/
structure VarDecls where
  span : Option Span := none
  items : List VarDecl

/-! ## Statements -/

/-- Declarations and then statements, over a type `σ` of statements.  `span` is that of the
statements. -/
structure Block (σ : Type) where
  decls : VarDecls
  span : Option Span := none
  stmts : List σ

/-- Statements. -/
inductive Stmt where
  | assign (span : Option Span) (e : Exp)
  | increment (span : Option Span) (loc : Exp)
  | decrement (span : Option Span) (loc : Exp)
  | read (span : Option Span) (loc : Exp)
  | write (span : Option Span) (value : Exp)
  | ifThen (span : Option Span) (cond : Exp) (body : Block Stmt)
  | ifElse (span : Option Span) (cond : Exp) (yes no : Block Stmt)
  | while (span : Option Span) (cond : Exp) (body : Block Stmt)
  | call (span : Option Span) (e : Exp)
  | return (span : Option Span) (value : Option Exp)
  | unknown (span : Option Span)

namespace Stmt

def span : Stmt → Option Span
  | .assign s _ | .increment s _ | .decrement s _ | .read s _ | .write s _ | .ifThen s _ _
  | .ifElse s _ _ _ | .while s _ _ | .call s _ | .return s _ | .unknown s => s

/-- The name of the kind of node, in outlines and reports. -/
def kind : Stmt → String
  | .assign .. => "AssignStmt"
  | .increment .. => "PostIncStmt"
  | .decrement .. => "PostDecStmt"
  | .read .. => "ReadStmt"
  | .write .. => "WriteStmt"
  | .ifThen .. => "IfStmt"
  | .ifElse .. => "IfElseStmt"
  | .while .. => "WhileStmt"
  | .call .. => "CallStmt"
  | .return .. => "ReturnStmt"
  | .unknown _ => "Stmt"

end Stmt

/-! ## Declarations -/

/-- A function.  `bodySpan` runs from brace to brace. -/
structure FnDecl where
  span : Option Span
  returns : TypeNode
  name : Ident
  formals : VarDecls
  bodySpan : Option Span
  body : Block Stmt
  frame : Option Frame := none

/-- A struct. -/
structure StructDecl where
  span : Option Span
  name : Ident
  fields : VarDecls

/-- Declarations at the top of a program. -/
inductive Decl where
  | var (d : VarDecl)
  | fn (d : FnDecl)
  | struct (d : StructDecl)
  | unknown (span : Option Span)

namespace Decl

def span : Decl → Option Span
  | .var d => d.span
  | .fn d => d.span
  | .struct d => d.span
  | .unknown s => s

/-- The name of the kind of node, in outlines and reports. -/
def kind : Decl → String
  | .var d => d.kind
  | .fn _ => "FnDecl"
  | .struct _ => "StructDecl"
  | .unknown _ => "Decl"

end Decl

/-- A program.  `declsSpan` is that of its declarations. -/
structure Program where
  span : Option Span := none
  declsSpan : Option Span := none
  decls : List Decl
  filename : Option String := none

/-- The functions of a program. -/
def Program.functions (p : Program) : List FnDecl :=
  p.decls.filterMap fun
    | .fn d => some d
    | _ => none

end CMinusMinus
