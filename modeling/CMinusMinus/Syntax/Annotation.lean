import CMinusMinus.Syntax

/-!
# Annotations of a tree

What name resolution and type checking leave in a tree can be read off its expressions, and can
be changed everywhere at once.  An `Annotator` says how each kind of annotation is changed;
applying it changes nothing else.
-/

namespace CMinusMinus

/-! ## The expressions of a tree -/

mutual

/-- An expression and the expressions in it, each before those in it, in the order of the text.
Names of functions and fields count. -/
def Exp.expressions : Exp → List Exp
  | e@(.int ..) | e@(.string ..) | e@(.bool ..) | e@(.ident _) | e@(.unknown _) => [e]
  | .access i k loc f => .access i k loc f :: loc.expressions ++ [.ident f]
  | .assign i l r => .assign i l r :: l.expressions ++ r.expressions
  | .call i f s es => .call i f s es :: .ident f :: Exp.listExpressions es
  | .neg i e => .neg i e :: e.expressions
  | .not i e => .not i e :: e.expressions
  | .binary i op l r => .binary i op l r :: l.expressions ++ r.expressions
termination_by structural e => e

/-- The expressions of a list of expressions. -/
def Exp.listExpressions : List Exp → List Exp
  | [] => []
  | e :: es => e.expressions ++ Exp.listExpressions es
termination_by structural es => es

end

/-- The names in a type. -/
def TypeNode.expressions : TypeNode → List Exp
  | .struct _ x => [.ident x]
  | _ => []

/-- The names in a declaration of a variable. -/
def VarDecl.expressions (d : VarDecl) : List Exp := d.type.expressions ++ [.ident d.name]

/-- The names in declarations of variables. -/
def VarDecls.expressions (ds : VarDecls) : List Exp := ds.items.flatMap VarDecl.expressions

mutual

/-- The expressions of a statement. -/
def Stmt.expressions : Stmt → List Exp
  | .assign _ e | .increment _ e | .decrement _ e | .read _ e | .write _ e | .call _ e =>
    e.expressions
  | .ifThen _ e b => e.expressions ++ Stmt.blockExpressions b
  | .ifElse _ e b₁ b₂ => e.expressions ++ Stmt.blockExpressions b₁ ++ Stmt.blockExpressions b₂
  | .while _ e b => e.expressions ++ Stmt.blockExpressions b
  | .return _ e => (e.map Exp.expressions).getD []
  | .unknown _ => []
termination_by structural s => s

/-- The expressions of a block. -/
def Stmt.blockExpressions : Block Stmt → List Exp
  | ⟨ds, _, ss⟩ => ds.expressions ++ Stmt.listExpressions ss
termination_by structural b => b

/-- The expressions of a list of statements. -/
def Stmt.listExpressions : List Stmt → List Exp
  | [] => []
  | s :: ss => s.expressions ++ Stmt.listExpressions ss
termination_by structural ss => ss

end

/-- The expressions of a declaration. -/
def Decl.expressions : Decl → List Exp
  | .var d => d.expressions
  | .fn d =>
    d.returns.expressions ++ .ident d.name :: d.formals.expressions ++ Stmt.blockExpressions d.body
  | .struct d => .ident d.name :: d.fields.expressions
  | .unknown _ => []

/-- The expressions of a program. -/
def Program.expressions (p : Program) : List Exp := p.decls.flatMap Decl.expressions

/-! ## Changing annotations -/

/-- How each kind of annotation is changed; what is not given stays. -/
structure Annotator where
  binding : Binding → Binding := id
  link : FieldLink → FieldLink := id
  type : Option Ty → Option Ty := id
  frame : Option Frame → Option Frame := id

namespace Annotator

/-- Makes every identifier unbound. -/
def unbind : Annotator := { binding := fun _ => .pending }

/-- Takes variables and formals out of their frames. -/
def unplace : Annotator :=
  { binding := fun
      | .bound s => .bound s.unplace
      | b => b }

/-- Forgets the structs that fields were found in. -/
def disown : Annotator := { link := fun k => { k with owner := none } }

/-- Forgets the types of expressions. -/
def untype : Annotator := { type := fun _ => none }

/-- Gives every function the same frame or none. -/
def reframe (f : Option Frame) : Annotator := { frame := fun _ => f }

end Annotator

/-- What the node carries, changed. -/
def Info.annotate (a : Annotator) (i : Info) : Info := { i with type := a.type i.type }

/-- The identifier, changed. -/
def Ident.annotate (a : Annotator) (x : Ident) : Ident :=
  { x with info := x.info.annotate a, binding := a.binding x.binding }

mutual

/-- The expression, changed everywhere. -/
def Exp.annotate (a : Annotator) : Exp → Exp
  | .int i v => .int (i.annotate a) v
  | .string i s => .string (i.annotate a) s
  | .bool i b => .bool (i.annotate a) b
  | .ident x => .ident (x.annotate a)
  | .access i k loc f => .access (i.annotate a) (a.link k) (loc.annotate a) (f.annotate a)
  | .assign i l r => .assign (i.annotate a) (l.annotate a) (r.annotate a)
  | .call i f s es => .call (i.annotate a) (f.annotate a) s (Exp.annotateAll a es)
  | .neg i e => .neg (i.annotate a) (e.annotate a)
  | .not i e => .not (i.annotate a) (e.annotate a)
  | .binary i op l r => .binary (i.annotate a) op (l.annotate a) (r.annotate a)
  | .unknown i => .unknown (i.annotate a)
termination_by structural e => e

/-- The expressions, changed everywhere. -/
def Exp.annotateAll (a : Annotator) : List Exp → List Exp
  | [] => []
  | e :: es => e.annotate a :: Exp.annotateAll a es
termination_by structural es => es

end

/-- The type, changed everywhere. -/
def TypeNode.annotate (a : Annotator) : TypeNode → TypeNode
  | .struct s x => .struct s (x.annotate a)
  | t => t

/-- The declaration, changed everywhere. -/
def VarDecl.annotate (a : Annotator) (d : VarDecl) : VarDecl :=
  { d with type := d.type.annotate a, name := d.name.annotate a }

/-- The declarations, changed everywhere. -/
def VarDecls.annotate (a : Annotator) (ds : VarDecls) : VarDecls :=
  { ds with items := ds.items.map (VarDecl.annotate a) }

mutual

/-- The statement, changed everywhere. -/
def Stmt.annotate (a : Annotator) : Stmt → Stmt
  | .assign s e => .assign s (e.annotate a)
  | .increment s e => .increment s (e.annotate a)
  | .decrement s e => .decrement s (e.annotate a)
  | .read s e => .read s (e.annotate a)
  | .write s e => .write s (e.annotate a)
  | .ifThen s e b => .ifThen s (e.annotate a) (Stmt.annotateBlock a b)
  | .ifElse s e b₁ b₂ =>
    .ifElse s (e.annotate a) (Stmt.annotateBlock a b₁) (Stmt.annotateBlock a b₂)
  | .while s e b => .while s (e.annotate a) (Stmt.annotateBlock a b)
  | .call s e => .call s (e.annotate a)
  | .return s e => .return s (e.map (Exp.annotate a))
  | .unknown s => .unknown s
termination_by structural s => s

/-- The block, changed everywhere. -/
def Stmt.annotateBlock (a : Annotator) : Block Stmt → Block Stmt
  | ⟨ds, s, ss⟩ => ⟨ds.annotate a, s, Stmt.annotateAll a ss⟩
termination_by structural b => b

/-- The statements, changed everywhere. -/
def Stmt.annotateAll (a : Annotator) : List Stmt → List Stmt
  | [] => []
  | s :: ss => s.annotate a :: Stmt.annotateAll a ss
termination_by structural ss => ss

end

/-- The declaration, changed everywhere. -/
def Decl.annotate (a : Annotator) : Decl → Decl
  | .var d => .var (d.annotate a)
  | .fn d =>
    .fn { d with
      returns := d.returns.annotate a
      name := d.name.annotate a
      formals := d.formals.annotate a
      body := Stmt.annotateBlock a d.body
      frame := a.frame d.frame }
  | .struct d => .struct { d with name := d.name.annotate a, fields := d.fields.annotate a }
  | .unknown s => .unknown s

/-- The program, changed everywhere. -/
def Program.annotate (a : Annotator) (p : Program) : Program :=
  { p with decls := p.decls.map (Decl.annotate a) }

end CMinusMinus
