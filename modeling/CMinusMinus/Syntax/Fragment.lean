import CMinusMinus.Syntax.Outline
import CMinusMinus.Syntax.Source
import CMinusMinus.Text.Value

/-!
# Parts of trees

Any part of a tree can be outlined by itself, whatever its category.  Where an expression is
asked for, as when a part is to be written as one, a part of another category is refused.
-/

namespace CMinusMinus

/-- A part of a tree, a list of parts, or a value that is no node. -/
inductive Fragment where
  | exp (e : Exp)
  | exps (span : Option Span) (es : List Exp)
  | type (t : TypeNode)
  | formals (ds : VarDecls)
  | stmt (s : Stmt)
  | stmts (span : Option Span) (ss : List Stmt)
  | body (span : Option Span) (b : Block Stmt)
  | decl (d : Decl)
  | decls (span : Option Span) (ds : List Decl)
  | program (p : Program)
  | list (parts : List Fragment)
  | value (v : Text.Value)

namespace Fragment

/-- The name of the kind of part. -/
def kind : Fragment → String
  | .exp e => e.kind
  | .exps .. => "ExpList"
  | .type t => t.kind
  | .formals _ => "FormalsList"
  | .stmt s => s.kind
  | .stmts .. => "StmtList"
  | .body .. => "FnBody"
  | .decl d => d.kind
  | .decls .. => "DeclList"
  | .program _ => "Program"
  | .list _ => "list"
  | .value v => v.kind

/-- The stretch of text the part was read from. -/
def span : Fragment → Option Span
  | .exp e => e.span
  | .type t => t.span
  | .formals ds => ds.span
  | .stmt s => s.span
  | .exps s _ | .stmts s _ | .body s _ | .decls s _ => s
  | .decl d => d.span
  | .program p => p.span
  | .list _ | .value _ => none

mutual

/-- The outline of the part. -/
def outline (depth : Nat) : Fragment → List String
  | .exp e => e.outline depth
  | .exps s es => Outline.exps depth s (es.flatMap (Exp.outline (depth + 2)))
  | .type t => t.outline depth
  | .formals ds => ds.formalsOutline depth
  | .stmt s => s.outline depth
  | .stmts s ss => Outline.stmts depth s (ss.flatMap (Stmt.outline (depth + 2)))
  | .body s b => Outline.body depth s b
  | .decl d => d.outline depth
  | .decls s ds => Outline.decls depth s (ds.flatMap (Decl.outline (depth + 2)))
  | .program p => p.outline depth
  | .list parts => outlines depth parts
  | .value v => [Outline.pad depth ++ v.shown]
termination_by structural f => f

/-- The outlines of parts, one after another. -/
def outlines (depth : Nat) : List Fragment → List String
  | [] => []
  | f :: fs => f.outline depth ++ outlines depth fs
termination_by structural fs => fs

end

/-- The part as an expression by itself. -/
def source : Fragment → Except Unprintable String
  | .exp e =>
    match e.unprintable? with
    | some u => .error u
    | none => .ok (e.source true)
  | f => .error ⟨"expression", f.kind⟩

/-- The part whose span tells where diagnostics about the part are. -/
def anchor : Fragment → Fragment
  | .exp e => .exp e.anchor
  | f => f

end Fragment

end CMinusMinus
