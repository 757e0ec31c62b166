import CMinusMinus.Syntax

/-!
# Trees of the same form

Two trees are the same when they have the same nodes with the same values in the same places.
Spans, annotations and the name of the file do not count.
-/

namespace CMinusMinus

/-- The same name. -/
def Ident.same (x y : Ident) : Bool := x.name == y.name

mutual

/-- The same expression. -/
def Exp.same : Exp → Exp → Bool
  | .int _ v, .int _ w => v == w
  | .string _ s, .string _ t => s == t
  | .bool _ b, .bool _ c => b == c
  | .ident x, .ident y => x.same y
  | .access _ _ e f, .access _ _ e' f' => e.same e' && f.same f'
  | .assign _ l r, .assign _ l' r' => l.same l' && r.same r'
  | .call _ f _ es, .call _ f' _ es' => f.same f' && Exp.allSame es es'
  | .neg _ e, .neg _ e' => e.same e'
  | .not _ e, .not _ e' => e.same e'
  | .binary _ op l r, .binary _ op' l' r' => op == op' && l.same l' && r.same r'
  | .unknown _, .unknown _ => true
  | _, _ => false
termination_by structural e => e

/-- The same expressions in the same order. -/
def Exp.allSame : List Exp → List Exp → Bool
  | [], [] => true
  | e :: es, e' :: es' => e.same e' && Exp.allSame es es'
  | _, _ => false
termination_by structural es => es

end

/-- The same type. -/
def TypeNode.same : TypeNode → TypeNode → Bool
  | .int _, .int _ | .bool _, .bool _ | .void _, .void _ | .unknown _, .unknown _ => true
  | .struct _ x, .struct _ y => x.same y
  | _, _ => false

/-- The same variable, field or formal. -/
def VarDecl.same (d e : VarDecl) : Bool :=
  d.role == e.role && d.type.same e.type && d.name.same e.name

/-- Lists of the same length whose elements are the same in turn. -/
def sameInTurn {α : Type} (same : α → α → Bool) : List α → List α → Bool
  | [], [] => true
  | a :: as, b :: bs => same a b && sameInTurn same as bs
  | _, _ => false

/-- The same variables, fields or formals. -/
def VarDecls.same (ds es : VarDecls) : Bool := sameInTurn VarDecl.same ds.items es.items

mutual

/-- The same statement. -/
def Stmt.same : Stmt → Stmt → Bool
  | .assign _ e, .assign _ e' => e.same e'
  | .increment _ e, .increment _ e' => e.same e'
  | .decrement _ e, .decrement _ e' => e.same e'
  | .read _ e, .read _ e' => e.same e'
  | .write _ e, .write _ e' => e.same e'
  | .ifThen _ e b, .ifThen _ e' b' => e.same e' && Stmt.blockSame b b'
  | .ifElse _ e b₁ b₂, .ifElse _ e' b₁' b₂' =>
    e.same e' && Stmt.blockSame b₁ b₁' && Stmt.blockSame b₂ b₂'
  | .while _ e b, .while _ e' b' => e.same e' && Stmt.blockSame b b'
  | .call _ e, .call _ e' => e.same e'
  | .return _ none, .return _ none => true
  | .return _ (some e), .return _ (some e') => e.same e'
  | .unknown _, .unknown _ => true
  | _, _ => false
termination_by structural s => s

/-- The same block. -/
def Stmt.blockSame : Block Stmt → Block Stmt → Bool
  | ⟨ds, _, ss⟩, ⟨ds', _, ss'⟩ => ds.same ds' && Stmt.allSame ss ss'
termination_by structural b => b

/-- The same statements in the same order. -/
def Stmt.allSame : List Stmt → List Stmt → Bool
  | [], [] => true
  | s :: ss, s' :: ss' => s.same s' && Stmt.allSame ss ss'
  | _, _ => false
termination_by structural ss => ss

end

/-- The same declaration. -/
def Decl.same : Decl → Decl → Bool
  | .var d, .var e => d.same e
  | .fn d, .fn e =>
    d.returns.same e.returns && d.name.same e.name && d.formals.same e.formals
      && Stmt.blockSame d.body e.body
  | .struct d, .struct e => d.name.same e.name && d.fields.same e.fields
  | .unknown _, .unknown _ => true
  | _, _ => false

/-- The same program. -/
def Program.same (p q : Program) : Bool := sameInTurn Decl.same p.decls q.decls

end CMinusMinus
