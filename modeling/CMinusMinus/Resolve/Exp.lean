import CMinusMinus.Diagnostic
import CMinusMinus.Outcome
import CMinusMinus.Scopes
import CMinusMinus.Syntax

/-!
# Names in expressions

An identifier is bound to what the innermost open scope that has its name declares it as.  A
chain of field accesses is resolved from its root: each field is looked up in the struct that the
link before it denotes.  A chain fails at most once; what follows the failing link is marked bad
without a report.
-/

namespace CMinusMinus

/-- The scopes that are open at a place, with what they declare. -/
abbrev Env := Scopes Symbol

/-- What name resolution leaves of a part of a tree. -/
abbrev Resolved (α : Type) := Outcome Report Fault α

/-- A report of name resolution, placed at a node with the given span. -/
def NameCause.report (c : NameCause) (span : Option Span) : Report := ⟨.naming c, .ofSpan? span⟩

namespace Ident

/-- The identifier bound to a symbol. -/
def bind (x : Ident) (s : Symbol) : Ident := { x with binding := .bound s }

/-- The identifier marked as having nothing to be bound to. -/
def fail (x : Ident) : Ident := { x with binding := .unresolved }

/-- The identifier bound by the scopes that are open where it is used. -/
def resolve (env : Env) (x : Ident) : Resolved Ident :=
  match env.find? x.name with
  | some s => .pure (x.bind s)
  | none => .reporting x.fail [(NameCause.undeclared x.name).report x.info.span]

end Ident

/-- What a field is asked of. -/
inductive Base where
  /-- A location of a struct. -/
  | struct (d : StructDef)
  /-- A location that was reported. -/
  | failed
  /-- Something else with a name of the given span. -/
  | notStruct (span : Option Span)
  /-- No location. -/
  | misplaced

/-- What a resolved expression is as the left side of a field access. -/
def Exp.base : Exp → Base
  | .ident x =>
    match x.binding with
    | .unresolved => .failed
    | .bound (.storage ⟨_, _, _, .struct d⟩) => .struct d
    | _ => .notStruct x.info.span
  | .access _ link _ field =>
    if link.bad then .failed
    else match link.target with
      | some d => .struct d
      | none => .notStruct field.info.span
  | _ => .misplaced

namespace Resolve

/-- A field access that failed, or follows one that did. -/
def badAccess (i : Info) (loc : Exp) (field : Ident) : Exp :=
  .access i { bad := true } loc field.fail

/-- The access to a field of a struct. -/
def fieldOf (i : Info) (loc : Exp) (field : Ident) (d : StructDef) : Resolved Exp :=
  match d.field? field.name with
  | some f =>
    .pure (.access i { owner := some d, target := f.shape.struct? } loc
      (field.bind (.storage f.storage)))
  | none =>
    .reporting (badAccess i loc field) [(NameCause.noField field.name).report field.info.span]

/-- The access to a field of what a resolved expression denotes. -/
def access (i : Info) (loc : Exp) (field : Ident) : Resolved Exp :=
  match loc.base with
  | .struct d => fieldOf i loc field d
  | .failed => .pure (badAccess i loc field)
  | .notStruct span => .reporting (badAccess i loc field) [NameCause.notStruct.report span]
  | .misplaced => .stop (.access i {} loc field) ⟨.accessOn loc.kind, loc.span⟩

mutual

/-- The expression with its names bound. -/
def exp (env : Env) : Exp → Resolved Exp
  | .int i v => .pure (.int i v)
  | .string i s => .pure (.string i s)
  | .bool i b => .pure (.bool i b)
  | .ident x => (x.resolve env).map .ident
  | .access i _ loc field =>
    (exp env loc).andThen (.access i {} · field) fun loc => access i loc field
  | .assign i l r =>
    (exp env l).andThen (.assign i · r) fun l => (exp env r).map (.assign i l ·)
  | .call i f s args =>
    (f.resolve env).andThen (.call i · s args) fun f => (exps env args).map (.call i f s ·)
  | .neg i e => (exp env e).map (.neg i ·)
  | .not i e => (exp env e).map (.not i ·)
  | .binary i op l r =>
    (exp env l).andThen (.binary i op · r) fun l => (exp env r).map (.binary i op l ·)
  | .unknown i => .stop (.unknown i) ⟨.unknownExp (Exp.unknown i).kind, i.span⟩
termination_by structural e => e

/-- The expressions with their names bound. -/
def exps (env : Env) : List Exp → Resolved (List Exp)
  | [] => .pure []
  | e :: es => (exp env e).andThen (· :: es) fun e => (exps env es).map (e :: ·)
termination_by structural es => es

end

end Resolve

end CMinusMinus
