import CMinusMinus.Check.Rule
import CMinusMinus.Outcome

/-!
# Types of expressions

An expression is given its type from the inside out, and each type is recorded at its node.  An
identifier has the type of what it is bound to; one that was reported has the error type, and so
has everything that depends on it, without another report.
-/

namespace CMinusMinus

/-- What type checking leaves of a part of a tree. -/
abbrev Checked (α : Type) := Outcome Report Fault α

namespace Check

/-- A node with its type recorded. -/
def record (e : Exp) (t : Ty) : Part := ⟨e.record t, t⟩

/-- A node whose type is not known, since checking stopped inside it. -/
def unchecked (e : Exp) : Part := ⟨e, .error⟩

/-- A node with the type that a rule gives it. -/
def conclude (e : Exp) (v : Verdict) : Checked Part := .reporting (record e v.1) v.2

/-- The identifier with the type of what it is bound to. -/
def ident (x : Ident) : Checked (Ident × Ty) :=
  let typed (t : Ty) : Checked (Ident × Ty) :=
    .pure ({ x with info := { x.info with type := some t } }, t)
  match x.binding with
  | .bound s => typed s.type
  | .unresolved => typed .error
  | .pending => .stop (x, .error) ⟨.neverResolved x.name, x.info.span⟩

mutual

/-- The expression with the types of all its parts recorded, and its own. -/
def exp : Exp → Checked Part
  | .int i v => .pure (record (.int i v) .int)
  | .string i s => .pure (record (.string i s) .string)
  | .bool i b => .pure (record (.bool i b) .bool)
  | .ident x => (ident x).map fun (x, t) => ⟨.ident x, t⟩
  | .access i k loc f =>
    (exp loc).andThen (fun p => unchecked (.access i k p.exp f)) fun p =>
      (ident f).andThen (fun (f, _) => unchecked (.access i k p.exp f)) fun (f, t) =>
        .pure (record (.access i k p.exp f) t)
  | .assign i l r =>
    (exp l).andThen (fun l => unchecked (.assign i l.exp r)) fun l =>
      (exp r).andThen (fun r => unchecked (.assign i l.exp r.exp)) fun r =>
        let e := Exp.assign i l.exp r.exp
        conclude e (assign e l.type r.type)
  | .call i f s args =>
    (ident f).andThen (fun (f, _) => unchecked (.call i f s args)) fun (f, _) =>
      (exps args).andThen (fun ps => unchecked (.call i f s (ps.map Part.exp))) fun ps =>
        conclude (.call i f s (ps.map Part.exp)) (call f ps)
  | .neg i e =>
    (exp e).andThen (fun p => unchecked (.neg i p.exp)) fun p =>
      conclude (.neg i p.exp) (uniform .int .int .arithmetic [p])
  | .not i e =>
    (exp e).andThen (fun p => unchecked (.not i p.exp)) fun p =>
      conclude (.not i p.exp) (uniform .bool .bool .logical [p])
  | .binary i (.other op) l r =>
    .stop (unchecked (.binary i (.other op) l r)) ⟨.unknownOperator op, i.span⟩
  | .binary i op l r =>
    (exp l).andThen (fun l => unchecked (.binary i op l.exp r)) fun l =>
      (exp r).andThen (fun r => unchecked (.binary i op l.exp r.exp)) fun r =>
        let e := Exp.binary i op l.exp r.exp
        conclude e (binary op e l r)
  | .unknown i => .stop (unchecked (.unknown i)) ⟨.unknownExp (Exp.unknown i).kind, i.span⟩
termination_by structural e => e

/-- The expressions with their types. -/
def exps : List Exp → Checked (List Part)
  | [] => .pure []
  | e :: es =>
    (exp e).andThen (fun p => p :: es.map unchecked) fun p => (exps es).map (p :: ·)
termination_by structural es => es

end

end Check

end CMinusMinus
