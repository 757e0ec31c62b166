import Mathlib
import CMinusMinus.Proofs.Compilation
import CMinusMinus.Proofs.Form

/-!
# What is demanded of types

Nodes make demands on the types of the expressions in them: an operand has to be of a type, the
sides of a pair have to agree, a value that is written has to be writable.  A demand can be judged
by the types that are recorded in the tree, so what type checking reports can be read off the tree
that it leaves (`Check.reports_exp`, `Compilation.diagnostics_of_demands`).

An expression of the error type was reported already.  A demand on it is not reported again,
except that a function without a result returns a value (`Demand.reports_eq_nil`).
-/

namespace CMinusMinus

open Outcome Check

/-- An expression with the type that is recorded at it; one without a record counts as failed. -/
def Exp.recorded (e : Exp) : Part := ⟨e, e.info.type.getD .error⟩

/-- What a node demands of the types of expressions. -/
inductive Demand where
  /-- An operand, a condition or the target of a step is of a type. -/
  | want (type : Ty) (cause : TypeCause) (e : Exp)
  /-- The sides of `==` or `!=` can be compared. -/
  | comparable (whole l r : Exp)
  /-- The right side of `=` can be stored in the left one. -/
  | assignable (whole l r : Exp)
  /-- What is called is a function of a number of arguments. -/
  | callable (callee : Ident) (args : Nat)
  /-- An argument is of the type of the formal. -/
  | argument (e : Exp) (formal : Ty)
  /-- A value can be read into a location. -/
  | readable (e : Exp)
  /-- A value can be written. -/
  | writable (e : Exp)
  /-- A value can be returned from a function with a result. -/
  | returned (returns : Ty) (e : Exp)
  /-- A function with a result can return no value. -/
  | unvalued (returns : Ty) (span : Option Span)

namespace Demand

/-- The expressions whose types are judged. -/
def subjects : Demand → List Exp
  | .want _ _ e | .argument e _ | .readable e | .writable e | .returned _ e => [e]
  | .comparable _ l r | .assignable _ l r => [l, r]
  | .callable f _ => [.ident f]
  | .unvalued .. => []

/-- What is reported if the demand is not met by the types that are recorded. -/
def reports : Demand → List Report
  | .want type cause e => Check.want type cause e.recorded
  | .comparable whole l r =>
    (pair (notComparable l.recorded.type r.recorded.type) .bool whole l.recorded.type
      r.recorded.type).2
  | .assignable whole l r => (Check.assign whole l.recorded.type r.recorded.type).2
  | .callable f n =>
    if (Exp.ident f).recorded.type = .error then []
    else match f.binding with
      | .bound (.function s) =>
        if n = s.arity then [] else [TypeCause.argCount.reportAt f.info.span]
      | _ => [TypeCause.callee.reportAt f.info.span]
  | .argument e formal => Check.arguments [e.recorded] [formal]
  | .readable e => reportIf (notReadable e.recorded.type) e
  | .writable e => reportIf (notWritable e.recorded.type) e
  | .returned returns e => Check.returned returns e.recorded
  | .unvalued returns span =>
    if returns = .void then [] else [TypeCause.noReturnValue.reportAt span]

/-- A demand on an expression of the error type is not reported, unless it is that a function
without a result returns no value. -/
theorem reports_eq_nil {d : Demand} {e : Exp} (he : e ∈ d.subjects)
    (herror : e.recorded.type = .error) : d.reports = [] ∨ ∃ e, d = .returned .void e := by
  cases d with
  | want type cause e =>
    cases List.mem_singleton.mp he
    exact .inl (if_pos (.inl herror))
  | comparable whole l r | assignable whole l r =>
    refine .inl ?_
    have hside : l.recorded.type = .error ∨ r.recorded.type = .error := by
      rcases List.mem_cons.mp he with rfl | he
      · exact .inl herror
      · cases List.mem_singleton.mp he
        exact .inr herror
    simp only [reports, Check.assign, pair, if_pos hside]
  | callable f n =>
    cases List.mem_singleton.mp he
    exact .inl (if_pos herror)
  | argument e formal =>
    cases List.mem_singleton.mp he
    simp [reports, arguments, herror]
  | readable e | writable e =>
    cases List.mem_singleton.mp he
    rw [reports, herror]
    exact .inl rfl
  | returned returns e =>
    cases List.mem_singleton.mp he
    by_cases hvoid : returns = .void
    · exact .inr ⟨e, by rw [hvoid]⟩
    · exact .inl ((if_neg hvoid).trans (if_pos (.inl herror)))
  | unvalued => cases he

/-- The demands of a call on its arguments, if there are as many as formals. -/
def ofArguments (callee : Ident) (args : List Exp) : List Demand :=
  match callee.binding with
  | .bound (.function f) =>
    if args.length = f.arity then (args.zip f.params).map fun (a, t) => .argument a t else []
  | _ => []

/-- The demands of a binary operator. -/
def ofOperator (op : BinOp) (whole l r : Exp) : List Demand :=
  match op with
  | .add | .sub | .mul | .div => [.want .int .arithmetic l, .want .int .arithmetic r]
  | .and | .or => [.want .bool .logical l, .want .bool .logical r]
  | .less | .greater | .lessEq | .greaterEq => [.want .int .relational l, .want .int .relational r]
  | .equal | .notEqual => [.comparable whole l r]
  | .other _ => []

end Demand

/-! ## Demands of a tree -/

mutual

/-- The demands in an expression, in the order in which they are judged. -/
def Exp.demands : Exp → List Demand
  | .int .. | .string .. | .bool .. | .ident _ | .unknown _ => []
  | .access _ _ loc _ => loc.demands
  | .assign i l r => l.demands ++ r.demands ++ [.assignable (.assign i l r) l r]
  | .call _ f _ args =>
    Exp.listDemands args ++ .callable f args.length :: Demand.ofArguments f args
  | .neg _ e => e.demands ++ [.want .int .arithmetic e]
  | .not _ e => e.demands ++ [.want .bool .logical e]
  | .binary i op l r => l.demands ++ r.demands ++ Demand.ofOperator op (.binary i op l r) l r
termination_by structural e => e

/-- The demands in the expressions of a list. -/
def Exp.listDemands : List Exp → List Demand
  | [] => []
  | e :: es => e.demands ++ Exp.listDemands es
termination_by structural es => es

end

mutual

/-- The demands in a statement of a function with the given result. -/
def Stmt.demands (returns : Ty) : Stmt → List Demand
  | .assign _ e | .call _ e => e.demands
  | .increment _ e | .decrement _ e => e.demands ++ [.want .int .arithmetic e]
  | .read _ e => e.demands ++ [.readable e]
  | .write _ e => e.demands ++ [.writable e]
  | .ifThen _ e b => e.demands ++ [.want .bool .ifCondition e] ++ Stmt.blockDemands returns b
  | .ifElse _ e b₁ b₂ =>
    e.demands ++ [.want .bool .ifCondition e] ++ Stmt.blockDemands returns b₁
      ++ Stmt.blockDemands returns b₂
  | .while _ e b => e.demands ++ [.want .bool .loopCondition e] ++ Stmt.blockDemands returns b
  | .return s none => [.unvalued returns s]
  | .return _ (some e) => e.demands ++ [.returned returns e]
  | .unknown _ => []
termination_by structural s => s

/-- The demands in a block. -/
def Stmt.blockDemands (returns : Ty) : Block Stmt → List Demand
  | ⟨_, _, ss⟩ => Stmt.listDemands returns ss
termination_by structural b => b

/-- The demands in the statements of a list. -/
def Stmt.listDemands (returns : Ty) : List Stmt → List Demand
  | [] => []
  | s :: ss => s.demands returns ++ Stmt.listDemands returns ss
termination_by structural ss => ss

end

/-- The demands in the body of a function. -/
def FnDecl.demands (d : FnDecl) : List Demand :=
  match d.returns.type with
  | .ok returns => Stmt.blockDemands returns d.body
  | .error _ => []

/-- The demands in a declaration: those of its body, if it is a function. -/
def Decl.demands : Decl → List Demand
  | .fn d => d.demands
  | _ => []

/-- The demands in a program. -/
def Program.demands (p : Program) : List Demand := p.decls.flatMap Decl.demands

/-- What is reported of demands. -/
def Demand.reportsOf (ds : List Demand) : List Report := ds.flatMap Demand.reports

@[simp] theorem Demand.reportsOf_nil : Demand.reportsOf [] = [] := rfl

@[simp] theorem Demand.reportsOf_append (ds ds' : List Demand) :
    Demand.reportsOf (ds ++ ds') = Demand.reportsOf ds ++ Demand.reportsOf ds' :=
  List.flatMap_append

theorem Demand.reportsOf_singleton (d : Demand) : Demand.reportsOf [d] = d.reports :=
  List.flatMap_singleton ..

namespace Check

/-! ## Rules -/

/-- The type of the part is recorded. -/
def Part.Recorded (p : Part) : Prop := p.exp.recorded = p

theorem recorded_exp {e : Exp} (h : (exp e).fault = none) : (exp e).value.Recorded := by
  rw [Part.Recorded, Exp.recorded, type_exp h, Option.getD_some]

theorem want_of_recorded {p : Part} (h : p.Recorded) (type : Ty) (cause : TypeCause) :
    want type cause p = (Demand.want type cause p.exp).reports := by
  rw [Demand.reports, h]

theorem pair_of_recorded {l r : Part} (hl : l.Recorded) (hr : r.Recorded) (i : Info) :
    (assign (.assign i l.exp r.exp) l.type r.type).2 =
      (Demand.assignable (.assign i l.exp r.exp) l.exp r.exp).reports := by
  rw [Demand.reports, hl, hr]

theorem binary_of_recorded {l r : Part} (hl : l.Recorded) (hr : r.Recorded) (op : BinOp)
    (whole : Exp) :
    (binary op whole l r).2 = Demand.reportsOf (Demand.ofOperator op whole l.exp r.exp) := by
  cases op with
  | other => rfl
  | equal | notEqual =>
    rw [Demand.ofOperator, Demand.reportsOf_singleton, Demand.reports, hl, hr]
    rfl
  | _ =>
    simp only [binary, uniform, Demand.ofOperator, Demand.reportsOf, List.flatMap_cons,
      List.flatMap_nil, ← want_of_recorded hl, ← want_of_recorded hr]

theorem arguments_of_recorded {ps : List Part} (h : ∀ p ∈ ps, p.Recorded) (ts : List Ty) :
    arguments ps ts = Demand.reportsOf
      (((ps.map Part.exp).zip ts).map fun (a, t) => .argument a t) := by
  induction ps generalizing ts with
  | nil => rfl
  | cons p ps ih =>
    cases ts with
    | nil => rfl
    | cons t ts =>
      obtain ⟨hp, hps⟩ := List.forall_mem_cons.mp h
      have hfirst : (Demand.argument p.exp t).reports = arguments [p] [t] := by
        rw [Demand.reports, hp]
      rw [arguments, List.zip_cons_cons, List.flatMap_cons, ← arguments, ih hps, List.map_cons,
        List.zip_cons_cons, List.map_cons, Demand.reportsOf, Demand.reportsOf, List.flatMap_cons,
        hfirst]
      simp [arguments]

theorem call_of_recorded {x : Ident} (hx : (ident x).fault = none) {ps : List Part}
    (hps : ∀ p ∈ ps, p.Recorded) :
    (call (ident x).value.1 ps).2 = Demand.reportsOf
      (.callable (ident x).value.1 (ps.map Part.exp).length ::
        Demand.ofArguments (ident x).value.1 (ps.map Part.exp)) := by
  cases hbinding : x.binding with
  | pending =>
    rw [ident, hbinding] at hx
    cases hx
  | unresolved =>
    simp [ident, hbinding, call, Demand.reportsOf, Demand.reports, Demand.ofArguments,
      Exp.recorded, Exp.info]
  | bound s =>
    rw [ident_of_bound hbinding, Outcome.value_pure, Demand.reportsOf, List.flatMap_cons,
      List.length_map]
    cases s with
    | function f =>
      simp only [call, hbinding, Demand.reports, Demand.ofArguments, Exp.recorded, Exp.info,
        Symbol.type, Option.getD_some, reduceCtorEq, if_false, List.length_map]
      split
      · exact arguments_of_recorded hps f.params
      · rfl
    | storage | struct =>
      simp only [call, hbinding, Demand.reports, Demand.ofArguments, Exp.recorded, Exp.info,
        Option.getD_some, List.flatMap_nil, List.append_nil]
      split <;> rfl

/-! ## Expressions -/

mutual

/-- What is reported of an expression are the demands in it that its types do not meet. -/
theorem reports_exp : ∀ {e : Exp}, (exp e).fault = none →
    (exp e).reports = Demand.reportsOf (exp e).value.exp.demands
  | .int .., _ | .string .., _ | .bool .., _ => rfl
  | .ident x, h => by
    rw [exp, fault_map] at h
    rw [exp, reports_map, value_map]
    cases hbinding : x.binding with
    | pending =>
      rw [ident, hbinding] at h
      cases h
    | unresolved | bound => simp [ident, hbinding, Exp.demands]
  | .access i k loc f, h => by
    rw [exp, fault_andThen, fault_andThen] at h
    obtain ⟨hloc, hf, -⟩ := h
    have hident : (ident f).reports = [] := by
      cases hbinding : f.binding <;> simp [ident, hbinding, Outcome.stop]
    rw [exp, reports_andThen hloc, value_andThen hloc, reports_andThen hf, value_andThen hf,
      reports_exp hloc, hident]
    simp [record, Exp.record, Exp.withInfo, Exp.demands]
  | .assign i l r, h => by
    rw [exp, fault_andThen, fault_andThen] at h
    obtain ⟨hl, hr, -⟩ := h
    rw [exp, reports_andThen hl, value_andThen hl, reports_andThen hr, value_andThen hr,
      reports_exp hl, reports_exp hr]
    simp only [conclude, reports_reporting, value_reporting, record, Exp.record, Exp.withInfo,
      Exp.demands, Demand.reportsOf_append, Demand.reportsOf_singleton, List.append_assoc]
    rw [pair_of_recorded (recorded_exp hl) (recorded_exp hr)]
    rfl
  | .call i f s args, h => by
    rw [exp, fault_andThen, fault_andThen] at h
    obtain ⟨hf, hargs, -⟩ := h
    have hident : (ident f).reports = [] := by
      cases hbinding : f.binding <;> simp [ident, hbinding, Outcome.stop]
    obtain ⟨hrecorded, hreports⟩ := reports_exps hargs
    rw [exp, reports_andThen hf, value_andThen hf, reports_andThen hargs, value_andThen hargs,
      hreports, hident]
    simp only [conclude, reports_reporting, value_reporting, record, Exp.record, Exp.withInfo,
      Exp.demands, Demand.reportsOf_append, List.nil_append]
    rw [call_of_recorded hf hrecorded]
  | .neg i e, h | .not i e, h => by
    rw [exp, fault_andThen] at h
    rw [exp, reports_andThen h.1, value_andThen h.1, reports_exp h.1]
    simp only [conclude, reports_reporting, value_reporting, record, Exp.record, Exp.withInfo,
      Exp.demands, Demand.reportsOf_append, Demand.reportsOf_singleton, uniform,
      List.flatMap_singleton, want_of_recorded (recorded_exp h.1)]
  | .binary i op l r, h => by
    by_cases hop : op ∈ BinOp.all
    · rw [exp_binary hop, fault_andThen, fault_andThen] at h
      obtain ⟨hl, hr, -⟩ := h
      rw [exp_binary hop, reports_andThen hl, value_andThen hl, reports_andThen hr,
        value_andThen hr, reports_exp hl, reports_exp hr]
      simp only [conclude, reports_reporting, value_reporting, record, Exp.record, Exp.withInfo,
        Exp.demands, Demand.reportsOf_append, List.append_assoc]
      rw [binary_of_recorded (recorded_exp hl) (recorded_exp hr)]
      cases op <;> rfl
    · cases op with
      | other => cases h
      | _ => exact absurd (by decide) hop

theorem reports_exps : ∀ {es : List Exp}, (exps es).fault = none →
    (∀ p ∈ (exps es).value, p.Recorded) ∧
      (exps es).reports = Demand.reportsOf (Exp.listDemands ((exps es).value.map Part.exp))
  | [], _ => ⟨List.forall_mem_nil _, rfl⟩
  | e :: es, h => by
    rw [exps, fault_andThen, fault_map] at h
    obtain ⟨hrecorded, hreports⟩ := reports_exps h.2
    rw [exps, value_andThen h.1, value_map, reports_andThen h.1, reports_map, reports_exp h.1,
      hreports, List.map_cons, Exp.listDemands, Demand.reportsOf_append]
    exact ⟨List.forall_mem_cons.mpr ⟨recorded_exp h.1, hrecorded⟩, rfl⟩

end

/-! ## Statements -/

/-- What a statement with an expression reports: the demands in the expression, and the one that
the statement makes. -/
theorem reports_operand {e : Exp} {complain : Part → List Report} {d : Exp → Demand}
    (hcomplain : ∀ p : Part, p.Recorded → complain p = (d p.exp).reports)
    (h : (operand e complain).fault = none) :
    (operand e complain).reports =
      Demand.reportsOf ((operand e complain).value.demands ++ [d (operand e complain).value]) := by
  rw [operand, fault_andThen] at h
  rw [operand, reports_andThen h.1, value_andThen h.1, reports_exp h.1, reports_reporting,
    value_reporting, Demand.reportsOf_append, Demand.reportsOf_singleton,
    hcomplain _ (recorded_exp h.1)]

/-- What a statement reports that makes no demand of its own. -/
theorem reports_operand_nil {e : Exp} (h : (operand e fun _ => []).fault = none) :
    (operand e fun _ => []).reports =
      Demand.reportsOf (operand e fun _ => []).value.demands := by
  rw [operand, fault_andThen] at h
  rw [operand, reports_andThen h.1, value_andThen h.1, reports_exp h.1, reports_reporting,
    value_reporting, List.append_nil]

mutual

theorem reports_stmt (returns : Ty) : ∀ {s : Stmt}, (stmt returns s).fault = none →
    (stmt returns s).reports = Demand.reportsOf ((stmt returns s).value.demands returns)
  | .assign _ e, h | .call _ e, h => by
    rw [stmt, fault_map] at h
    rw [stmt, reports_map, value_map, reports_operand_nil h, Stmt.demands]
  | .increment _ e, h | .decrement _ e, h => by
    rw [stmt, fault_map] at h
    rw [stmt, reports_map, value_map, Stmt.demands]
    exact reports_operand (fun p hp => want_of_recorded hp _ _) h
  | .read _ e, h => by
    rw [stmt, fault_map] at h
    rw [stmt, reports_map, value_map, Stmt.demands]
    exact reports_operand (fun p hp => by rw [Demand.reports, hp]) h
  | .write _ e, h => by
    rw [stmt, fault_map] at h
    rw [stmt, reports_map, value_map, Stmt.demands]
    exact reports_operand (fun p hp => by rw [Demand.reports, hp]) h
  | .ifThen _ e b, h | .while _ e b, h => by
    rw [stmt, fault_andThen, fault_map] at h
    rw [stmt, reports_andThen h.1, value_andThen h.1, reports_map, value_map, Stmt.demands,
      Demand.reportsOf_append, reports_block returns h.2,
      reports_operand (fun p hp => want_of_recorded hp _ _) h.1]
  | .ifElse _ e b₁ b₂, h => by
    rw [stmt, fault_andThen, fault_andThen, fault_map] at h
    obtain ⟨he, hyes, hno⟩ := h
    rw [stmt, reports_andThen he, value_andThen he, reports_andThen hyes, value_andThen hyes,
      reports_map, value_map, Stmt.demands, Demand.reportsOf_append, Demand.reportsOf_append,
      reports_block returns hyes, reports_block returns hno,
      reports_operand (fun p hp => want_of_recorded hp _ _) he, List.append_assoc]
  | .return s none, _ => by
    rw [stmt, reports_reporting, value_reporting, Stmt.demands, Demand.reportsOf_singleton,
      Demand.reports]
  | .return _ (some e), h => by
    rw [stmt, fault_map] at h
    rw [stmt, reports_map, value_map, Stmt.demands]
    exact reports_operand (fun p hp => by rw [Demand.reports, hp]) h
  | .unknown _, h => by cases h

theorem reports_block (returns : Ty) : ∀ {b : Block Stmt}, (block returns b).fault = none →
    (block returns b).reports =
      Demand.reportsOf (Stmt.blockDemands returns (block returns b).value)
  | ⟨ds, s, ss⟩, h => by
    rw [block, fault_map] at h
    rw [block, reports_map, value_map, Stmt.blockDemands, reports_stmts returns h]

theorem reports_stmts (returns : Ty) : ∀ {ss : List Stmt}, (stmts returns ss).fault = none →
    (stmts returns ss).reports =
      Demand.reportsOf (Stmt.listDemands returns (stmts returns ss).value)
  | [], _ => rfl
  | s :: ss, h => by
    rw [stmts, fault_andThen, fault_map] at h
    rw [stmts, reports_andThen h.1, value_andThen h.1, reports_map, value_map, Stmt.listDemands,
      Demand.reportsOf_append, reports_stmt returns h.1, reports_stmts returns h.2]

end

/-! ## Declarations -/

theorem reports_decl {d : Decl} (h : (decl d).fault = none) :
    (decl d).reports = Demand.reportsOf (decl d).value.demands := by
  cases d with
  | fn d =>
    rw [decl, fault_map, fnDecl] at h
    rw [decl, reports_map, value_map, fnDecl, Decl.demands]
    cases hreturns : d.returns.type with
    | error fault =>
      rw [hreturns] at h
      cases h
    | ok returns =>
      rw [hreturns] at h
      have hblock : (block returns d.body).fault = none := h
      simp only [reports_map, value_map, FnDecl.demands, hreturns, reports_block returns hblock]
  | var | struct | unknown => rfl

theorem reports_decls {ds : List Decl} (h : (decls ds).fault = none) :
    (decls ds).reports = Demand.reportsOf ((decls ds).value.flatMap Decl.demands) := by
  induction ds with
  | nil => rfl
  | cons d ds ih =>
    rw [decls, fault_andThen, fault_map] at h
    rw [decls, reports_andThen h.1, value_andThen h.1, reports_map, value_map, List.flatMap_cons,
      Demand.reportsOf_append, reports_decl h.1, ih h.2]

end Check

/-- What type checking reports of a program are the demands in it that its types do not meet, and
that a function named `main` is missing. -/
theorem Program.reports_check {p : Program} {hasMain : Bool} (h : (p.check hasMain).fault = none) :
    (p.check hasMain).reports = Demand.reportsOf (p.check hasMain).value.demands ++
      if hasMain then [] else [noMain] := by
  rw [Program.check, fault_andThen] at h
  rw [Program.check, reports_andThen h.1, value_andThen h.1, reports_reporting, value_reporting,
    reports_decls h.1]
  rfl

namespace Compilation

/-- What an analysis reports about types are the demands that the recorded types do not meet, in a
program of the form of the one that was read.  Where it reports a demand, no expression that is
judged is of the error type, except for a value that a function without a result returns. -/
theorem diagnostics_of_demands {file : Option String} {source : String} {p : Program}
    {c : Compilation} (h : Program.parse file source = .ok p) (hc : analyze file source = .ok c) :
    ∃ q, c.program = some q ∧ q.form = p.form ∧
      c.diagnostics = (p.resolve.reports ++ (Demand.reportsOf q.demands ++
        if c.hasMain then [] else [noMain])).map (Diagnostic.ofReport file) ∧
      ∀ d ∈ q.demands, d.reports ≠ [] → (∃ e, d = .returned .void e) ∨
        ∀ e ∈ d.subjects, ∃ t, e.info.type = some t ∧ t ≠ .error := by
  obtain ⟨hfault, rfl⟩ := analysis_of_parse h hc
  have hchecked := (Program.parse_formed h).total_check hfault p.resolve.hasMain
  refine ⟨_, rfl, Program.form_check p _, ?_, fun d _ hreports => ?_⟩
  · exact congrArg (fun rs => (p.resolve.reports ++ rs).map (Diagnostic.ofReport file))
      (Program.reports_check hchecked)
  · by_cases hvoid : ∃ e, d = .returned .void e
    · exact .inl hvoid
    · refine .inr fun e he => ?_
      have hne : e.recorded.type ≠ .error := fun herror =>
        (Demand.reports_eq_nil he herror).elim hreports hvoid
      rw [Exp.recorded] at hne
      cases htype : e.info.type with
      | none => exact absurd (by rw [htype]; rfl) hne
      | some t => exact ⟨t, rfl, by simpa [htype] using hne⟩

set_option maxRecDepth 100000 in
/-- An operand of the wrong type, and sums and conditions of the error type around it. -/
theorem diagnostics_of_demands_of_nested :
    ∃ p c q, Program.parse none
        "void main() { int n; n = 1 + -true; while (n + !n) { cout << y; } }" = .ok p ∧
      analyze none "void main() { int n; n = 1 + -true; while (n + !n) { cout << y; } }" = .ok c ∧
      c.program = some q ∧ q.form = p.form ∧
      c.diagnostics = (p.resolve.reports ++ (Demand.reportsOf q.demands ++
        if c.hasMain then [] else [noMain])).map (Diagnostic.ofReport none) ∧
      ∀ d ∈ q.demands, d.reports ≠ [] → (∃ e, d = .returned .void e) ∨
        ∀ e ∈ d.subjects, ∃ t, e.info.type = some t ∧ t ≠ .error := by
  obtain ⟨p, hp, hfault⟩ : ∃ p, Program.parse none
      "void main() { int n; n = 1 + -true; while (n + !n) { cout << y; } }" = .ok p ∧
        p.resolve.fault.isNone = true :=
    Program.exists_parse rfl (by decide +kernel)
  have hc := analyze_of_parse hp (Option.isNone_iff_eq_none.mp hfault)
  obtain ⟨q, hq, hform, hdiagnostics, hdemands⟩ := diagnostics_of_demands hp hc
  exact ⟨p, _, q, hp, hc, hq, hform, hdiagnostics, hdemands⟩

set_option maxRecDepth 100000 in
/-- A function without a result returns an undeclared name, which is of the error type and reported
a second time. -/
theorem diagnostics_of_void_return :
    ∃ c q d e, analyze none "void g() { return x; } void main() { }" = .ok c ∧
      c.program = some q ∧ d ∈ q.demands ∧ d.reports ≠ [] ∧ e ∈ d.subjects ∧
      e.info.type = some .error := by
  obtain ⟨c, hc, hdemands⟩ : ∃ c, analyze none "void g() { return x; } void main() { }" = .ok c ∧
      c.program.any (fun q => q.demands.any fun d =>
        !d.reports.isEmpty && d.subjects.any (·.info.type == some .error)) = true :=
    exists_analyze rfl (by decide +kernel)
  obtain ⟨q, hq, hdemands⟩ := (Option.any_eq_true _ _).mp hdemands
  obtain ⟨d, hd, hdemands⟩ := List.any_eq_true.mp hdemands
  obtain ⟨hreports, hsubjects⟩ := Bool.and_eq_true_iff.mp hdemands
  obtain ⟨e, he, htype⟩ := List.any_eq_true.mp hsubjects
  refine ⟨c, q, d, e, hc, hq, hd, ?_, he, eq_of_beq htype⟩
  simpa [List.isEmpty_iff] using hreports

end Compilation

end CMinusMinus
