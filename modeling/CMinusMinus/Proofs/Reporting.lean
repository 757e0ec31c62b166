import CMinusMinus.Check
import CMinusMinus.Proofs.Sequencing
import CMinusMinus.Resolve

/-!
# What the passes report

Name resolution reports only causes of its own, wherever it stops (`Resolve.only_decls`), and so
does type checking (`Check.only_decls`).
-/

namespace CMinusMinus

namespace Outcome

variable {ρ φ α β : Type} {P : ρ → Prop}

/-- Every report has the property. -/
def Only (P : ρ → Prop) (o : Outcome ρ φ α) : Prop := ∀ r ∈ o.reports, P r

theorem only_pure (a : α) : (pure a : Outcome ρ φ α).Only P := nofun

theorem only_stop (a : α) (fault : φ) : (stop a fault : Outcome ρ φ α).Only P := nofun

theorem only_reporting {a : α} {rs : List ρ} :
    (reporting a rs : Outcome ρ φ α).Only P ↔ ∀ r ∈ rs, P r := Iff.rfl

theorem only_singleton {a : α} {r : ρ} (h : P r) : (reporting a [r] : Outcome ρ φ α).Only P :=
  only_reporting.mpr (List.forall_mem_singleton.mpr h)

theorem Only.map {o : Outcome ρ φ α} (h : o.Only P) (f : α → β) : (o.map f).Only P := h

/-- The reports of a sequence are those of its parts. -/
theorem Only.andThen {o : Outcome ρ φ α} {next : α → Outcome ρ φ β} (h : o.Only P)
    (hnext : ∀ a, (next a).Only P) (stopped : α → β) : (o.andThen stopped next).Only P := by
  unfold Outcome.andThen
  split
  · exact h
  · exact List.forall_mem_append.mpr ⟨h, hnext _⟩

end Outcome

open Outcome

/-! ## Name resolution -/

/-- The report is about a name. -/
def Report.IsNaming (r : Report) : Prop := ∃ c, r.cause = .naming c

theorem NameCause.isNaming_report (c : NameCause) (span : Option Span) :
    (c.report span).IsNaming := ⟨c, rfl⟩

namespace Resolve

theorem only_ident (env : Env) (x : Ident) : (x.resolve env).Only Report.IsNaming := by
  unfold Ident.resolve
  split
  · exact only_pure _
  · exact only_singleton (NameCause.isNaming_report _ _)

theorem only_access (i : Info) (loc : Exp) (f : Ident) :
    (access i loc f).Only Report.IsNaming := by
  unfold access fieldOf
  split
  · split
    · exact only_pure _
    · exact only_singleton (NameCause.isNaming_report _ _)
  · exact only_pure _
  · exact only_singleton (NameCause.isNaming_report _ _)
  · exact only_stop _ _

mutual

theorem only_exp (env : Env) : ∀ e, (exp env e).Only Report.IsNaming
  | .int .. | .string .. | .bool .. => only_pure _
  | .unknown _ => only_stop _ _
  | .ident x => (only_ident env x).map _
  | .access _ _ loc _ => (only_exp env loc).andThen (fun _ => only_access _ _ _) _
  | .assign _ l r => (only_exp env l).andThen (fun _ => (only_exp env r).map _) _
  | .call _ f _ args => (only_ident env f).andThen (fun _ => (only_exps env args).map _) _
  | .neg _ e | .not _ e => (only_exp env e).map _
  | .binary _ _ l r => (only_exp env l).andThen (fun _ => (only_exp env r).map _) _

theorem only_exps (env : Env) : ∀ es, (exps env es).Only Report.IsNaming
  | [] => only_pure _
  | e :: es => (only_exp env e).andThen (fun _ => (only_exps env es).map _) _

end

theorem only_shape (env : Env) (d : VarDecl) : (shape env d).Only Report.IsNaming := by
  unfold shape
  split
  · exact only_pure _
  · exact only_pure _
  · exact only_singleton (NameCause.isNaming_report _ _)
  · split
    · exact only_pure _
    · exact only_singleton (NameCause.isNaming_report _ _)
  · exact only_stop _ _

theorem only_declare (env : Env) (taken : Option NameCause) (place : Shape StructDef → Place)
    (d : VarDecl) : (declare env taken place d).Only Report.IsNaming := by
  refine (only_shape env d).andThen (fun _ => ?_) _
  dsimp only
  split
  · exact only_singleton (NameCause.isNaming_report _ _)
  · exact only_pure _
  · exact only_pure _

theorem only_logged {α : Type} {P : Report → Prop} (number : Option Int) (a : α) :
    (logged number a).Only P := by
  rw [Only, reports_logged]
  exact List.forall_mem_nil _

theorem only_localVars (env : Env) (frame : Frame) (ds : List VarDecl) :
    (localVars env frame ds).Only Report.IsNaming := by
  induction ds generalizing env frame with
  | nil => exact only_pure _
  | cons d ds ih =>
    exact ((only_declare _ _ _ d).andThen (fun _ => only_logged _ _) _).andThen
      (fun _ => (ih _ _).map _) _

theorem only_formals (env : Env) (frame : Frame) (ds : List VarDecl) :
    (formals env frame ds).Only Report.IsNaming := by
  induction ds generalizing env frame with
  | nil => exact only_pure _
  | cons d ds ih => exact (only_declare _ _ _ d).andThen (fun _ => (ih _ _).map _) _

theorem only_fields (env : Env) (before : List (Field StructDef)) (size : Nat)
    (ds : List VarDecl) : (fields env before size ds).Only Report.IsNaming := by
  induction ds generalizing before size with
  | nil => exact only_pure _
  | cons d ds ih => exact (only_declare _ _ _ d).andThen (fun _ => (ih _ _).map _) _

mutual

theorem only_stmt (env : Env) (frame : Frame) : ∀ s, (stmt env frame s).Only Report.IsNaming
  | .assign _ e | .increment _ e | .decrement _ e | .read _ e | .write _ e | .call _ e
  | .return _ (some e) => (only_exp env e).map _
  | .ifThen _ e b | .while _ e b =>
    (only_exp env e).andThen (fun _ => (only_block _ frame b).map _) _
  | .ifElse _ e b₁ b₂ =>
    (only_exp env e).andThen (fun _ => (only_block _ frame b₁).andThen
      (fun _ => (only_block _ _ b₂).map _) _) _
  | .return _ none => only_pure _
  | .unknown _ => only_stop _ _

theorem only_block (env : Env) (frame : Frame) : ∀ b, (block env frame b).Only Report.IsNaming
  | ⟨ds, _, ss⟩ =>
    (only_localVars env frame ds.items).andThen (fun _ => (only_stmts _ _ ss).map _) _

theorem only_stmts (env : Env) (frame : Frame) : ∀ ss, (stmts env frame ss).Only Report.IsNaming
  | [] => only_pure _
  | s :: ss => (only_stmt env frame s).andThen (fun _ => (only_stmts env _ ss).map _) _

end

theorem only_name (env : Env) (x : Ident) (symbol : Symbol) :
    (name env x symbol).Only Report.IsNaming := by
  unfold name
  split
  · exact only_singleton (NameCause.isNaming_report _ _)
  · exact only_pure _

theorem only_fnDecl (env : Env) (d : FnDecl) : (fnDecl env d).Only Report.IsNaming := by
  unfold fnDecl
  split
  · exact only_stop _ _
  · exact (only_name env _ _).andThen (fun _ => (only_formals _ _ _).andThen
      (fun _ => (only_block _ _ _).andThen (fun _ => only_pure _) _) _) _

theorem only_structDecl (env : Env) (d : StructDecl) :
    (structDecl env d).Only Report.IsNaming := by
  have hname : ∀ cause : Option NameCause, (Outcome.reporting ()
      (cause.map (·.report d.name.info.span)).toList : Resolved Unit).Only Report.IsNaming := by
    intro cause
    cases cause with
    | none => exact only_pure _
    | some cause => exact only_singleton (cause.isNaming_report _)
  rw [structDecl]
  refine (hname _).andThen (fun _ => (only_fields _ _ _ _).andThen (fun _ => ?_) _) _
  dsimp only
  split
  · exact only_pure _
  · exact only_logged _ _

theorem only_decl (env : Env) : ∀ d, (decl env d).Only Report.IsNaming
  | .var d => by
    rw [decl]
    split
    · exact only_stop _ _
    · exact (only_declare _ _ _ d).map _
  | .fn d => (only_fnDecl env d).map _
  | .struct d => (only_structDecl env d).map _
  | .unknown _ => only_stop _ _

/-- Name resolution reports only what is wrong with names. -/
theorem only_decls (env : Env) (ds : List Decl) : (decls env ds).Only Report.IsNaming := by
  induction ds generalizing env with
  | nil => exact only_pure _
  | cons d ds ih => exact (only_decl env d).andThen (fun _ => (ih _).map _) _

end Resolve

/-! ## Type checking -/

/-- The report is about a type. -/
def Report.IsTyping (r : Report) : Prop := ∃ c, r.cause = .typing c

theorem TypeCause.isTyping_reportAt (c : TypeCause) (span : Option Span) :
    (c.reportAt span).IsTyping := ⟨c, rfl⟩

theorem TypeCause.isTyping_report (c : TypeCause) (e : Exp) : (c.report e).IsTyping := ⟨c, rfl⟩

namespace Check

theorem typing_want (type : Ty) (cause : TypeCause) (p : Part) :
    ∀ r ∈ want type cause p, r.IsTyping := by
  unfold want
  split
  · exact List.forall_mem_nil _
  · exact List.forall_mem_singleton.mpr (cause.isTyping_report _)

theorem typing_uniform (type result : Ty) (cause : TypeCause) (parts : List Part) :
    ∀ r ∈ (uniform type result cause parts).2, r.IsTyping := by
  intro r hr
  obtain ⟨p, -, hr⟩ := List.mem_flatMap.mp hr
  exact typing_want type cause p r hr

theorem typing_pair (cause : Option TypeCause) (result : Ty) (whole : Exp) (l r : Ty) :
    ∀ report ∈ (pair cause result whole l r).2, report.IsTyping := by
  unfold pair
  split
  · exact List.forall_mem_nil _
  · split
    · exact List.forall_mem_singleton.mpr (TypeCause.isTyping_report _ _)
    · split
      · exact List.forall_mem_nil _
      · exact List.forall_mem_singleton.mpr (TypeCause.isTyping_report _ _)

theorem typing_binary (op : BinOp) (whole : Exp) (l r : Part) :
    ∀ report ∈ (binary op whole l r).2, report.IsTyping := by
  cases op with
  | add | sub | mul | div | and | or | less | greater | lessEq | greaterEq =>
    exact typing_uniform _ _ _ _
  | equal | notEqual => exact typing_pair _ _ _ _ _
  | other => exact List.forall_mem_nil _

theorem typing_arguments (args : List Part) (params : List Ty) :
    ∀ r ∈ arguments args params, r.IsTyping := by
  intro r hr
  obtain ⟨⟨a, t⟩, -, hr⟩ := List.mem_flatMap.mp hr
  dsimp only at hr
  split at hr
  · cases hr
  · cases List.mem_singleton.mp hr
    exact TypeCause.isTyping_report _ _

theorem typing_call (callee : Ident) (args : List Part) :
    ∀ r ∈ (call callee args).2, r.IsTyping := by
  unfold call
  split
  · dsimp only
    split
    · exact typing_arguments _ _
    · exact List.forall_mem_singleton.mpr (TypeCause.isTyping_reportAt _ _)
  · split
    · exact List.forall_mem_nil _
    · exact List.forall_mem_singleton.mpr (TypeCause.isTyping_reportAt _ _)
  · exact List.forall_mem_nil _

theorem typing_reportIf (cause : Option TypeCause) (e : Exp) :
    ∀ r ∈ reportIf cause e, r.IsTyping := by
  cases cause with
  | none => exact List.forall_mem_nil _
  | some cause => exact List.forall_mem_singleton.mpr (cause.isTyping_report e)

theorem typing_returned (returns : Ty) (value : Part) :
    ∀ r ∈ returned returns value, r.IsTyping := by
  unfold returned
  split
  · exact List.forall_mem_singleton.mpr (TypeCause.isTyping_report _ _)
  · split
    · exact List.forall_mem_nil _
    · exact List.forall_mem_singleton.mpr (TypeCause.isTyping_report _ _)

theorem only_ident (x : Ident) : (ident x).Only Report.IsTyping := by
  unfold ident
  dsimp only
  split
  · exact only_pure _
  · exact only_pure _
  · exact only_stop _ _

mutual

theorem only_exp : ∀ e, (exp e).Only Report.IsTyping
  | .int .. | .string .. | .bool .. => only_pure _
  | .unknown _ => only_stop _ _
  | .ident x => (only_ident x).map _
  | .access _ _ loc f =>
    (only_exp loc).andThen (fun _ => (only_ident f).andThen (fun _ => only_pure _) _) _
  | .assign _ l r =>
    (only_exp l).andThen (fun _ => (only_exp r).andThen
      (fun _ => only_reporting.mpr (typing_pair _ _ _ _ _)) _) _
  | .call _ f _ args =>
    (only_ident f).andThen (fun _ => (only_exps args).andThen
      (fun _ => only_reporting.mpr (typing_call _ _)) _) _
  | .neg _ e | .not _ e =>
    (only_exp e).andThen (fun _ => only_reporting.mpr (typing_uniform _ _ _ _)) _
  | .binary _ op l r => by
    cases op with
    | other => exact only_stop _ _
    | _ =>
      rw [exp]
      · exact (only_exp l).andThen (fun _ => (only_exp r).andThen
          (fun _ => only_reporting.mpr (typing_binary _ _ _ _)) _) _
      · nofun

theorem only_exps : ∀ es, (exps es).Only Report.IsTyping
  | [] => only_pure _
  | e :: es => (only_exp e).andThen (fun _ => (only_exps es).map _) _

end

theorem only_operand (e : Exp) {complain : Part → List Report}
    (h : ∀ p, ∀ r ∈ complain p, r.IsTyping) : (operand e complain).Only Report.IsTyping :=
  (only_exp e).andThen (fun p => only_reporting.mpr (h p)) _

mutual

theorem only_stmt (returns : Ty) : ∀ s, (stmt returns s).Only Report.IsTyping
  | .assign _ e | .call _ e => (only_operand e fun _ => List.forall_mem_nil _).map _
  | .increment _ e | .decrement _ e => (only_operand e (typing_want _ _)).map _
  | .read _ e | .write _ e => (only_operand e fun _ => typing_reportIf _ _).map _
  | .ifThen _ e b | .while _ e b =>
    (only_operand e (typing_want _ _)).andThen (fun _ => (only_block returns b).map _) _
  | .ifElse _ e b₁ b₂ =>
    (only_operand e (typing_want _ _)).andThen (fun _ => (only_block returns b₁).andThen
      (fun _ => (only_block returns b₂).map _) _) _
  | .return _ none => by
    rw [stmt, only_reporting]
    split
    · exact List.forall_mem_nil _
    · exact List.forall_mem_singleton.mpr (TypeCause.isTyping_reportAt _ _)
  | .return _ (some e) => (only_operand e (typing_returned returns)).map _
  | .unknown _ => only_stop _ _

theorem only_block (returns : Ty) : ∀ b, (block returns b).Only Report.IsTyping
  | ⟨_, _, ss⟩ => (only_stmts returns ss).map _

theorem only_stmts (returns : Ty) : ∀ ss, (stmts returns ss).Only Report.IsTyping
  | [] => only_pure _
  | s :: ss => (only_stmt returns s).andThen (fun _ => (only_stmts returns ss).map _) _

end

theorem only_decl : ∀ d, (decl d).Only Report.IsTyping
  | .fn d => by
    rw [decl, fnDecl]
    split
    · exact only_stop _ _
    · exact ((only_block _ d.body).map _).map _
  | .var _ | .struct _ | .unknown _ => only_pure _

/-- Type checking reports only what is wrong with types. -/
theorem only_decls (ds : List Decl) : (decls ds).Only Report.IsTyping := by
  induction ds with
  | nil => exact only_pure _
  | cons d ds ih => exact (only_decl d).andThen (fun _ => ih.map _) _

end Check

/-! ## Programs -/

theorem Program.naming_resolve (p : Program) : ∀ r ∈ p.resolve.reports, r.IsNaming :=
  Resolve.only_decls _ p.decls

theorem Program.only_check (p : Program) (hasMain : Bool) :
    (p.check hasMain).Only Report.IsTyping := by
  refine (Check.only_decls p.decls).andThen (fun _ => only_reporting.mpr ?_) _
  cases hasMain with
  | true => exact List.forall_mem_nil _
  | false => exact List.forall_mem_singleton.mpr ⟨.noMain, rfl⟩

end CMinusMinus
