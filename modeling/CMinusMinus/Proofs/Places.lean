import CMinusMinus.Proofs.Form
import CMinusMinus.Proofs.Reporting

/-!
# Places of reports

Name resolution reports a name where it stands (`Resolve.at_decl`), and type checking a name or a
literal, or a return statement without a value (`Check.at_decl`).  The places are those of the
tree that was read: the passes leave them as they are.
-/

namespace CMinusMinus

open Outcome

/-! ## Names and literals -/

mutual

/-- Where the names and literals of an expression stand. -/
def Exp.leaves : Exp → List (Option Span)
  | .int i _ | .string i _ | .bool i _ | .unknown i => [i.span]
  | .ident x => [x.info.span]
  | .access _ _ loc f => loc.leaves ++ [f.info.span]
  | .assign _ l r | .binary _ _ l r => l.leaves ++ r.leaves
  | .call _ f _ args => f.info.span :: Exp.listLeaves args
  | .neg _ e | .not _ e => e.leaves
termination_by structural e => e

/-- Where the names and literals of expressions stand. -/
def Exp.listLeaves : List Exp → List (Option Span)
  | [] => []
  | e :: es => e.leaves ++ Exp.listLeaves es
termination_by structural es => es

end

/-- Where the name in a type stands. -/
def TypeNode.leaves : TypeNode → List (Option Span)
  | .struct _ x => [x.info.span]
  | .int _ | .bool _ | .void _ | .unknown _ => []

/-- Where the names in a declaration stand. -/
def VarDecl.leaves (d : VarDecl) : List (Option Span) := d.type.leaves ++ [d.name.info.span]

/-- Where the names in declarations stand. -/
def VarDecl.listLeaves : List VarDecl → List (Option Span)
  | [] => []
  | d :: ds => d.leaves ++ VarDecl.listLeaves ds

mutual

/-- Where the names and literals of a statement stand. -/
def Stmt.leaves : Stmt → List (Option Span)
  | .assign _ e | .increment _ e | .decrement _ e | .read _ e | .write _ e | .call _ e
  | .return _ (some e) => e.leaves
  | .ifThen _ e b | .while _ e b => e.leaves ++ Stmt.blockLeaves b
  | .ifElse _ e b₁ b₂ => e.leaves ++ (Stmt.blockLeaves b₁ ++ Stmt.blockLeaves b₂)
  | .return _ none | .unknown _ => []
termination_by structural s => s

/-- Where the names and literals of a block stand. -/
def Stmt.blockLeaves : Block Stmt → List (Option Span)
  | ⟨ds, _, ss⟩ => VarDecl.listLeaves ds.items ++ Stmt.listLeaves ss
termination_by structural b => b

/-- Where the names and literals of statements stand. -/
def Stmt.listLeaves : List Stmt → List (Option Span)
  | [] => []
  | s :: ss => s.leaves ++ Stmt.listLeaves ss
termination_by structural ss => ss

end

/-- Where the names and literals of a declaration stand. -/
def Decl.leaves : Decl → List (Option Span)
  | .var d => d.leaves
  | .fn d => d.name.info.span :: (VarDecl.listLeaves d.formals.items ++ Stmt.blockLeaves d.body)
  | .struct d => d.name.info.span :: VarDecl.listLeaves d.fields.items
  | .unknown _ => []

/-! ## Return statements without a value -/

mutual

/-- Where a statement returns without a value. -/
def Stmt.bareReturns : Stmt → List (Option Span)
  | .ifThen _ _ b | .while _ _ b => Stmt.blockBareReturns b
  | .ifElse _ _ b₁ b₂ => Stmt.blockBareReturns b₁ ++ Stmt.blockBareReturns b₂
  | .return s none => [s]
  | .assign .. | .increment .. | .decrement .. | .read .. | .write .. | .call ..
  | .return _ (some _) | .unknown _ => []
termination_by structural s => s

/-- Where a block returns without a value. -/
def Stmt.blockBareReturns : Block Stmt → List (Option Span)
  | ⟨_, _, ss⟩ => Stmt.listBareReturns ss
termination_by structural b => b

/-- Where statements return without a value. -/
def Stmt.listBareReturns : List Stmt → List (Option Span)
  | [] => []
  | s :: ss => s.bareReturns ++ Stmt.listBareReturns ss
termination_by structural ss => ss

end

/-- Where a declaration returns without a value. -/
def Decl.bareReturns : Decl → List (Option Span)
  | .fn d => Stmt.blockBareReturns d.body
  | .var _ | .struct _ | .unknown _ => []

/-! ## Reports at places -/

/-- The report is at a place with the property. -/
def Report.At (P : Option Span → Prop) (x : Report) : Prop := ∃ s, P s ∧ x.locus = .ofSpan? s

variable {P : Option Span → Prop}

theorem NameCause.at_report {s : Option Span} (h : P s) (c : NameCause) : (c.report s).At P :=
  ⟨s, h, rfl⟩

theorem TypeCause.at_reportAt {s : Option Span} (h : P s) (c : TypeCause) : (c.reportAt s).At P :=
  ⟨s, h, rfl⟩

/-- The reports of a sequence are those of its first part and of what follows on its value. -/
theorem Outcome.Only.followed {ρ φ α β : Type} {Q : ρ → Prop} {o : Outcome ρ φ α}
    {next : α → Outcome ρ φ β} (h : o.Only Q) (hnext : (next o.value).Only Q) (stopped : α → β) :
    (o.andThen stopped next).Only Q := by
  unfold Outcome.andThen
  split
  · exact h
  · exact List.forall_mem_append.mpr ⟨h, hnext⟩

/-! ## Name resolution -/

namespace Resolve

@[simp] theorem span_ident (env : Env) (x : Ident) :
    (x.resolve env).value.info.span = x.info.span := by
  unfold Ident.resolve
  split <;> rfl

theorem leaves_access (i : Info) (loc : Exp) (f : Ident) :
    (access i loc f).value.leaves = loc.leaves ++ [f.info.span] := by
  unfold access fieldOf
  split
  · split <;> rfl
  · rfl
  · rfl
  · rfl

mutual

@[simp] theorem leaves_exp (env : Env) : ∀ e, (exp env e).value.leaves = e.leaves
  | .int .. | .string .. | .bool .. | .unknown _ => rfl
  | .ident x => congrArg ([·]) (span_ident env x)
  | .access i k loc f => by
    rw [exp, Exp.leaves]
    refine view_andThen Exp.leaves ?_ ?_
    · rw [Exp.leaves, leaves_exp env loc]
    · rw [leaves_access, leaves_exp env loc]
  | .assign i l r | .binary i _ l r => by
    rw [exp, Exp.leaves]
    refine view_andThen Exp.leaves ?_ ?_
    · rw [Exp.leaves, leaves_exp env l]
    · rw [value_map, Exp.leaves, leaves_exp env l, leaves_exp env r]
  | .call i f s args => by
    rw [exp, Exp.leaves]
    refine view_andThen Exp.leaves ?_ ?_
    · rw [Exp.leaves, span_ident]
    · rw [value_map, Exp.leaves, span_ident, leaves_exps env args]
  | .neg i e | .not i e => by rw [exp, value_map, Exp.leaves, leaves_exp env e, Exp.leaves]

@[simp] theorem leaves_exps (env : Env) :
    ∀ es, Exp.listLeaves (exps env es).value = Exp.listLeaves es
  | [] => rfl
  | e :: es => by
    rw [exps, Exp.listLeaves]
    refine view_andThen Exp.listLeaves ?_ ?_
    · rw [Exp.listLeaves, leaves_exp env e]
    · rw [value_map, Exp.listLeaves, leaves_exp env e, leaves_exps env es]

end

theorem at_ident (env : Env) {x : Ident} (h : P x.info.span) :
    (x.resolve env).Only (Report.At P) := by
  unfold Ident.resolve
  split
  · exact only_pure _
  · exact only_singleton (NameCause.at_report h _)

/-- What is no struct is reported where its own name stands. -/
theorem mem_leaves_of_base {e : Exp} {s : Option Span} (h : e.base = .notStruct s) :
    s ∈ e.leaves := by
  unfold Exp.base at h
  split at h
  · split at h <;> cases h
    exact List.mem_singleton_self _
  · split at h
    · cases h
    · split at h <;> cases h
      exact List.mem_append_right _ (List.mem_singleton_self _)
  · cases h

theorem at_access (i : Info) {loc : Exp} {f : Ident} (hloc : ∀ s ∈ loc.leaves, P s)
    (hf : P f.info.span) : (access i loc f).Only (Report.At P) := by
  unfold access fieldOf
  split
  · split
    · exact only_pure _
    · exact only_singleton (NameCause.at_report hf _)
  · exact only_pure _
  · next hbase => exact only_singleton (NameCause.at_report (hloc _ (mem_leaves_of_base hbase)) _)
  · exact only_stop _ _

mutual

theorem at_exp (env : Env) : ∀ {e : Exp}, (∀ s ∈ e.leaves, P s) → (exp env e).Only (Report.At P)
  | .int .., _ | .string .., _ | .bool .., _ => only_pure _
  | .unknown _, _ => only_stop _ _
  | .ident x, h => (at_ident env (h _ (List.mem_singleton_self _))).map _
  | .access i k loc f, h => by
    obtain ⟨hloc, hf⟩ := List.forall_mem_append.mp h
    refine (at_exp env hloc).followed (at_access _ ?_ (hf _ (List.mem_singleton_self _))) _
    rw [leaves_exp]
    exact hloc
  | .assign i l r, h | .binary i _ l r, h => by
    obtain ⟨hl, hr⟩ := List.forall_mem_append.mp h
    exact (at_exp env hl).andThen (fun _ => (at_exp env hr).map _) _
  | .call i f s args, h => by
    obtain ⟨hf, hargs⟩ := List.forall_mem_cons.mp h
    exact (at_ident env hf).andThen (fun _ => (at_exps env hargs).map _) _
  | .neg i e, h | .not i e, h => (at_exp env (e := e) h).map _

theorem at_exps (env : Env) : ∀ {es : List Exp}, (∀ s ∈ Exp.listLeaves es, P s) →
    (exps env es).Only (Report.At P)
  | [], _ => only_pure _
  | e :: es, h => by
    obtain ⟨he, hes⟩ := List.forall_mem_append.mp h
    exact (at_exp env he).andThen (fun _ => (at_exps env hes).map _) _

end

/-! ### Declarations of variables -/

theorem leaves_shape (env : Env) (d : VarDecl) :
    (shape env d).value.1.leaves = d.type.leaves := by
  unfold shape
  split
  · next h => rw [h]; rfl
  · next h => rw [h]; rfl
  · next h => rw [h]; rfl
  · next h =>
    rw [h]
    split <;> rfl
  · next h => rw [h]; rfl

@[simp] theorem leaves_declare (env : Env) (taken : Option NameCause)
    (place : Shape StructDef → Place) (d : VarDecl) :
    (declare env taken place d).value.1.leaves = d.leaves := by
  unfold declare
  refine view_andThen (fun v : VarDecl × Option Storage => v.1.leaves) ?_ ?_
  · exact congrArg (· ++ _) (leaves_shape env d)
  · dsimp only
    split <;> exact congrArg (· ++ _) (leaves_shape env d)

theorem at_shape (env : Env) {d : VarDecl} (h : ∀ s ∈ d.leaves, P s) :
    (shape env d).Only (Report.At P) := by
  obtain ⟨htype, hname⟩ := List.forall_mem_append.mp h
  have hname : P d.name.info.span := hname _ (List.mem_singleton_self _)
  unfold shape
  split
  · exact only_pure _
  · exact only_pure _
  · exact only_singleton (NameCause.at_report hname _)
  · next heq =>
    rw [heq] at htype
    split
    · exact only_pure _
    · exact only_singleton (NameCause.at_report (htype _ (List.mem_singleton_self _)) _)
  · exact only_stop _ _

theorem at_declare (env : Env) (taken : Option NameCause) (place : Shape StructDef → Place)
    {d : VarDecl} (h : ∀ s ∈ d.leaves, P s) : (declare env taken place d).Only (Report.At P) := by
  have hname : P d.name.info.span := h _ (List.mem_append_right _ (List.mem_singleton_self _))
  refine (at_shape env h).andThen (fun _ => ?_) _
  dsimp only
  split
  · exact only_singleton (NameCause.at_report hname _)
  · exact only_pure _
  · exact only_pure _

@[simp] theorem leaves_localVars (env : Env) (frame : Frame) (ds : List VarDecl) :
    VarDecl.listLeaves (localVars env frame ds).value.1 = VarDecl.listLeaves ds := by
  induction ds generalizing env frame with
  | nil => rfl
  | cons d ds ih =>
    have hd : (localVar env frame d).value.1.leaves = d.leaves := by
      rw [value_localVar]
      exact leaves_declare _ _ _ _
    rw [localVars]
    refine view_andThen (fun v : List VarDecl × Env × Frame => VarDecl.listLeaves v.1) ?_ ?_
    · rw [VarDecl.listLeaves, hd, VarDecl.listLeaves]
    · rw [value_map, VarDecl.listLeaves, hd, ih, VarDecl.listLeaves]

@[simp] theorem leaves_formals (env : Env) (frame : Frame) (ds : List VarDecl) :
    VarDecl.listLeaves (formals env frame ds).value.1 = VarDecl.listLeaves ds := by
  induction ds generalizing env frame with
  | nil => rfl
  | cons d ds ih =>
    rw [formals]
    refine view_andThen (fun v : List VarDecl × Env × Frame => VarDecl.listLeaves v.1) ?_ ?_
    · rw [VarDecl.listLeaves, leaves_declare, VarDecl.listLeaves]
    · rw [value_map, VarDecl.listLeaves, leaves_declare, ih, VarDecl.listLeaves]

theorem at_localVars (env : Env) (frame : Frame) {ds : List VarDecl}
    (h : ∀ s ∈ VarDecl.listLeaves ds, P s) : (localVars env frame ds).Only (Report.At P) := by
  induction ds generalizing env frame with
  | nil => exact only_pure _
  | cons d ds ih =>
    obtain ⟨hd, hds⟩ := List.forall_mem_append.mp h
    exact ((at_declare _ _ _ hd).andThen (fun _ => only_logged _ _) _).andThen
      (fun _ => (ih _ _ hds).map _) _

theorem at_formals (env : Env) (frame : Frame) {ds : List VarDecl}
    (h : ∀ s ∈ VarDecl.listLeaves ds, P s) : (formals env frame ds).Only (Report.At P) := by
  induction ds generalizing env frame with
  | nil => exact only_pure _
  | cons d ds ih =>
    obtain ⟨hd, hds⟩ := List.forall_mem_append.mp h
    exact (at_declare _ _ _ hd).andThen (fun _ => (ih _ _ hds).map _) _

theorem at_fields (env : Env) (before : List (Field StructDef)) (size : Nat) {ds : List VarDecl}
    (h : ∀ s ∈ VarDecl.listLeaves ds, P s) : (fields env before size ds).Only (Report.At P) := by
  induction ds generalizing before size with
  | nil => exact only_pure _
  | cons d ds ih =>
    obtain ⟨hd, hds⟩ := List.forall_mem_append.mp h
    exact (at_declare _ _ _ hd).andThen (fun _ => (ih _ _ hds).map _) _

/-! ### Statements -/

mutual

theorem leaves_stmt (env : Env) (frame : Frame) : ∀ s,
    (stmt env frame s).value.1.leaves = s.leaves
  | .assign _ e | .increment _ e | .decrement _ e | .read _ e | .write _ e | .call _ e
  | .return _ (some e) => by rw [stmt, value_map, Stmt.leaves, leaves_exp, Stmt.leaves]
  | .ifThen _ e b | .while _ e b => by
    rw [stmt, Stmt.leaves]
    refine view_andThen (fun v : Stmt × Frame => v.1.leaves) ?_ ?_
    · rw [Stmt.leaves, leaves_exp]
    · rw [value_map, Stmt.leaves, leaves_exp, leaves_block]
  | .ifElse _ e b₁ b₂ => by
    rw [stmt, Stmt.leaves]
    refine view_andThen (fun v : Stmt × Frame => v.1.leaves) ?_
      (view_andThen (fun v : Stmt × Frame => v.1.leaves) ?_ ?_)
    · rw [Stmt.leaves, leaves_exp]
    · rw [Stmt.leaves, leaves_exp, leaves_block]
    · rw [value_map, Stmt.leaves, leaves_exp, leaves_block, leaves_block]
  | .return _ none | .unknown _ => rfl

theorem leaves_block (env : Env) (frame : Frame) : ∀ b,
    Stmt.blockLeaves (block env frame b).value.1 = Stmt.blockLeaves b
  | ⟨ds, _, ss⟩ => by
    rw [block]
    refine view_andThen (fun v : Block Stmt × Frame => Stmt.blockLeaves v.1) ?_ ?_
    · rw [Stmt.blockLeaves, leaves_localVars, Stmt.blockLeaves]
    · rw [value_map, Stmt.blockLeaves, leaves_localVars, leaves_stmts, Stmt.blockLeaves]

theorem leaves_stmts (env : Env) (frame : Frame) : ∀ ss,
    Stmt.listLeaves (stmts env frame ss).value.1 = Stmt.listLeaves ss
  | [] => rfl
  | s :: ss => by
    rw [stmts, Stmt.listLeaves]
    refine view_andThen (fun v : List Stmt × Frame => Stmt.listLeaves v.1) ?_ ?_
    · rw [Stmt.listLeaves, leaves_stmt]
    · rw [value_map, Stmt.listLeaves, leaves_stmt, leaves_stmts]

end

mutual

theorem bareReturns_stmt (env : Env) (frame : Frame) : ∀ s,
    (stmt env frame s).value.1.bareReturns = s.bareReturns
  | .assign .. | .increment .. | .decrement .. | .read .. | .write .. | .call ..
  | .return _ (some _) | .return _ none | .unknown _ => rfl
  | .ifThen _ e b | .while _ e b => by
    rw [stmt]
    refine view_andThen (fun v : Stmt × Frame => v.1.bareReturns) rfl ?_
    rw [value_map, Stmt.bareReturns, bareReturns_block, Stmt.bareReturns]
  | .ifElse _ e b₁ b₂ => by
    rw [stmt]
    refine view_andThen (fun v : Stmt × Frame => v.1.bareReturns) rfl
      (view_andThen (fun v : Stmt × Frame => v.1.bareReturns) ?_ ?_)
    · rw [Stmt.bareReturns, bareReturns_block, Stmt.bareReturns]
    · rw [value_map, Stmt.bareReturns, bareReturns_block, bareReturns_block, Stmt.bareReturns]

theorem bareReturns_block (env : Env) (frame : Frame) : ∀ b,
    Stmt.blockBareReturns (block env frame b).value.1 = Stmt.blockBareReturns b
  | ⟨ds, _, ss⟩ => by
    rw [block]
    refine view_andThen (fun v : Block Stmt × Frame => Stmt.blockBareReturns v.1) rfl ?_
    rw [value_map, Stmt.blockBareReturns, bareReturns_stmts, Stmt.blockBareReturns]

theorem bareReturns_stmts (env : Env) (frame : Frame) : ∀ ss,
    Stmt.listBareReturns (stmts env frame ss).value.1 = Stmt.listBareReturns ss
  | [] => rfl
  | s :: ss => by
    rw [stmts, Stmt.listBareReturns]
    refine view_andThen (fun v : List Stmt × Frame => Stmt.listBareReturns v.1) ?_ ?_
    · rw [Stmt.listBareReturns, bareReturns_stmt]
    · rw [value_map, Stmt.listBareReturns, bareReturns_stmt, bareReturns_stmts]

end

mutual

theorem at_stmt (env : Env) (frame : Frame) : ∀ {s : Stmt}, (∀ p ∈ s.leaves, P p) →
    (stmt env frame s).Only (Report.At P)
  | .assign _ e, h | .increment _ e, h | .decrement _ e, h | .read _ e, h | .write _ e, h
  | .call _ e, h | .return _ (some e), h => (at_exp env (e := e) h).map _
  | .ifThen _ e b, h | .while _ e b, h => by
    obtain ⟨he, hb⟩ := List.forall_mem_append.mp h
    exact (at_exp env he).andThen (fun _ => (at_block _ frame hb).map _) _
  | .ifElse _ e b₁ b₂, h => by
    obtain ⟨he, hb⟩ := List.forall_mem_append.mp h
    obtain ⟨hyes, hno⟩ := List.forall_mem_append.mp hb
    exact (at_exp env he).andThen (fun _ => (at_block _ frame hyes).andThen
      (fun _ => (at_block _ _ hno).map _) _) _
  | .return _ none, _ => only_pure _
  | .unknown _, _ => only_stop _ _

theorem at_block (env : Env) (frame : Frame) : ∀ {b : Block Stmt},
    (∀ p ∈ Stmt.blockLeaves b, P p) → (block env frame b).Only (Report.At P)
  | ⟨ds, _, ss⟩, h => by
    obtain ⟨hds, hss⟩ := List.forall_mem_append.mp h
    exact (at_localVars env frame hds).andThen (fun _ => (at_stmts _ _ hss).map _) _

theorem at_stmts (env : Env) (frame : Frame) : ∀ {ss : List Stmt},
    (∀ p ∈ Stmt.listLeaves ss, P p) → (stmts env frame ss).Only (Report.At P)
  | [], _ => only_pure _
  | s :: ss, h => by
    obtain ⟨hs, hss⟩ := List.forall_mem_append.mp h
    exact (at_stmt env frame hs).andThen (fun _ => (at_stmts env _ hss).map _) _

end

/-! ### Declarations at the top -/

theorem at_name (env : Env) {x : Ident} (symbol : Symbol) (h : P x.info.span) :
    (name env x symbol).Only (Report.At P) := by
  unfold name
  split
  · exact only_singleton (NameCause.at_report h _)
  · exact only_pure _

theorem at_fnDecl (env : Env) {d : FnDecl} (h : ∀ s ∈ (Decl.fn d).leaves, P s) :
    (fnDecl env d).Only (Report.At P) := by
  obtain ⟨hname, hrest⟩ := List.forall_mem_cons.mp h
  obtain ⟨hformals, hbody⟩ := List.forall_mem_append.mp hrest
  unfold fnDecl
  split
  · exact only_stop _ _
  · exact (at_name env _ hname).andThen (fun _ => (at_formals _ _ hformals).andThen
      (fun _ => (at_block _ _ hbody).andThen (fun _ => only_pure _) _) _) _

theorem at_structDecl (env : Env) {d : StructDecl} (h : ∀ s ∈ (Decl.struct d).leaves, P s) :
    (structDecl env d).Only (Report.At P) := by
  obtain ⟨hname, hfields⟩ := List.forall_mem_cons.mp h
  have hcause : ∀ cause : Option NameCause, (Outcome.reporting ()
      (cause.map (·.report d.name.info.span)).toList : Resolved Unit).Only (Report.At P) := by
    intro cause
    cases cause with
    | none => exact only_pure _
    | some cause => exact only_singleton (cause.at_report hname)
  rw [structDecl]
  refine (hcause _).andThen (fun _ => (at_fields _ _ _ hfields).andThen (fun _ => ?_) _) _
  dsimp only
  split
  · exact only_pure _
  · exact only_logged _ _

/-- Name resolution reports names where they stand. -/
theorem at_decl (env : Env) : ∀ {d : Decl}, (∀ s ∈ d.leaves, P s) →
    (decl env d).Only (Report.At P)
  | .var d, h => by
    rw [decl]
    split
    · exact only_stop _ _
    · exact (at_declare _ _ _ h).map _
  | .fn _, h => (at_fnDecl env h).map _
  | .struct _, h => (at_structDecl env h).map _
  | .unknown _, _ => only_stop _ _

end Resolve

end CMinusMinus
