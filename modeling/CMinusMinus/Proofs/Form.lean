import CMinusMinus.Check
import CMinusMinus.Proofs.Sequencing
import CMinusMinus.Resolve
import CMinusMinus.Syntax.Same

/-!
# Forms of trees

The *form* of a tree is the tree without its spans and annotations: its nodes and their values.
Neither pass changes the form of a tree (`Resolve.form_decls`, `Check.form_decls`), wherever it
stops.  Comparing two trees takes no notice of spans and annotations, so it can be told of their
forms: trees of one form are the same (`Program.same_of_form`).
-/

namespace CMinusMinus

open Outcome

/-! ## Forms -/

/-- The name alone. -/
def Ident.form (x : Ident) : Ident := { name := x.name }

mutual

/-- The form of an expression. -/
def Exp.form : Exp → Exp
  | .int _ v => .int {} v
  | .string _ text => .string {} text
  | .bool _ b => .bool {} b
  | .ident x => .ident x.form
  | .access _ _ loc f => .access {} {} loc.form f.form
  | .assign _ l r => .assign {} l.form r.form
  | .call _ f _ args => .call {} f.form none (Exp.listForm args)
  | .neg _ e => .neg {} e.form
  | .not _ e => .not {} e.form
  | .binary _ op l r => .binary {} op l.form r.form
  | .unknown _ => .unknown {}
termination_by structural e => e

/-- The forms of expressions. -/
def Exp.listForm : List Exp → List Exp
  | [] => []
  | e :: es => e.form :: Exp.listForm es
termination_by structural es => es

end

/-- The form of a type. -/
def TypeNode.form : TypeNode → TypeNode
  | .int _ => .int none
  | .bool _ => .bool none
  | .void _ => .void none
  | .struct _ x => .struct none x.form
  | .unknown _ => .unknown none

/-- The form of a declaration. -/
def VarDecl.form (d : VarDecl) : VarDecl :=
  { role := d.role, span := none, type := d.type.form, name := d.name.form }

/-- The forms of declarations. -/
def VarDecls.form (ds : VarDecls) : VarDecls := { items := ds.items.map VarDecl.form }

mutual

/-- The form of a statement. -/
def Stmt.form : Stmt → Stmt
  | .assign _ e => .assign none e.form
  | .increment _ e => .increment none e.form
  | .decrement _ e => .decrement none e.form
  | .read _ e => .read none e.form
  | .write _ e => .write none e.form
  | .ifThen _ e b => .ifThen none e.form (Stmt.blockForm b)
  | .ifElse _ e b₁ b₂ => .ifElse none e.form (Stmt.blockForm b₁) (Stmt.blockForm b₂)
  | .while _ e b => .while none e.form (Stmt.blockForm b)
  | .call _ e => .call none e.form
  | .return _ none => .return none none
  | .return _ (some e) => .return none (some e.form)
  | .unknown _ => .unknown none
termination_by structural s => s

/-- The form of a block. -/
def Stmt.blockForm : Block Stmt → Block Stmt
  | ⟨ds, _, ss⟩ => { decls := ds.form, stmts := Stmt.listForm ss }
termination_by structural b => b

/-- The forms of statements. -/
def Stmt.listForm : List Stmt → List Stmt
  | [] => []
  | s :: ss => s.form :: Stmt.listForm ss
termination_by structural ss => ss

end

/-- The form of a function. -/
def FnDecl.form (d : FnDecl) : FnDecl :=
  { span := none, returns := d.returns.form, name := d.name.form, formals := d.formals.form,
    bodySpan := none, body := Stmt.blockForm d.body }

/-- The form of a struct. -/
def StructDecl.form (d : StructDecl) : StructDecl :=
  { span := none, name := d.name.form, fields := d.fields.form }

/-- The form of a declaration at the top of a program. -/
def Decl.form : Decl → Decl
  | .var d => .var d.form
  | .fn d => .fn d.form
  | .struct d => .struct d.form
  | .unknown _ => .unknown none

/-- The form of a program. -/
def Program.form (p : Program) : Program := { decls := p.decls.map Decl.form }

/-! ## What the passes keep -/

/-- What is the same of a sequence wherever it stopped. -/
theorem Outcome.view_andThen {ρ φ α β γ : Type} (view : β → γ) {o : Outcome ρ φ α}
    {stopped : α → β} {next : α → Outcome ρ φ β} {c : γ} (hstopped : view (stopped o.value) = c)
    (hnext : view (next o.value).value = c) : view (o.andThen stopped next).value = c := by
  unfold andThen
  split
  · exact hstopped
  · exact hnext

@[simp] theorem Ident.form_bind (x : Ident) (s : Symbol) : (x.bind s).form = x.form := rfl

@[simp] theorem Ident.form_fail (x : Ident) : x.fail.form = x.form := rfl

@[simp] theorem Exp.form_record (t : Ty) (e : Exp) : (e.record t).form = e.form := by
  cases e <;> rfl

namespace Resolve

@[simp] theorem form_ident (env : Env) (x : Ident) : (x.resolve env).value.form = x.form := by
  unfold Ident.resolve
  split <;> rfl

theorem form_access (i : Info) (loc : Exp) (f : Ident) :
    (access i loc f).value.form = .access {} {} loc.form f.form := by
  unfold access fieldOf
  split
  · split <;> rfl
  all_goals rfl

mutual

/-- Name resolution keeps the form of an expression. -/
@[simp] theorem form_exp (env : Env) : ∀ e, (exp env e).value.form = e.form
  | .int .. | .string .. | .bool .. | .unknown _ => rfl
  | .ident x => by
    rw [exp, value_map, Exp.form, form_ident, Exp.form]
  | .access i k loc f => by
    rw [exp]
    refine view_andThen Exp.form ?_ ?_
    · rw [Exp.form, form_exp env loc, Exp.form]
    · rw [form_access, form_exp env loc, Exp.form]
  | .assign i l r => by
    rw [exp]
    refine view_andThen Exp.form ?_ ?_
    · rw [Exp.form, form_exp env l, Exp.form]
    · rw [value_map, Exp.form, form_exp env l, form_exp env r, Exp.form]
  | .call i f sp args => by
    rw [exp]
    refine view_andThen Exp.form ?_ ?_
    · rw [Exp.form, form_ident, Exp.form]
    · rw [value_map, Exp.form, form_ident, form_exps env args, Exp.form]
  | .neg i e => by rw [exp, value_map, Exp.form, form_exp env e, Exp.form]
  | .not i e => by rw [exp, value_map, Exp.form, form_exp env e, Exp.form]
  | .binary i op l r => by
    rw [exp]
    refine view_andThen Exp.form ?_ ?_
    · rw [Exp.form, form_exp env l, Exp.form]
    · rw [value_map, Exp.form, form_exp env l, form_exp env r, Exp.form]

@[simp] theorem form_exps (env : Env) : ∀ es, Exp.listForm (exps env es).value = Exp.listForm es
  | [] => rfl
  | e :: es => by
    rw [exps]
    refine view_andThen Exp.listForm ?_ ?_
    · rw [Exp.listForm, form_exp env e, Exp.listForm]
    · rw [value_map, Exp.listForm, form_exp env e, form_exps env es, Exp.listForm]

end

theorem form_shape (env : Env) (d : VarDecl) : (shape env d).value.1.form = d.type.form := by
  unfold shape
  cases d.type with
  | struct sp x =>
    dsimp only
    split <;> rfl
  | _ => rfl

@[simp] theorem form_declare (env : Env) (taken : Option NameCause)
    (place : Shape StructDef → Place) (d : VarDecl) :
    (declare env taken place d).value.1.form = d.form := by
  have hshape := form_shape env d
  unfold declare
  refine view_andThen (fun v : VarDecl × Option Storage => v.1.form) ?_ ?_
  · rw [VarDecl.form, hshape, VarDecl.form]
  · dsimp only
    split <;> simp [VarDecl.form, hshape]

theorem form_localVars (env : Env) (frame : Frame) (ds : List VarDecl) :
    (localVars env frame ds).value.1.map VarDecl.form = ds.map VarDecl.form := by
  induction ds generalizing env frame with
  | nil => rfl
  | cons d ds ih =>
    rw [localVars]
    refine view_andThen (fun v : List VarDecl × Env × Frame => v.1.map VarDecl.form) ?_ ?_
    · simp [value_localVar]
    · simp [value_localVar, ih]

theorem form_formals (env : Env) (frame : Frame) (ds : List VarDecl) :
    (formals env frame ds).value.1.map VarDecl.form = ds.map VarDecl.form := by
  induction ds generalizing env frame with
  | nil => rfl
  | cons d ds ih =>
    rw [formals]
    refine view_andThen (fun v : List VarDecl × Env × Frame => v.1.map VarDecl.form) ?_ ?_
    · simp
    · simp [ih]

theorem form_fields (env : Env) (before : List (Field StructDef)) (size : Nat)
    (ds : List VarDecl) :
    (fields env before size ds).value.1.map VarDecl.form = ds.map VarDecl.form := by
  induction ds generalizing before size with
  | nil => rfl
  | cons d ds ih =>
    rw [fields]
    refine view_andThen
      (fun v : List VarDecl × List (Field StructDef) × Nat => v.1.map VarDecl.form) ?_ ?_
    · simp
    · simp [ih]

mutual

/-- Name resolution keeps the form of a statement. -/
theorem form_stmt (env : Env) (frame : Frame) : ∀ s, (stmt env frame s).value.1.form = s.form
  | .assign _ e | .increment _ e | .decrement _ e | .read _ e | .write _ e | .call _ e
  | .return _ (some e) => by
    rw [stmt, value_map, Stmt.form, form_exp, Stmt.form]
  | .ifThen _ e b => by
    rw [stmt]
    refine view_andThen (fun v : Stmt × Frame => v.1.form) ?_ ?_
    · rw [Stmt.form, form_exp, Stmt.form]
    · rw [value_map, Stmt.form, form_exp, form_block, Stmt.form]
  | .ifElse _ e b₁ b₂ => by
    rw [stmt]
    refine view_andThen (fun v : Stmt × Frame => v.1.form) ?_
      (view_andThen (fun v : Stmt × Frame => v.1.form) ?_ ?_)
    · rw [Stmt.form, form_exp, Stmt.form]
    · rw [Stmt.form, form_exp, form_block, Stmt.form]
    · rw [value_map, Stmt.form, form_exp, form_block, form_block, Stmt.form]
  | .while _ e b => by
    rw [stmt]
    refine view_andThen (fun v : Stmt × Frame => v.1.form) ?_ ?_
    · rw [Stmt.form, form_exp, Stmt.form]
    · rw [value_map, Stmt.form, form_exp, form_block, Stmt.form]
  | .return _ none | .unknown _ => rfl

theorem form_block (env : Env) (frame : Frame) :
    ∀ b, Stmt.blockForm (block env frame b).value.1 = Stmt.blockForm b
  | ⟨ds, _, ss⟩ => by
    have hds := form_localVars env frame ds.items
    rw [block]
    refine view_andThen (fun v : Block Stmt × Frame => Stmt.blockForm v.1) ?_ ?_
    · rw [Stmt.blockForm, VarDecls.form, hds, Stmt.blockForm, VarDecls.form]
    · rw [value_map, Stmt.blockForm, VarDecls.form, hds, form_stmts, Stmt.blockForm,
        VarDecls.form]

theorem form_stmts (env : Env) (frame : Frame) :
    ∀ ss, Stmt.listForm (stmts env frame ss).value.1 = Stmt.listForm ss
  | [] => rfl
  | s :: ss => by
    rw [stmts]
    refine view_andThen (fun v : List Stmt × Frame => Stmt.listForm v.1) ?_ ?_
    · rw [Stmt.listForm, form_stmt, Stmt.listForm]
    · rw [value_map, Stmt.listForm, form_stmt, form_stmts, Stmt.listForm]

end

theorem form_name (env : Env) (x : Ident) (symbol : Symbol) :
    (name env x symbol).value.1.form = x.form := by
  unfold name
  split <;> rfl

theorem form_fnDecl (env : Env) (d : FnDecl) : (fnDecl env d).value.1.form = d.form := by
  unfold fnDecl
  split
  · rfl
  · refine view_andThen (fun v : FnDecl × Env => v.1.form) ?_
      (view_andThen (fun v : FnDecl × Env => v.1.form) ?_
        (view_andThen (fun v : FnDecl × Env => v.1.form) ?_ ?_))
    all_goals simp [FnDecl.form, form_name, VarDecls.form, form_formals, form_block]

theorem form_structDecl (env : Env) (d : StructDecl) :
    (structDecl env d).value.1.form = d.form := by
  unfold structDecl
  refine view_andThen (fun v : StructDecl × Env => v.1.form) rfl
    (view_andThen (fun v : StructDecl × Env => v.1.form) ?_ ?_)
  · simp [StructDecl.form, VarDecls.form, form_fields]
  · dsimp only
    split <;> simp [StructDecl.form, VarDecls.form, form_fields]

theorem form_decl (env : Env) (d : Decl) : (decl env d).value.1.form = d.form := by
  cases d with
  | var d =>
    rw [decl]
    split
    · rfl
    · rw [value_map, Decl.form, form_declare, Decl.form]
  | fn d => rw [decl, value_map, Decl.form, form_fnDecl, Decl.form]
  | struct d => rw [decl, value_map, Decl.form, form_structDecl, Decl.form]
  | unknown => rfl

/-- Name resolution keeps the form of a program. -/
theorem form_decls (env : Env) (ds : List Decl) :
    (decls env ds).value.1.map Decl.form = ds.map Decl.form := by
  induction ds generalizing env with
  | nil => rfl
  | cons d ds ih =>
    rw [decls]
    refine view_andThen (fun v : List Decl × Env × Bool => v.1.map Decl.form) ?_ ?_
    · rw [List.map_cons, form_decl, List.map_cons]
    · rw [value_map, List.map_cons, form_decl, ih, List.map_cons]

end Resolve

namespace Check

@[simp] theorem form_ident (x : Ident) : (ident x).value.1.form = x.form := by
  obtain ⟨name, info, binding⟩ := x
  cases binding <;> rfl

mutual

/-- Type checking keeps the form of an expression. -/
@[simp] theorem form_exp : ∀ e, (exp e).value.exp.form = e.form
  | .int .. | .string .. | .bool .. | .unknown _ => rfl
  | .ident x => by
    rw [exp, value_map, Exp.form, form_ident, Exp.form]
  | .access i k loc f => by
    rw [exp]
    refine view_andThen (fun p : Part => p.exp.form) ?_
      (view_andThen (fun p : Part => p.exp.form) ?_ ?_)
    all_goals simp [unchecked, record, Exp.form, form_exp loc]
  | .assign i l r => by
    rw [exp]
    refine view_andThen (fun p : Part => p.exp.form) ?_
      (view_andThen (fun p : Part => p.exp.form) ?_ ?_)
    all_goals simp [unchecked, conclude, record, Exp.form, form_exp l, form_exp r]
  | .call i f sp args => by
    rw [exp]
    refine view_andThen (fun p : Part => p.exp.form) ?_
      (view_andThen (fun p : Part => p.exp.form) ?_ ?_)
    all_goals simp [unchecked, conclude, record, Exp.form, form_exps args]
  | .neg i e | .not i e => by
    rw [exp]
    refine view_andThen (fun p : Part => p.exp.form) ?_ ?_
    all_goals simp [unchecked, conclude, record, Exp.form, form_exp e]
  | .binary i op l r => by
    cases op with
    | other => rfl
    | _ =>
      rw [exp]
      · refine view_andThen (fun p : Part => p.exp.form) ?_
          (view_andThen (fun p : Part => p.exp.form) ?_ ?_)
        all_goals simp [unchecked, conclude, record, Exp.form, form_exp l, form_exp r]
      · intro op h
        cases h

@[simp] theorem form_exps : ∀ es, Exp.listForm ((exps es).value.map Part.exp) = Exp.listForm es
  | [] => rfl
  | e :: es => by
    rw [exps]
    refine view_andThen (fun ps : List Part => Exp.listForm (ps.map Part.exp)) ?_ ?_
    · have hrest : es.map (Part.exp ∘ unchecked) = es := List.map_id es
      rw [List.map_cons, List.map_map, hrest, Exp.listForm, form_exp e, Exp.listForm]
    · rw [value_map, List.map_cons, Exp.listForm, form_exp e, form_exps es, Exp.listForm]

end

@[simp] theorem form_operand (e : Exp) (complain : Part → List Report) :
    (operand e complain).value.form = e.form := by
  rw [operand]
  refine view_andThen Exp.form ?_ ?_ <;> simp

mutual

/-- Type checking keeps the form of a statement. -/
theorem form_stmt (ret : Ty) : ∀ s, (stmt ret s).value.form = s.form
  | .assign _ e | .increment _ e | .decrement _ e | .read _ e | .write _ e | .call _ e
  | .return _ (some e) => by
    rw [stmt, value_map, Stmt.form, form_operand, Stmt.form]
  | .ifThen _ e b => by
    rw [stmt]
    refine view_andThen Stmt.form ?_ ?_
    · rw [Stmt.form, form_operand, Stmt.form]
    · rw [value_map, Stmt.form, form_operand, form_block, Stmt.form]
  | .ifElse _ e b₁ b₂ => by
    rw [stmt]
    refine view_andThen Stmt.form ?_ (view_andThen Stmt.form ?_ ?_)
    · rw [Stmt.form, form_operand, Stmt.form]
    · rw [Stmt.form, form_operand, form_block, Stmt.form]
    · rw [value_map, Stmt.form, form_operand, form_block, form_block, Stmt.form]
  | .while _ e b => by
    rw [stmt]
    refine view_andThen Stmt.form ?_ ?_
    · rw [Stmt.form, form_operand, Stmt.form]
    · rw [value_map, Stmt.form, form_operand, form_block, Stmt.form]
  | .return _ none | .unknown _ => rfl

theorem form_block (ret : Ty) : ∀ b, Stmt.blockForm (block ret b).value = Stmt.blockForm b
  | ⟨ds, _, ss⟩ => by
    rw [block, value_map, Stmt.blockForm, form_stmts, Stmt.blockForm]

theorem form_stmts (ret : Ty) : ∀ ss, Stmt.listForm (stmts ret ss).value = Stmt.listForm ss
  | [] => rfl
  | s :: ss => by
    rw [stmts]
    refine view_andThen Stmt.listForm ?_ ?_
    · rw [Stmt.listForm, form_stmt, Stmt.listForm]
    · rw [value_map, Stmt.listForm, form_stmt, form_stmts, Stmt.listForm]

end

theorem form_decl (d : Decl) : (decl d).value.form = d.form := by
  cases d with
  | fn d =>
    rw [decl, value_map, Decl.form, Decl.form, fnDecl]
    split
    · rfl
    · rw [value_map, FnDecl.form, form_block, FnDecl.form]
  | _ => rfl

/-- Type checking keeps the form of a program. -/
theorem form_decls (ds : List Decl) : (decls ds).value.map Decl.form = ds.map Decl.form := by
  induction ds with
  | nil => rfl
  | cons d ds ih =>
    rw [decls]
    refine view_andThen (List.map Decl.form) ?_ ?_
    · rw [List.map_cons, form_decl, List.map_cons]
    · rw [value_map, List.map_cons, form_decl, ih, List.map_cons]

end Check

/-- Name resolution keeps the form of a program. -/
theorem Program.form_resolve (p : Program) : p.resolve.program.form = p.form :=
  congrArg (fun ds => ({ decls := ds } : Program)) (Resolve.form_decls (Scopes.enter []) p.decls)

/-- Both passes keep the form of a program. -/
theorem Program.form_check (p : Program) (hasMain : Bool) :
    (p.resolve.program.check hasMain).value.form = p.form := by
  rw [← p.form_resolve, Program.check]
  refine view_andThen Program.form ?_ ?_
  · rw [Program.form, Check.form_decls, Program.form]
  · rw [value_reporting, Program.form, Check.form_decls, Program.form]

/-! ## Comparing trees -/

namespace Exp

mutual

/-- Comparing takes no notice of spans and annotations. -/
theorem same_form : (e e' : Exp) → e.same e'.form = e.same e'
  | .int .., e' | .string .., e' | .bool .., e' | .ident _, e' | .unknown _, e' => by
    cases e' <;> rfl
  | .access _ _ loc f, e' => by
    cases e' <;> first | rfl | simp only [form, same, same_form loc, Ident.same, Ident.form]
  | .assign _ l r, e' | .binary _ _ l r, e' => by
    cases e' <;> first | rfl | simp only [form, same, same_form l, same_form r]
  | .call _ f _ es, e' => by
    cases e' <;> first | rfl | simp only [form, same, allSame_form es, Ident.same, Ident.form]
  | .neg _ e, e' | .not _ e, e' => by
    cases e' <;> first | rfl | exact same_form e _
termination_by structural e => e

theorem allSame_form : (es es' : List Exp) → allSame es (listForm es') = allSame es es'
  | [], es' => by cases es' <;> rfl
  | e :: es, es' => by
    cases es' with
    | nil => rfl
    | cons e' es' => simp only [listForm, allSame, same_form e, allSame_form es]
termination_by structural es => es

end

mutual

theorem same_refl : (e : Exp) → e.same e = true
  | .int .. | .string .. | .bool .. | .ident _ => beq_self_eq_true _
  | .unknown _ => rfl
  | .access _ _ loc f => by
    simp only [same, same_refl loc, Ident.same, beq_self_eq_true, Bool.and_self]
  | .assign _ l r | .binary _ _ l r => by
    simp only [same, same_refl l, same_refl r, beq_self_eq_true, Bool.and_self]
  | .call _ f _ es => by
    simp only [same, allSame_refl es, Ident.same, beq_self_eq_true, Bool.and_self]
  | .neg _ e | .not _ e => same_refl e
termination_by structural e => e

theorem allSame_refl : (es : List Exp) → allSame es es = true
  | [] => rfl
  | e :: es => by
    simp only [allSame, same_refl e, allSame_refl es, Bool.and_self]
termination_by structural es => es

end

end Exp

/-! ## Declarations of variables -/

theorem TypeNode.same_form (t t' : TypeNode) : t.same t'.form = t.same t' := by
  cases t <;> cases t' <;> rfl

theorem TypeNode.same_refl (t : TypeNode) : t.same t = true := by
  cases t with
  | struct => exact beq_self_eq_true _
  | _ => rfl

theorem VarDecl.same_form (d d' : VarDecl) : d.same d'.form = d.same d' := by
  simp only [same, form, TypeNode.same_form, Ident.same, Ident.form]

theorem VarDecl.same_refl (d : VarDecl) : d.same d = true := by
  simp only [same, TypeNode.same_refl, Ident.same, beq_self_eq_true, Bool.and_self]

section InTurn

variable {α : Type} {same : α → α → Bool}

theorem sameInTurn_map {form : α → α} (h : ∀ a b, same a (form b) = same a b) (as : List α) :
    ∀ bs, sameInTurn same as (bs.map form) = sameInTurn same as bs := by
  induction as with
  | nil =>
    intro bs
    cases bs <;> rfl
  | cons a as ih =>
    intro bs
    cases bs with
    | nil => rfl
    | cons b bs => rw [List.map_cons, sameInTurn, sameInTurn, h, ih]

theorem sameInTurn_refl (h : ∀ a, same a a = true) (as : List α) :
    sameInTurn same as as = true := by
  induction as with
  | nil => rfl
  | cons a as ih => rw [sameInTurn, h, ih, Bool.and_self]

end InTurn

theorem VarDecls.same_form (ds ds' : VarDecls) : ds.same ds'.form = ds.same ds' :=
  sameInTurn_map VarDecl.same_form _ _

theorem VarDecls.same_refl (ds : VarDecls) : ds.same ds = true :=
  sameInTurn_refl VarDecl.same_refl _

/-! ## Statements -/

namespace Stmt

mutual

theorem same_form : (s s' : Stmt) → s.same s'.form = s.same s'
  | .assign _ e, s' | .increment _ e, s' | .decrement _ e, s' | .read _ e, s' | .write _ e, s'
  | .call _ e, s' => by
    rcases s' with _ | _ | _ | _ | _ | _ | _ | _ | _ | ⟨_, _ | _⟩ | _ <;>
      first | rfl | exact e.same_form _
  | .ifThen _ e b, s' | .while _ e b, s' => by
    rcases s' with _ | _ | _ | _ | _ | _ | _ | _ | _ | ⟨_, _ | _⟩ | _ <;>
      first | rfl | simp only [form, same, e.same_form, blockSame_form b]
  | .ifElse _ e b₁ b₂, s' => by
    rcases s' with _ | _ | _ | _ | _ | _ | _ | _ | _ | ⟨_, _ | _⟩ | _ <;>
      first | rfl | simp only [form, same, e.same_form, blockSame_form b₁, blockSame_form b₂]
  | .return _ none, s' | .unknown _, s' => by
    rcases s' with _ | _ | _ | _ | _ | _ | _ | _ | _ | ⟨_, _ | _⟩ | _ <;> rfl
  | .return _ (some e), s' => by
    rcases s' with _ | _ | _ | _ | _ | _ | _ | _ | _ | ⟨_, _ | _⟩ | _ <;>
      first | rfl | exact e.same_form _
termination_by structural s => s

theorem blockSame_form : (b b' : Block Stmt) → blockSame b (blockForm b') = blockSame b b'
  | ⟨ds, _, ss⟩, ⟨ds', _, ss'⟩ => by
    simp only [blockForm, blockSame, ds.same_form, allSame_form ss]
termination_by structural b => b

theorem allSame_form : (ss ss' : List Stmt) → allSame ss (listForm ss') = allSame ss ss'
  | [], ss' => by cases ss' <;> rfl
  | s :: ss, ss' => by
    cases ss' with
    | nil => rfl
    | cons s' ss' => simp only [listForm, allSame, same_form s, allSame_form ss]
termination_by structural ss => ss

end

mutual

theorem same_refl : (s : Stmt) → s.same s = true
  | .assign _ e | .increment _ e | .decrement _ e | .read _ e | .write _ e | .call _ e
  | .return _ (some e) => e.same_refl
  | .ifThen _ e b | .while _ e b => by
    simp only [same, e.same_refl, blockSame_refl b, Bool.and_self]
  | .ifElse _ e b₁ b₂ => by
    simp only [same, e.same_refl, blockSame_refl b₁, blockSame_refl b₂, Bool.and_self]
  | .return _ none | .unknown _ => rfl
termination_by structural s => s

theorem blockSame_refl : (b : Block Stmt) → blockSame b b = true
  | ⟨ds, _, ss⟩ => by
    simp only [blockSame, ds.same_refl, allSame_refl ss, Bool.and_self]
termination_by structural b => b

theorem allSame_refl : (ss : List Stmt) → allSame ss ss = true
  | [] => rfl
  | s :: ss => by
    simp only [allSame, same_refl s, allSame_refl ss, Bool.and_self]
termination_by structural ss => ss

end

end Stmt

/-! ## Programs -/

theorem Decl.same_form (d d' : Decl) : d.same d'.form = d.same d' := by
  cases d <;> cases d' <;>
    simp only [form, same, FnDecl.form, StructDecl.form, VarDecl.same_form, VarDecls.same_form,
      TypeNode.same_form, Stmt.blockSame_form, Ident.same, Ident.form]

theorem Decl.same_refl (d : Decl) : d.same d = true := by
  cases d <;>
    simp only [same, VarDecl.same_refl, VarDecls.same_refl, TypeNode.same_refl,
      Stmt.blockSame_refl, Ident.same, beq_self_eq_true, Bool.and_self]

/-- Programs of one form are the same. -/
theorem Program.same_of_form {p q : Program} (h : p.form = q.form) : p.same q = true :=
  calc
    p.same q = p.same q.form := (sameInTurn_map Decl.same_form _ _).symm
    _ = p.same p.form := by rw [h]
    _ = p.same p := sameInTurn_map Decl.same_form _ _
    _ = true := sameInTurn_refl Decl.same_refl _

end CMinusMinus
