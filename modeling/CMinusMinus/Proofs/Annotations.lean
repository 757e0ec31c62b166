import Mathlib
import CMinusMinus.Proofs.Form
import CMinusMinus.Proofs.Grammar.Reading
import CMinusMinus.Proofs.Totality
import CMinusMinus.Syntax.Annotation

/-!
# Annotations are overwritten

Name resolution reads back what it leaves in a tree: whether the name before a dot is bound decides
what becomes of the field behind it.  But it reads nothing that an earlier run has left.  On a
formed tree it does the same as on the tree with its annotations cleared, and it leaves a tree that
is the same once these are cleared (`Resolve.decls_clear`, `Resolve.clear_decls`); so a second run
changes nothing (`Program.Formed.resolve_clear`).
-/

namespace CMinusMinus

open Outcome

/-- Clears what name resolution leaves in a tree. -/
def Annotator.clear : Annotator where
  binding _ := .pending
  link _ := {}
  frame _ := none

/-- After a pass that came through, only what follows on its value matters. -/
theorem Outcome.andThen_congr {ρ φ α β : Type} {o : Outcome ρ φ α} (h : o.fault = none)
    {stopped stopped' : α → β} {next next' : α → Outcome ρ φ β}
    (hnext : next o.value = next' o.value) : o.andThen stopped next = o.andThen stopped' next' := by
  rw [andThen_of_fault_none h, andThen_of_fault_none h, hnext]

/-! ## Shapes -/

section Shapes

variable (a : Annotator)

theorem Exp.isLocation_annotate (e : Exp) : (e.annotate a).isLocation = e.isLocation := by
  cases e <;> rfl

mutual

/-- Annotations are no part of the shape of an expression. -/
theorem Exp.formed_annotate : ∀ e : Exp, (e.annotate a).Formed ↔ e.Formed
  | .int .. | .string .. | .bool .. | .ident _ | .unknown _ => Iff.rfl
  | .access _ _ loc f =>
    and_congr (by rw [loc.isLocation_annotate]) (and_congr_left' loc.formed_annotate)
  | .assign _ l r =>
    and_congr (by rw [l.isLocation_annotate]) (and_congr l.formed_annotate r.formed_annotate)
  | .call _ f _ args => and_congr_right' (Exp.allFormed_annotate args)
  | .neg _ e | .not _ e => e.formed_annotate
  | .binary _ op l r => and_congr_right' (and_congr l.formed_annotate r.formed_annotate)

theorem Exp.allFormed_annotate : ∀ es : List Exp, AllFormed (annotateAll a es) ↔ AllFormed es
  | [] => Iff.rfl
  | e :: es => and_congr e.formed_annotate (Exp.allFormed_annotate es)

end

theorem TypeNode.formed_annotate (t : TypeNode) : (t.annotate a).Formed ↔ t.Formed := by
  cases t <;> rfl

theorem VarDecl.formed_annotate (d : VarDecl) : (d.annotate a).Formed ↔ d.Formed :=
  ⟨fun h => ⟨h.role, (d.type.formed_annotate a).mp h.type, h.name⟩,
    fun h => ⟨h.role, (d.type.formed_annotate a).mpr h.type, h.name⟩⟩

mutual

/-- Annotations are no part of the shape of a statement. -/
theorem Stmt.formed_annotate : ∀ s : Stmt, (s.annotate a).Formed ↔ s.Formed
  | .assign _ e => by
    refine and_congr ?_ (e.formed_annotate a)
    cases e <;> rfl
  | .increment _ e | .decrement _ e | .read _ e =>
    and_congr (by rw [e.isLocation_annotate]) (e.formed_annotate a)
  | .write _ e => e.formed_annotate a
  | .ifThen _ e b | .while _ e b => and_congr (e.formed_annotate a) (Stmt.blockFormed_annotate b)
  | .ifElse _ e b₁ b₂ => and_congr (e.formed_annotate a)
      (and_congr (Stmt.blockFormed_annotate b₁) (Stmt.blockFormed_annotate b₂))
  | .call _ e => by
    refine and_congr ?_ (e.formed_annotate a)
    cases e <;> rfl
  | .return _ none => Iff.rfl
  | .return _ (some e) => e.formed_annotate a
  | .unknown _ => Iff.rfl

theorem Stmt.blockFormed_annotate : ∀ b : Block Stmt,
    BlockFormed (annotateBlock a b) ↔ BlockFormed b
  | ⟨ds, _, ss⟩ => by
    refine and_congr ?_ (Stmt.allFormed_annotate ss)
    dsimp only [VarDecls.annotate]
    rw [List.forall_mem_map]
    exact forall₂_congr fun d _ => d.formed_annotate a

theorem Stmt.allFormed_annotate : ∀ ss : List Stmt, AllFormed (annotateAll a ss) ↔ AllFormed ss
  | [] => Iff.rfl
  | s :: ss => and_congr s.formed_annotate (Stmt.allFormed_annotate ss)

end

theorem TypeNode.isWordType_annotate (t : TypeNode) : (t.annotate a).isWordType = t.isWordType := by
  cases t <;> rfl

theorem VarDecl.formedFormal_annotate (d : VarDecl) :
    (d.annotate a).FormedFormal ↔ d.FormedFormal :=
  ⟨fun h => ⟨h.role, (d.type.isWordType_annotate a).symm.trans h.type, h.name⟩,
    fun h => ⟨h.role, (d.type.isWordType_annotate a).trans h.type, h.name⟩⟩

/-- Annotations are no part of the shape of a declaration. -/
theorem Decl.formed_annotate : ∀ d : Decl, (d.annotate a).Formed ↔ d.Formed
  | .var d => d.formed_annotate a
  | .fn d => by
    have hformals : (∀ f ∈ (d.formals.annotate a).items, f.FormedFormal) ↔
        ∀ f ∈ d.formals.items, f.FormedFormal := by
      rw [VarDecls.annotate, List.forall_mem_map]
      exact forall₂_congr fun f _ => f.formedFormal_annotate a
    have hbody := Stmt.blockFormed_annotate a d.body
    have hreturns := d.returns.isWordType_annotate a
    exact ⟨fun h => ⟨hreturns.symm.trans h.returns, h.name, hformals.mp h.formals,
        hbody.mp h.body⟩,
      fun h => ⟨hreturns.trans h.returns, h.name, hformals.mpr h.formals, hbody.mpr h.body⟩⟩
  | .struct d => by
    have hfields : (∀ f ∈ (d.fields.annotate a).items, f.Formed) ↔
        ∀ f ∈ d.fields.items, f.Formed := by
      rw [VarDecls.annotate, List.forall_mem_map]
      exact forall₂_congr fun f _ => f.formed_annotate a
    have hnonempty : (d.fields.annotate a).items ≠ [] ↔ d.fields.items ≠ [] :=
      not_congr List.map_eq_nil_iff
    exact ⟨fun h => ⟨h.name, hnonempty.mp h.nonempty, hfields.mp h.fields⟩,
      fun h => ⟨h.name, hnonempty.mpr h.nonempty, hfields.mpr h.fields⟩⟩
  | .unknown _ => Iff.rfl

/-- Annotations are no part of the shape of a program. -/
theorem Program.formed_annotate (p : Program) : (p.annotate a).Formed ↔ p.Formed := by
  rw [Formed, Program.annotate, List.forall_mem_map]
  exact forall₂_congr fun d _ => d.formed_annotate a

end Shapes

namespace Resolve

/-! ## Expressions -/

theorem ident_clear (env : Env) (x : Ident) : (x.annotate .clear).resolve env = x.resolve env := by
  unfold Ident.resolve
  dsimp only [Ident.annotate]
  split <;> rfl

theorem clear_ident (env : Env) (x : Ident) :
    (x.resolve env).value.annotate .clear = x.annotate .clear := by
  unfold Ident.resolve
  split <;> rfl

/-- What becomes of a field does not depend on how it was marked. -/
theorem access_clear (i : Info) {loc : Exp} (h : loc.isLocation = true) (f : Ident) :
    access i loc (f.annotate .clear) = access i loc f := by
  have hbase := base_ne_misplaced h
  unfold access
  split
  · rfl
  · rfl
  · rfl
  · next hmisplaced => exact absurd hmisplaced hbase

theorem clear_access (i : Info) (loc : Exp) (f : Ident) :
    (access i loc f).value.annotate .clear =
      .access i {} (loc.annotate .clear) (f.annotate .clear) := by
  unfold access fieldOf
  split
  · split <;> rfl
  · rfl
  · rfl
  · rfl

mutual

/-- Name resolution of an expression reads no annotations. -/
theorem exp_clear (env : Env) : ∀ {e : Exp}, e.Formed → exp env (e.annotate .clear) = exp env e
  | .int .., _ | .string .., _ | .bool .., _ => rfl
  | .ident x, _ => congrArg (Outcome.map Exp.ident) (ident_clear env x)
  | .access i k loc f, h => by
    have hloc := (Exp.Formed.total env h.2.1).1
    have hlocation := (isLocation_exp env loc).trans h.1
    rw [Exp.annotate, exp, exp, exp_clear env h.2.1]
    exact andThen_congr hloc (access_clear i hlocation f)
  | .assign i l r, h => by
    have hl := (Exp.Formed.total env h.2.1).1
    rw [Exp.annotate, exp, exp, exp_clear env h.2.1, exp_clear env h.2.2]
    exact andThen_congr hl rfl
  | .call i f sp args, h => by
    rw [Exp.annotate, exp, exp, ident_clear, exps_clear env h.2]
    exact andThen_congr (f.fault_resolve env) rfl
  | .neg i e, h | .not i e, h => by
    rw [Exp.annotate, exp, exp, exp_clear env (e := e) h]
    rfl
  | .binary i op l r, h => by
    have hl := (Exp.Formed.total env h.2.1).1
    rw [Exp.annotate, exp, exp, exp_clear env h.2.1, exp_clear env h.2.2]
    exact andThen_congr hl rfl

theorem exps_clear (env : Env) : ∀ {es : List Exp}, Exp.AllFormed es →
    exps env (Exp.annotateAll .clear es) = exps env es
  | [], _ => rfl
  | e :: es, h => by
    have he := (Exp.Formed.total env h.1).1
    rw [Exp.annotateAll, exps, exps, exp_clear env h.1, exps_clear env h.2]
    exact andThen_congr he rfl

end

mutual

/-- Name resolution changes nothing but annotations in an expression. -/
theorem clear_exp (env : Env) : ∀ e, (exp env e).value.annotate .clear = e.annotate .clear
  | .int .. | .string .. | .bool .. | .unknown _ => rfl
  | .ident x => congrArg Exp.ident (clear_ident env x)
  | .access i k loc f => by
    rw [exp]
    refine view_andThen (Exp.annotate .clear) ?_ ?_
    · rw [Exp.annotate, clear_exp env loc]
      rfl
    · rw [clear_access, clear_exp env loc]
      rfl
  | .assign i l r => by
    rw [exp]
    refine view_andThen (Exp.annotate .clear) ?_ ?_
    · rw [Exp.annotate, clear_exp env l, Exp.annotate]
    · rw [value_map, Exp.annotate, clear_exp env l, clear_exp env r, Exp.annotate]
  | .call i f sp args => by
    rw [exp]
    refine view_andThen (Exp.annotate .clear) ?_ ?_
    · rw [Exp.annotate, clear_ident, Exp.annotate]
    · rw [value_map, Exp.annotate, clear_ident, clear_exps env args, Exp.annotate]
  | .neg i e | .not i e => by
    rw [exp, value_map, Exp.annotate, clear_exp env e, Exp.annotate]
  | .binary i op l r => by
    rw [exp]
    refine view_andThen (Exp.annotate .clear) ?_ ?_
    · rw [Exp.annotate, clear_exp env l, Exp.annotate]
    · rw [value_map, Exp.annotate, clear_exp env l, clear_exp env r, Exp.annotate]

theorem clear_exps (env : Env) : ∀ es,
    Exp.annotateAll .clear (exps env es).value = Exp.annotateAll .clear es
  | [] => rfl
  | e :: es => by
    rw [exps]
    refine view_andThen (Exp.annotateAll .clear) ?_ ?_
    · rw [Exp.annotateAll, clear_exp env e, Exp.annotateAll]
    · rw [value_map, Exp.annotateAll, clear_exp env e, clear_exps env es, Exp.annotateAll]

end

/-! ## Declarations of variables -/

theorem shape_clear (env : Env) (d : VarDecl) : shape env (d.annotate .clear) = shape env d := by
  obtain ⟨role, span, type, name⟩ := d
  cases type with
  | struct s x =>
    unfold shape
    dsimp only [VarDecl.annotate, TypeNode.annotate, Ident.annotate]
    split <;> rfl
  | _ => rfl

theorem clear_shape (env : Env) (d : VarDecl) :
    (shape env d).value.1.annotate .clear = d.type.annotate .clear := by
  unfold shape
  cases d.type with
  | struct s x =>
    dsimp only
    split <;> rfl
  | _ => rfl

/-- Declaring a variable reads no annotations. -/
theorem declare_clear (env : Env) (taken : Option NameCause) (place : Shape StructDef → Place)
    {d : VarDecl} (h : d.type.Formed) :
    declare env taken place (d.annotate .clear) = declare env taken place d := by
  unfold declare
  rw [shape_clear]
  refine andThen_congr (fault_shape env h) ?_
  dsimp only
  split <;> rfl

theorem clear_declare (env : Env) (taken : Option NameCause) (place : Shape StructDef → Place)
    (d : VarDecl) : (declare env taken place d).value.1.annotate .clear = d.annotate .clear := by
  have hshape := clear_shape env d
  unfold declare
  refine view_andThen (fun v : VarDecl × Option Storage => v.1.annotate .clear) ?_ ?_
  · rw [VarDecl.annotate, hshape]
    rfl
  · dsimp only
    split <;> exact congrArg (VarDecl.mk d.role d.span · _) hshape

section Sequence

variable {go : Env → Frame → List VarDecl → Resolved (List VarDecl × Env × Frame)}
  {place : Frame → Shape StructDef → Place} {next : Frame → Option Storage → Frame}
  {number : Frame → Option Storage → Option Int}

theorem Sequence.go_clear (hgo : Sequence go place next number) (env : Env) (frame : Frame)
    {ds : List VarDecl} (h : ∀ d ∈ ds, d.type.Formed) :
    Agree (go env frame (ds.map (VarDecl.annotate .clear))) (go env frame ds) := by
  induction ds generalizing env frame with
  | nil => exact .refl _
  | cons d ds ih =>
    obtain ⟨hd, hds⟩ := List.forall_mem_cons.mp h
    obtain ⟨_, _, hcons⟩ := hgo.cons env frame d ds
    obtain ⟨_, _, hclear⟩ :=
      hgo.cons env frame (d.annotate .clear) (ds.map (VarDecl.annotate .clear))
    rw [List.map_cons, hclear, hcons]
    have hdeclare := declare_clear env (taken env d.name.name) (place frame) hd
    rw [show (d.annotate .clear).name.name = d.name.name from rfl, hdeclare]
    refine (Agree.refl _).andThen ((Agree.refl _).andThen ?_)
    exact (ih _ _ hds).map _

theorem Sequence.clear_go (hgo : Sequence go place next number) {env : Env} {frame : Frame}
    {ds : List VarDecl} (hfault : (go env frame ds).fault = none) :
    (go env frame ds).value.1.map (VarDecl.annotate .clear) = ds.map (VarDecl.annotate .clear) := by
  induction ds generalizing env frame with
  | nil => rw [hgo.nil, value_pure]
  | cons d ds ih =>
    obtain ⟨_, hd, hds, hcons⟩ := hgo.cons_of_fault hfault
    rw [hcons, value_andThen hd, value_map, List.map_cons, clear_declare, ih hds, List.map_cons]

end Sequence

theorem fields_clear (env : Env) (before : List (Field StructDef)) (size : Nat)
    {ds : List VarDecl} (h : ∀ d ∈ ds, d.type.Formed) :
    fields env before size (ds.map (VarDecl.annotate .clear)) = fields env before size ds := by
  induction ds generalizing before size with
  | nil => rfl
  | cons d ds ih =>
    obtain ⟨hd, hds⟩ := List.forall_mem_cons.mp h
    rw [List.map_cons, fields, fields, show (d.annotate .clear).name.name = d.name.name from rfl,
      declare_clear env _ _ hd]
    exact andThen_congr (fault_declare env _ _ hd) (congrArg (Outcome.map _) (ih _ _ hds))

theorem clear_fields (env : Env) (before : List (Field StructDef)) (size : Nat)
    {ds : List VarDecl} (h : ∀ d ∈ ds, d.type.Formed) :
    (fields env before size ds).value.1.map (VarDecl.annotate .clear) =
      ds.map (VarDecl.annotate .clear) := by
  induction ds generalizing before size with
  | nil => rfl
  | cons d ds ih =>
    obtain ⟨hd, hds⟩ := List.forall_mem_cons.mp h
    rw [fields, value_andThen (fault_declare env _ _ hd), value_map, List.map_cons, clear_declare,
      ih _ _ hds, List.map_cons]

/-! ## Statements -/

mutual

/-- Name resolution of a statement reads no annotations. -/
theorem stmt_clear (env : Env) (frame : Frame) : ∀ {s : Stmt}, s.Formed →
    Agree (stmt env frame (s.annotate .clear)) (stmt env frame s)
  | .assign _ e, h | .increment _ e, h | .decrement _ e, h | .read _ e, h | .call _ e, h => by
    rw [Stmt.annotate, stmt, stmt, exp_clear env h.2]
    exact .refl _
  | .write _ e, h => by
    rw [Stmt.annotate, stmt, stmt, exp_clear env (e := e) h]
    exact .refl _
  | .ifThen _ e b, h | .while _ e b, h => by
    rw [Stmt.annotate, stmt, stmt, exp_clear env h.1]
    exact (Agree.refl _).andThen ((block_clear _ _ h.2).map _)
  | .ifElse _ e b₁ b₂, h => by
    rw [Stmt.annotate, stmt, stmt, exp_clear env h.1]
    refine (Agree.refl _).andThen ((block_clear _ _ h.2.1).andThen ?_)
    exact (block_clear _ _ h.2.2).map _
  | .return _ none, _ => .refl _
  | .return _ (some e), h => by
    rw [Stmt.annotate, Option.map_some, stmt, stmt, exp_clear env (e := e) h]
    exact .refl _

theorem block_clear (env : Env) (frame : Frame) : ∀ {b : Block Stmt}, Stmt.BlockFormed b →
    Agree (block env frame (Stmt.annotateBlock .clear b)) (block env frame b)
  | ⟨ds, _, ss⟩, h => by
    rw [Stmt.annotateBlock, block, block, VarDecls.annotate]
    refine (sequence_localVars.go_clear env frame fun d hd => (h.1 d hd).type).andThen ?_
    exact (stmts_clear _ _ h.2).map _

theorem stmts_clear (env : Env) (frame : Frame) : ∀ {ss : List Stmt}, Stmt.AllFormed ss →
    Agree (stmts env frame (Stmt.annotateAll .clear ss)) (stmts env frame ss)
  | [], _ => .refl _
  | s :: ss, h => by
    rw [Stmt.annotateAll, stmts, stmts]
    exact (stmt_clear env frame h.1).andThen ((stmts_clear _ _ h.2).map _)

end

mutual

/-- Name resolution changes nothing but annotations in a statement. -/
theorem clear_stmt {env : Env} {frame : Frame} : ∀ {s : Stmt}, s.Formed →
    (stmt env frame s).fault = none →
      (stmt env frame s).value.1.annotate .clear = s.annotate .clear
  | .assign _ e, _, _ | .increment _ e, _, _ | .decrement _ e, _, _ | .read _ e, _, _
  | .write _ e, _, _ | .call _ e, _, _ => by
    rw [stmt, value_map, Stmt.annotate, clear_exp env e, Stmt.annotate]
  | .ifThen _ e b, h, hfault | .while _ e b, h, hfault => by
    rw [stmt, fault_andThen, fault_map] at hfault
    rw [stmt, value_andThen hfault.1, value_map, Stmt.annotate, clear_exp env e,
      clear_block h.2 hfault.2, Stmt.annotate]
  | .ifElse _ e b₁ b₂, h, hfault => by
    rw [stmt, fault_andThen, fault_andThen, fault_map] at hfault
    obtain ⟨he, hb₁, hb₂⟩ := hfault
    rw [stmt, value_andThen he, value_andThen hb₁, value_map, Stmt.annotate, clear_exp env e,
      clear_block h.2.1 hb₁, clear_block h.2.2 hb₂, Stmt.annotate]
  | .return _ none, _, _ => rfl
  | .return _ (some e), _, _ => by
    rw [stmt, value_map, Stmt.annotate, Option.map_some, clear_exp env e, Stmt.annotate,
      Option.map_some]

theorem clear_block {env : Env} {frame : Frame} : ∀ {b : Block Stmt}, Stmt.BlockFormed b →
    (block env frame b).fault = none →
      Stmt.annotateBlock .clear (block env frame b).value.1 = Stmt.annotateBlock .clear b
  | ⟨ds, _, ss⟩, h, hfault => by
    rw [block, fault_andThen, fault_map] at hfault
    rw [block, value_andThen hfault.1, value_map, Stmt.annotateBlock, VarDecls.annotate,
      sequence_localVars.clear_go hfault.1, clear_stmts h.2 hfault.2]
    rfl

theorem clear_stmts {env : Env} {frame : Frame} : ∀ {ss : List Stmt}, Stmt.AllFormed ss →
    (stmts env frame ss).fault = none →
      Stmt.annotateAll .clear (stmts env frame ss).value.1 = Stmt.annotateAll .clear ss
  | [], _, _ => rfl
  | s :: ss, h, hfault => by
    rw [stmts, fault_andThen, fault_map] at hfault
    rw [stmts, value_andThen hfault.1, value_map, Stmt.annotateAll, clear_stmt h.1 hfault.1,
      clear_stmts h.2 hfault.2, Stmt.annotateAll]

end

/-! ## Declarations at the top -/

theorem name_clear (env : Env) (x : Ident) (symbol : Symbol) :
    name env (x.annotate .clear) symbol = name env x symbol := by
  unfold name
  dsimp only [Ident.annotate]
  split <;> rfl

theorem clear_name (env : Env) (x : Ident) (symbol : Symbol) :
    (name env x symbol).value.1.annotate .clear = x.annotate .clear := by
  unfold name
  split <;> rfl

theorem paramTypes_clear (ds : List VarDecl) :
    paramTypes (ds.map (VarDecl.annotate .clear)) = paramTypes ds := by
  have htype : ∀ t : TypeNode, (t.annotate .clear).type = t.type := fun t => by cases t <;> rfl
  have hparam : ∀ t : TypeNode, paramType (t.annotate .clear) = paramType t := fun t => by
    cases t <;> rfl
  unfold paramTypes
  rw [List.all_map, List.map_map]
  simp only [Function.comp_def, VarDecl.annotate, htype, hparam]

theorem returns_clear {t : TypeNode} (h : t.isWordType = true) : t.annotate .clear = t := by
  cases t with
  | struct => cases h
  | _ => rfl

theorem signature_clear (d : FnDecl) (returns : Ty) (x : TypeNode) (body : Block Stmt)
    (frame : Option Frame) :
    signature { d with
      returns := x, name := d.name.annotate .clear, formals := d.formals.annotate .clear,
      body := body, frame := frame } returns = signature d returns := by
  unfold signature
  dsimp only [VarDecls.annotate, Ident.annotate]
  rw [paramTypes_clear, List.length_map]

/-- Resolving a function reads no annotations. -/
theorem fnDecl_clear (env : Env) {d : FnDecl} (h : d.Formed) :
    Agree (decl env ((Decl.fn d).annotate .clear)) (decl env (.fn d)) := by
  obtain ⟨returns, hr, -⟩ := TypeNode.type_of_isWordType h.returns
  have htypes : ∀ f ∈ d.formals.items, f.type.Formed := fun f hf =>
    TypeNode.formed_of_isWordType (h.formals f hf).type
  rw [Decl.annotate, decl, decl, returns_clear h.returns]
  refine Agree.map ?_ _
  unfold fnDecl
  dsimp only
  rw [hr]
  dsimp only
  rw [name_clear, signature_clear]
  refine (Agree.refl _).andThen ((sequence_formals.go_clear _ _ htypes).andThen ?_)
  exact (block_clear _ _ h.body).andThen (.refl _)

theorem clear_fnDecl {env : Env} {d : FnDecl} (h : d.Formed)
    (hfault : (decl env (.fn d)).fault = none) :
    (decl env (.fn d)).value.1.annotate .clear = (Decl.fn d).annotate .clear := by
  obtain ⟨returns, hr, -⟩ := TypeNode.type_of_isWordType h.returns
  have htypes : ∀ f ∈ d.formals.items, f.type.Formed := fun f hf =>
    TypeNode.formed_of_isWordType (h.formals f hf).type
  rw [decl, fault_map] at hfault
  obtain ⟨hbody, hvalue⟩ := fnDecl_of_formed h hr hfault
  rw [decl, value_map, hvalue]
  dsimp only [Decl.annotate, VarDecls.annotate]
  rw [clear_name, sequence_formals.clear_go (fault_formals _ _ htypes), clear_block h.body hbody]
  rfl

/-- Resolving a struct reads no annotations. -/
theorem structDecl_clear (env : Env) {d : StructDecl} (h : d.Formed) :
    Agree (decl env ((Decl.struct d).annotate .clear)) (decl env (.struct d)) := by
  have htypes : ∀ f ∈ d.fields.items, f.type.Formed := fun f hf => (h.fields f hf).type
  rw [Decl.annotate, decl, decl]
  refine Agree.map ?_ _
  unfold structDecl
  dsimp only [VarDecls.annotate, Ident.annotate]
  rw [fields_clear _ _ _ htypes]
  refine (Agree.refl _).andThen ((Agree.refl _).andThen (.of_eq ?_))
  split <;> rfl

theorem clear_structDecl (env : Env) {d : StructDecl} (h : d.Formed) :
    (decl env (.struct d)).value.1.annotate .clear = (Decl.struct d).annotate .clear := by
  have htypes : ∀ f ∈ d.fields.items, f.type.Formed := fun f hf => (h.fields f hf).type
  have hfields := clear_fields env [] 0 htypes
  rw [decl, value_map]
  unfold structDecl
  rw [value_andThen rfl, value_andThen (fault_fields _ _ _ htypes)]
  dsimp only
  split
  all_goals
    simp only [value_pure, value_logged, Decl.annotate, VarDecls.annotate]
    rw [hfields]
    rfl

/-- Resolving a declaration at the top reads no annotations. -/
theorem decl_clear (env : Env) {d : Decl} (h : d.Formed) :
    Agree (decl env (d.annotate .clear)) (decl env d) := by
  cases d with
  | var d =>
    have hd : d.Formed := h
    rw [Decl.annotate, decl, decl, show (d.annotate .clear).role = d.role from rfl, hd.role]
    exact Agree.map (.of_eq (declare_clear env _ _ hd.type)) _
  | fn d => exact fnDecl_clear env h
  | struct d => exact structDecl_clear env h
  | unknown => exact h.elim

/-- Name resolution changes nothing but annotations in a declaration. -/
theorem clear_decl {env : Env} {d : Decl} (h : d.Formed) (hfault : (decl env d).fault = none) :
    (decl env d).value.1.annotate .clear = d.annotate .clear := by
  cases d with
  | var d =>
    have hd : d.Formed := h
    rw [decl, hd.role]
    exact congrArg Decl.var (clear_declare env _ _ d)
  | fn d => exact clear_fnDecl h hfault
  | struct d => exact clear_structDecl env h
  | unknown => exact h.elim

theorem decls_clear (env : Env) {ds : List Decl} (h : ∀ d ∈ ds, d.Formed) :
    Agree (decls env (ds.map (Decl.annotate .clear))) (decls env ds) := by
  induction ds generalizing env with
  | nil => exact .refl _
  | cons d ds ih =>
    obtain ⟨hd, hds⟩ := List.forall_mem_cons.mp h
    have hmain : isMain (d.annotate .clear) = isMain d := by cases d <;> rfl
    rw [List.map_cons, decls, decls, hmain]
    exact (decl_clear env hd).andThen ((ih _ hds).map _)

theorem clear_decls {env : Env} {ds : List Decl} (h : ∀ d ∈ ds, d.Formed)
    (hfault : (decls env ds).fault = none) :
    (decls env ds).value.1.map (Decl.annotate .clear) = ds.map (Decl.annotate .clear) := by
  induction ds generalizing env with
  | nil => rfl
  | cons d ds ih =>
    obtain ⟨hd, hds⟩ := List.forall_mem_cons.mp h
    rw [decls, fault_andThen, fault_map] at hfault
    rw [decls, value_andThen hfault.1, value_map, List.map_cons, clear_decl hd hfault.1,
      ih hds hfault.2, List.map_cons]

end Resolve

/-! ## Programs -/

namespace Program

theorem Formed.clear_resolve {p : Program} (h : p.Formed) (hfault : p.resolve.fault = none) :
    p.resolve.program.annotate .clear = p.annotate .clear :=
  congrArg (fun decls => { p with decls })
    (Resolve.clear_decls h (fault_resolve.symm.trans hfault))

theorem Formed.fault_clear {p : Program} (h : p.Formed) :
    p.resolve.fault = (p.annotate .clear).resolve.fault := by
  rw [fault_resolve, fault_resolve]
  exact (Resolve.decls_clear _ h).fault.symm

theorem Formed.eq_clear {p : Program} (h : p.Formed) (hfault : p.resolve.fault = none) :
    p.resolve = (p.annotate .clear).resolve := by
  have hagree := Resolve.decls_clear (Scopes.enter []) h
  have hdecls := hagree.eq (hagree.fault.trans (fault_resolve.symm.trans hfault))
  rw [resolve, resolve, resolveIn, resolveIn, Program.annotate, hdecls]

/-- Name resolution of a formed program stops alike and reports the same whatever annotations the
program has.  Where it comes to its end it leaves the same, so that resolving once more changes
nothing. -/
theorem Formed.resolve_clear {p : Program} (h : p.Formed) :
    p.resolve.fault = (p.annotate .clear).resolve.fault ∧
      p.resolve.reports = (p.annotate .clear).resolve.reports ∧
      (p.resolve.fault = none → p.resolve = (p.annotate .clear).resolve ∧
        p.resolve.program.resolve = p.resolve) := by
  refine ⟨h.fault_clear, (Resolve.decls_clear _ h).reports.symm, fun hfault =>
    ⟨h.eq_clear hfault, ?_⟩⟩
  have hclear := h.clear_resolve hfault
  have hresolved : p.resolve.program.Formed := by
    rw [← p.resolve.program.formed_annotate .clear, hclear, p.formed_annotate]
    exact h
  have hagain : p.resolve.program.resolve.fault = none := by
    rw [hresolved.fault_clear, hclear, ← h.fault_clear]
    exact hfault
  rw [hresolved.eq_clear hagain, hclear, ← h.eq_clear hfault]

/-- Marks every name and dot as one that failed before, and gives every function an empty frame. -/
def stale : Annotator where
  binding _ := .unresolved
  link k := { k with bad := true }
  frame _ := some {}

set_option maxRecDepth 100000 in
/-- A program with a field that is missing and one that is there, and with marks from before. -/
theorem Formed.resolve_clear_of_stale :
    ∃ p, parse none "struct s { int x; }; void main() { struct s g; g.x = g.y.x; }" = .ok p ∧
      (p.annotate stale).resolve = ((p.annotate stale).annotate .clear).resolve ∧
      (p.annotate stale).resolve.program.resolve = (p.annotate stale).resolve := by
  obtain ⟨p, hp, hfault⟩ : ∃ p,
      parse none "struct s { int x; }; void main() { struct s g; g.x = g.y.x; }" = .ok p ∧
        (p.annotate stale).resolve.fault.isNone = true :=
    exists_parse rfl (by decide +kernel)
  have hformed := (formed_annotate stale p).mpr (parse_formed hp)
  exact ⟨p, hp, hformed.resolve_clear.2.2 (Option.isNone_iff_eq_none.mp hfault)⟩

end Program

end CMinusMinus
