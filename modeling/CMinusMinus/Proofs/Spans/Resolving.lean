import CMinusMinus.Proofs.Spans

/-!
# Names and spans

Name resolution copies spans and never looks at them: what it leaves of a tree with other spans is
what it leaves of the tree, with other spans (`Program.resolve_respan`).
-/

namespace CMinusMinus

variable {r : Option Span → Option Span}

/-! ## Expressions -/

theorem Ident.bind_respan (x : Ident) (s : Symbol) :
    (x.respan r).bind (s.respan r) = (x.bind s).respan r := rfl

theorem Ident.resolve_respan (env : Env) (x : Ident) :
    (x.respan r).resolve (env.respan r) = (x.resolve env).respan r (Ident.respan r) := by
  have hfind : Scopes.find? (env.respan r) (x.respan r).name = _ := env.find?_respan x.name
  rw [resolve, resolve, hfind]
  cases Scopes.find? env x.name with
  | some s => rfl
  | none => exact congrArg (Outcome.reporting _ [·]) (NameCause.report_respan _ _).symm

theorem Exp.kind_respan (e : Exp) : (e.respan r).kind = e.kind := by
  cases e with
  | bool i b => cases b <;> rfl
  | _ => rfl

theorem Exp.info_respan (e : Exp) : (e.respan r).info = e.info.respan r := by cases e <;> rfl

theorem Exp.span_respan (e : Exp) : (e.respan r).span = r e.span :=
  congrArg Info.span e.info_respan

/-- What a field is asked of, with other spans. -/
def Base.respan (r : Option Span → Option Span) : Base → Base
  | .struct d => .struct (d.respan r)
  | .failed => .failed
  | .notStruct s => .notStruct (r s)
  | .misplaced => .misplaced

theorem Exp.base_respan (e : Exp) : (e.respan r).base = e.base.respan r := by
  cases e with
  | ident x =>
    obtain ⟨name, info, binding⟩ := x
    cases binding with
    | pending | unresolved => rfl
    | bound s =>
      cases s with
      | function | struct => rfl
      | storage s =>
        obtain ⟨name, site, place, shape⟩ := s
        cases shape <;> rfl
  | access i k loc f =>
    obtain ⟨owner, target, bad⟩ := k
    cases bad <;> cases target <;> rfl
  | _ => rfl

namespace Resolve

theorem fieldOf_respan (i : Info) (loc : Exp) (f : Ident) (d : StructDef) :
    fieldOf (i.respan r) (loc.respan r) (f.respan r) (d.respan r) =
      (fieldOf i loc f d).respan r (Exp.respan r) := by
  have hfield : (d.respan r).field? (f.respan r).name = _ := d.field?_respan f.name
  rw [fieldOf, fieldOf, hfield]
  cases d.field? f.name with
  | none => exact congrArg (Outcome.reporting _ [·]) (NameCause.report_respan _ _).symm
  | some g =>
    refine congrArg Outcome.pure ?_
    rw [g.storage_respan, g.shape_respan, g.shape.struct?_respan]
    rfl

theorem access_respan (i : Info) (loc : Exp) (f : Ident) :
    access (i.respan r) (loc.respan r) (f.respan r) =
      (access i loc f).respan r (Exp.respan r) := by
  rw [access, access, loc.base_respan, loc.kind_respan, loc.span_respan]
  cases loc.base with
  | struct d => exact fieldOf_respan i loc f d
  | failed | misplaced => rfl
  | notStruct s => exact congrArg (Outcome.reporting _ [·]) (NameCause.report_respan _ _).symm

mutual

theorem exp_respan (env : Env) : ∀ e : Exp,
    exp (env.respan r) (e.respan r) = (exp env e).respan r (Exp.respan r)
  | .int .. | .string .. | .bool .. | .unknown _ => rfl
  | .ident x => by
    rw [Exp.respan, exp, exp, x.resolve_respan]
    exact Outcome.map_respan fun _ => rfl
  | .access i k loc f => by
    rw [Exp.respan, exp, exp, exp_respan env loc]
    exact Outcome.andThen_respan (fun _ => rfl) fun loc => access_respan i loc f
  | .assign i l e => by
    rw [Exp.respan, exp, exp, exp_respan env l, exp_respan env e]
    exact Outcome.andThen_respan (fun _ => rfl) fun _ =>
      Outcome.map_respan fun _ => rfl
  | .call i f s args => by
    rw [Exp.respan, exp, exp, f.resolve_respan, exps_respan env args]
    exact Outcome.andThen_respan (fun _ => rfl) fun _ =>
      Outcome.map_respan fun _ => rfl
  | .neg i e | .not i e => by
    rw [Exp.respan, exp, exp, exp_respan env e]
    exact Outcome.map_respan fun _ => rfl
  | .binary i op a b => by
    rw [Exp.respan, exp, exp, exp_respan env a, exp_respan env b]
    exact Outcome.andThen_respan (fun _ => rfl) fun _ =>
      Outcome.map_respan fun _ => rfl

theorem exps_respan (env : Env) : ∀ es : List Exp,
    exps (env.respan r) (Exp.listRespan r es) = (exps env es).respan r (Exp.listRespan r)
  | [] => rfl
  | e :: es => by
    rw [Exp.listRespan, exps, exps, exp_respan env e, exps_respan env es]
    exact Outcome.andThen_respan (fun _ => rfl) fun _ =>
      Outcome.map_respan fun _ => rfl

end

/-! ## Declarations of variables -/

theorem taken_respan (env : Env) (name : String) : taken (env.respan r) name = taken env name := by
  rw [taken, taken, env.inner?_respan, Option.map_map]
  rfl

theorem paramType_respan (t : TypeNode) : paramType (t.respan r) = paramType t := by
  cases t <;> rfl

theorem shape_respan (env : Env) (d : VarDecl) :
    shape (env.respan r) (d.respan r) =
      (shape env d).respan r (Prod.map (TypeNode.respan r) (Option.map (Shape.respan r))) := by
  obtain ⟨role, span, type, name⟩ := d
  cases type with
  | int | bool | unknown => rfl
  | void s => exact congrArg (Outcome.reporting _ [·]) (NameCause.report_respan _ _).symm
  | struct s x =>
    have houter : Scopes.outer? (env.respan r) (x.respan r).name = _ := env.outer?_respan x.name
    have hfail := congrArg (Outcome.reporting (φ := Fault) (TypeNode.struct (r s) (x.respan r).fail,
      (none : Option (Shape StructDef))) [·]) (NameCause.report_respan (r := r)
        (.unknownStruct x.name) x.info.span).symm
    simp only [shape, VarDecl.respan, TypeNode.respan, houter]
    cases Scopes.outer? env x.name with
    | none => exact hfail
    | some symbol =>
      cases symbol with
      | storage | function => exact hfail
      | struct d => rfl

theorem declare_respan (env : Env) (cause : Option NameCause)
    (place : Shape StructDef → Place) {place' : Shape StructDef → Place}
    (hplace : ∀ shape, place' (Shape.respan r shape) = place shape) (d : VarDecl) :
    declare (env.respan r) cause place' (d.respan r) = (declare env cause place d).respan r
      (Prod.map (VarDecl.respan r) (Option.map (Storage.respan r))) := by
  rw [declare, declare, shape_respan]
  refine Outcome.andThen_respan (fun _ => rfl) ?_
  rintro ⟨type, shape⟩
  cases cause with
  | some cause => exact congrArg (Outcome.reporting _ [·]) (NameCause.report_respan _ _).symm
  | none =>
    cases shape with
    | none => rfl
    | some shape =>
      simp only [Prod.map, Option.map, hplace]
      rfl

theorem extend_respan (env : Env) (s : Option Storage) :
    extend (env.respan r) (s.map (Storage.respan r)) = Env.respan r (extend env s) := by
  cases s with
  | none => rfl
  | some s => exact env.insert_respan s.name (.storage s)

theorem extendFrame_respan (frame : Frame) (s : Option Storage) :
    extendFrame frame (s.map (Storage.respan r)) = extendFrame frame s := by
  cases s with
  | none => rfl
  | some s => exact congrArg frame.addLocal s.shape.size_respan

theorem localNumber_respan (frame : Frame) (s : Option Storage) :
    localNumber frame (s.map (Storage.respan r)) = localNumber frame s := by
  cases s with
  | none => rfl
  | some s => exact congrArg (fun size => some (frame.localOffset size)) s.shape.size_respan

theorem logged_respan {α β : Type} (number : Option Int) (view : α → β) (a : α) :
    logged number (view a) = (logged number a).respan r view := by
  unfold logged
  split <;> rfl

/-- Declarations of variables, and the scopes and the frame after them, with other spans. -/
def viewVars (r : Option Span → Option Span) (x : List VarDecl × Env × Frame) :
    List VarDecl × Env × Frame :=
  (x.1.map (VarDecl.respan r), x.2.1.respan r, x.2.2)

theorem localVar_respan (env : Env) (frame : Frame) (d : VarDecl) :
    localVar (env.respan r) frame (d.respan r) =
      (localVar env frame d).respan r fun x => (x.1.respan r, x.2.1.respan r, x.2.2) := by
  have htaken : taken (env.respan r) (d.respan r).name.name = taken env d.name.name :=
    taken_respan env d.name.name
  rw [localVar, localVar, htaken, declare_respan env _ (fun shape =>
    .frame (frame.localOffset shape.size)) fun shape => by rw [shape.size_respan]]
  have hafter : ∀ v : VarDecl × Option Storage, ((v.1.respan r, extend (env.respan r)
      (v.2.map (Storage.respan r)), extendFrame frame (v.2.map (Storage.respan r))) :
        VarDecl × Env × Frame) =
      (v.1.respan r, Env.respan r (extend env v.2), extendFrame frame v.2) :=
    fun v => Prod.ext rfl (Prod.ext (extend_respan env v.2) (extendFrame_respan frame v.2))
  refine Outcome.andThen_respan hafter fun v => ?_
  dsimp only [Prod.map]
  rw [localNumber_respan, hafter]
  exact logged_respan _ (fun x : VarDecl × Env × Frame => (x.1.respan r, x.2.1.respan r, x.2.2))
    (v.1, extend env v.2, extendFrame frame v.2)

theorem localVars_respan (env : Env) (frame : Frame) (ds : List VarDecl) :
    localVars (env.respan r) frame (ds.map (VarDecl.respan r)) =
      (localVars env frame ds).respan r (viewVars r) := by
  induction ds generalizing env frame with
  | nil => rfl
  | cons d ds ih =>
    rw [List.map_cons, localVars, localVars, localVar_respan]
    refine Outcome.andThen_respan (fun _ => rfl) ?_
    rintro ⟨d, env, frame⟩
    dsimp only
    rw [ih]
    exact Outcome.map_respan fun _ => rfl

theorem formals_respan (env : Env) (frame : Frame) (ds : List VarDecl) :
    formals (env.respan r) frame (ds.map (VarDecl.respan r)) =
      (formals env frame ds).respan r (viewVars r) := by
  induction ds generalizing env frame with
  | nil => rfl
  | cons d ds ih =>
    have htaken : taken (env.respan r) (d.respan r).name.name = taken env d.name.name :=
      taken_respan env d.name.name
    rw [List.map_cons, formals, formals, htaken,
      declare_respan env _ (fun _ => .frame frame.formalOffset) fun _ => rfl]
    refine Outcome.andThen_respan ?_ ?_
    · rintro ⟨d, s⟩
      exact congrArg (fun env => (_, env, frame)) (extend_respan env s)
    · rintro ⟨d, s⟩
      dsimp only [Prod.map]
      rw [extend_respan, ih]
      exact Outcome.map_respan fun _ => rfl

theorem addField_respan (before : List (Field StructDef)) (size : Nat) (s : Option Storage) :
    addField (before.map (Field.respan r)) size (s.map (Storage.respan r)) =
      Prod.map (List.map (Field.respan r)) id (addField before size s) := by
  cases s with
  | none => rfl
  | some s =>
    rw [addField, Option.map_some, addField, Prod.map, List.map_append]
    exact congrArg (Prod.mk _) (congrArg (size + ·) s.shape.size_respan)

theorem takenField_respan (before : List (Field StructDef)) (name : String) :
    takenField (before.map (Field.respan r)) name = takenField before name := by
  have hname : (fun f : Field StructDef => f.name == name) ∘ Field.respan r =
      fun f => f.name == name := funext fun f => by rw [Function.comp_apply, f.name_respan]
  rw [takenField, takenField, List.any_map, hname]

theorem fields_respan (env : Env) (before : List (Field StructDef)) (size : Nat)
    (ds : List VarDecl) :
    fields (env.respan r) (before.map (Field.respan r)) size (ds.map (VarDecl.respan r)) =
      (fields env before size ds).respan r
        fun x => (x.1.map (VarDecl.respan r), x.2.1.map (Field.respan r), x.2.2) := by
  induction ds generalizing before size with
  | nil => rfl
  | cons d ds ih =>
    have htaken : takenField (before.map (Field.respan r)) (d.respan r).name.name =
      takenField before d.name.name := takenField_respan before d.name.name
    rw [List.map_cons, fields, fields, htaken,
      declare_respan env _ (fun _ => .unplaced) fun _ => rfl]
    refine Outcome.andThen_respan (fun _ => rfl) ?_
    rintro ⟨d, s⟩
    dsimp only [Prod.map]
    rw [addField_respan]
    dsimp only [Prod.map]
    rw [id, ih]
    exact Outcome.map_respan fun _ => rfl

/-! ## Statements -/

mutual

theorem stmt_respan (env : Env) (frame : Frame) : ∀ s : Stmt,
    stmt (env.respan r) frame (s.respan r) =
      (stmt env frame s).respan r (Prod.map (Stmt.respan r) id)
  | .assign _ e | .increment _ e | .decrement _ e | .read _ e | .write _ e | .call _ e
  | .return _ (some e) => by
    rw [Stmt.respan, stmt, stmt, exp_respan]
    exact Outcome.map_respan fun _ => rfl
  | .return _ none | .unknown _ => rfl
  | .ifThen _ e b | .while _ e b => by
    rw [Stmt.respan, stmt, stmt, exp_respan, env.enter_respan, block_respan env.enter frame b]
    exact Outcome.andThen_respan (fun _ => rfl) fun _ =>
      Outcome.map_respan fun _ => rfl
  | .ifElse _ e b₁ b₂ => by
    rw [Stmt.respan, stmt, stmt, exp_respan, env.enter_respan, block_respan env.enter frame b₁]
    refine Outcome.andThen_respan (fun _ => rfl) fun _ =>
      Outcome.andThen_respan (fun _ => rfl) fun x => ?_
    dsimp only [Prod.map]
    rw [id, block_respan env.enter x.2 b₂]
    exact Outcome.map_respan fun _ => rfl

theorem block_respan (env : Env) (frame : Frame) : ∀ b : Block Stmt,
    block (env.respan r) frame (Stmt.blockRespan r b) =
      (block env frame b).respan r (Prod.map (Stmt.blockRespan r) id)
  | ⟨ds, s, ss⟩ => by
    rw [Stmt.blockRespan, VarDecls.respan, block, block, localVars_respan]
    refine Outcome.andThen_respan (fun _ => rfl) fun x => ?_
    dsimp only [viewVars]
    rw [stmts_respan x.2.1 x.2.2 ss]
    exact Outcome.map_respan fun _ => rfl

theorem stmts_respan (env : Env) (frame : Frame) : ∀ ss : List Stmt,
    stmts (env.respan r) frame (Stmt.listRespan r ss) =
      (stmts env frame ss).respan r (Prod.map (Stmt.listRespan r) id)
  | [] => rfl
  | s :: ss => by
    rw [Stmt.listRespan, stmts, stmts, stmt_respan env frame s]
    refine Outcome.andThen_respan (fun _ => rfl) fun x => ?_
    dsimp only [Prod.map]
    rw [id, stmts_respan env x.2 ss]
    exact Outcome.map_respan fun _ => rfl

end

/-! ## Declarations -/

theorem name_respan (env : Env) (x : Ident) (s : Symbol) :
    name (env.respan r) (x.respan r) (s.respan r) =
      (name env x s).respan r (Prod.map (Ident.respan r) (Env.respan r)) := by
  have htaken : taken (env.respan r) (x.respan r).name = taken env x.name := taken_respan env x.name
  rw [name, name, htaken]
  cases taken env x.name with
  | some cause => exact congrArg (Outcome.reporting _ [·]) (NameCause.report_respan _ _).symm
  | none => exact congrArg (fun env => Outcome.pure (_, env)) (env.insert_respan x.name s)

theorem signature_respan (d : FnDecl) (returns : Ty) :
    signature (d.respan r) returns = (signature d returns).respan r := by
  have hmap : (fun d : VarDecl => paramType d.type) ∘ VarDecl.respan r =
      fun d => paramType d.type := funext fun d => paramType_respan d.type
  have hparams : paramTypes (d.formals.items.map (VarDecl.respan r)) =
      paramTypes d.formals.items := by
    rw [paramTypes, paramTypes, List.all_map, List.map_map, hmap]
    refine ite_congr (congrArg (List.all _ · = true) (funext ?_)) (fun _ => rfl) fun _ => rfl
    rintro ⟨_, _, type, _⟩
    cases type <;> rfl
  rw [signature, signature, Signature.respan, FnDecl.respan, VarDecls.respan]
  dsimp only
  rw [hparams, List.length_map]
  rfl

theorem fnDecl_respan (env : Env) (d : FnDecl) :
    fnDecl (env.respan r) (d.respan r) =
      (fnDecl env d).respan r (Prod.map (FnDecl.respan r) (Env.respan r)) := by
  have htype : (d.respan r).returns.type = _ := TypeNode.type_respan d.returns
  unfold fnDecl
  rw [htype]
  cases d.returns.type with
  | error fault => rfl
  | ok returns =>
    dsimp only [Except.mapError]
    rw [signature_respan]
    have hname : name (env.respan r) (d.respan r).name (.function ((signature d returns).respan r))
      = _ := name_respan env d.name (.function (signature d returns))
    rw [hname]
    refine Outcome.andThen_respan (fun _ => rfl) fun x => ?_
    dsimp only [Prod.map]
    rw [Env.enter_respan]
    have hformals : formals (Env.respan r x.2.enter) {} (d.respan r).formals.items = _ :=
      formals_respan x.2.enter {} d.formals.items
    rw [hformals]
    refine Outcome.andThen_respan (fun _ => rfl) fun y => ?_
    dsimp only [viewVars]
    have hblock : block (Env.respan r y.2.1) y.2.2 (d.respan r).body = _ :=
      block_respan y.2.1 y.2.2 d.body
    rw [hblock]
    exact Outcome.andThen_respan (fun _ => rfl) fun _ => rfl

theorem structDecl_respan (env : Env) (d : StructDecl) :
    structDecl (env.respan r) (d.respan r) =
      (structDecl env d).respan r (Prod.map (StructDecl.respan r) (Env.respan r)) := by
  have htaken : taken (env.respan r) (d.respan r).name.name = taken env d.name.name :=
    taken_respan env d.name.name
  have hfields : fields (env.respan r) [] 0 (d.respan r).fields.items = _ :=
    fields_respan env [] 0 d.fields.items
  unfold structDecl
  rw [htaken, hfields]
  generalize taken env d.name.name = cause
  have hcause : Outcome.reporting (φ := Fault) ()
      (cause.map (·.report (d.respan r).name.info.span)).toList =
        (Outcome.reporting () (cause.map (·.report d.name.info.span)).toList).respan r id := by
    cases cause with
    | none => rfl
    | some cause => exact congrArg (Outcome.reporting _ [·]) (NameCause.report_respan _ _).symm
  dsimp only
  rw [hcause]
  refine Outcome.andThen_respan (fun _ => rfl) fun _ => ?_
  refine Outcome.andThen_respan (fun _ => rfl) fun x => ?_
  cases cause with
  | some cause => rfl
  | none =>
    obtain ⟨items, layout, size⟩ := x
    dsimp only
    have hdef : (⟨d.name.name, d.span, layout, size⟩ : StructDef).respan r =
        ⟨d.name.name, r d.span, layout.map (Field.respan r), size⟩ :=
      congrArg (StructDef.mk _ _ · _) (StructDef.respanFields_eq layout)
    have hinsert := env.insert_respan (r := r) d.name.name
      (.struct ⟨d.name.name, d.span, layout, size⟩)
    rw [Symbol.respan, hdef] at hinsert
    rw [← logged_respan]
    refine congrArg (logged _) (Prod.ext ?_ hinsert)
    show _ = StructDecl.mk _ ((d.name.bind _).respan r) _
    rw [← Ident.bind_respan, Symbol.respan, hdef]
    rfl

theorem decl_respan (env : Env) (d : Decl) :
    decl (env.respan r) (d.respan r) =
      (decl env d).respan r (Prod.map (Decl.respan r) (Env.respan r)) := by
  cases d with
  | unknown s => rfl
  | fn d =>
    rw [Decl.respan, decl, decl, fnDecl_respan]
    exact Outcome.map_respan fun _ => rfl
  | struct d =>
    rw [Decl.respan, decl, decl, structDecl_respan]
    exact Outcome.map_respan fun _ => rfl
  | var d =>
    have hrole : (d.respan r).role = d.role := rfl
    rw [Decl.respan, decl, decl, hrole]
    cases hcase : d.role with
    | formal =>
      have hkind : (d.respan r).kind = d.kind := rfl
      rw [hkind]
      rfl
    | «variable» =>
      have htaken : taken (env.respan r) (d.respan r).name.name = taken env d.name.name :=
        taken_respan env d.name.name
      dsimp only
      rw [htaken, declare_respan env _ (fun _ => .static) fun _ => rfl]
      refine Outcome.map_respan ?_
      rintro ⟨d, s⟩
      exact congrArg (Prod.mk _) (extend_respan env s)

theorem isMain_respan (d : Decl) : isMain (d.respan r) = isMain d := by cases d <;> rfl

theorem decls_respan (env : Env) (ds : List Decl) :
    decls (env.respan r) (ds.map (Decl.respan r)) = (decls env ds).respan r
      fun x => (x.1.map (Decl.respan r), x.2.1.respan r, x.2.2) := by
  induction ds generalizing env with
  | nil => rfl
  | cons d ds ih =>
    rw [List.map_cons, decls, decls, decl_respan, isMain_respan]
    refine Outcome.andThen_respan (fun _ => rfl) fun x => ?_
    dsimp only [Prod.map]
    rw [ih]
    exact Outcome.map_respan fun _ => rfl

end Resolve

end CMinusMinus
