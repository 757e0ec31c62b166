import CMinusMinus.Check
import CMinusMinus.Resolve
import CMinusMinus.Proofs.Grammar

/-!
# Names and types of formed trees

Where name resolution comes to its end on a formed tree, so does type checking on what it leaves
(`Program.Formed.total_check`).  Whether anything is reported makes no difference: a reported
name is marked, and a marked name has a type like any other.

Name resolution needs two facts of a tree, that a field is asked of a location and that no node
is of unknown kind.  Then it comes to its end on all expressions, formals and fields; on locals and
structs it may still stop at a number for the log.  Type checking needs a third fact, that no
identifier is left pending, which is why the two passes are followed together through each node.
-/

namespace CMinusMinus

open Outcome

/-! ## Identifiers -/

theorem Ident.fault_resolve (env : Env) (x : Ident) : (x.resolve env).fault = none := by
  unfold Ident.resolve
  split <;> rfl

theorem Ident.resolve_ne_pending (env : Env) (x : Ident) :
    (x.resolve env).value.binding ≠ .pending := by
  unfold Ident.resolve
  split <;> intro h <;> cases h

namespace Check

theorem fault_ident {x : Ident} (h : x.binding ≠ .pending) : (ident x).fault = none := by
  unfold ident
  split
  · rfl
  · rfl
  · next hx => exact absurd hx h

/-- How the operators of the language are checked. -/
theorem exp_binary {op : BinOp} (h : op ∈ BinOp.all) (i : Info) (l r : Exp) :
    exp (.binary i op l r) =
      (exp l).andThen (fun l => unchecked (.binary i op l.exp r)) fun l =>
        (exp r).andThen (fun r => unchecked (.binary i op l.exp r.exp)) fun r =>
          conclude (.binary i op l.exp r.exp) (binary op (.binary i op l.exp r.exp) l r) := by
  cases op with
  | other text => simp [BinOp.all] at h
  | _ => rfl

end Check

/-! ## Expressions -/

namespace Resolve

/-- Name resolution leaves a location where it found one. -/
theorem isLocation_exp (env : Env) (e : Exp) :
    (exp env e).value.isLocation = e.isLocation := by
  cases e with
  | int | string | bool | ident | neg | not | unknown => rfl
  | access i k loc f =>
    rw [exp]
    unfold andThen access fieldOf
    split
    · rfl
    · dsimp only
      split
      · split <;> rfl
      all_goals rfl
  | assign | call | binary =>
    rw [exp]
    unfold andThen
    split <;> rfl

/-- A field may be asked of a location, though it may have none. -/
theorem base_ne_misplaced {loc : Exp} (h : loc.isLocation = true) : loc.base ≠ .misplaced := by
  cases loc with
  | ident x =>
    rw [Exp.base]
    split <;> simp
  | access i k loc f =>
    rw [Exp.base]
    split
    · simp
    · split <;> simp
  | _ => cases h

/-- The access to a field of a location comes to its end, and settles the name of the field. -/
theorem access_of_isLocation (i : Info) {loc : Exp} (h : loc.isLocation = true) (f : Ident) :
    ∃ k f', (access i loc f).fault = none ∧ (access i loc f).value = .access i k loc f' ∧
      f'.binding ≠ .pending := by
  have hbase := base_ne_misplaced h
  unfold access
  split
  · unfold fieldOf
    split
    · exact ⟨_, _, rfl, rfl, by intro hx; cases hx⟩
    · exact ⟨_, _, rfl, rfl, by intro hx; cases hx⟩
  · exact ⟨_, _, rfl, rfl, by intro hx; cases hx⟩
  · exact ⟨_, _, rfl, rfl, by intro hx; cases hx⟩
  · next hmis => exact absurd hmis hbase

end Resolve

mutual

/-- Both passes come to their end on an expression. -/
theorem Exp.Formed.total (env : Env) : ∀ {e : Exp}, e.Formed →
    (Resolve.exp env e).fault = none ∧ (Check.exp (Resolve.exp env e).value).fault = none
  | .int .., _ | .string .., _ | .bool .., _ => ⟨rfl, rfl⟩
  | .ident x, _ => by
    rw [Resolve.exp, fault_map, value_map, Check.exp, fault_map]
    exact ⟨x.fault_resolve env, Check.fault_ident (x.resolve_ne_pending env)⟩
  | .access i _ loc f, h => by
    obtain ⟨hloc, hchecked⟩ := Exp.Formed.total env h.2.1
    have hisLocation := (Resolve.isLocation_exp env loc).trans h.1
    obtain ⟨k, f', hfault, hvalue, hf'⟩ := Resolve.access_of_isLocation i hisLocation f
    rw [Resolve.exp, fault_andThen, value_andThen hloc, hvalue, Check.exp, fault_andThen,
      fault_andThen]
    exact ⟨⟨hloc, hfault⟩, hchecked, Check.fault_ident hf', rfl⟩
  | .assign i l r, h => by
    obtain ⟨hl, hl'⟩ := Exp.Formed.total env h.2.1
    obtain ⟨hr, hr'⟩ := Exp.Formed.total env h.2.2
    rw [Resolve.exp, fault_andThen, value_andThen hl, value_map, fault_map, Check.exp,
      fault_andThen, fault_andThen]
    exact ⟨⟨hl, hr⟩, hl', hr', rfl⟩
  | .call i f s args, h => by
    obtain ⟨hargs, hargs'⟩ := Exp.AllFormed.total env h.2
    have hf := f.fault_resolve env
    rw [Resolve.exp, fault_andThen, value_andThen hf, value_map, fault_map, Check.exp,
      fault_andThen, fault_andThen]
    exact ⟨⟨hf, hargs⟩, Check.fault_ident (f.resolve_ne_pending env), hargs', rfl⟩
  | .neg i e, h | .not i e, h => by
    obtain ⟨he, he'⟩ := Exp.Formed.total env (e := e) h
    rw [Resolve.exp, fault_map, value_map, Check.exp, fault_andThen]
    exact ⟨he, he', rfl⟩
  | .binary i op l r, h => by
    obtain ⟨hl, hl'⟩ := Exp.Formed.total env h.2.1
    obtain ⟨hr, hr'⟩ := Exp.Formed.total env h.2.2
    rw [Resolve.exp, fault_andThen, value_andThen hl, value_map, fault_map,
      Check.exp_binary h.1, fault_andThen, fault_andThen]
    exact ⟨⟨hl, hr⟩, hl', hr', rfl⟩

/-- Both passes come to their end on a list of expressions. -/
theorem Exp.AllFormed.total (env : Env) : ∀ {es : List Exp}, Exp.AllFormed es →
    (Resolve.exps env es).fault = none ∧ (Check.exps (Resolve.exps env es).value).fault = none
  | [], _ => ⟨rfl, rfl⟩
  | e :: es, h => by
    obtain ⟨he, he'⟩ := Exp.Formed.total env h.1
    obtain ⟨hes, hes'⟩ := Exp.AllFormed.total env h.2
    rw [Resolve.exps, fault_andThen, value_andThen he, value_map, fault_map, Check.exps,
      fault_andThen, fault_map]
    exact ⟨⟨he, hes⟩, he', hes'⟩

end

/-! ## Declarations of variables -/

namespace Resolve

theorem fault_shape (env : Env) {d : VarDecl} (h : d.type.Formed) :
    (shape env d).fault = none := by
  unfold shape
  split
  · rfl
  · rfl
  · rfl
  · split <;> rfl
  · next hd =>
    rw [hd] at h
    exact h.elim

theorem fault_declare (env : Env) (taken : Option NameCause) (place : Shape StructDef → Place)
    {d : VarDecl} (h : d.type.Formed) : (declare env taken place d).fault = none := by
  unfold declare
  rw [fault_andThen]
  refine ⟨fault_shape env h, ?_⟩
  split
  split <;> rfl

section Sequence

variable (go : Env → Frame → List VarDecl → Resolved (List VarDecl × Env × Frame))
  (place : Frame → Shape StructDef → Place) (next : Frame → Option Storage → Frame)
  (number : Frame → Option Storage → Option Int)

/-- The variables are declared one after another in the innermost scope, each with a place in the
frame, and a number is logged of each that has one. -/
structure Sequence : Prop where
  nil : ∀ env frame, go env frame [] = .pure ([], env, frame)
  cons : ∀ env frame d ds, ∃ stopped stopped', go env frame (d :: ds) =
    (declare env (taken env d.name.name) (place frame) d).andThen stopped fun v =>
      (logged (number frame v.2) v).andThen stopped' fun v =>
        (go (extend env v.2) (next frame v.2) ds).map fun w => (v.1 :: w.1, w.2)
  placed : ∀ frame shape, place frame shape ≠ .unplaced

variable {go place next number}

/-- What is left of variables that were all declared. -/
theorem Sequence.cons_of_fault (hgo : Sequence go place next number) {env : Env} {frame : Frame}
    {d : VarDecl} {ds : List VarDecl} (h : (go env frame (d :: ds)).fault = none) :
    ∃ stopped, (declare env (taken env d.name.name) (place frame) d).fault = none ∧
      (go (extend env (declare env (taken env d.name.name) (place frame) d).value.2)
        (next frame (declare env (taken env d.name.name) (place frame) d).value.2)
        ds).fault = none ∧
      go env frame (d :: ds) =
        (declare env (taken env d.name.name) (place frame) d).andThen stopped fun v =>
          (go (extend env v.2) (next frame v.2) ds).map fun w => (v.1 :: w.1, w.2) := by
  obtain ⟨stopped, stopped', hcons⟩ := hgo.cons env frame d ds
  rw [hcons, fault_andThen, fault_andThen, value_logged, fault_map] at h
  obtain ⟨hd, hlogged, hds⟩ := h
  refine ⟨stopped, hd, hds, ?_⟩
  rw [hcons, andThen_of_fault_none hd, andThen_of_fault_none hd, logged_of_fault hlogged,
    pure_andThen]

theorem Sequence.fault (hgo : Sequence go place next fun _ _ => none) (env : Env) (frame : Frame)
    {ds : List VarDecl} (h : ∀ d ∈ ds, d.type.Formed) : (go env frame ds).fault = none := by
  induction ds generalizing env frame with
  | nil => rw [hgo.nil, fault_pure]
  | cons d ds ih =>
    obtain ⟨hd, hds⟩ := List.forall_mem_cons.mp h
    obtain ⟨stopped, stopped', hcons⟩ := hgo.cons env frame d ds
    rw [hcons, fault_andThen]
    refine ⟨fault_declare env _ _ hd, ?_⟩
    rw [logged_none, pure_andThen, fault_map]
    exact ih _ _ hds

end Sequence

theorem sequence_localVars : Sequence localVars
    (fun frame shape => .frame (frame.localOffset shape.size)) extendFrame localNumber where
  nil := fun _ _ => rfl
  cons := fun env frame d ds => by
    refine ⟨fun v => (v.1 :: ds, extend env v.2, extendFrame frame v.2),
      fun v => (v.1 :: ds, extend env v.2, extendFrame frame v.2), ?_⟩
    rw [localVars, localVar, andThen_assoc]
    refine congrArg _ (funext fun v => ?_)
    dsimp only
    rw [logged_eq_map _ (fun v => (v.1, extend env v.2, extendFrame frame v.2)) v, map_andThen]
  placed := nofun

theorem sequence_formals : Sequence formals
    (fun frame _ => .frame frame.formalOffset) (fun frame _ => frame.addFormal)
    fun _ _ => none where
  nil := fun _ _ => rfl
  cons := fun env frame d ds => by
    refine ⟨fun v => (v.1 :: ds, extend env v.2, frame),
      fun v => (v.1 :: ds, extend env v.2, frame), ?_⟩
    rw [formals]
    refine congrArg _ (funext fun v => ?_)
    rw [logged_none, pure_andThen]
  placed := nofun

theorem fault_formals (env : Env) (frame : Frame) {ds : List VarDecl}
    (h : ∀ d ∈ ds, d.type.Formed) : (formals env frame ds).fault = none :=
  sequence_formals.fault env frame h

/-- The name of a field is taken if a field before it has it. -/
theorem takenField_eq (before : List (Field StructDef)) (name : String) :
    takenField before name =
      (before.find? (·.name == name)).map fun _ => .duplicateField name := by
  unfold takenField
  cases hfind : before.find? (·.name == name) with
  | none =>
    refine if_neg fun hany => ?_
    obtain ⟨f, hf, hname⟩ := List.any_eq_true.mp hany
    exact List.find?_eq_none.mp hfind f hf hname
  | some f =>
    exact if_pos (List.any_eq_true.mpr ⟨f, List.mem_of_find?_eq_some hfind,
      List.find?_some hfind⟩)

theorem fault_fields (env : Env) (before : List (Field StructDef)) (size : Nat)
    {ds : List VarDecl} (h : ∀ d ∈ ds, d.type.Formed) :
    (fields env before size ds).fault = none := by
  induction ds generalizing before size with
  | nil => rfl
  | cons d ds ih =>
    obtain ⟨hd, hds⟩ := List.forall_mem_cons.mp h
    rw [fields, fault_andThen]
    refine ⟨fault_declare env _ _ hd, ?_⟩
    rw [fault_map]
    exact ih _ _ hds

end Resolve

/-! ## Statements -/

/-- What is reported of an operand does not stop the pass. -/
theorem Check.fault_operand {e : Exp} {complain : Part → List Report} :
    (operand e complain).fault = none ↔ (exp e).fault = none := by
  rw [operand, fault_andThen]
  exact ⟨And.left, fun h => ⟨h, rfl⟩⟩

mutual

/-- Type checking comes to its end on a statement that name resolution came through. -/
theorem Stmt.Formed.checked (ret : Ty) {env : Env} {frame : Frame} : ∀ {s : Stmt}, s.Formed →
    (Resolve.stmt env frame s).fault = none →
      (Check.stmt ret (Resolve.stmt env frame s).value.1).fault = none
  | .assign _ e, h, _ | .increment _ e, h, _ | .decrement _ e, h, _ | .read _ e, h, _
  | .call _ e, h, _ => by
    rw [Resolve.stmt, value_map, Check.stmt, fault_map, Check.fault_operand]
    exact (h.2.total env).2
  | .write _ e, h, _ | .return _ (some e), h, _ => by
    rw [Resolve.stmt, value_map, Check.stmt, fault_map, Check.fault_operand]
    exact (Exp.Formed.total env (e := e) h).2
  | .ifThen _ e b, h, hr | .while _ e b, h, hr => by
    obtain ⟨he, he'⟩ := h.1.total env
    rw [Resolve.stmt, fault_andThen, fault_map] at hr
    rw [Resolve.stmt, value_andThen he, value_map, Check.stmt, fault_andThen, Check.fault_operand,
      fault_map]
    exact ⟨he', Stmt.BlockFormed.checked ret h.2 hr.2⟩
  | .ifElse _ e b₁ b₂, h, hr => by
    obtain ⟨he, he'⟩ := h.1.total env
    rw [Resolve.stmt, fault_andThen, fault_andThen, fault_map] at hr
    obtain ⟨-, hr₁, hr₂⟩ := hr
    rw [Resolve.stmt, value_andThen he, value_andThen hr₁, value_map, Check.stmt, fault_andThen,
      Check.fault_operand, fault_andThen, fault_map]
    exact ⟨he', Stmt.BlockFormed.checked ret h.2.1 hr₁, Stmt.BlockFormed.checked ret h.2.2 hr₂⟩
  | .return _ none, _, _ => rfl

/-- Type checking comes to its end on a block that name resolution came through. -/
theorem Stmt.BlockFormed.checked (ret : Ty) {env : Env} {frame : Frame} : ∀ {b : Block Stmt},
    Stmt.BlockFormed b → (Resolve.block env frame b).fault = none →
      (Check.block ret (Resolve.block env frame b).value.1).fault = none
  | ⟨ds, _, ss⟩, h, hr => by
    rw [Resolve.block, fault_andThen, fault_map] at hr
    rw [Resolve.block, value_andThen hr.1, value_map, Check.block, fault_map]
    exact Stmt.AllFormed.checked ret h.2 hr.2

/-- Type checking comes to its end on statements that name resolution came through. -/
theorem Stmt.AllFormed.checked (ret : Ty) {env : Env} {frame : Frame} : ∀ {ss : List Stmt},
    Stmt.AllFormed ss → (Resolve.stmts env frame ss).fault = none →
      (Check.stmts ret (Resolve.stmts env frame ss).value.1).fault = none
  | [], _, _ => rfl
  | s :: ss, h, hr => by
    rw [Resolve.stmts, fault_andThen, fault_map] at hr
    obtain ⟨hs, hss⟩ := hr
    rw [Resolve.stmts, value_andThen hs, value_map, Check.stmts, fault_andThen, fault_map]
    exact ⟨Stmt.Formed.checked ret h.1 hs, Stmt.AllFormed.checked ret h.2 hss⟩

end

/-! ## Programs -/

theorem TypeNode.type_of_isWordType {t : TypeNode} (h : t.isWordType = true) :
    ∃ type, t.type = .ok type ∧ (type = .int ∨ type = .bool ∨ type = .void) := by
  cases t with
  | int => exact ⟨.int, rfl, .inl rfl⟩
  | bool => exact ⟨.bool, rfl, .inr (.inl rfl)⟩
  | void => exact ⟨.void, rfl, .inr (.inr rfl)⟩
  | struct => cases h
  | unknown => cases h

namespace Resolve

theorem fault_name (env : Env) (x : Ident) (symbol : Symbol) :
    (name env x symbol).fault = none := by
  unfold name
  split <;> rfl

/-- What name resolution leaves of a function that it came through: its name, its formals and its
body are bound one after another, and the frame after the body is that of the function. -/
theorem fnDecl_of_formed {env : Env} {d : FnDecl} (h : d.Formed) {returns : Ty}
    (hr : d.returns.type = .ok returns) (hfault : (fnDecl env d).fault = none) :
    let named := (name env d.name (.function (signature d returns))).value
    let fs := (formals named.2.enter {} d.formals.items).value
    (block fs.2.1 fs.2.2 d.body).fault = none ∧
      (fnDecl env d).value =
        (let b := (block fs.2.1 fs.2.2 d.body).value
         ({ d with name := named.1, formals := { d.formals with items := fs.1 },
                   body := b.1, frame := some b.2 }, named.2)) := by
  have hname := fault_name env d.name (.function (signature d returns))
  have hformals := fault_formals (name env d.name (.function (signature d returns))).value.2.enter
    {} fun f hf => TypeNode.formed_of_isWordType (h.formals f hf).type
  unfold fnDecl at hfault ⊢
  rw [hr] at hfault ⊢
  dsimp only at hfault ⊢
  rw [fault_andThen, fault_andThen, fault_andThen] at hfault
  obtain ⟨-, -, hbody, -⟩ := hfault
  refine ⟨hbody, ?_⟩
  rw [value_andThen hname, value_andThen hformals, value_andThen hbody]
  rfl

end Resolve

/-- Type checking comes to its end on a declaration that name resolution came through. -/
theorem Decl.Formed.checked {env : Env} : ∀ {d : Decl}, d.Formed →
    (Resolve.decl env d).fault = none → (Check.decl (Resolve.decl env d).value.1).fault = none
  | .var d, h, _ => by
    rw [Decl.Formed] at h
    rw [Resolve.decl, h.role]
    rfl
  | .fn d, h, hfault => by
    rw [Decl.Formed] at h
    obtain ⟨returns, hr, -⟩ := TypeNode.type_of_isWordType h.returns
    rw [Resolve.decl, fault_map] at hfault
    obtain ⟨hbody, hvalue⟩ := Resolve.fnDecl_of_formed h hr hfault
    rw [Resolve.decl, value_map, hvalue, Check.decl, fault_map, Check.fnDecl]
    dsimp only
    rw [hr]
    exact Stmt.BlockFormed.checked returns h.body hbody
  | .struct d, _, _ => rfl

/-- Type checking comes to its end on declarations that name resolution came through. -/
theorem checked_decls {env : Env} {ds : List Decl} (h : ∀ d ∈ ds, d.Formed)
    (hfault : (Resolve.decls env ds).fault = none) :
    (Check.decls (Resolve.decls env ds).value.1).fault = none := by
  induction ds generalizing env with
  | nil => rfl
  | cons d ds ih =>
    obtain ⟨hd, hds⟩ := List.forall_mem_cons.mp h
    rw [Resolve.decls, fault_andThen, fault_map] at hfault
    rw [Resolve.decls, value_andThen hfault.1, value_map, Check.decls, fault_andThen, fault_map]
    exact ⟨hd.checked hfault.1, ih hds hfault.2⟩

namespace Program

variable {p : Program}

/-- Name resolution of a program comes to its end if it does on the declarations. -/
theorem fault_resolve : p.resolve.fault = (Resolve.decls (Scopes.enter []) p.decls).fault := by
  rw [resolve, resolveIn]
  dsimp only
  rw [List.isEmpty_nil, if_pos rfl]
  cases (Resolve.decls (Scopes.enter []) p.decls).fault <;> rfl

/-- Type checking comes to its end on what name resolution leaves. -/
theorem Formed.total_check (h : p.Formed) (hfault : p.resolve.fault = none) (hasMain : Bool) :
    (p.resolve.program.check hasMain).fault = none := by
  rw [check, fault_andThen]
  exact ⟨checked_decls h (fault_resolve.symm.trans hfault), rfl⟩

/-- Both passes are silent on a program of which nothing is reported. -/
theorem Formed.silent (h : p.Formed) (hfault : p.resolve.fault = none) {hasMain : Bool}
    (hr : p.resolve.reports = []) (hc : (p.resolve.program.check hasMain).reports = []) :
    (Resolve.decls (Scopes.enter []) p.decls).Silent ∧
      (p.resolve.program.check hasMain).Silent :=
  ⟨⟨fault_resolve.symm.trans hfault, hr⟩, ⟨h.total_check hfault hasMain, hc⟩⟩

end Program

end CMinusMinus
