import CMinusMinus.Proofs.Places
import Mathlib.Logic.Basic

/-!
# Places of reports about types

Type checking reports an expression where its anchor stands, which is a name or a literal of it
(`Exp.anchor_mem_leaves`), and a missing value where the return statement stands
(`Check.at_decl_resolve`).
-/

namespace CMinusMinus

open Outcome

variable {P : Option Span → Prop}

/-- An expression is reported where one of its names or literals stands. -/
theorem Exp.anchor_mem_leaves (e : Exp) : e.anchor.span ∈ e.leaves := by
  fun_induction anchor e with
  | case1 _ _ _ _ ih | case2 _ _ _ ih => exact List.mem_append_left _ ih
  | case3 _ _ ih | case4 _ _ ih => exact ih
  | case5 => exact List.mem_append_right _ (List.mem_singleton_self _)
  | case6 => exact List.mem_cons_self
  | case7 e hbinary hassign hneg hnot haccess hcall =>
    cases e with
    | binary => exact (hbinary _ _ _ _ rfl).elim
    | assign => exact (hassign _ _ _ rfl).elim
    | neg => exact (hneg _ _ rfl).elim
    | not => exact (hnot _ _ rfl).elim
    | access => exact (haccess _ _ _ _ rfl).elim
    | call => exact (hcall _ _ _ _ rfl).elim
    | _ => exact List.mem_singleton_self _

@[simp] theorem Exp.leaves_record (t : Ty) (e : Exp) : (e.record t).leaves = e.leaves := by
  cases e <;> rfl

namespace Check

/-- Where the names and literals of a part stand. -/
abbrev Part.leaves (p : Part) : List (Option Span) := p.exp.leaves

theorem at_report {e : Exp} (h : ∀ s ∈ e.leaves, P s) (c : TypeCause) : (c.report e).At P :=
  c.at_reportAt (h _ e.anchor_mem_leaves)

/-! ## Rules -/

theorem at_want (type : Ty) (cause : TypeCause) {p : Part} (h : ∀ s ∈ p.leaves, P s) :
    ∀ x ∈ want type cause p, x.At P := by
  unfold want
  split
  · exact List.forall_mem_nil _
  · exact List.forall_mem_singleton.mpr (at_report h cause)

theorem at_uniform (type result : Ty) (cause : TypeCause) {parts : List Part}
    (h : ∀ p ∈ parts, ∀ s ∈ p.leaves, P s) :
    ∀ x ∈ (uniform type result cause parts).2, x.At P := by
  intro x hx
  obtain ⟨p, hp, hx⟩ := List.mem_flatMap.mp hx
  exact at_want type cause (h p hp) x hx

theorem at_pair (cause : Option TypeCause) (result : Ty) {whole : Exp} (l r : Ty)
    (h : ∀ s ∈ whole.leaves, P s) : ∀ x ∈ (pair cause result whole l r).2, x.At P := by
  unfold pair
  split
  · exact List.forall_mem_nil _
  · split
    · exact List.forall_mem_singleton.mpr (at_report h _)
    · split
      · exact List.forall_mem_nil _
      · exact List.forall_mem_singleton.mpr (at_report h _)

theorem at_binary (op : BinOp) {i : Info} {l r : Part} (hl : ∀ s ∈ l.leaves, P s)
    (hr : ∀ s ∈ r.leaves, P s) :
    ∀ x ∈ (binary op (.binary i op l.exp r.exp) l r).2, x.At P := by
  have hparts : ∀ p ∈ [l, r], ∀ s ∈ p.leaves, P s :=
    List.forall_mem_cons.mpr ⟨hl, List.forall_mem_singleton.mpr hr⟩
  cases op with
  | add | sub | mul | div | and | or | less | greater | lessEq | greaterEq =>
    exact at_uniform _ _ _ hparts
  | equal | notEqual => exact at_pair _ _ _ _ (List.forall_mem_append.mpr ⟨hl, hr⟩)
  | other => exact List.forall_mem_nil _

theorem at_arguments {args : List Part} (h : ∀ p ∈ args, ∀ s ∈ p.leaves, P s)
    (params : List Ty) : ∀ x ∈ arguments args params, x.At P := by
  intro x hx
  obtain ⟨⟨a, t⟩, hmem, hx⟩ := List.mem_flatMap.mp hx
  dsimp only at hx
  split at hx
  · cases hx
  · cases List.mem_singleton.mp hx
    exact at_report (h a (List.of_mem_zip hmem).1) _

theorem at_call {callee : Ident} (hcallee : P callee.info.span) {args : List Part}
    (h : ∀ p ∈ args, ∀ s ∈ p.leaves, P s) : ∀ x ∈ (call callee args).2, x.At P := by
  unfold call
  split
  · dsimp only
    split
    · exact at_arguments h _
    · exact List.forall_mem_singleton.mpr (TypeCause.at_reportAt hcallee _)
  · split
    · exact List.forall_mem_nil _
    · exact List.forall_mem_singleton.mpr (TypeCause.at_reportAt hcallee _)
  · exact List.forall_mem_nil _

theorem at_reportIf (cause : Option TypeCause) {e : Exp} (h : ∀ s ∈ e.leaves, P s) :
    ∀ x ∈ reportIf cause e, x.At P := by
  cases cause with
  | none => exact List.forall_mem_nil _
  | some cause => exact List.forall_mem_singleton.mpr (at_report h cause)

theorem at_returned (returns : Ty) {value : Part} (h : ∀ s ∈ value.leaves, P s) :
    ∀ x ∈ returned returns value, x.At P := by
  unfold returned
  split
  · exact List.forall_mem_singleton.mpr (at_report h _)
  · split
    · exact List.forall_mem_nil _
    · exact List.forall_mem_singleton.mpr (at_report h _)

/-! ## Expressions -/

@[simp] theorem span_ident (x : Ident) : (ident x).value.1.info.span = x.info.span := by
  unfold ident
  dsimp only
  split <;> rfl

theorem at_ident (x : Ident) : (ident x).Only (Report.At P) := by
  unfold ident
  dsimp only
  split
  · exact only_pure _
  · exact only_pure _
  · exact only_stop _ _

theorem listLeaves_unchecked (es : List Exp) :
    Exp.listLeaves ((es.map unchecked).map Part.exp) = Exp.listLeaves es := by
  rw [List.map_map]
  exact congrArg Exp.listLeaves (List.map_id es)

mutual

/-- Type checking leaves names and literals where they stand. -/
@[simp] theorem leaves_exp : ∀ e, (exp e).value.leaves = e.leaves
  | .int .. | .string .. | .bool .. | .unknown _ => rfl
  | .ident x => congrArg ([·]) (span_ident x)
  | .access i k loc f => by
    rw [exp, Exp.leaves]
    refine view_andThen Part.leaves ?_ (view_andThen Part.leaves ?_ ?_)
    · exact congrArg (· ++ _) (leaves_exp loc)
    · exact congrArg₂ (fun l s => l ++ [s]) (leaves_exp loc) (span_ident f)
    · exact congrArg₂ (fun l s => l ++ [s]) (leaves_exp loc) (span_ident f)
  | .assign i l r => by
    rw [exp, Exp.leaves]
    refine view_andThen Part.leaves ?_ (view_andThen Part.leaves ?_ ?_)
    · exact congrArg (· ++ _) (leaves_exp l)
    · exact congrArg₂ (· ++ ·) (leaves_exp l) (leaves_exp r)
    · exact congrArg₂ (· ++ ·) (leaves_exp l) (leaves_exp r)
  | .call i f s args => by
    rw [exp, Exp.leaves]
    refine view_andThen Part.leaves ?_ (view_andThen Part.leaves ?_ ?_)
    · exact congrArg (· :: _) (span_ident f)
    · exact congrArg₂ List.cons (span_ident f) (leaves_exps args)
    · exact congrArg₂ List.cons (span_ident f) (leaves_exps args)
  | .neg i e | .not i e => by
    rw [exp, Exp.leaves]
    exact view_andThen Part.leaves (leaves_exp e) (leaves_exp e)
  | .binary i op l r => by
    cases op with
    | other => rfl
    | _ =>
      rw [exp, Exp.leaves]
      · refine view_andThen Part.leaves ?_ (view_andThen Part.leaves ?_ ?_)
        · exact congrArg (· ++ _) (leaves_exp l)
        · exact congrArg₂ (· ++ ·) (leaves_exp l) (leaves_exp r)
        · exact congrArg₂ (· ++ ·) (leaves_exp l) (leaves_exp r)
      · nofun

theorem leaves_exps : ∀ es,
    Exp.listLeaves ((exps es).value.map Part.exp) = Exp.listLeaves es
  | [] => rfl
  | e :: es => by
    rw [exps, Exp.listLeaves]
    refine view_andThen (fun ps : List Part => Exp.listLeaves (ps.map Part.exp)) ?_ ?_
    · exact congrArg₂ (· ++ ·) (leaves_exp e) (listLeaves_unchecked es)
    · exact congrArg₂ (· ++ ·) (leaves_exp e) (leaves_exps es)

end

theorem forall_exp {e : Exp} (h : ∀ s ∈ e.leaves, P s) : ∀ s ∈ (exp e).value.leaves, P s := by
  rw [leaves_exp]
  exact h

theorem forall_exps {es : List Exp} (h : ∀ s ∈ Exp.listLeaves es, P s) :
    ∀ p ∈ (exps es).value, ∀ s ∈ p.leaves, P s := by
  have hmem : ∀ (ps : List Part), ∀ p ∈ ps, ∀ s ∈ p.leaves,
      s ∈ Exp.listLeaves (ps.map Part.exp) := by
    intro ps p hp s hs
    induction ps with
    | nil => cases hp
    | cons q ps ih =>
      rcases List.mem_cons.mp hp with rfl | hp
      · exact List.mem_append_left _ hs
      · exact List.mem_append_right _ (ih hp)
  intro p hp s hs
  have hs := hmem _ p hp s hs
  rw [leaves_exps] at hs
  exact h s hs

theorem only_conclude {Q : Report → Prop} {e : Exp} {v : Verdict} (h : ∀ x ∈ v.2, Q x) :
    (conclude e v).Only Q := h

mutual

theorem at_exp : ∀ {e : Exp}, (∀ s ∈ e.leaves, P s) → (exp e).Only (Report.At P)
  | .int .., _ | .string .., _ | .bool .., _ => only_pure _
  | .unknown _, _ => only_stop _ _
  | .ident x, _ => (at_ident x).map _
  | .access i k loc f, h => by
    obtain ⟨hloc, -⟩ := List.forall_mem_append.mp h
    exact (at_exp hloc).andThen (fun _ => (at_ident f).andThen (fun _ => only_pure _) _) _
  | .assign i l r, h => by
    obtain ⟨hl, hr⟩ := List.forall_mem_append.mp h
    have hwhole : ∀ s ∈ (Exp.assign i (exp l).value.exp (exp r).value.exp).leaves, P s :=
      List.forall_mem_append.mpr ⟨forall_exp hl, forall_exp hr⟩
    exact (at_exp hl).followed
      ((at_exp hr).followed (only_conclude (at_pair _ _ _ _ hwhole)) _) _
  | .call i f s args, h => by
    obtain ⟨hf, hargs⟩ := List.forall_mem_cons.mp h
    refine (at_ident f).followed ((at_exps hargs).followed (only_conclude
      (at_call ?_ (forall_exps hargs))) _) _
    rw [span_ident]
    exact hf
  | .neg i e, h | .not i e, h => by
    have h : ∀ s ∈ e.leaves, P s := h
    have hpart : ∀ p ∈ [(exp e).value], ∀ s ∈ p.leaves, P s :=
      List.forall_mem_singleton.mpr (forall_exp h)
    exact (at_exp h).followed (only_conclude (at_uniform _ _ _ hpart)) _
  | .binary i op l r, h => by
    obtain ⟨hl, hr⟩ := List.forall_mem_append.mp h
    cases op with
    | other => exact only_stop _ _
    | _ =>
      rw [exp]
      · exact (at_exp hl).followed ((at_exp hr).followed (only_conclude
          (at_binary _ (forall_exp hl) (forall_exp hr))) _) _
      · nofun

theorem at_exps : ∀ {es : List Exp}, (∀ s ∈ Exp.listLeaves es, P s) →
    (exps es).Only (Report.At P)
  | [], _ => only_pure _
  | e :: es, h => by
    obtain ⟨he, hes⟩ := List.forall_mem_append.mp h
    exact (at_exp he).andThen (fun _ => (at_exps hes).map _) _

end

/-! ## Statements -/

theorem at_operand {e : Exp} (h : ∀ s ∈ e.leaves, P s) {complain : Part → List Report}
    (hcomplain : ∀ p : Part, (∀ s ∈ p.leaves, P s) → ∀ x ∈ complain p, x.At P) :
    (operand e complain).Only (Report.At P) := by
  refine (at_exp h).followed ?_ _
  exact only_reporting.mpr (hcomplain _ (forall_exp h))

variable {Q : Report → Prop}

theorem only_operand_of_at (hleaf : ∀ x : Report, x.At P → Q x) {e : Exp}
    (h : ∀ s ∈ e.leaves, P s) {complain : Part → List Report}
    (hcomplain : ∀ p : Part, (∀ s ∈ p.leaves, P s) → ∀ x ∈ complain p, x.At P) :
    (operand e complain).Only Q :=
  fun x hx => hleaf x (at_operand h hcomplain x hx)

mutual

/-- What holds of reports at names and literals, and of those of return statements without a value,
holds of what is reported of a statement. -/
theorem only_stmt_of_at (hleaf : ∀ x : Report, x.At P → Q x) (returns : Ty) :
    ∀ {s : Stmt}, (∀ p ∈ s.leaves, P p) →
    (∀ p ∈ s.bareReturns, Q (TypeCause.noReturnValue.reportAt p)) → (stmt returns s).Only Q
  | .assign _ e, h, _ | .call _ e, h, _ =>
    (only_operand_of_at hleaf (e := e) h fun _ _ => List.forall_mem_nil _).map _
  | .increment _ e, h, _ | .decrement _ e, h, _ =>
    (only_operand_of_at hleaf (e := e) h fun _ hp => at_want _ _ hp).map _
  | .read _ e, h, _ | .write _ e, h, _ =>
    (only_operand_of_at hleaf (e := e) h fun _ hp => at_reportIf _ hp).map _
  | .ifThen _ e b, h, hbare | .while _ e b, h, hbare => by
    obtain ⟨he, hb⟩ := List.forall_mem_append.mp h
    exact (only_operand_of_at hleaf he fun _ hp => at_want _ _ hp).andThen
      (fun _ => (only_block_of_at hleaf returns hb hbare).map _) _
  | .ifElse _ e b₁ b₂, h, hbare => by
    obtain ⟨he, hb⟩ := List.forall_mem_append.mp h
    obtain ⟨hyes, hno⟩ := List.forall_mem_append.mp hb
    obtain ⟨hbareYes, hbareNo⟩ := List.forall_mem_append.mp hbare
    exact (only_operand_of_at hleaf he fun _ hp => at_want _ _ hp).andThen
      (fun _ => (only_block_of_at hleaf returns hyes hbareYes).andThen
        (fun _ => (only_block_of_at hleaf returns hno hbareNo).map _) _) _
  | .return s none, _, hbare => by
    rw [stmt, only_reporting]
    split
    · exact List.forall_mem_nil _
    · exact List.forall_mem_singleton.mpr (hbare s (List.mem_singleton_self _))
  | .return _ (some e), h, _ =>
    (only_operand_of_at hleaf (e := e) h fun _ hp => at_returned returns hp).map _
  | .unknown _, _, _ => only_stop _ _

theorem only_block_of_at (hleaf : ∀ x : Report, x.At P → Q x) (returns : Ty) :
    ∀ {b : Block Stmt}, (∀ p ∈ Stmt.blockLeaves b, P p) →
    (∀ p ∈ Stmt.blockBareReturns b, Q (TypeCause.noReturnValue.reportAt p)) →
    (block returns b).Only Q
  | ⟨_, _, _⟩, h, hbare =>
    (only_stmts_of_at hleaf returns (List.forall_mem_append.mp h).2 hbare).map _

theorem only_stmts_of_at (hleaf : ∀ x : Report, x.At P → Q x) (returns : Ty) :
    ∀ {ss : List Stmt}, (∀ p ∈ Stmt.listLeaves ss, P p) →
    (∀ p ∈ Stmt.listBareReturns ss, Q (TypeCause.noReturnValue.reportAt p)) →
    (stmts returns ss).Only Q
  | [], _, _ => only_pure _
  | s :: ss, h, hbare => by
    obtain ⟨hs, hss⟩ := List.forall_mem_append.mp h
    obtain ⟨hbare, hbares⟩ := List.forall_mem_append.mp hbare
    exact (only_stmt_of_at hleaf returns hs hbare).andThen
      (fun _ => (only_stmts_of_at hleaf returns hss hbares).map _) _

end

@[simp] theorem leaves_operand (e : Exp) (complain : Part → List Report) :
    (operand e complain).value.leaves = e.leaves := by
  rw [operand]
  exact view_andThen Exp.leaves (leaves_exp e) (leaves_exp e)

mutual

/-- Type checking leaves the names and literals of a statement where they stand. -/
theorem leaves_stmt (returns : Ty) : ∀ s, (stmt returns s).value.leaves = s.leaves
  | .assign _ e | .increment _ e | .decrement _ e | .read _ e | .write _ e | .call _ e
  | .return _ (some e) => by rw [stmt, value_map, Stmt.leaves, leaves_operand, Stmt.leaves]
  | .ifThen _ e b | .while _ e b => by
    rw [stmt, Stmt.leaves]
    refine view_andThen Stmt.leaves ?_ ?_
    · rw [Stmt.leaves, leaves_operand]
    · rw [value_map, Stmt.leaves, leaves_operand, leaves_block]
  | .ifElse _ e b₁ b₂ => by
    rw [stmt, Stmt.leaves]
    refine view_andThen Stmt.leaves ?_ (view_andThen Stmt.leaves ?_ ?_)
    · rw [Stmt.leaves, leaves_operand]
    · rw [Stmt.leaves, leaves_operand, leaves_block]
    · rw [value_map, Stmt.leaves, leaves_operand, leaves_block, leaves_block]
  | .return _ none | .unknown _ => rfl

theorem leaves_block (returns : Ty) : ∀ b,
    Stmt.blockLeaves (block returns b).value = Stmt.blockLeaves b
  | ⟨_, _, ss⟩ => by rw [block, value_map, Stmt.blockLeaves, leaves_stmts, Stmt.blockLeaves]

theorem leaves_stmts (returns : Ty) : ∀ ss,
    Stmt.listLeaves (stmts returns ss).value = Stmt.listLeaves ss
  | [] => rfl
  | s :: ss => by
    rw [stmts, Stmt.listLeaves]
    refine view_andThen Stmt.listLeaves ?_ ?_
    · rw [Stmt.listLeaves, leaves_stmt]
    · rw [value_map, Stmt.listLeaves, leaves_stmt, leaves_stmts]

end

/-! ## Declarations -/

theorem only_fnDecl_of_at {Q : Report → Prop} (hleaf : ∀ x : Report, x.At P → Q x) {d : FnDecl}
    (h : ∀ s ∈ Stmt.blockLeaves d.body, P s)
    (hbare : ∀ s ∈ Stmt.blockBareReturns d.body, Q (TypeCause.noReturnValue.reportAt s)) :
    (fnDecl d).Only Q := by
  rw [fnDecl]
  split
  · exact only_stop _ _
  · exact (only_block_of_at hleaf _ h hbare).map _

end Check

namespace Resolve

/-- Name resolution leaves the names and literals of a body where they stand. -/
theorem leaves_fnDecl (env : Env) (d : FnDecl) :
    Stmt.blockLeaves (fnDecl env d).value.1.body = Stmt.blockLeaves d.body := by
  unfold fnDecl
  split
  · rfl
  · refine view_andThen (fun v : FnDecl × Env => Stmt.blockLeaves v.1.body) rfl
      (view_andThen (fun v : FnDecl × Env => Stmt.blockLeaves v.1.body) rfl
        (view_andThen (fun v : FnDecl × Env => Stmt.blockLeaves v.1.body) ?_ ?_))
    · exact leaves_block _ _ _
    · exact leaves_block _ _ _

/-- Name resolution leaves the return statements of a body where they stand. -/
theorem bareReturns_fnDecl (env : Env) (d : FnDecl) :
    Stmt.blockBareReturns (fnDecl env d).value.1.body = Stmt.blockBareReturns d.body := by
  unfold fnDecl
  split
  · rfl
  · refine view_andThen (fun v : FnDecl × Env => Stmt.blockBareReturns v.1.body) rfl
      (view_andThen (fun v : FnDecl × Env => Stmt.blockBareReturns v.1.body) rfl
        (view_andThen (fun v : FnDecl × Env => Stmt.blockBareReturns v.1.body) ?_ ?_))
    · exact bareReturns_block _ _ _
    · exact bareReturns_block _ _ _

end Resolve

/-- What holds of reports at names and literals, and of those of return statements without a value,
holds of what is reported of the types of a declaration whose names are bound. -/
theorem Check.only_decl_resolve {Q : Report → Prop} (hleaf : ∀ x : Report, x.At P → Q x)
    (env : Env) : ∀ {d : Decl}, (∀ s ∈ d.leaves, P s) →
    (∀ s ∈ d.bareReturns, Q (TypeCause.noReturnValue.reportAt s)) →
    (Check.decl (Resolve.decl env d).value.1).Only Q
  | .var d, _, _ => by
    rw [Resolve.decl]
    split <;> exact only_pure _
  | .fn d, h, hbare => by
    have hbody := (List.forall_mem_append.mp (List.forall_mem_cons.mp h).2).2
    refine Only.map (only_fnDecl_of_at hleaf ?_ ?_) _
    · rw [Resolve.leaves_fnDecl]
      exact hbody
    · rw [Resolve.bareReturns_fnDecl]
      exact hbare
  | .struct _, _, _ => only_pure _
  | .unknown _, _, _ => only_pure _

/-- Type checking of a declaration whose names are bound reports names and literals where they
stand, and return statements without a value. -/
theorem Check.at_decl_resolve (env : Env) {d : Decl} (h : ∀ s ∈ d.leaves, P s)
    (hbare : ∀ s ∈ d.bareReturns, P s) :
    (Check.decl (Resolve.decl env d).value.1).Only (Report.At P) :=
  only_decl_resolve (fun _ hx => hx) env h fun s hs => TypeCause.at_reportAt (hbare s hs) _

end CMinusMinus
