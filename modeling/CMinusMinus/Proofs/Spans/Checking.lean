import CMinusMinus.Proofs.Spans

/-!
# Types and spans

Type checking copies spans and never looks at them: what it leaves of a tree with other spans is
what it leaves of the tree, with other spans (`Program.check_respan`).
-/

namespace CMinusMinus

variable {r : Option Span → Option Span}

theorem Exp.anchor_respan : ∀ e : Exp, (e.respan r).anchor = e.anchor.respan r
  | .int .. | .string .. | .bool .. | .ident _ | .access .. | .call .. | .unknown _ => rfl
  | .assign _ l _ => l.anchor_respan
  | .neg _ e | .not _ e => e.anchor_respan
  | .binary _ _ l _ => l.anchor_respan

theorem Exp.record_respan (e : Exp) (t : Ty) : (e.respan r).record t = (e.record t).respan r := by
  cases e <;> rfl

theorem TypeCause.report_respan (c : TypeCause) (e : Exp) :
    (c.report e).respan r = c.report (e.respan r) := by
  rw [report, report, reportAt_respan, e.anchor_respan]
  cases e.anchor <;> rfl

namespace Check

/-! ## Rules -/

/-- The part with other spans. -/
def Part.respan (r : Option Span → Option Span) (p : Part) : Part := ⟨p.exp.respan r, p.type⟩

/-- The answer of a rule with other spans. -/
def Verdict.respan (r : Option Span → Option Span) (v : Verdict) : Verdict :=
  (v.1, v.2.map (Report.respan r))

theorem want_respan (t : Ty) (c : TypeCause) (p : Part) :
    want t c (p.respan r) = (want t c p).map (Report.respan r) := by
  rw [want, want]
  show (if p.type = .error ∨ p.type = t then [] else [c.report (p.exp.respan r)]) = _
  split
  · rfl
  · rw [← c.report_respan]
    rfl

theorem uniform_respan (t result : Ty) (c : TypeCause) (parts : List Part) :
    uniform t result c (parts.map (Part.respan r)) =
      Verdict.respan r (uniform t result c parts) := by
  rw [uniform, uniform, Verdict.respan, List.all_map, List.flatMap_map, List.map_flatMap]
  exact congrArg (Prod.mk _)
    (congrArg List.flatten (List.map_congr_left fun p _ => want_respan t c p))

theorem pair_respan (c : Option TypeCause) (result : Ty) (whole : Exp) (t t' : Ty) :
    pair c result (whole.respan r) t t' = Verdict.respan r (pair c result whole t t') := by
  unfold pair
  split
  · rfl
  · cases c with
    | some c => exact congrArg (fun x => (Ty.error, [x])) (c.report_respan whole).symm
    | none =>
      dsimp only
      split
      · rfl
      · exact congrArg (fun x => (Ty.error, [x])) (TypeCause.report_respan _ whole).symm

theorem binary_respan (op : BinOp) (whole : Exp) (p q : Part) :
    binary op (whole.respan r) (p.respan r) (q.respan r) =
      Verdict.respan r (binary op whole p q) := by
  cases op with
  | other => rfl
  | equal | notEqual => exact pair_respan _ _ whole p.type q.type
  | _ => exact uniform_respan _ _ _ [p, q]

theorem arguments_respan (ps : List Part) (ts : List Ty) :
    arguments (ps.map (Part.respan r)) ts = (arguments ps ts).map (Report.respan r) := by
  rw [arguments, arguments, List.zip_map_left, List.flatMap_map, List.map_flatMap]
  refine congrArg List.flatten (List.map_congr_left fun x _ => ?_)
  obtain ⟨p, t⟩ := x
  dsimp only [Prod.map, Part.respan, id]
  split
  · rfl
  · exact congrArg ([·]) (TypeCause.report_respan _ p.exp).symm

theorem call_respan (f : Ident) (ps : List Part) :
    call (f.respan r) (ps.map (Part.respan r)) = Verdict.respan r (call f ps) := by
  obtain ⟨name, info, binding⟩ := f
  have hreport := fun c : TypeCause => (c.reportAt_respan (r := r) info.span).symm
  cases binding with
  | pending | unresolved => rfl
  | bound s =>
    cases s with
    | function sig =>
      simp only [call, Ident.respan, Binding.respan, Symbol.respan, Signature.respan,
        Verdict.respan, List.length_map, arguments_respan]
      split
      · rfl
      · exact congrArg (fun x => (sig.returns, [x])) (hreport _)
    | storage s =>
      have htype : (Symbol.storage (s.respan r)).type = (Symbol.storage s).type :=
        (Symbol.storage s).type_respan
      simp only [call, Ident.respan, Binding.respan, Symbol.respan, htype]
      split
      · rfl
      · exact congrArg (fun x => (Ty.error, [x])) (hreport _)
    | struct d => exact congrArg (fun x => (Ty.error, [x])) (hreport _)

theorem reportIf_respan (c : Option TypeCause) (e : Exp) :
    reportIf c (e.respan r) = (reportIf c e).map (Report.respan r) := by
  cases c with
  | none => rfl
  | some c => exact congrArg ([·]) (c.report_respan e).symm

theorem returned_respan (t : Ty) (p : Part) :
    returned t (p.respan r) = (returned t p).map (Report.respan r) := by
  rw [returned, returned]
  show (if t = .void then [TypeCause.voidReturn.report (p.exp.respan r)]
    else if p.type = .error ∨ p.type.agrees t then []
    else [TypeCause.returnType.report (p.exp.respan r)]) = _
  rw [← TypeCause.report_respan, ← TypeCause.report_respan]
  split
  · rfl
  · split <;> rfl

/-! ## Expressions -/

theorem ident_respan (x : Ident) :
    ident (x.respan r) = (ident x).respan r (Prod.map (Ident.respan r) id) := by
  obtain ⟨name, info, binding⟩ := x
  cases binding with
  | pending | unresolved => rfl
  | bound s =>
    simp only [ident, Ident.respan, Binding.respan, s.type_respan]
    rfl

theorem record_respan (e : Exp) (t : Ty) : record (e.respan r) t = (record e t).respan r :=
  congrArg (Part.mk · t) (e.record_respan t)

theorem conclude_respan (e : Exp) (v : Verdict) :
    conclude (e.respan r) (Verdict.respan r v) = (conclude e v).respan r (Part.respan r) := by
  rw [conclude, conclude, Outcome.respan_reporting, ← record_respan]
  rfl

theorem exps_of_respan (ps : List Part) :
    (ps.map (Part.respan r)).map Part.exp = Exp.listRespan r (ps.map Part.exp) := by
  induction ps with
  | nil => rfl
  | cons p ps ih =>
    rw [List.map_cons, List.map_cons, ih]
    rfl

theorem unchecked_respan (es : List Exp) :
    (Exp.listRespan r es).map unchecked = (es.map unchecked).map (Part.respan r) := by
  induction es with
  | nil => rfl
  | cons e es ih =>
    rw [Exp.listRespan, List.map_cons, ih]
    rfl

mutual

theorem exp_respan : ∀ e : Exp, exp (e.respan r) = (exp e).respan r (Part.respan r)
  | .int .. | .string .. | .bool .. | .unknown _ => rfl
  | .ident x => by
    rw [Exp.respan, exp, exp, ident_respan]
    exact Outcome.map_respan fun _ => rfl
  | .access i k loc f => by
    rw [Exp.respan, exp, exp, exp_respan loc, ident_respan]
    refine Outcome.andThen_respan (fun _ => rfl) fun p => Outcome.andThen_respan (fun _ => rfl) ?_
    exact fun x => congrArg Outcome.pure (record_respan (.access i k p.exp x.1) x.2)
  | .assign i l e => by
    rw [Exp.respan, exp, exp, exp_respan l, exp_respan e]
    refine Outcome.andThen_respan (fun _ => rfl) fun p => Outcome.andThen_respan (fun _ => rfl) ?_
    intro q
    rw [← conclude_respan, assign, ← pair_respan]
    rfl
  | .call i f s args => by
    rw [Exp.respan, exp, exp, ident_respan, exps_respan args]
    refine Outcome.andThen_respan (fun _ => rfl) fun x => ?_
    refine Outcome.andThen_respan (fun ps => ?_) fun ps => ?_
    · rw [exps_of_respan]
      rfl
    · rw [← conclude_respan, ← call_respan, exps_of_respan]
      rfl
  | .neg i e | .not i e => by
    rw [Exp.respan, exp, exp, exp_respan e]
    refine Outcome.andThen_respan (fun _ => rfl) fun p => ?_
    rw [← conclude_respan, ← uniform_respan]
    rfl
  | .binary i op a b => by
    have ha := exp_respan a
    have hb := exp_respan b
    cases op with
    | other => rfl
    | _ =>
      rw [Exp.respan, exp, exp, ha, hb]
      · refine Outcome.andThen_respan (fun _ => rfl) fun p =>
          Outcome.andThen_respan (fun _ => rfl) fun q => ?_
        rw [← conclude_respan, ← binary_respan]
        rfl
      all_goals nofun

theorem exps_respan : ∀ es : List Exp,
    exps (Exp.listRespan r es) = (exps es).respan r (List.map (Part.respan r))
  | [] => rfl
  | e :: es => by
    rw [Exp.listRespan, exps, exps, exp_respan e, exps_respan es]
    refine Outcome.andThen_respan (fun p => ?_) fun _ => Outcome.map_respan fun _ => rfl
    rw [unchecked_respan]
    rfl

end

/-! ## Statements -/

theorem operand_respan (e : Exp) {complain : Part → List Report}
    (h : ∀ p, complain (p.respan r) = (complain p).map (Report.respan r)) :
    operand (e.respan r) complain = (operand e complain).respan r (Exp.respan r) := by
  rw [operand, operand, exp_respan]
  refine Outcome.andThen_respan (fun _ => rfl) fun p => ?_
  rw [h]
  rfl

mutual

theorem stmt_respan (ret : Ty) : ∀ s : Stmt,
    stmt ret (s.respan r) = (stmt ret s).respan r (Stmt.respan r)
  | .assign _ e | .call _ e => by
    rw [Stmt.respan, stmt, stmt, operand_respan e fun _ => rfl]
    exact Outcome.map_respan fun _ => rfl
  | .increment _ e | .decrement _ e => by
    rw [Stmt.respan, stmt, stmt, operand_respan e (want_respan _ _)]
    exact Outcome.map_respan fun _ => rfl
  | .read _ e | .write _ e => by
    rw [Stmt.respan, stmt, stmt, operand_respan e fun p => reportIf_respan _ p.exp]
    exact Outcome.map_respan fun _ => rfl
  | .return _ (some e) => by
    rw [Stmt.respan, stmt, stmt, operand_respan e (returned_respan ret)]
    exact Outcome.map_respan fun _ => rfl
  | .return s none => by
    rw [Stmt.respan, stmt, stmt]
    split
    · rfl
    · exact congrArg (Outcome.reporting _ [·]) (TypeCause.reportAt_respan _ s).symm
  | .unknown _ => rfl
  | .ifThen _ e b | .while _ e b => by
    rw [Stmt.respan, stmt, stmt, operand_respan e (want_respan _ _), block_respan ret b]
    exact Outcome.andThen_respan (fun _ => rfl) fun _ => Outcome.map_respan fun _ => rfl
  | .ifElse _ e b₁ b₂ => by
    rw [Stmt.respan, stmt, stmt, operand_respan e (want_respan _ _), block_respan ret b₁,
      block_respan ret b₂]
    exact Outcome.andThen_respan (fun _ => rfl) fun _ =>
      Outcome.andThen_respan (fun _ => rfl) fun _ => Outcome.map_respan fun _ => rfl

theorem block_respan (ret : Ty) : ∀ b : Block Stmt,
    block ret (Stmt.blockRespan r b) = (block ret b).respan r (Stmt.blockRespan r)
  | ⟨_, _, ss⟩ => by
    rw [Stmt.blockRespan, block, block, stmts_respan ret ss]
    exact Outcome.map_respan fun _ => rfl

theorem stmts_respan (ret : Ty) : ∀ ss : List Stmt,
    stmts ret (Stmt.listRespan r ss) = (stmts ret ss).respan r (Stmt.listRespan r)
  | [] => rfl
  | s :: ss => by
    rw [Stmt.listRespan, stmts, stmts, stmt_respan ret s, stmts_respan ret ss]
    exact Outcome.andThen_respan (fun _ => rfl) fun _ => Outcome.map_respan fun _ => rfl

end

/-! ## Declarations -/

theorem fnDecl_respan (d : FnDecl) :
    fnDecl (d.respan r) = (fnDecl d).respan r (FnDecl.respan r) := by
  have htype : (d.respan r).returns.type = _ := TypeNode.type_respan d.returns
  have hblock := fun ret => block_respan (r := r) ret d.body
  unfold fnDecl
  rw [htype]
  cases d.returns.type with
  | error fault => rfl
  | ok returns => exact (congrArg _ (hblock returns)).trans (Outcome.map_respan fun _ => rfl)

theorem decl_respan (d : Decl) : decl (d.respan r) = (decl d).respan r (Decl.respan r) := by
  cases d with
  | fn d =>
    rw [Decl.respan, decl, decl, fnDecl_respan]
    exact Outcome.map_respan fun _ => rfl
  | var | struct | unknown => rfl

theorem decls_respan (ds : List Decl) :
    decls (ds.map (Decl.respan r)) = (decls ds).respan r (List.map (Decl.respan r)) := by
  induction ds with
  | nil => rfl
  | cons d ds ih =>
    rw [List.map_cons, decls, decls, decl_respan, ih]
    exact Outcome.andThen_respan (fun _ => rfl) fun _ => Outcome.map_respan fun _ => rfl

end Check

end CMinusMinus
