import CMinusMinus.Proofs.Blame.Programs
import CMinusMinus.Proofs.Rules.Contexts

/-!
# The types that are recorded

Type checking records at an expression the type that the expression has by the typing judgements,
if it has one (`Check.told_exp`).  So wherever an expression of a program that was checked is
typed, its type can be read off (`Program.told_check`).
-/

namespace CMinusMinus

open Outcome

/-- The type that the expression is typed with, whatever is in scope, is recorded at it. -/
def Exp.Tells (e : Exp) : Prop := ∀ ⦃env : Env⦄ ⦃t : Ty⦄, HasType env e t → e.info.type = some t

/-- The expression and those in it have their types recorded. -/
def Exp.Told (e : Exp) : Prop := ∀ n ∈ e.nodes, n.Tells

theorem Exp.Told.tells {e : Exp} (h : e.Told) : e.Tells := h e e.mem_nodes_self

namespace Check

/-! ## Expressions -/

/-- A name has the type of what it is bound to. -/
theorem type_ident {x : Ident} {s : Symbol} (hs : (ident x).value.1.binding = .bound s) :
    (ident x).value.2 = s.type := by
  have hkept : (ident x).value.1.binding = x.binding := by
    unfold ident
    split <;> rfl
  rw [ident_of_bound (hkept.symm.trans hs)]
  rfl

theorem tells_ident {x : Ident} (h : (ident x).fault = none) :
    (Exp.ident (ident x).value.1).Tells := by
  have htype := type_exp (e := .ident x) (by rwa [exp, fault_map])
  rw [exp, value_map] at htype
  intro env t ht
  refine htype.trans ?_
  show some (ident x).value.2 = _
  cases ht with
  | location hloc _ =>
    generalize hsh : Shape.scalar t = sh at hloc
    cases hloc with
    | ident _ hbound =>
      rw [type_ident hbound, Symbol.type, ← hsh]
      rfl

/-- The expression in a node and the node itself have their types recorded, if its rule gives it the
type that it is typed with. -/
theorem told_conclude {e : Exp} {v : Verdict} {ns : List Exp}
    (hnodes : (e.record v.1).nodes = e.record v.1 :: ns) (hns : ∀ n ∈ ns, n.Tells)
    (h : ∀ {env : Env} {t : Ty}, HasType env (e.record v.1) t → v.1 = t) :
    (conclude e v).value.exp.Told := by
  show ∀ n ∈ (e.record v.1).nodes, _
  rw [hnodes]
  refine List.forall_mem_cons.mpr ⟨fun env t ht => ?_, hns⟩
  rw [← h ht]
  cases e <;> rfl

/-- What was checked is of the type that it is typed with. -/
theorem eq_of_tells {e : Exp} (h : (exp e).fault = none) (htells : (exp e).value.exp.Tells)
    {env : Env} {t : Ty} (ht : HasType env (exp e).value.exp t) : (exp e).value.type = t :=
  Option.some.inj ((type_exp h).symm.trans (htells ht))

mutual

/-- An expression that was checked has its types recorded. -/
theorem told_exp : ∀ {e : Exp}, (exp e).fault = none → (exp e).value.exp.Told
  | .int .., _ | .string .., _ | .bool .., _ => by
    refine List.forall_mem_singleton.mpr fun env t ht => ?_
    cases ht with
    | location hloc _ => cases hloc.isLocation
    | _ => rfl
  | .unknown _, h => by cases h
  | .ident x, h => by
    rw [exp, fault_map] at h
    rw [exp, value_map]
    exact List.forall_mem_singleton.mpr (tells_ident h)
  | .access i k loc f, h => by
    have htype := type_exp h
    rw [exp] at h htype ⊢
    obtain ⟨hl, hf⟩ := fault_andThen.mp h
    have hfield := (fault_andThen.mp hf).1
    rw [value_andThen hl, value_andThen hfield] at htype ⊢
    refine List.forall_mem_cons.mpr ⟨fun env t ht => htype.trans ?_, told_exp hl⟩
    cases ht with
    | location hloc _ =>
      generalize hsh : Shape.scalar t = sh at hloc
      cases hloc with
      | access _ _ hbound =>
        show some (ident f).value.2 = _
        rw [type_ident hbound, Symbol.type]
        exact congrArg (some <| Shape.type ·) hsh.symm
  | .assign i l r, h => by
    rw [exp] at h ⊢
    obtain ⟨hl, hr⟩ := fault_andThen.mp h
    have hr := (fault_andThen.mp hr).1
    have hleft := told_exp hl
    have hright := told_exp hr
    rw [value_andThen hl, value_andThen hr]
    refine told_conclude rfl (List.forall_mem_append.mpr ⟨hleft, hright⟩) fun ht => ?_
    cases ht with
    | location hloc _ => cases hloc.isLocation
    | assign hlocated hword hvalue =>
      rw [assign, eq_of_tells hl hleft.tells (.location hlocated hword),
        eq_of_tells hr hright.tells hvalue]
      rw [pair_of_types (Ty.ne_error_of_isGiven hword.isGiven)]
      rcases hword with rfl | rfl <;> rfl
  | .call i f s args, h => by
    rw [exp] at h ⊢
    obtain ⟨hf, hargs⟩ := fault_andThen.mp h
    have hargs := (fault_andThen.mp hargs).1
    rw [value_andThen hf, value_andThen hargs]
    refine told_conclude rfl (List.forall_mem_cons.mpr ⟨tells_ident hf, told_exps hargs⟩)
      fun ht => ?_
    cases ht with
    | location hloc _ => cases hloc.isLocation
    | call _ hbound _ =>
      rw [call, hbound]
  | .neg i e, h => by
    rw [exp] at h ⊢
    have he := (fault_andThen.mp h).1
    have hoperand := told_exp he
    rw [value_andThen he]
    refine told_conclude rfl hoperand fun ht => ?_
    cases ht with
    | location hloc _ => cases hloc.isLocation
    | neg ht =>
      rw [uniform_of_types (List.forall_mem_singleton.mpr (eq_of_tells he hoperand.tells ht))]
  | .not i e, h => by
    rw [exp] at h ⊢
    have he := (fault_andThen.mp h).1
    have hoperand := told_exp he
    rw [value_andThen he]
    refine told_conclude rfl hoperand fun ht => ?_
    cases ht with
    | location hloc _ => cases hloc.isLocation
    | not ht =>
      rw [uniform_of_types (List.forall_mem_singleton.mpr (eq_of_tells he hoperand.tells ht))]
  | .binary i op l r, h => by
    by_cases hop : op ∈ BinOp.all
    · rw [exp_binary hop] at h ⊢
      obtain ⟨hl, hr⟩ := fault_andThen.mp h
      have hr := (fault_andThen.mp hr).1
      have hleft := told_exp hl
      have hright := told_exp hr
      rw [value_andThen hl, value_andThen hr]
      refine told_conclude rfl (List.forall_mem_append.mpr ⟨hleft, hright⟩) fun ht => ?_
      cases ht with
      | location hloc _ => cases hloc.isLocation
      | binary htypes hlt hrt =>
        rw [binary_of_types htypes (eq_of_tells hl hleft.tells hlt)
          (eq_of_tells hr hright.tells hrt)]
    · cases op with
      | other => cases h
      | _ => exact absurd (by decide) hop

theorem told_exps : ∀ {es : List Exp}, (exps es).fault = none →
    ∀ n ∈ Exp.listNodes ((exps es).value.map Part.exp), n.Tells
  | [], _ => List.forall_mem_nil _
  | e :: es, h => by
    rw [exps] at h ⊢
    obtain ⟨he, hes⟩ := fault_andThen.mp h
    rw [fault_map] at hes
    rw [value_andThen he, value_map]
    exact List.forall_mem_append.mpr ⟨told_exp he, told_exps hes⟩

end

/-! ## Statements -/

theorem told_operand {e : Exp} {complain : Part → List Report}
    (h : (operand e complain).fault = none) : (operand e complain).value.Told := by
  rw [value_operand]
  exact told_exp (fault_operand.mp h)

mutual

theorem told_stmt (returns : Ty) : ∀ {s : Stmt}, (stmt returns s).fault = none →
    ∀ e ∈ (stmt returns s).value.allOperands, e.Told
  | .assign _ e, h | .increment _ e, h | .decrement _ e, h | .read _ e, h | .write _ e, h
  | .call _ e, h | .return _ (some e), h => List.forall_mem_singleton.mpr (told_operand h)
  | .ifThen _ e b, h | .while _ e b, h => by
    rw [stmt] at h ⊢
    obtain ⟨he, hb⟩ := fault_andThen.mp h
    rw [value_andThen he, value_map]
    exact List.forall_mem_cons.mpr ⟨told_operand he, told_block returns hb⟩
  | .ifElse _ e b₁ b₂, h => by
    rw [stmt] at h ⊢
    obtain ⟨he, hb⟩ := fault_andThen.mp h
    obtain ⟨hyes, hno⟩ := fault_andThen.mp hb
    rw [value_andThen he, value_andThen hyes, value_map]
    exact List.forall_mem_cons.mpr ⟨told_operand he,
      List.forall_mem_append.mpr ⟨told_block returns hyes, told_block returns hno⟩⟩
  | .return _ none, _ => List.forall_mem_nil _
  | .unknown _, h => by cases h

theorem told_block (returns : Ty) : ∀ {b : Block Stmt}, (block returns b).fault = none →
    ∀ e ∈ Stmt.blockOperands (block returns b).value, e.Told
  | ⟨_, _, _⟩, h => by
    rw [block] at h ⊢
    exact told_stmts returns h

theorem told_stmts (returns : Ty) : ∀ {ss : List Stmt}, (stmts returns ss).fault = none →
    ∀ e ∈ Stmt.listOperands (stmts returns ss).value, e.Told
  | [], _ => List.forall_mem_nil _
  | s :: ss, h => by
    rw [stmts] at h ⊢
    obtain ⟨hs, hss⟩ := fault_andThen.mp h
    rw [value_andThen hs, value_map]
    exact List.forall_mem_append.mpr ⟨told_stmt returns hs, told_stmts returns hss⟩

end

/-! ## Declarations -/

theorem told_decl : ∀ {d : Decl}, (decl d).fault = none → ∀ e ∈ (decl d).value.operands, e.Told
  | .var _, _ | .struct _, _ | .unknown _, _ => List.forall_mem_nil _
  | .fn d, h => by
    rw [decl, fault_map] at h
    rw [decl, value_map, Decl.operands]
    unfold fnDecl at h ⊢
    split at h
    · cases h
    · next returns hreturns => exact told_block returns h

theorem told_decls : ∀ {ds : List Decl}, (decls ds).fault = none →
    ∀ d ∈ (decls ds).value, ∀ e ∈ d.operands, e.Told
  | [], _ => List.forall_mem_nil _
  | d :: ds, h => by
    rw [decls] at h ⊢
    obtain ⟨hd, hds⟩ := fault_andThen.mp h
    rw [value_andThen hd, value_map]
    exact List.forall_mem_cons.mpr ⟨told_decl hd, told_decls hds⟩

end Check

/-- The expressions in the functions of a program that was checked have their types recorded. -/
theorem Program.told_check {p : Program} {hasMain : Bool} (h : (p.check hasMain).fault = none) :
    ∀ d ∈ Decl.functions (p.check hasMain).value.decls, ∀ e ∈ Stmt.blockOperands d.body,
      e.Told := by
  rw [check] at h ⊢
  have hdecls := (fault_andThen.mp h).1
  rw [value_andThen hdecls]
  intro d hd
  obtain ⟨d', hd', hfn⟩ := List.mem_filterMap.mp hd
  cases d' with
  | fn d' =>
    cases hfn
    exact Check.told_decls hdecls _ hd'
  | _ => cases hfn

end CMinusMinus
