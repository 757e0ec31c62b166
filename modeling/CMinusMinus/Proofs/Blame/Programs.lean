import Mathlib
import CMinusMinus.Proofs.Blame.Checking
import CMinusMinus.Proofs.Places.Stretches
import CMinusMinus.Proofs.Reporting.Answers

/-!
# No error is swallowed

In the bodies of all functions, every expression has a type recorded, and each one of the error type
has an error of name resolution or type checking at one of its tokens
(`Compilation.errors_accounted`).
-/

namespace CMinusMinus

open Outcome

/-! ## Expressions of statements -/

mutual

/-- The expressions that stand in a statement, with those in its blocks. -/
def Stmt.allOperands : Stmt → List Exp
  | .assign _ e | .increment _ e | .decrement _ e | .read _ e | .write _ e | .call _ e
  | .return _ (some e) => [e]
  | .ifThen _ e b | .while _ e b => e :: Stmt.blockOperands b
  | .ifElse _ e b₁ b₂ => e :: (Stmt.blockOperands b₁ ++ Stmt.blockOperands b₂)
  | .return _ none | .unknown _ => []
termination_by structural s => s

/-- The expressions that stand in the statements of a block. -/
def Stmt.blockOperands : Block Stmt → List Exp
  | ⟨_, _, ss⟩ => Stmt.listOperands ss
termination_by structural b => b

/-- The expressions that stand in statements. -/
def Stmt.listOperands : List Stmt → List Exp
  | [] => []
  | s :: ss => s.allOperands ++ Stmt.listOperands ss
termination_by structural ss => ss

end

variable {rs : List Report}

namespace Resolve

mutual

theorem answered_stmt {env : Env} (henv : env.Errorless) (frame : Frame) : ∀ {s : Stmt}, s.Formed →
    (stmt env frame s).fault = none → (stmt env frame s).reports ⊆ rs →
      ∀ e ∈ (stmt env frame s).value.1.allOperands, e.Answered rs
  | .assign _ e, _, h, hrs | .increment _ e, _, h, hrs | .decrement _ e, _, h, hrs
  | .read _ e, _, h, hrs | .write _ e, _, h, hrs | .call _ e, _, h, hrs
  | .return _ (some e), _, h, hrs =>
    List.forall_mem_singleton.mpr (answered_exp henv (e := e) h hrs)
  | .ifThen _ e b, hformed, h, hrs | .while _ e b, hformed, h, hrs => by
    rw [stmt] at h hrs ⊢
    obtain ⟨he, hb⟩ := fault_andThen.mp h
    obtain ⟨hre, hrb⟩ := reports_subset he hrs
    rw [value_andThen he, value_map]
    exact List.forall_mem_cons.mpr ⟨answered_exp henv he hre,
      answered_block henv.enter frame hformed.2 hb hrb⟩
  | .ifElse _ e b₁ b₂, hformed, h, hrs => by
    rw [stmt] at h hrs ⊢
    obtain ⟨he, hb⟩ := fault_andThen.mp h
    obtain ⟨hre, hrs⟩ := reports_subset he hrs
    obtain ⟨hyes, hno⟩ := fault_andThen.mp hb
    obtain ⟨hryes, hrno⟩ := reports_subset hyes hrs
    rw [value_andThen he, value_andThen hyes, value_map]
    exact List.forall_mem_cons.mpr ⟨answered_exp henv he hre, List.forall_mem_append.mpr
      ⟨answered_block henv.enter frame hformed.2.1 hyes hryes,
        answered_block henv.enter _ hformed.2.2 hno hrno⟩⟩
  | .return _ none, _, _, _ => List.forall_mem_nil _
  | .unknown _, _, h, _ => by cases h

theorem answered_block {env : Env} (henv : env.Errorless) (frame : Frame) : ∀ {b : Block Stmt},
    Stmt.BlockFormed b → (block env frame b).fault = none → (block env frame b).reports ⊆ rs →
      ∀ e ∈ Stmt.blockOperands (block env frame b).value.1, e.Answered rs
  | ⟨ds, _, ss⟩, hformed, h, hrs => by
    rw [block] at h hrs ⊢
    obtain ⟨hds, hss⟩ := fault_andThen.mp h
    obtain ⟨-, hrss⟩ := reports_subset hds hrs
    rw [value_andThen hds, value_map]
    exact answered_stmts (errorless_localVars henv hds) _ hformed.2 hss hrss

theorem answered_stmts {env : Env} (henv : env.Errorless) (frame : Frame) : ∀ {ss : List Stmt},
    Stmt.AllFormed ss → (stmts env frame ss).fault = none → (stmts env frame ss).reports ⊆ rs →
      ∀ e ∈ Stmt.listOperands (stmts env frame ss).value.1, e.Answered rs
  | [], _, _, _ => List.forall_mem_nil _
  | s :: ss, hformed, h, hrs => by
    rw [stmts] at h hrs ⊢
    obtain ⟨hs, hss⟩ := fault_andThen.mp h
    obtain ⟨hr, hrs⟩ := reports_subset hs hrs
    rw [value_andThen hs, value_map]
    exact List.forall_mem_append.mpr ⟨answered_stmt henv frame hformed.1 hs hr,
      answered_stmts henv _ hformed.2 hss hrs⟩

end

end Resolve

namespace Check

theorem accounted_operand {e : Exp} (hanswered : e.Answered rs) {complain : Part → List Report}
    (h : (operand e complain).fault = none) (hrs : (operand e complain).reports ⊆ rs) :
    (operand e complain).value.Accounted rs := by
  have he := fault_operand.mp h
  rw [operand] at hrs ⊢
  rw [value_andThen he]
  exact accounted_exp hanswered he (Resolve.reports_subset he hrs).1

mutual

theorem accounted_stmt (returns : Ty) : ∀ {s : Stmt}, (∀ e ∈ s.allOperands, e.Answered rs) →
    (stmt returns s).fault = none → (stmt returns s).reports ⊆ rs →
      ∀ e ∈ (stmt returns s).value.allOperands, e.Accounted rs
  | .assign _ e, hanswered, h, hrs | .increment _ e, hanswered, h, hrs
  | .decrement _ e, hanswered, h, hrs | .read _ e, hanswered, h, hrs
  | .write _ e, hanswered, h, hrs | .call _ e, hanswered, h, hrs
  | .return _ (some e), hanswered, h, hrs =>
    List.forall_mem_singleton.mpr
      (accounted_operand (List.forall_mem_singleton.mp hanswered) h hrs)
  | .ifThen _ e b, hanswered, h, hrs | .while _ e b, hanswered, h, hrs => by
    obtain ⟨hanswered, hanswered'⟩ := List.forall_mem_cons.mp hanswered
    rw [stmt] at h hrs ⊢
    obtain ⟨he, hb⟩ := fault_andThen.mp h
    obtain ⟨hre, hrb⟩ := Resolve.reports_subset he hrs
    rw [value_andThen he, value_map]
    exact List.forall_mem_cons.mpr ⟨accounted_operand hanswered he hre,
      accounted_block returns hanswered' hb hrb⟩
  | .ifElse _ e b₁ b₂, hanswered, h, hrs => by
    obtain ⟨hanswered, hanswered'⟩ := List.forall_mem_cons.mp hanswered
    obtain ⟨hyesAnswered, hnoAnswered⟩ := List.forall_mem_append.mp hanswered'
    rw [stmt] at h hrs ⊢
    obtain ⟨he, hb⟩ := fault_andThen.mp h
    obtain ⟨hre, hrs⟩ := Resolve.reports_subset he hrs
    obtain ⟨hyes, hno⟩ := fault_andThen.mp hb
    obtain ⟨hryes, hrno⟩ := Resolve.reports_subset hyes hrs
    rw [value_andThen he, value_andThen hyes, value_map]
    exact List.forall_mem_cons.mpr ⟨accounted_operand hanswered he hre, List.forall_mem_append.mpr
      ⟨accounted_block returns hyesAnswered hyes hryes,
        accounted_block returns hnoAnswered hno hrno⟩⟩
  | .return _ none, _, _, _ => List.forall_mem_nil _
  | .unknown _, _, h, _ => by cases h

theorem accounted_block (returns : Ty) : ∀ {b : Block Stmt},
    (∀ e ∈ Stmt.blockOperands b, e.Answered rs) → (block returns b).fault = none →
      (block returns b).reports ⊆ rs →
      ∀ e ∈ Stmt.blockOperands (block returns b).value, e.Accounted rs
  | ⟨_, _, _⟩, hanswered, h, hrs => by
    rw [block] at h hrs ⊢
    exact accounted_stmts returns hanswered h hrs

theorem accounted_stmts (returns : Ty) : ∀ {ss : List Stmt},
    (∀ e ∈ Stmt.listOperands ss, e.Answered rs) → (stmts returns ss).fault = none →
      (stmts returns ss).reports ⊆ rs →
      ∀ e ∈ Stmt.listOperands (stmts returns ss).value, e.Accounted rs
  | [], _, _, _ => List.forall_mem_nil _
  | s :: ss, hanswered, h, hrs => by
    obtain ⟨hanswered, hanswered'⟩ := List.forall_mem_append.mp hanswered
    rw [stmts] at h hrs ⊢
    obtain ⟨hs, hss⟩ := fault_andThen.mp h
    obtain ⟨hr, hrs⟩ := Resolve.reports_subset hs hrs
    rw [value_andThen hs, value_map]
    exact List.forall_mem_append.mpr ⟨accounted_stmt returns hanswered hs hr,
      accounted_stmts returns hanswered' hss hrs⟩

end

end Check

/-! ## Declarations -/

/-- The expressions that stand in the body of a function. -/
def Decl.operands : Decl → List Exp
  | .fn d => Stmt.blockOperands d.body
  | .var _ | .struct _ | .unknown _ => []

/-- The expressions of a declaration are accounted for, if all is kept that the passes report of
it. -/
theorem accounted_decl {env : Env} (henv : env.Errorless) : ∀ {d : Decl}, d.Formed →
    (Resolve.decl env d).fault = none → (Resolve.decl env d).reports ⊆ rs →
      (Check.decl (Resolve.decl env d).value.1).reports ⊆ rs →
      ∀ e ∈ (Check.decl (Resolve.decl env d).value.1).value.operands, e.Accounted rs
  | .var d, h, _, _, _ => by
    rw [Decl.Formed] at h
    rw [Resolve.decl, h.role]
    exact List.forall_mem_nil _
  | .struct d, _, _, _, _ => List.forall_mem_nil _
  | .fn d, h, hfault, hr, hc => by
    rw [Decl.Formed] at h
    obtain ⟨returns, hreturns, hword⟩ := TypeNode.type_of_isWordType h.returns
    rw [Resolve.decl, fault_map] at hfault
    obtain ⟨hbody, hvalue⟩ := Resolve.fnDecl_of_formed h hreturns hfault
    have hknown := henv.name d.name
      (s := .function (Resolve.signature d returns))
      (show returns ≠ .error by rcases hword with rfl | rfl | rfl <;> decide)
    rw [Resolve.decl, value_map, hvalue, Check.decl, reports_map] at hc
    rw [Resolve.decl, reports_map, Resolve.fnDecl, hreturns] at hr
    rw [Resolve.fnDecl, hreturns] at hfault
    obtain ⟨hname, hfault⟩ := fault_andThen.mp hfault
    obtain ⟨-, hr⟩ := Resolve.reports_subset hname hr
    obtain ⟨hformals, hfault⟩ := fault_andThen.mp hfault
    obtain ⟨-, hr⟩ := Resolve.reports_subset hformals hr
    obtain ⟨hr, -⟩ := Resolve.reports_subset hbody hr
    have henter := Resolve.errorless_formals hknown.enter {} fun f hf =>
      TypeNode.formed_of_isWordType (h.formals f hf).type
    have hanswered := Resolve.answered_block henter _ h.body hbody hr
    rw [Resolve.decl, value_map, hvalue, Check.decl, value_map]
    simp only [Check.fnDecl, hreturns, reports_map, value_map, Decl.operands] at hc ⊢
    exact Check.accounted_block returns hanswered (h.body.checked returns hbody) hc

theorem accounted_decls {env : Env} (henv : env.Errorless) {ds : List Decl}
    (h : ∀ d ∈ ds, d.Formed) (hfault : (Resolve.decls env ds).fault = none)
    (hr : (Resolve.decls env ds).reports ⊆ rs)
    (hc : (Check.decls (Resolve.decls env ds).value.1).reports ⊆ rs) :
    ∀ d ∈ (Check.decls (Resolve.decls env ds).value.1).value, ∀ e ∈ d.operands, e.Accounted rs := by
  induction ds generalizing env with
  | nil => exact List.forall_mem_nil _
  | cons d ds ih =>
    obtain ⟨hd, hds⟩ := List.forall_mem_cons.mp h
    rw [Resolve.decls, fault_andThen, fault_map] at hfault
    obtain ⟨hresolve, hrest⟩ := hfault
    have hcheck := hd.checked hresolve
    rw [Resolve.decls] at hr
    obtain ⟨hrd, hrds⟩ := Resolve.reports_subset hresolve hr
    rw [Resolve.decls, value_andThen hresolve, value_map, Check.decls] at hc ⊢
    obtain ⟨hcd, hcds⟩ := Resolve.reports_subset hcheck hc
    rw [value_andThen hcheck, value_map]
    exact List.forall_mem_cons.mpr ⟨accounted_decl henv hd hresolve hrd hcd,
      ih (Resolve.errorless_decl henv hd hresolve) hds hrest hrds hcds⟩

/-! ## Tokens -/

mutual

theorem Exp.leaves_of_mem_nodes : ∀ {e n : Exp}, n ∈ e.nodes → n.leaves ⊆ e.leaves
  | .int .., _, h | .string .., _, h | .bool .., _, h | .ident _, _, h | .unknown _, _, h => by
    cases List.mem_singleton.mp h
    exact List.Subset.refl _
  | .access i k loc f, n, h => by
    rcases List.mem_cons.mp h with rfl | h
    · exact List.Subset.refl _
    · exact List.Subset.trans (leaves_of_mem_nodes h) (List.subset_append_left _ _)
  | .assign i l r, n, h => by
    rcases List.mem_cons.mp h with rfl | h
    · exact List.Subset.refl _
    · rcases List.mem_append.mp h with h | h
      · exact List.Subset.trans (leaves_of_mem_nodes h) (List.subset_append_left _ _)
      · exact List.Subset.trans (leaves_of_mem_nodes h) (List.subset_append_right _ _)
  | .binary i op l r, n, h => by
    rcases List.mem_cons.mp h with rfl | h
    · exact List.Subset.refl _
    · rcases List.mem_append.mp h with h | h
      · exact List.Subset.trans (leaves_of_mem_nodes h) (List.subset_append_left _ _)
      · exact List.Subset.trans (leaves_of_mem_nodes h) (List.subset_append_right _ _)
  | .call i f s args, n, h => by
    rcases List.mem_cons.mp h with rfl | h
    · exact List.Subset.refl _
    · rcases List.mem_cons.mp h with rfl | h
      · exact List.cons_subset_cons _ (List.nil_subset _)
      · exact List.Subset.trans (leaves_of_mem_listNodes h) (List.subset_cons_self _ _)
  | .neg i e, n, h | .not i e, n, h => by
    rcases List.mem_cons.mp h with rfl | h
    · exact List.Subset.refl _
    · exact leaves_of_mem_nodes (e := e) h

theorem Exp.leaves_of_mem_listNodes : ∀ {es : List Exp} {n : Exp}, n ∈ Exp.listNodes es →
    n.leaves ⊆ Exp.listLeaves es
  | [], _, h => by cases h
  | e :: es, n, h => by
    rcases List.mem_append.mp h with h | h
    · exact List.Subset.trans (leaves_of_mem_nodes h) (List.subset_append_left _ _)
    · exact List.Subset.trans (leaves_of_mem_listNodes h) (List.subset_append_right _ _)

end

mutual

theorem Stmt.leaves_of_mem_allOperands : ∀ {s : Stmt} {e : Exp}, e ∈ s.allOperands →
    e.leaves ⊆ s.leaves
  | .assign _ _, _, h | .increment _ _, _, h | .decrement _ _, _, h | .read _ _, _, h
  | .write _ _, _, h | .call _ _, _, h | .return _ (some _), _, h => by
    cases List.mem_singleton.mp h
    exact List.Subset.refl _
  | .ifThen _ _ b, _, h | .while _ _ b, _, h => by
    rcases List.mem_cons.mp h with rfl | h
    · exact List.subset_append_left _ _
    · exact List.Subset.trans (leaves_of_mem_blockOperands h) (List.subset_append_right _ _)
  | .ifElse _ _ b₁ b₂, _, h => by
    rcases List.mem_cons.mp h with rfl | h
    · exact List.subset_append_left _ _
    · refine List.Subset.trans ?_ (List.subset_append_right _ _)
      rcases List.mem_append.mp h with h | h
      · exact List.Subset.trans (leaves_of_mem_blockOperands h) (List.subset_append_left _ _)
      · exact List.Subset.trans (leaves_of_mem_blockOperands h) (List.subset_append_right _ _)
  | .return _ none, _, h | .unknown _, _, h => by cases h

theorem Stmt.leaves_of_mem_blockOperands : ∀ {b : Block Stmt} {e : Exp},
    e ∈ Stmt.blockOperands b → e.leaves ⊆ Stmt.blockLeaves b
  | ⟨_, _, _⟩, _, h =>
    List.Subset.trans (leaves_of_mem_listOperands h) (List.subset_append_right _ _)

theorem Stmt.leaves_of_mem_listOperands : ∀ {ss : List Stmt} {e : Exp},
    e ∈ Stmt.listOperands ss → e.leaves ⊆ Stmt.listLeaves ss
  | [], _, h => by cases h
  | s :: ss, _, h => by
    rcases List.mem_append.mp h with h | h
    · exact List.Subset.trans (leaves_of_mem_allOperands h) (List.subset_append_left _ _)
    · exact List.Subset.trans (leaves_of_mem_listOperands h) (List.subset_append_right _ _)

end

/-- The names and literals in the body of a function stand where they were read. -/
theorem leaves_operands (env : Env) : ∀ {d : Decl} {e : Exp},
    e ∈ (Check.decl (Resolve.decl env d).value.1).value.operands → e.leaves ⊆ d.leaves
  | .var d, e, h => by
    rw [Resolve.decl] at h
    split at h <;> cases h
  | .struct _, _, h | .unknown _, _, h => by cases h
  | .fn d, e, h => by
    have hbody : Stmt.blockLeaves (Check.fnDecl (Resolve.fnDecl env d).value.1).value.body =
        Stmt.blockLeaves d.body := by
      rw [← Resolve.leaves_fnDecl env d, Check.fnDecl]
      split
      · rfl
      · rw [value_map, Check.leaves_block]
    have hsubset := Stmt.leaves_of_mem_blockOperands h
    rw [hbody] at hsubset
    exact List.Subset.trans hsubset (List.subset_cons_of_subset _ (List.subset_append_right _ _))

theorem leaves_decls {env : Env} {ds : List Decl} (h : ∀ d ∈ ds, d.Formed)
    (hfault : (Resolve.decls env ds).fault = none) {d' : Decl}
    (hd' : d' ∈ (Check.decls (Resolve.decls env ds).value.1).value) {e : Exp}
    (he : e ∈ d'.operands) : ∃ d ∈ ds, e.leaves ⊆ d.leaves := by
  induction ds generalizing env with
  | nil => cases hd'
  | cons d ds ih =>
    obtain ⟨hd, hds⟩ := List.forall_mem_cons.mp h
    rw [Resolve.decls, fault_andThen, fault_map] at hfault
    obtain ⟨hresolve, hrest⟩ := hfault
    rw [Resolve.decls, value_andThen hresolve, value_map, Check.decls,
      value_andThen (hd.checked hresolve), value_map] at hd'
    rcases List.mem_cons.mp hd' with rfl | hd'
    · exact ⟨d, List.mem_cons_self, leaves_operands env he⟩
    · obtain ⟨d, hd, hle⟩ := ih hds hrest hd'
      exact ⟨d, List.mem_cons_of_mem _ hd, hle⟩

/-- The names and literals of a program are tokens of its text. -/
theorem Program.extents_of_parse {file : Option String} {source : String} {p : Program}
    (h : Program.parse file source = .ok p) : ∃ tokens, Token.scan source = .ok tokens ∧
      ∀ d ∈ p.decls, ∀ s ∈ d.leaves, ∃ t ∈ tokens, s = some t.extent := by
  obtain ⟨tokens, tss, hscan, hsublist, htss⟩ := exists_stretches h
  refine ⟨tokens, hscan, fun d hd s hs => ?_⟩
  obtain ⟨ts, hts, hreads⟩ := htss.exists_reads hd
  obtain ⟨t, ht, -, rfl⟩ := hreads.covers.leaves.exists_token hs
  exact ⟨t, hsublist.subset (List.mem_flatten_of_mem hts ht), rfl⟩

namespace Compilation

/-- Type checking leaves the tree that was read, with a type recorded of every expression in the
body of a function, names of functions and fields included.  Each expression of the error type,
names of fields apart, has an error of name resolution or type checking at one of its tokens. -/
theorem errors_accounted {file : Option String} {source : String} {p : Program} {c : Compilation}
    (h : Program.parse file source = .ok p) (hc : analyze file source = .ok c) :
    ∃ q tokens, c.program = some q ∧ q.form = p.form ∧
      Token.scan source = .ok tokens ∧ ∀ d ∈ q.functions, ∀ e ∈ Stmt.blockOperands d.body,
        (∀ f ∈ e.fieldNames, ∃ t, f.info.type = some t) ∧
        ∀ n ∈ e.nodes, ∃ t, n.info.type = some t ∧ (t = .error →
          ∃ token ∈ tokens, some token.extent ∈ n.leaves ∧ ∃ r ∈ c.diagnostics,
            (r.ErrorOf .res ∨ r.ErrorOf .typ) ∧ r.locus = .ofSpan? (some token.extent)) := by
  obtain ⟨hfault, rfl⟩ := analysis_of_parse h hc
  have hformed := Program.parse_formed h
  obtain ⟨tokens, hscan, htokens⟩ := Program.extents_of_parse h
  have hresolve := Program.fault_resolve.symm.trans hfault
  have hcheck := checked_decls hformed hresolve
  have hvalue : (p.resolve.program.check p.resolve.hasMain).value.decls =
      (Check.decls (Resolve.decls (Scopes.enter []) p.decls).value.1).value := by
    rw [Program.check, value_andThen (by exact hcheck)]
    rfl
  have hreports : (Check.decls (Resolve.decls (Scopes.enter []) p.decls).value.1).reports ⊆
      (p.resolve.program.check p.resolve.hasMain).reports :=
    (Resolve.reports_subset (o := Check.decls p.resolve.program.decls) hcheck
      (List.Subset.refl _)).1
  have hempty : Env.Errorless (Scopes.enter []) :=
    List.forall_mem_singleton.mpr (List.forall_mem_nil _)
  have haccounted := accounted_decls hempty hformed hresolve
    (List.subset_append_left p.resolve.reports _)
    (List.Subset.trans hreports (List.subset_append_right p.resolve.reports _))
  rw [← hvalue] at haccounted
  have hanswers := answers_analysis file p
  refine ⟨_, tokens, rfl, Program.form_check p _, hscan, fun d hd e he => ?_⟩
  obtain ⟨d', hd', hfn⟩ := List.mem_filterMap.mp hd
  cases d' with
  | fn d' =>
    cases hfn
    have hmem := haccounted _ hd' e he
    refine ⟨hmem.fields, fun n hn => ?_⟩
    obtain ⟨t, ht, hblamed⟩ := hmem.nodes n hn
    refine ⟨t, ht, fun herror => ?_⟩
    obtain ⟨r, hr, s, hs, hlocus⟩ := hblamed herror
    rw [hvalue] at hd'
    obtain ⟨d₀, hd₀, hle⟩ := leaves_decls hformed hresolve hd' he
    obtain ⟨token, htoken, rfl⟩ := htokens d₀ hd₀ s (hle (Exp.leaves_of_mem_nodes hn hs))
    have hdiagnostic : Diagnostic.ofReport file r ∈ (analysis file p).diagnostics :=
      List.mem_map_of_mem hr
    refine ⟨token, htoken, hs, _, hdiagnostic, ?_, hlocus⟩
    cases hanswers with
    | program hp hsplit hnames htypes =>
      rw [hsplit] at hdiagnostic
      exact (List.mem_append.mp hdiagnostic).imp (hnames _) (htypes _)
    | refused _ hrefuses => cases hrefuses.program
  | var | struct | unknown => cases hfn

set_option maxRecDepth 100000 in
/-- Errors that pass through chains of fields, calls and operators. -/
theorem errors_accounted_of_chains :
    ∃ p c q tokens, Program.parse none
        "struct s { int x; }; struct s g;
         void main() { int n; n = 1 + g.y.z * f(-h); if (n.x == !n) { g = g; cout << g(1); } }" =
          .ok p ∧
      analyze none
        "struct s { int x; }; struct s g;
         void main() { int n; n = 1 + g.y.z * f(-h); if (n.x == !n) { g = g; cout << g(1); } }" =
          .ok c ∧ c.program = some q ∧ q.form = p.form ∧
      Token.scan
        "struct s { int x; }; struct s g;
         void main() { int n; n = 1 + g.y.z * f(-h); if (n.x == !n) { g = g; cout << g(1); } }" =
          .ok tokens ∧ ∀ d ∈ q.functions, ∀ e ∈ Stmt.blockOperands d.body,
        (∀ f ∈ e.fieldNames, ∃ t, f.info.type = some t) ∧
        ∀ n ∈ e.nodes, ∃ t, n.info.type = some t ∧ (t = .error →
          ∃ token ∈ tokens, some token.extent ∈ n.leaves ∧ ∃ r ∈ c.diagnostics,
            (r.ErrorOf .res ∨ r.ErrorOf .typ) ∧ r.locus = .ofSpan? (some token.extent)) := by
  obtain ⟨p, hp, hfault⟩ : ∃ p, Program.parse none
      "struct s { int x; }; struct s g;
         void main() { int n; n = 1 + g.y.z * f(-h); if (n.x == !n) { g = g; cout << g(1); } }" =
        .ok p ∧ p.resolve.fault.isNone = true :=
    Program.exists_parse rfl (by decide +kernel)
  have hc := analyze_of_parse hp (Option.isNone_iff_eq_none.mp hfault)
  obtain ⟨q, tokens, haccounted⟩ := errors_accounted hp hc
  exact ⟨p, _, q, tokens, hp, hc, haccounted⟩

end Compilation

end CMinusMinus
