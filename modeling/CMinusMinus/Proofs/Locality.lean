import CMinusMinus.Proofs.Rules.Programs
import CMinusMinus.Proofs.Spans.Checking
import CMinusMinus.Proofs.Spans.Resolving

/-!
# Declarations one by one

The passes take the declarations of a program one by one.  What name resolution makes of one depends
on those before it through the scopes that they leave, and a function leaves nothing of its body
there (`Resolve.scopes_fnDecl`).  So programs that differ in the body of one function only have the
same outcomes for every other declaration (`Resolve.outcomes_apart`).
-/

namespace CMinusMinus

open Outcome

/-! ## Name resolution -/

namespace Resolve

/-- What name resolution leaves of each declaration, in the scopes that those before it leave. -/
def outcomes (env : Env) : List Decl → List (Resolved (Decl × Env))
  | [] => []
  | d :: ds =>
    let o := decl env d
    o :: outcomes o.value.2 ds

/-- The scopes that declarations leave. -/
def scopes (env : Env) (ds : List Decl) : Env := ds.foldl (fun env d => (decl env d).value.2) env

/-- Name resolution that comes to its end takes declarations one by one. -/
theorem decls_eq {env : Env} {ds : List Decl} (h : (decls env ds).fault = none) :
    (decls env ds).value.1 = (outcomes env ds).map (·.value.1) ∧
      (decls env ds).value.2.1 = scopes env ds ∧
      (decls env ds).reports = ((outcomes env ds).map (·.reports)).flatten := by
  induction ds generalizing env with
  | nil => exact ⟨rfl, rfl, rfl⟩
  | cons d ds ih =>
    rw [decls, fault_andThen, fault_map] at h
    obtain ⟨hd, hds⟩ := h
    obtain ⟨hvalue, hscopes, hreports⟩ := ih hds
    rw [decls, andThen_of_fault_none hd]
    refine ⟨congrArg _ hvalue, hscopes, congrArg _ hreports⟩

theorem fault_decls_iff (env : Env) (ds : List Decl) :
    (decls env ds).fault = none ↔ ∀ o ∈ outcomes env ds, o.fault = none := by
  induction ds generalizing env with
  | nil => exact iff_of_true rfl (List.forall_mem_nil _)
  | cons d ds ih =>
    rw [decls, fault_andThen, fault_map, outcomes, List.forall_mem_cons]
    exact and_congr_right fun _ => ih _

theorem length_outcomes (env : Env) (ds : List Decl) : (outcomes env ds).length = ds.length := by
  induction ds generalizing env with
  | nil => rfl
  | cons d ds ih => exact congrArg Nat.succ (ih _)

/-- Each outcome is that of a declaration in some scopes. -/
theorem exists_of_outcomes {env : Env} {ds : List Decl} {i : Nat} {o : Resolved (Decl × Env)}
    (h : (outcomes env ds)[i]? = some o) : ∃ d env', ds[i]? = some d ∧ o = decl env' d := by
  induction ds generalizing env i with
  | nil => cases h
  | cons d ds ih =>
    cases i with
    | zero =>
      cases h
      exact ⟨d, env, rfl, rfl⟩
    | succ i => exact ih h

variable {r : Option Span → Option Span}

theorem outcomes_respan (env : Env) (ds : List Decl) :
    outcomes (env.respan r) (ds.map (Decl.respan r)) =
      (outcomes env ds).map (Outcome.respan r (Prod.map (Decl.respan r) (Env.respan r))) := by
  induction ds generalizing env with
  | nil => rfl
  | cons d ds ih =>
    have hd := decl_respan (r := r) env d
    rw [List.map_cons, outcomes, outcomes, List.map_cons, hd]
    exact congrArg (_ :: ·) (ih _)

theorem scopes_respan (env : Env) (ds : List Decl) :
    scopes (env.respan r) (ds.map (Decl.respan r)) = (scopes env ds).respan r := by
  induction ds generalizing env with
  | nil => rfl
  | cons d ds ih =>
    have hd := decl_respan (r := r) env d
    rw [List.map_cons, scopes, scopes, List.foldl_cons, List.foldl_cons, hd]
    exact ih _

end Resolve

/-! ## Bodies of functions -/

/-- The function without its body. -/
def FnDecl.bodiless (d : FnDecl) : FnDecl :=
  { d with bodySpan := none, body := ⟨⟨none, []⟩, none, []⟩ }

/-- The lists differ at `k` only, in the body of a function. -/
inductive Decl.Apart : Nat → List Decl → List Decl → Prop where
  | fn {f f' : FnDecl} (ds : List Decl) :
    f.bodiless = f'.bodiless → Apart 0 (.fn f :: ds) (.fn f' :: ds)
  | cons (d : Decl) {k : Nat} {ds ds' : List Decl} :
    Apart k ds ds' → Apart (k + 1) (d :: ds) (d :: ds')

theorem Decl.Apart.length {k : Nat} {ds ds' : List Decl} (h : Apart k ds ds') :
    ds.length = ds'.length := by
  induction h with
  | fn => rfl
  | cons d _ ih => exact congrArg Nat.succ ih

namespace Resolve

/-- The scopes that a function leaves: its name is bound if it is free. -/
theorem scopes_fnDecl (env : Env) (f : FnDecl) : (fnDecl env f).value.2 =
    match f.returns.type with
    | .error _ => env
    | .ok returns => (name env f.name (.function (signature f returns))).value.2 := by
  unfold fnDecl
  cases f.returns.type with
  | error => rfl
  | ok returns =>
    exact view_andThen Prod.snd rfl
      (view_andThen Prod.snd rfl (view_andThen Prod.snd rfl rfl))

/-- The scopes that a function leaves do not depend on its body. -/
theorem scopes_of_bodiless {f f' : FnDecl} (h : f.bodiless = f'.bodiless) (env : Env) :
    (decl env (.fn f)).value.2 = (decl env (.fn f')).value.2 := by
  have hself : ∀ f : FnDecl, (fnDecl env f).value.2 = (fnDecl env f.bodiless).value.2 := fun f => by
    rw [scopes_fnDecl, scopes_fnDecl]
    rfl
  rw [decl, value_map, decl, value_map]
  exact (hself f).trans ((congrArg (fun f => (fnDecl env f).value.2) h).trans (hself f').symm)

variable {k : Nat} {ds ds' : List Decl}

theorem scopes_apart (h : Decl.Apart k ds ds') (env : Env) : scopes env ds = scopes env ds' := by
  induction h generalizing env with
  | fn ds hbodiless => exact congrArg (scopes · ds) (scopes_of_bodiless hbodiless env)
  | cons d _ ih => exact ih _

/-- What name resolution leaves of the other declarations does not depend on the body. -/
theorem outcomes_apart (h : Decl.Apart k ds ds') (env : Env) {i : Nat} (hi : i ≠ k) :
    (outcomes env ds)[i]? = (outcomes env ds')[i]? := by
  induction h generalizing env i with
  | fn ds hbodiless =>
    cases i with
    | zero => exact absurd rfl hi
    | succ i =>
      exact congrArg (fun env => (outcomes env ds)[i]?) (scopes_of_bodiless hbodiless env)
  | cons d _ ih =>
    cases i with
    | zero => rfl
    | succ i => exact ih _ fun heq => hi (congrArg Nat.succ heq)

theorem any_isMain_apart (h : Decl.Apart k ds ds') : ds.any isMain = ds'.any isMain := by
  induction h with
  | fn ds hbodiless =>
    have hname := congrArg (fun f => f.name.name == "main") hbodiless
    exact congrArg (· || ds.any isMain) hname
  | cons d _ ih => exact congrArg (isMain d || ·) ih

end Resolve

/-! ## Type checking -/

/-- Type checking that comes to its end takes declarations one by one. -/
theorem Check.decls_eq {ds : List Decl} (h : (decls ds).fault = none) :
    (decls ds).value = ds.map (fun d => (decl d).value) ∧
      (decls ds).reports = (ds.map fun d => (decl d).reports).flatten := by
  induction ds with
  | nil => exact ⟨rfl, rfl⟩
  | cons d ds ih =>
    rw [decls, fault_andThen, fault_map] at h
    obtain ⟨hd, hds⟩ := h
    obtain ⟨hvalue, hreports⟩ := ih hds
    rw [decls, andThen_of_fault_none hd]
    exact ⟨congrArg _ hvalue, congrArg _ hreports⟩

theorem Check.fault_decls_iff (ds : List Decl) :
    (decls ds).fault = none ↔ ∀ d ∈ ds, (decl d).fault = none := by
  induction ds with
  | nil => exact iff_of_true rfl (List.forall_mem_nil _)
  | cons d ds ih =>
    rw [decls, fault_andThen, fault_map, List.forall_mem_cons]
    exact and_congr_right fun _ => ih

/-! ## Programs -/

namespace Program

/-- What name resolution leaves of each declaration of a program. -/
def outcomes (p : Program) : List (Resolved (Decl × Env)) :=
  Resolve.outcomes (Scopes.enter []) p.decls

/-- What type checking leaves of what name resolution left of a declaration. -/
def checked (o : Resolved (Decl × Env)) : Checked Decl := Check.decl o.value.1

/-- Both passes come to their end. -/
structure Passed (p : Program) : Prop where
  names : (Resolve.decls (Scopes.enter []) p.decls).fault = none
  types : (Check.decls (Resolve.decls (Scopes.enter []) p.decls).value.1).fault = none

theorem Formed.passed {p : Program} (h : p.Formed) (hfault : p.resolve.fault = none) :
    p.Passed :=
  have hnames := fault_resolve.symm.trans hfault
  ⟨hnames, checked_decls h hnames⟩

/-- Both passes come to their end if they do on each declaration. -/
theorem passed_iff {p : Program} :
    p.Passed ↔ ∀ o ∈ p.outcomes, o.fault = none ∧ (checked o).fault = none := by
  have hresolve := Resolve.fault_decls_iff (Scopes.enter []) p.decls
  constructor
  · intro h o ho
    have hcheck := h.types
    rw [(Resolve.decls_eq h.names).1, Check.fault_decls_iff] at hcheck
    exact ⟨hresolve.mp h.names o ho, hcheck _ (List.mem_map_of_mem ho)⟩
  · intro h
    have hresolved := hresolve.mpr fun o ho => (h o ho).1
    refine ⟨hresolved, ?_⟩
    rw [(Resolve.decls_eq hresolved).1, Check.fault_decls_iff, List.forall_mem_map]
    exact fun o ho => (h o ho).2

/-- The passes take the declarations of a program one by one. -/
theorem Passed.passes {p : Program} (h : p.Passed) :
    p.resolve.program.decls = p.outcomes.map (·.value.1) ∧
      p.resolve.globals = some ((Resolve.scopes (Scopes.enter []) p.decls).headD []) ∧
      p.resolve.hasMain = p.decls.any Resolve.isMain ∧
      p.resolve.reports = (p.outcomes.map (·.reports)).flatten ∧
      ∀ hasMain, (p.resolve.program.check hasMain).value.decls =
          p.outcomes.map (fun o => (checked o).value) ∧
        (p.resolve.program.check hasMain).reports =
          (p.outcomes.map fun o => (checked o).reports).flatten ++
            (if hasMain then [] else [Check.noMain]) := by
  obtain ⟨hresolve, hcheck⟩ := h
  obtain ⟨hvalue, hscopes, hreports⟩ := Resolve.decls_eq hresolve
  obtain ⟨hchecked, hcheckReports⟩ := Check.decls_eq hcheck
  rw [hvalue, List.map_map] at hchecked hcheckReports
  refine ⟨hvalue, ?_, ?_, hreports, fun hasMain => ?_⟩
  · rw [← hscopes, resolve, resolveIn]
    simp only [hresolve, List.isEmpty_nil, if_true]
    rfl
  · exact Resolve.hasMain_decls hresolve
  · have hfault : (Check.decls p.resolve.program.decls).fault = none := hcheck
    have hdecls : p.resolve.program.decls = _ := hvalue
    rw [check, andThen_of_fault_none hfault, hdecls]
    exact ⟨hchecked, congrArg (· ++ if hasMain then [] else [Check.noMain]) hcheckReports⟩

end Program

end CMinusMinus
