import CMinusMinus.Proofs.Places
import CMinusMinus.Proofs.Typing.Expressions

/-!
# Errors are accounted for

An expression to blame is one with a report at a name or a literal of its own.  Name resolution
leaves nothing without a binding that is not to blame (`Resolve.answered_exp`).  Each name that it
binds has a type: no declaration enters the error type into a scope (`Resolve.errorless_decl`).
-/

namespace CMinusMinus

open Outcome

/-! ## Types without errors -/

/-- No part of the storage is of the error type. -/
inductive Shape.Errorless : Shape StructDef → Prop where
  | scalar {t : Ty} : t ≠ .error → Errorless (.scalar t)
  | struct {d : StructDef} : (∀ f ∈ d.fields, f.shape.Errorless) → Errorless (.struct d)

theorem Shape.Errorless.type_ne_error {sh : Shape StructDef} (h : sh.Errorless) :
    sh.type ≠ .error := by
  cases h with
  | scalar ht => exact ht
  | struct => exact nofun

/-- What the symbol stands for is not of the error type, nor is what comes of it. -/
def Symbol.Errorless : Symbol → Prop
  | .storage s => s.shape.Errorless
  | .function f => f.returns ≠ .error
  | .struct d => (Shape.struct d).Errorless

theorem Symbol.Errorless.type_ne_error {s : Symbol} (h : s.Errorless) : s.type ≠ .error := by
  cases s with
  | storage s => exact Shape.Errorless.type_ne_error h
  | function | struct => exact nofun

theorem StructDef.errorless_of_field? {d : StructDef} (h : (Shape.struct d).Errorless)
    {name : String} {f : Field StructDef} (hf : d.field? name = some f) : f.shape.Errorless := by
  cases h with
  | struct h => exact h f (List.mem_of_find?_eq_some hf)

/-- All symbols in the scopes have the property. -/
def Env.All (P : Symbol → Prop) (env : Env) : Prop := ∀ scope ∈ env, ∀ d ∈ scope, P d.2

namespace Env.All

variable {P : Symbol → Prop} {env : Env} (h : env.All P)
include h

theorem find? {name : String} {s : Symbol} (hs : env.find? name = some s) : P s := by
  obtain ⟨scope, hscope, hfind⟩ := List.exists_of_findSome?_eq_some hs
  exact h scope hscope _ (Scope.mem_of_find? hfind)

theorem outer? {name : String} {s : Symbol} (hs : env.outer? name = some s) : P s := by
  obtain ⟨scope, hscope, hfind⟩ := Option.bind_eq_some_iff.mp hs
  exact h scope (List.mem_of_getLast? hscope) _ (Scope.mem_of_find? hfind)

theorem enter : Env.All P env.enter := List.forall_mem_cons.mpr ⟨nofun, h⟩

theorem insert {name : String} {s : Symbol} (hs : P s) : Env.All P (env.insert name s) := by
  cases env with
  | nil => exact h
  | cons scope outer =>
    obtain ⟨hscope, houter⟩ := List.forall_mem_cons.mp h
    exact List.forall_mem_cons.mpr
      ⟨List.forall_mem_append.mpr ⟨hscope, List.forall_mem_singleton.mpr hs⟩, houter⟩

theorem extend {s : Option Storage} (hs : ∀ st, s = some st → P (.storage st)) :
    Env.All P (Resolve.extend env s) := by
  cases s with
  | none => exact h
  | some st => exact h.insert (hs st rfl)

/-- A name that is entered unless it is taken. -/
theorem name (x : Ident) {s : Symbol} (hs : P s) : Env.All P (Resolve.name env x s).value.2 := by
  unfold Resolve.name
  split
  · exact h
  · exact h.insert hs

end Env.All

/-- All symbols in the scopes are without errors. -/
def Env.Errorless (env : Env) : Prop := env.All Symbol.Errorless

namespace Resolve

theorem errorless_shape {env : Env} (henv : env.Errorless) {d : VarDecl} {sh : Shape StructDef}
    (h : (shape env d).value.2 = some sh) : sh.Errorless := by
  unfold shape at h
  split at h
  · cases h
    exact .scalar nofun
  · cases h
    exact .scalar nofun
  · cases h
  · split at h
    · next layout hfind =>
      cases h
      exact henv.outer? hfind
    · cases h
  · cases h

/-- Storage that is accepted is without errors. -/
theorem errorless_declare {env : Env} (henv : env.Errorless) (taken : Option NameCause)
    (place : Shape StructDef → Place) (d : VarDecl) {s : Storage}
    (h : (declare env taken place d).value.2 = some s) : s.shape.Errorless := by
  unfold declare at h
  cases hfault : (shape env d).fault with
  | some fault =>
    rw [andThen, hfault] at h
    cases h
  | none =>
    rw [value_andThen hfault] at h
    split at h
    next type shape? hshape =>
    split at h
    · cases h
    · cases h
    · cases h
      exact errorless_shape henv (congrArg Prod.snd hshape)

theorem errorless_localVars {env : Env} (henv : env.Errorless) {frame : Frame} {ds : List VarDecl}
    (hfault : (localVars env frame ds).fault = none) :
    Env.Errorless (localVars env frame ds).value.2.1 := by
  induction ds generalizing env frame with
  | nil => exact henv
  | cons d ds ih =>
    obtain ⟨_, hd, hds, hcons⟩ := sequence_localVars.cons_of_fault hfault
    rw [hcons, value_andThen hd]
    exact ih (henv.extend fun _ => errorless_declare henv _ _ d) hds

theorem errorless_formals {env : Env} (henv : env.Errorless) (frame : Frame) {ds : List VarDecl}
    (h : ∀ d ∈ ds, d.type.Formed) : Env.Errorless (formals env frame ds).value.2.1 := by
  induction ds generalizing env frame with
  | nil => exact henv
  | cons d ds ih =>
    obtain ⟨hd, hds⟩ := List.forall_mem_cons.mp h
    rw [formals, value_andThen (fault_declare env _ _ hd)]
    exact ih (henv.extend fun _ => errorless_declare henv _ _ d) _ hds

theorem errorless_fields {env : Env} (henv : env.Errorless) {before : List (Field StructDef)}
    (hbefore : ∀ f ∈ before, f.shape.Errorless) (size : Nat) {ds : List VarDecl}
    (h : ∀ d ∈ ds, d.type.Formed) :
    ∀ f ∈ (fields env before size ds).value.2.1, f.shape.Errorless := by
  induction ds generalizing before size with
  | nil => exact hbefore
  | cons d ds ih =>
    obtain ⟨hd, hds⟩ := List.forall_mem_cons.mp h
    rw [fields, value_andThen (fault_declare env _ _ hd)]
    refine ih ?_ _ hds
    have hs := fun s => errorless_declare (s := s) henv (takenField before d.name.name)
      (fun _ => .unplaced) d
    generalize
      (declare env (takenField before d.name.name) (fun _ => .unplaced) d).value.2 = s? at hs
    cases s? with
    | none => exact hbefore
    | some s => exact List.forall_mem_append.mpr ⟨hbefore, List.forall_mem_singleton.mpr (hs s rfl)⟩

theorem errorless_structDecl {env : Env} (henv : env.Errorless) {d : StructDecl} (h : d.Formed) :
    Env.Errorless (structDecl env d).value.2 := by
  have hfields := fault_fields env [] 0 fun f hf => (h.fields f hf).type
  have herrorless := errorless_fields henv (List.forall_mem_nil _) 0
    fun f hf => (h.fields f hf).type
  unfold structDecl
  rw [value_andThen rfl, value_andThen hfields]
  dsimp only
  split
  · exact henv
  · rw [value_logged]
    exact henv.insert (.struct herrorless)

/-- A declaration enters no error type into the scope. -/
theorem errorless_decl {env : Env} (henv : env.Errorless) : ∀ {d : Decl}, d.Formed →
    (decl env d).fault = none → Env.Errorless (decl env d).value.2
  | .var d, h, _ => by
    rw [Decl.Formed] at h
    rw [decl, h.role]
    exact henv.extend fun _ => errorless_declare henv _ _ d
  | .fn d, h, hfault => by
    rw [Decl.Formed] at h
    obtain ⟨returns, hr, hword⟩ := TypeNode.type_of_isWordType h.returns
    rw [decl, value_map, (fnDecl_of_formed h hr hfault).2]
    refine henv.name d.name (s := .function (signature d returns)) ?_
    show returns ≠ .error
    rcases hword with rfl | rfl | rfl <;> decide
  | .struct d, h, _ => errorless_structDecl henv h

end Resolve

/-! ## Names in expressions -/

/-- One of the reports is at a name or a literal of the expression. -/
def Exp.Blamed (rs : List Report) (e : Exp) : Prop := ∃ r ∈ rs, r.At (· ∈ e.leaves)

theorem Exp.Blamed.mono {rs : List Report} {e e' : Exp} (h : e.Blamed rs)
    (hle : e.leaves ⊆ e'.leaves) : e'.Blamed rs := by
  obtain ⟨r, hr, s, hs, hlocus⟩ := h
  exact ⟨r, hr, s, hle hs, hlocus⟩

/-- The name is bound to a symbol without errors, unless it is to blame. -/
def Ident.Answered (rs : List Report) (x : Ident) : Prop :=
  (∃ s, x.binding = .bound s ∧ s.Errorless) ∨ (x.binding = .unresolved ∧ (Exp.ident x).Blamed rs)

mutual

/-- All names in the expression are bound to symbols without errors, unless they are to blame.  A
field that is not bound may also be to blame with what it is asked of. -/
def Exp.Answered (rs : List Report) : Exp → Prop
  | .int .. | .string .. | .bool .. | .unknown _ => True
  | .ident x => x.Answered rs
  | .access i k loc f => loc.Answered rs ∧
    ((∃ s, f.binding = .bound (.storage s) ∧ s.shape.Errorless ∧ k.bad = false ∧
      k.target = s.shape.struct?) ∨
    (f.binding = .unresolved ∧ k.bad = true ∧ (Exp.access i k loc f).Blamed rs))
  | .assign _ l r | .binary _ _ l r => l.Answered rs ∧ r.Answered rs
  | .call _ f _ args => f.Answered rs ∧ Exp.ListAnswered rs args
  | .neg _ e | .not _ e => e.Answered rs
termination_by structural e => e

/-- All names in the expressions are bound to symbols without errors, unless they are to blame. -/
def Exp.ListAnswered (rs : List Report) : List Exp → Prop
  | [] => True
  | e :: es => e.Answered rs ∧ Exp.ListAnswered rs es
termination_by structural es => es

end

/-- A location that failed is to blame, and one of a struct is of one without errors. -/
theorem Exp.Answered.base {rs : List Report} {e : Exp} (h : e.Answered rs) :
    (e.base = .failed → e.Blamed rs) ∧ ∀ d, e.base = .struct d → (Shape.struct d).Errorless := by
  cases e with
  | ident x =>
    rw [Exp.Answered] at h
    rw [Exp.base]
    rcases h with ⟨s, hbinding, herrorless⟩ | ⟨hbinding, hblamed⟩
    · rw [hbinding]
      split
      · next heq => cases heq
      · next heq =>
        cases heq
        refine ⟨by rintro ⟨⟩, fun d hd => ?_⟩
        cases hd
        exact herrorless
      · exact ⟨by rintro ⟨⟩, by rintro _ ⟨⟩⟩
    · rw [hbinding]
      exact ⟨fun _ => hblamed, by rintro _ ⟨⟩⟩
  | access i k loc f =>
    rw [Exp.Answered] at h
    rw [Exp.base]
    rcases h.2 with ⟨s, -, herrorless, hbad, htarget⟩ | ⟨-, hbad, hblamed⟩
    · rw [hbad, htarget]
      cases hshape : s.shape with
      | scalar => exact ⟨by rintro ⟨⟩, by rintro _ ⟨⟩⟩
      | struct d =>
        rw [hshape] at herrorless
        refine ⟨by rintro ⟨⟩, fun d' hd => ?_⟩
        cases hd
        exact herrorless
    · rw [hbad]
      exact ⟨fun _ => hblamed, by rintro _ ⟨⟩⟩
  | _ => exact ⟨by rintro ⟨⟩, by rintro _ ⟨⟩⟩

namespace Resolve

variable {rs : List Report}

theorem answered_ident {env : Env} (henv : env.Errorless) {x : Ident}
    (hrs : (x.resolve env).reports ⊆ rs) : (x.resolve env).value.Answered rs := by
  unfold Ident.resolve at hrs ⊢
  cases hfind : env.find? x.name with
  | some s => exact .inl ⟨s, rfl, henv.find? hfind⟩
  | none =>
    rw [hfind] at hrs
    exact .inr ⟨rfl, _, hrs (List.mem_singleton_self _), _, List.mem_singleton_self _, rfl⟩

theorem answered_access (i : Info) {loc : Exp} (h : loc.Answered rs) {f : Ident}
    (hfault : (access i loc f).fault = none) (hrs : (access i loc f).reports ⊆ rs) :
    (access i loc f).value.Answered rs := by
  obtain ⟨hfailed, hstruct⟩ := h.base
  unfold access at hfault hrs ⊢
  split at hfault
  · next d hbase =>
    rw [hbase] at hrs
    unfold fieldOf at hrs ⊢
    cases hfield : d.field? f.name with
    | some g =>
      have herrorless := StructDef.errorless_of_field? (hstruct d hbase) hfield
      exact ⟨h, .inl ⟨g.storage, rfl, herrorless, rfl, rfl⟩⟩
    | none =>
      simp only [hfield] at hrs
      exact ⟨h, .inr ⟨rfl, rfl, _, hrs (List.mem_singleton_self _), f.info.span,
        List.mem_append_right _ (List.mem_singleton_self _), rfl⟩⟩
  · next hbase =>
    refine ⟨h, .inr ⟨rfl, rfl, (hfailed hbase).mono ?_⟩⟩
    exact List.subset_append_left _ _
  · next span hbase =>
    rw [hbase] at hrs
    exact ⟨h, .inr ⟨rfl, rfl, _, hrs (List.mem_singleton_self _), span,
      List.mem_append_left _ (mem_leaves_of_base hbase), rfl⟩⟩
  · cases hfault

/-- What two steps report is reported by the steps. -/
theorem reports_subset {α β : Type} {o : Resolved α} (h : o.fault = none) {stopped : α → β}
    {next : α → Resolved β} (hrs : (o.andThen stopped next).reports ⊆ rs) :
    o.reports ⊆ rs ∧ (next o.value).reports ⊆ rs := by
  rw [andThen_of_fault_none h] at hrs
  exact List.append_subset.mp hrs

mutual

/-- Name resolution leaves no name without a binding that is not to blame. -/
theorem answered_exp {env : Env} (henv : env.Errorless) : ∀ {e : Exp}, (exp env e).fault = none →
    (exp env e).reports ⊆ rs → (exp env e).value.Answered rs
  | .int .., _, _ | .string .., _, _ | .bool .., _, _ => trivial
  | .unknown _, h, _ => by cases h
  | .ident x, _, hrs => answered_ident henv hrs
  | .access i k loc f, h, hrs => by
    rw [exp] at h hrs ⊢
    obtain ⟨hloc, hf⟩ := fault_andThen.mp h
    obtain ⟨hrloc, hrf⟩ := reports_subset hloc hrs
    rw [value_andThen hloc]
    exact answered_access i (answered_exp henv hloc hrloc) hf hrf
  | .assign i l r, h, hrs | .binary i _ l r, h, hrs => by
    rw [exp] at h hrs ⊢
    obtain ⟨hl, hr⟩ := fault_andThen.mp h
    obtain ⟨hrl, hrr⟩ := reports_subset hl hrs
    rw [value_andThen hl, value_map]
    exact ⟨answered_exp henv hl hrl, answered_exp henv hr hrr⟩
  | .call i f s args, h, hrs => by
    rw [exp] at h hrs ⊢
    obtain ⟨hf, hargs⟩ := fault_andThen.mp h
    obtain ⟨hrf, hrargs⟩ := reports_subset hf hrs
    rw [value_andThen hf, value_map]
    exact ⟨answered_ident henv hrf, answered_exps henv hargs hrargs⟩
  | .neg i e, h, hrs | .not i e, h, hrs => by
    rw [exp] at h hrs ⊢
    exact answered_exp henv (e := e) h hrs

theorem answered_exps {env : Env} (henv : env.Errorless) : ∀ {es : List Exp},
    (exps env es).fault = none → (exps env es).reports ⊆ rs →
      Exp.ListAnswered rs (exps env es).value
  | [], _, _ => trivial
  | e :: es, h, hrs => by
    rw [exps] at h hrs ⊢
    obtain ⟨he, hes⟩ := fault_andThen.mp h
    obtain ⟨hre, hres⟩ := reports_subset he hrs
    rw [value_andThen he, value_map]
    exact ⟨answered_exp henv he hre, answered_exps henv hes hres⟩

end

end Resolve

end CMinusMinus
