import Mathlib
import CMinusMinus.Proofs.Form
import CMinusMinus.Proofs.Scoping.Sites
import CMinusMinus.Proofs.Scoping.Statements

/-!
# Programs are scoped

Name resolution binds the names of every program that was read as lexical scoping has it, reports
what scoping does not allow and nothing else, and returns what the program declares
(`Program.resolve_scoped`).
-/

namespace CMinusMinus

open Outcome

/-! ## Names of functions and structs -/

@[simp] theorem Decl.declared_nil : Decl.declared [] = [] := rfl

theorem Decl.declared_cons (d : Decl) (ds : List Decl) :
    Decl.declared (d :: ds) = d.symbols ++ Decl.declared ds := rfl

theorem Scope.struct?_of_find? {scope : Scope Symbol} {name : String} {d : StructDef} :
    scope.find? name = some (.struct d) ↔ scope.struct? name = some d := by
  unfold Scope.struct?
  constructor
  · intro h
    rw [h]
  · intro h
    split at h
    · next hfind =>
      cases h
      exact hfind
    · cases h

namespace Resolve

variable {scope : Scope Symbol}

theorem structsOf_single (scope : Scope Symbol) : StructsOf [scope] scope :=
  fun _ _ => Scope.struct?_of_find?

/-- The name of a function or a struct is bound unless it is declared before. -/
theorem scoped_name (scope : Scope Symbol) (x : Ident) (s : Symbol) :
    ∃ x', name [scope] x s =
        .reporting (x', [scope ++ x'.declared]) (x'.complaints .duplicate) ∧ x'.name = x.name ∧
      (scope.find? x.name = none → x'.binding = .bound s) ∧
      (scope.find? x.name ≠ none → x'.binding = .unresolved) ∧
      (x'.binding = .bound s ∨ x'.binding = .unresolved) := by
  have htaken : taken [scope] x.name = (scope.find? x.name).map fun _ => .duplicate x.name := rfl
  rw [name, htaken]
  cases hfind : scope.find? x.name with
  | some s' =>
    refine ⟨x.fail, ?_, rfl, nofun, fun _ => rfl, .inr rfl⟩
    show Outcome.reporting (x.fail, [scope]) _ = .reporting (x.fail, [scope ++ []]) _
    rw [List.append_nil]
    rfl
  | none => exact ⟨x.bind s, rfl, rfl, fun _ => rfl, fun h => absurd rfl h, .inl rfl⟩

/-- A function is no struct. -/
theorem structsOf_function {x : Ident} {f : Signature}
    (h : x.binding = .bound (.function f) ∨ x.binding = .unresolved) :
    StructsOf [scope ++ x.declared] scope := by
  rcases h with h | h
  · have hdeclared : x.declared = [(x.name, .function f)] := by rw [Ident.declared, h]; rfl
    intro name d
    rw [hdeclared, ← Scope.struct?_of_find?]
    show Scope.find? (scope ++ [(x.name, .function f)]) name = _ ↔ _
    rw [Scope.find?_append]
    cases hfind : scope.find? name with
    | some s => rw [Option.some_or]
    | none =>
      rw [Option.none_or, Scope.find?, List.lookup_cons]
      refine ⟨fun hsome => ?_, fun hnone => by cases hnone⟩
      split at hsome <;> cases hsome
  · have hdeclared : x.declared = [] := by rw [Ident.declared, h]; rfl
    rw [hdeclared, List.append_nil]
    exact structsOf_single scope

/-! ## Declarations -/

/-- What a declaration at the top is resolved to, if the pass comes through it. -/
def Settles (scope : Scope Symbol) (o : Resolved (Decl × Env)) : Prop :=
  ∃ d, o = .reporting (d, [scope ++ d.symbols]) (d.complaints scope) ∧ d.Scoped scope

theorem settles_var (scope : Scope Symbol) {d : VarDecl} (h : d.Formed) :
    Settles scope (decl [scope] (.var d)) := by
  have htaken : taken [scope] d.name.name =
    (scope.find? d.name.name).map fun _ => .duplicate d.name.name := rfl
  have hsettled := settled_declare (structsOf_single scope) h.type htaken (fun _ => .static)
  rw [decl, h.role]
  generalize declare [scope] (taken [scope] d.name.name) (fun _ => .static) d = o at hsettled
  obtain ⟨⟨d', s⟩, reports, fault⟩ := o
  obtain ⟨rfl, hd, -, hdeclared, -, hreports⟩ := hsettled
  refine ⟨.var d', ?_, hd⟩
  dsimp only [Outcome.map]
  rw [extend_declared hdeclared, Decl.complaints, VarDecl.listComplaints, VarDecl.listComplaints,
    List.append_nil, ← hreports]
  rfl

theorem settles_fn (scope : Scope Symbol) {d : FnDecl} (h : d.Formed)
    (hfault : (decl [scope] (.fn d)).fault = none) : Settles scope (decl [scope] (.fn d)) := by
  obtain ⟨returns, hreturns, -⟩ := TypeNode.type_of_isWordType h.returns
  obtain ⟨x, hname, hxname, hfresh, htaken, hx⟩ :=
    scoped_name scope d.name (.function (signature d returns))
  have hstructs : StructsOf [scope ++ x.declared] scope :=
    structsOf_function (hx.imp_left fun hbound => hbound)
  have houter : [scope ++ x.declared] ≠ [] := List.cons_ne_nil _ _
  have hformed : ∀ f ∈ d.formals.items, f.type.Formed := fun f hf =>
    TypeNode.formed_of_isWordType (h.formals f hf).type
  have hnofault : (formals ([] :: [scope ++ x.declared]) {} d.formals.items).fault = none :=
    fault_formals _ _ hformed
  obtain ⟨items, frame, hformals, hformalsettled⟩ :=
    sequence_formals.settled houter hstructs hformed hnofault
  rw [List.nil_append] at hformals
  rw [decl, fault_map] at hfault
  replace hfault := (fnDecl_of_formed h hreturns hfault).1
  rw [hname, value_reporting] at hfault
  dsimp only at hfault
  rw [Scopes.enter, hformals, value_reporting] at hfault
  have hbody : IsBlock (VarDecl.declared items :: [scope ++ x.declared])
      (block (VarDecl.declared items :: [scope ++ x.declared]) frame d.body).value.1 :=
    ⟨d.body, frame, h.body, hfault, rfl⟩
  have hcomplaints := Stmt.BlockFormed.complaints houter hstructs h.body hfault
  generalize hb : block (VarDecl.declared items :: [scope ++ x.declared]) frame d.body = o
    at hbody hfault hcomplaints
  obtain ⟨⟨body, frame'⟩, reports, fault⟩ := o
  cases hfault
  refine ⟨.fn { d with
    name := x, formals := { d.formals with items }, body, frame := some frame' }, ?_, ?_⟩
  · rw [decl, fnDecl, hreturns]
    dsimp only
    rw [hname, andThen_of_fault_none rfl, value_reporting, reports_reporting]
    dsimp only
    rw [Scopes.enter, hformals, andThen_of_fault_none rfl, value_reporting, reports_reporting]
    dsimp only
    have hreports : reports = VarDecl.listComplaints .duplicate (VarDecl.declared items)
        body.decls.items ++ Stmt.listComplaints body.stmts := hcomplaints
    rw [hb, andThen_of_fault_none rfl, hreports, Decl.complaints, VarDecl.listComplaints_append,
      List.nil_append]
    simp only [Outcome.pure, Outcome.map, reporting, Decl.symbols, List.append_assoc,
      List.append_nil]
  · have hnested := fun bs (hbs : Stmt.Nested body bs) =>
      nested_block houter hstructs hbody hbs
    refine ⟨fun hnone => ⟨_, hfresh (hxname ▸ hnone), hxname.symm, rfl⟩,
      fun hsome => htaken (hxname ▸ hsome), ?_, fun b bs hbs => ?_, fun bs hbs s hs e he => ?_⟩
    · exact hformalsettled.append (hbody.settled houter hstructs).1
    · exact (hnested _ hbs).2 b List.mem_cons_self
    · have hscoped := ((hnested bs hbs).1 s hs).scoped e he
      have hvisible : Scopes.find? (Block.scopes bs ++
          (VarDecl.declared items ++ VarDecl.declared body.decls.items) ::
            [scope ++ x.declared]) =
          FnDecl.visible (scope ++ x.declared) { d with
            name := x, formals := { d.formals with items }, body, frame := some frame' } bs := by
        funext name
        rw [Block.find?_scopes, FnDecl.visible, VarDecl.declared_append, Scopes.find?_cons,
          Scopes.find?_cons]
        have hnil : Scopes.find? ([] : Env) name = none := rfl
        rw [hnil, Option.or_none]
      rw [← hvisible]
      exact hscoped

theorem settles_struct (scope : Scope Symbol) {d : StructDecl} (h : d.Formed)
    (hfault : (decl [scope] (.struct d)).fault = none) :
    Settles scope (decl [scope] (.struct d)) := by
  obtain ⟨items, layout, size, hfields, hdeclared, hsettled⟩ :=
    settled_fields (structsOf_single scope) [] 0 fun f hf => (h.fields f hf).type
  rw [List.nil_append] at hfields
  have htaken : taken [scope] d.name.name =
    (scope.find? d.name.name).map fun _ => .duplicate d.name.name := rfl
  rw [decl, structDecl, htaken, hfields] at hfault ⊢
  cases hfind : scope.find? d.name.name with
  | some s =>
    refine ⟨.struct { d with name := d.name.fail, fields := { d.fields with items } }, ?_, ?_⟩
    · have hsymbols : d.name.fail.declared = [] := rfl
      rw [Decl.symbols, hsymbols, Decl.complaints]
      simp only [Option.map_some, Option.toList_some, andThen, reporting, Outcome.pure,
        Outcome.map, List.append_nil]
      rfl
    · exact ⟨fun hnone => (Option.some_ne_none s (hfind.symm.trans hnone)).elim, fun _ => rfl,
        hsettled⟩
  | none =>
    rw [hfind, fault_map, fault_andThen, fault_andThen] at hfault
    have hwritten : Text.isWritten size = true := isWritten_of_logged hfault.2.2
    refine ⟨.struct { d with
      name := d.name.bind (.struct ⟨d.name.name, d.span, layout, size⟩)
      fields := { d.fields with items } }, ?_, ?_⟩
    · simp only [Option.map_none, Option.toList_none, andThen, reporting,
        logged_of_isWritten hwritten, Outcome.pure, Outcome.map, List.append_nil]
      rfl
    · exact ⟨fun _ => ⟨_, rfl, rfl, rfl, hdeclared⟩, fun hsome => (hsome hfind).elim, hsettled⟩

theorem settles_decl (scope : Scope Symbol) {d : Decl} (h : d.Formed)
    (hfault : (decl [scope] d).fault = none) : Settles scope (decl [scope] d) := by
  cases d with
  | var d => exact settles_var scope h
  | fn d => exact settles_fn scope h hfault
  | struct d => exact settles_struct scope h hfault
  | unknown => exact h.elim

/-- Declarations are scoped, each after those before it. -/
theorem scoped_decls (scope : Scope Symbol) {ds : List Decl} (h : ∀ d ∈ ds, d.Formed)
    (hfault : (decls [scope] ds).fault = none) :
    ∃ ds' main, decls [scope] ds =
        .reporting (ds', [scope ++ Decl.declared ds'], main) (Decl.listComplaints scope ds') ∧
      ∀ before d after, ds' = before ++ d :: after →
        d.Scoped (scope ++ Decl.declared before) := by
  induction ds generalizing scope with
  | nil =>
    refine ⟨[], false, ?_, fun before d after h => ?_⟩
    · rw [Decl.declared_nil, List.append_nil]
      rfl
    · cases before <;> cases h
  | cons d ds ih =>
    obtain ⟨hd, hds⟩ := List.forall_mem_cons.mp h
    rw [decls, fault_andThen, fault_map] at hfault
    obtain ⟨d', hdecl, hscoped⟩ := settles_decl scope hd hfault.1
    rw [hdecl] at hfault
    obtain ⟨ds', main, hdecls, hrest⟩ := ih (scope ++ d'.symbols) hds hfault.2
    refine ⟨d' :: ds', isMain d || main, ?_, ?_⟩
    · rw [decls, hdecl, andThen_of_fault_none rfl, value_reporting, reports_reporting]
      dsimp only
      rw [hdecls, Decl.declared_cons, Decl.listComplaints, List.append_assoc]
      rfl
    · rintro (_ | ⟨e, before⟩) d'' after h
      · cases h
        rw [Decl.declared_nil, List.append_nil]
        exact hscoped
      · cases h
        rw [Decl.declared_cons, ← List.append_assoc]
        exact hrest before d'' after rfl

end Resolve

/-! ## Programs -/

/-- Names are resolved as lexical scoping has it. -/
theorem Program.Formed.scoped {p : Program} (h : p.Formed) (hfault : p.resolve.fault = none) :
    p.resolve.program.Scoped ∧ p.resolve.reports = p.resolve.program.complaints ∧
      p.resolve.globals = some (Decl.declared p.resolve.program.decls) := by
  obtain ⟨ds, main, hdecls, hscoped⟩ :=
    Resolve.scoped_decls [] h (fault_resolve.symm.trans hfault)
  have hresolve : p.resolve = ⟨{ p with decls := ds }, some (Decl.declared ds), main,
      Decl.listComplaints [] ds, none⟩ := by
    unfold Program.resolve Program.resolveIn
    simp only [Scopes.enter, hdecls]
    rfl
  rw [hresolve]
  exact ⟨hscoped, rfl, rfl⟩

theorem Program.sites_resolve (p : Program) : p.resolve.program.sites = p.sites :=
  Resolve.sites_decls _ p.decls

/-- Name resolution leaves the tree that was read, the declarations apart by their sites.  Where it
comes to its end, the names are bound as lexical scoping has it; what is not bound is reported, each
chain of fields at most once, and the scope of the accepted declarations at the top is returned. -/
theorem Program.resolve_scoped {file : Option String} {source : String} {p : Program}
    (h : Program.parse file source = .ok p) :
    p.resolve.program.form = p.form ∧ p.resolve.program.sites = p.sites ∧ p.sites.Nodup ∧
      (p.resolve.fault = none → p.resolve.program.Scoped ∧
        p.resolve.globals = some (Decl.declared p.resolve.program.decls) ∧
        p.resolve.reports = p.resolve.program.complaints) ∧
      ∀ xs, (Exp.chainComplaints xs).length = if xs.any Ident.isUnresolved then 1 else 0 := by
  refine ⟨p.form_resolve, p.sites_resolve, sites_nodup h, fun hfault => ?_,
    Exp.length_chainComplaints⟩
  obtain ⟨hscoped, hreports, hglobals⟩ := (parse_formed h).scoped hfault
  exact ⟨hscoped, hglobals, hreports⟩

set_option maxRecDepth 100000 in
/-- The inner `x` hides the global one.  The void formal, the field `b` and the name `y` are
reported, and the field `c` after `b` is not. -/
theorem Program.resolve_scoped_of_shadowing : ∃ p, Program.parse none
      "struct P { int a; }; int x; void f(void z) { struct P x; x = x.b.c; y = 1; }" = .ok p ∧
    p.resolve.program.Scoped ∧ p.sites.Nodup ∧ p.resolve.program.complaints.length = 3 := by
  obtain ⟨p, hp, hfault, hlength⟩ : ∃ p, Program.parse none
      "struct P { int a; }; int x; void f(void z) { struct P x; x = x.b.c; y = 1; }" = .ok p ∧
      p.resolve.fault = none ∧ p.resolve.reports.length = 3 :=
    exists_parse rfl (by decide +kernel)
  obtain ⟨-, -, hsites, hresolved, -⟩ := resolve_scoped hp
  obtain ⟨hscoped, -, hreports⟩ := hresolved hfault
  exact ⟨p, hp, hscoped, hsites, hreports ▸ hlength⟩

end CMinusMinus
