import CMinusMinus.Proofs.Scoping
import CMinusMinus.Proofs.Totality

/-!
# Names in expressions are scoped

Name resolution binds the names of an expression to what is visible in its scopes, and its fields to
those of structs; it reports each name that is bound to nothing, and each chain of fields that fails
at its first link that does (`Exp.Formed.scoped`).
-/

namespace CMinusMinus

open Outcome

/-! ## Chains -/

namespace Ident

theorem blame_of_resolved {x f : Ident} {fs : List Ident}
    (h : ∀ y ∈ fs, y.isUnresolved = false) :
    x.blame (fs ++ [f]) = (fs.getLastD x).blame [f] := by
  induction fs generalizing x with
  | nil => rfl
  | cons y fs ih =>
    obtain ⟨hy, hfs⟩ := List.forall_mem_cons.mp h
    rw [List.cons_append, blame, hy, if_neg Bool.false_ne_true, ih hfs, List.getLastD_cons]

theorem blame_eq_nil {x : Ident} {fs : List Ident} (h : ∀ y ∈ fs, y.isUnresolved = false) :
    x.blame fs = [] := by
  induction fs generalizing x with
  | nil => rfl
  | cons y fs ih =>
    obtain ⟨hy, hfs⟩ := List.forall_mem_cons.mp h
    rw [blame, hy, if_neg Bool.false_ne_true, ih hfs]

theorem blame_of_unresolved {x f : Ident} {fs : List Ident}
    (h : ∃ y ∈ fs, y.isUnresolved = true) : x.blame (fs ++ [f]) = x.blame fs := by
  induction fs generalizing x with
  | nil =>
    obtain ⟨y, hy, -⟩ := h
    cases hy
  | cons z fs ih =>
    rw [List.cons_append, blame, blame]
    split
    · rfl
    · next hz =>
      obtain ⟨y, hy, hbad⟩ := h
      refine ih ⟨y, (List.mem_cons.mp hy).resolve_left ?_, hbad⟩
      rintro rfl
      exact hz hbad

end Ident

namespace Exp

/-- A chain is reported once if some link fails, and not at all otherwise. -/
theorem length_chainComplaints (xs : List Ident) :
    (chainComplaints xs).length = if xs.any Ident.isUnresolved then 1 else 0 := by
  have hblame : ∀ (fs : List Ident) (x : Ident),
      (x.blame fs).length = if fs.any Ident.isUnresolved then 1 else 0 := by
    intro fs
    induction fs with
    | nil => exact fun _ => rfl
    | cons f fs ih =>
      intro x
      rw [Ident.blame, List.any_cons]
      cases hf : f.isUnresolved with
      | true => cases x.struct? <;> rfl
      | false => simpa using ih f
  cases xs with
  | nil => rfl
  | cons x fs =>
    rw [chainComplaints, List.any_cons]
    cases hx : x.isUnresolved with
    | true => simp [Ident.complaints, hx]
    | false => simpa using hblame fs x

/-- The links of a location: the last one tells what the location denotes, and if it did not fail,
no other one did. -/
structure Links (e : Exp) (root : Ident) (fields : List Ident) : Prop where
  links : e.links = root :: fields
  base : e.base = (Exp.ident (fields.getLastD root)).base
  struct : e.struct? = (fields.getLastD root).struct?
  ends : (fields.getLastD root).isUnresolved = true ∨
    ∀ x ∈ root :: fields, x.isUnresolved = false

theorem Links.ident (x : Ident) : (Exp.ident x).Links x [] where
  links := rfl
  base := rfl
  struct := rfl
  ends := by
    cases hx : x.isUnresolved with
    | true => exact .inl hx
    | false => exact .inr (List.forall_mem_singleton.mpr hx)

/-- What a chain is reported for is what it was before its last link, unless that is the first to
fail. -/
theorem Links.complaints_snoc {e : Exp} {root : Ident} {fields : List Ident}
    (h : e.Links root fields) (f : Ident) :
    chainComplaints (e.links ++ [f]) = chainComplaints e.links ++
      if (fields.getLastD root).isUnresolved then [] else (fields.getLastD root).blame [f] := by
  rw [h.links, List.cons_append, chainComplaints, chainComplaints]
  have hlast := List.getLastD_mem_cons (a := root) (l := fields)
  rcases h.ends with hbad | hgood
  · rw [hbad, if_pos rfl, List.append_nil]
    split
    · rfl
    · next hroot =>
      refine Ident.blame_of_unresolved ⟨_, (List.mem_cons.mp hlast).resolve_left ?_, hbad⟩
      intro hsame
      rw [hsame] at hbad
      exact hroot hbad
  · obtain ⟨hroot, hfields⟩ := List.forall_mem_cons.mp hgood
    rw [hroot, hgood _ hlast, if_neg Bool.false_ne_true, if_neg Bool.false_ne_true,
      if_neg Bool.false_ne_true, Ident.blame_of_resolved hfields, Ident.blame_eq_nil hfields,
      List.nil_append]

theorem complaints_of_isLocation {e : Exp} (h : e.isLocation = true) :
    e.complaints = chainComplaints e.links := by
  cases e with
  | ident | access => rfl
  | _ => cases h

end Exp

namespace Resolve

theorem find?_declared (d : StructDef) (name : String) :
    Scope.find? d.declared name = (d.field? name).map fun f => .storage f.storage :=
  Field.lookup_map d.fields (fun f => Symbol.storage f.storage) name

/-- What a name is as the left side of a field access. -/
theorem base_ident (x : Ident) :
    (x.isUnresolved = true ∧ x.struct? = none ∧ (Exp.ident x).base = .failed) ∨
      (∃ d, x.isUnresolved = false ∧ x.struct? = some d ∧ (Exp.ident x).base = .struct d) ∨
      (x.isUnresolved = false ∧ x.struct? = none ∧
        (Exp.ident x).base = .notStruct x.info.span) := by
  obtain ⟨name, info, binding⟩ := x
  cases binding with
  | unresolved => exact .inl ⟨rfl, rfl, rfl⟩
  | pending => exact .inr (.inr ⟨rfl, rfl, rfl⟩)
  | bound s =>
    cases s with
    | function | struct => exact .inr (.inr ⟨rfl, rfl, rfl⟩)
    | storage s =>
      obtain ⟨_, _, _, shape⟩ := s
      cases shape with
      | scalar => exact .inr (.inr ⟨rfl, rfl, rfl⟩)
      | struct d => exact .inr (.inl ⟨d, rfl, rfl, rfl⟩)

/-- What a field access is after a location whose last link is known. -/
theorem access_of_base {loc : Exp} {x : Ident} (hbase : loc.base = (Exp.ident x).base) (i : Info)
    (f : Ident) : ∃ k f', access i loc f =
        .reporting (.access i k loc f') (if x.isUnresolved then [] else x.blame [f']) ∧
      f'.binding = .of (x.struct?.bind fun d => Scope.find? d.declared f'.name) ∧
      (Exp.access i k loc f').base = (Exp.ident f').base ∧
      (x.isUnresolved = true → f'.isUnresolved = true) := by
  rw [access, hbase]
  rcases base_ident x with ⟨hbad, hstruct, hx⟩ | ⟨d, hbad, hstruct, hx⟩ | ⟨hbad, hstruct, hx⟩
  · rw [hx, hbad, hstruct]
    exact ⟨{ bad := true }, f.fail, rfl, rfl, rfl, fun _ => rfl⟩
  · rw [hx, hbad, hstruct]
    dsimp only [fieldOf, Option.bind_some]
    cases hfield : d.field? f.name with
    | none =>
      refine ⟨{ bad := true }, f.fail, ?_, ?_, rfl, fun h => by cases h⟩
      · rw [Ident.blame, hstruct]
        rfl
      · show Binding.unresolved = .of (Scope.find? d.declared f.name)
        rw [find?_declared, hfield]
        rfl
    | some g =>
      refine ⟨_, f.bind (.storage g.storage), rfl, ?_, ?_, fun h => by cases h⟩
      · show Binding.bound (.storage g.storage) = .of (Scope.find? d.declared f.name)
        rw [find?_declared, hfield]
        rfl
      · obtain ⟨_, _, _, shape⟩ := g
        cases shape <;> rfl
  · rw [hx, hbad, hstruct]
    refine ⟨{ bad := true }, f.fail, ?_, rfl, rfl, fun h => by cases h⟩
    rw [Ident.blame, hstruct]
    rfl

/-- The links of a location, and then of a field of it. -/
theorem links_access {loc : Exp} {root : Ident} {fields : List Ident}
    (hlinks : loc.Links root fields) (i : Info) (f : Ident) :
    ∃ fields', (access i loc f).value.Links root fields' := by
  obtain ⟨k', f', haccess, -, hbase, hbad⟩ := access_of_base hlinks.base i f
  rw [haccess, value_reporting]
  refine ⟨fields ++ [f'], ?_, ?_, ?_, ?_⟩
  · rw [Exp.links, hlinks.links, List.cons_append]
  · rw [hbase, List.getLastD_concat]
  · rw [List.getLastD_concat]
    rfl
  · rw [List.getLastD_concat]
    cases hf : f'.isUnresolved with
    | true => exact .inl rfl
    | false =>
      have hgood : ∀ x ∈ root :: fields, x.isUnresolved = false := by
        refine hlinks.ends.resolve_left fun hlast => ?_
        rw [hbad hlast] at hf
        cases hf
      refine .inr fun x hx => ?_
      rw [← List.cons_append] at hx
      rcases List.mem_append.mp hx with hx | hx
      · exact hgood x hx
      · rw [List.mem_singleton.mp hx]
        exact hf

/-- A resolved location has links. -/
theorem links_exp (env : Env) : ∀ e : Exp, e.Formed → e.isLocation = true →
    ∃ root fields, (exp env e).value.Links root fields
  | .ident x, _, _ => by
    rw [exp, value_map]
    exact ⟨_, _, .ident _⟩
  | .access i k loc f, hformed, _ => by
    obtain ⟨root, fields, hlinks⟩ := links_exp env loc hformed.2.1 hformed.1
    have hfault : (exp env loc).fault = none := (Exp.Formed.total env hformed.2.1).1
    rw [exp, value_andThen hfault]
    exact ⟨root, links_access hlinks i f⟩
  | .int .., _, h | .string .., _, h | .bool .., _, h | .assign .., _, h | .call .., _, h
  | .neg .., _, h | .not .., _, h | .binary .., _, h | .unknown _, _, h => nomatch h

/-- A name is bound to what the scopes have, and reported if they have nothing. -/
theorem scoped_ident (env : Env) (x : Ident) : (x.resolve env).fault = none ∧
    (x.resolve env).value.binding = .of (env.find? (x.resolve env).value.name) ∧
    (x.resolve env).reports = (x.resolve env).value.complaints .undeclared := by
  unfold Ident.resolve
  cases hfind : env.find? x.name with
  | none =>
    refine ⟨rfl, ?_, rfl⟩
    show Binding.unresolved = .of (env.find? x.name)
    rw [hfind]
    rfl
  | some s =>
    refine ⟨rfl, ?_, rfl⟩
    show Binding.bound s = .of (env.find? x.name)
    rw [hfind]
    rfl

end Resolve

/-! ## Expressions -/

mutual

/-- The names of a resolved expression are bound to what its scopes have, and what is reported is
told by what is not bound. -/
theorem Exp.Formed.scoped (env : Env) : ∀ {e : Exp}, e.Formed →
    (Resolve.exp env e).value.Scoped env.find? ∧
      (Resolve.exp env e).reports = (Resolve.exp env e).value.complaints
  | .int .., _ | .string .., _ | .bool .., _ => ⟨trivial, rfl⟩
  | .ident x, _ => by
    obtain ⟨-, hbinding, hreports⟩ := Resolve.scoped_ident env x
    rw [Resolve.exp, value_map, reports_map, hreports]
    refine ⟨hbinding, ?_⟩
    rw [Exp.complaints, Exp.chainComplaints, Ident.blame, Ident.complaints]
    split <;> rfl
  | .access i k loc f, h => by
    obtain ⟨hscoped, hreports⟩ := Exp.Formed.scoped env h.2.1
    obtain ⟨root, fields, hlinks⟩ := Resolve.links_exp env loc h.2.1 h.1
    obtain ⟨k', f', haccess, hbinding, -⟩ := Resolve.access_of_base hlinks.base i f
    have hfault : (Resolve.exp env loc).fault = none := (Exp.Formed.total env h.2.1).1
    have hlocation := (Resolve.isLocation_exp env loc).trans h.1
    rw [Resolve.exp, andThen_of_fault_none hfault, haccess, value_reporting, reports_reporting,
      hreports]
    refine ⟨⟨hscoped, ?_⟩, ?_⟩
    · rw [hlinks.struct]
      exact hbinding
    · rw [Exp.complaints, hlinks.complaints_snoc, Exp.complaints_of_isLocation hlocation]
  | .assign i l r, h => by
    obtain ⟨hl, hlreports⟩ := Exp.Formed.scoped env h.2.1
    obtain ⟨hr, hrreports⟩ := Exp.Formed.scoped env h.2.2
    have hfault : (Resolve.exp env l).fault = none := (Exp.Formed.total env h.2.1).1
    rw [Resolve.exp, andThen_of_fault_none hfault, value_map, reports_map, hlreports, hrreports]
    exact ⟨⟨hl, hr⟩, rfl⟩
  | .call i f sp args, h => by
    obtain ⟨hfault, hbinding, hreports⟩ := Resolve.scoped_ident env f
    obtain ⟨hargs, hargsreports⟩ := Exp.AllFormed.scoped env h.2
    rw [Resolve.exp, andThen_of_fault_none hfault, value_map, reports_map, hreports, hargsreports]
    exact ⟨⟨hbinding, hargs⟩, rfl⟩
  | .neg i e, h => by
    obtain ⟨he, hreports⟩ := Exp.Formed.scoped env (e := e) h
    rw [Resolve.exp, value_map, reports_map, hreports]
    exact ⟨he, rfl⟩
  | .not i e, h => by
    obtain ⟨he, hreports⟩ := Exp.Formed.scoped env (e := e) h
    rw [Resolve.exp, value_map, reports_map, hreports]
    exact ⟨he, rfl⟩
  | .binary i op l r, h => by
    obtain ⟨hl, hlreports⟩ := Exp.Formed.scoped env h.2.1
    obtain ⟨hr, hrreports⟩ := Exp.Formed.scoped env h.2.2
    have hfault : (Resolve.exp env l).fault = none := (Exp.Formed.total env h.2.1).1
    rw [Resolve.exp, andThen_of_fault_none hfault, value_map, reports_map, hlreports, hrreports]
    exact ⟨⟨hl, hr⟩, rfl⟩

theorem Exp.AllFormed.scoped (env : Env) : ∀ {es : List Exp}, Exp.AllFormed es →
    Exp.ListScoped env.find? (Resolve.exps env es).value ∧
      (Resolve.exps env es).reports = Exp.listComplaints (Resolve.exps env es).value
  | [], _ => ⟨trivial, rfl⟩
  | e :: es, h => by
    obtain ⟨he, hreports⟩ := Exp.Formed.scoped env h.1
    obtain ⟨hes, hesreports⟩ := Exp.AllFormed.scoped env h.2
    have hfault : (Resolve.exp env e).fault = none := (Exp.Formed.total env h.1).1
    rw [Resolve.exps, andThen_of_fault_none hfault, value_map, reports_map, hreports, hesreports]
    exact ⟨⟨he, hes⟩, rfl⟩

end

end CMinusMinus
