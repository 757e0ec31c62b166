import CMinusMinus.Proofs.Rules.Contexts

/-!
# Expressions that the rules give a type

Both passes are silent on an expression exactly if the rules give it a type in the context of the
scopes, and then that is the type that is recorded (`Exp.Clean.has`, `Exp.Has.clean`).
-/

namespace CMinusMinus

open Outcome

/-- The identifier bound to a symbol, with the symbol's type. -/
def Ident.known (x : Ident) (s : Symbol) : Ident :=
  { x with info := { x.info with type := some s.type }, binding := .bound s }

namespace Exp

/-- Neither pass reports anything of the expression. -/
structure Clean (env : Env) (e : Exp) : Prop where
  resolve : (Resolve.exp env e).Silent
  check : (Check.exp (Resolve.exp env e).value).Silent

/-- The expression after both passes, with its type. -/
def analyzed (env : Env) (e : Exp) : Check.Part := (Check.exp (Resolve.exp env e).value).value

/-- Neither pass reports anything of the expressions. -/
structure ListClean (env : Env) (es : List Exp) : Prop where
  resolve : (Resolve.exps env es).Silent
  check : (Check.exps (Resolve.exps env es).value).Silent

/-- The expressions after both passes, with their types. -/
def listAnalyzed (env : Env) (es : List Exp) : List Check.Part :=
  (Check.exps (Resolve.exps env es).value).value

variable {env : Env}

/-! ## Nodes and their parts -/

section One

variable (node : Exp → Exp) (rule : Check.Part → Check.Verdict)
  (hresolve : ∀ e, Resolve.exp env (node e) = (Resolve.exp env e).map node)
  (hcheck : ∀ e, Check.exp (node e) = (Check.exp e).andThen
    (fun p => Check.unchecked (node p.exp)) fun p => Check.conclude (node p.exp) (rule p))
include hresolve hcheck

/-- A node with one part is clean if the part is and the rule is content with it. -/
theorem clean_one {e : Exp} :
    (node e).Clean env ↔ e.Clean env ∧ (rule (e.analyzed env)).2 = [] := by
  constructor
  · rintro ⟨hr, hc⟩
    rw [hresolve, silent_map] at hr
    rw [hresolve, value_map, hcheck, silent_andThen] at hc
    exact ⟨⟨hr, hc.1⟩, hc.2.reports⟩
  · rintro ⟨⟨hr, hc⟩, hrule⟩
    refine ⟨?_, ?_⟩
    · rw [hresolve, silent_map]
      exact hr
    · rw [hresolve, value_map, hcheck, silent_andThen]
      exact ⟨hc, rfl, hrule⟩

theorem analyzed_one {e : Exp} (h : e.Clean env) : (node e).analyzed env =
    Check.record (node (e.analyzed env).exp) (rule (e.analyzed env)).1 := by
  rw [analyzed, hresolve, value_map, hcheck, value_andThen h.check.fault]
  rfl

end One

section Two

variable (node : Exp → Exp → Exp) (rule : Exp → Check.Part → Check.Part → Check.Verdict)
  (hresolve : ∀ l r, Resolve.exp env (node l r) =
    (Resolve.exp env l).andThen (node · r) fun l => (Resolve.exp env r).map (node l))
  (hcheck : ∀ l r, Check.exp (node l r) =
    (Check.exp l).andThen (fun l => Check.unchecked (node l.exp r)) fun l =>
      (Check.exp r).andThen (fun r => Check.unchecked (node l.exp r.exp)) fun r =>
        Check.conclude (node l.exp r.exp) (rule (node l.exp r.exp) l r))
include hresolve hcheck

/-- A node with two parts is clean if they are and the rule is content with them. -/
theorem clean_two {l r : Exp} : (node l r).Clean env ↔ l.Clean env ∧ r.Clean env ∧
    (rule (node (l.analyzed env).exp (r.analyzed env).exp) (l.analyzed env)
      (r.analyzed env)).2 = [] := by
  constructor
  · rintro ⟨hr, hc⟩
    rw [hresolve, silent_andThen, silent_map] at hr
    rw [hresolve, value_andThen hr.1.fault, value_map, hcheck, silent_andThen,
      silent_andThen] at hc
    exact ⟨⟨hr.1, hc.1⟩, ⟨hr.2, hc.2.1⟩, hc.2.2.reports⟩
  · rintro ⟨⟨hl, hl'⟩, ⟨hr, hr'⟩, hrule⟩
    refine ⟨?_, ?_⟩
    · rw [hresolve, silent_andThen, silent_map]
      exact ⟨hl, hr⟩
    · rw [hresolve, value_andThen hl.fault, value_map, hcheck, silent_andThen, silent_andThen]
      exact ⟨hl', hr', rfl, hrule⟩

theorem analyzed_two {l r : Exp} (hl : l.Clean env) (hr : r.Clean env) :
    (node l r).analyzed env = Check.record (node (l.analyzed env).exp (r.analyzed env).exp)
      (rule (node (l.analyzed env).exp (r.analyzed env).exp) (l.analyzed env)
        (r.analyzed env)).1 := by
  rw [analyzed, hresolve, value_andThen hl.resolve.fault, value_map, hcheck,
    value_andThen hl.check.fault, value_andThen hr.check.fault]
  rfl

end Two

variable {i : Info} {op : BinOp} {e l r : Exp}

theorem clean_neg : (Exp.neg i e).Clean env ↔
    e.Clean env ∧ (Check.uniform .int .int .arithmetic [e.analyzed env]).2 = [] :=
  clean_one (.neg i) (fun p => Check.uniform .int .int .arithmetic [p])
    (fun _ => by rw [Resolve.exp]) (fun _ => by rw [Check.exp])

theorem analyzed_neg (h : e.Clean env) : (Exp.neg i e).analyzed env =
    Check.record (.neg i (e.analyzed env).exp)
      (Check.uniform .int .int .arithmetic [e.analyzed env]).1 :=
  analyzed_one (.neg i) (fun p => Check.uniform .int .int .arithmetic [p])
    (fun _ => by rw [Resolve.exp]) (fun _ => by rw [Check.exp]) h

theorem clean_not : (Exp.not i e).Clean env ↔
    e.Clean env ∧ (Check.uniform .bool .bool .logical [e.analyzed env]).2 = [] :=
  clean_one (.not i) (fun p => Check.uniform .bool .bool .logical [p])
    (fun _ => by rw [Resolve.exp]) (fun _ => by rw [Check.exp])

theorem analyzed_not (h : e.Clean env) : (Exp.not i e).analyzed env =
    Check.record (.not i (e.analyzed env).exp)
      (Check.uniform .bool .bool .logical [e.analyzed env]).1 :=
  analyzed_one (.not i) (fun p => Check.uniform .bool .bool .logical [p])
    (fun _ => by rw [Resolve.exp]) (fun _ => by rw [Check.exp]) h

theorem clean_binary (hop : op ∈ BinOp.all) : (Exp.binary i op l r).Clean env ↔
    l.Clean env ∧ r.Clean env ∧
      (Check.binary op (.binary i op (l.analyzed env).exp (r.analyzed env).exp) (l.analyzed env)
        (r.analyzed env)).2 = [] :=
  clean_two (.binary i op) (Check.binary op) (fun _ _ => by rw [Resolve.exp])
    (Check.exp_binary hop i)

theorem analyzed_binary (hop : op ∈ BinOp.all) (hl : l.Clean env) (hr : r.Clean env) :
    (Exp.binary i op l r).analyzed env =
      Check.record (.binary i op (l.analyzed env).exp (r.analyzed env).exp)
        (Check.binary op (.binary i op (l.analyzed env).exp (r.analyzed env).exp) (l.analyzed env)
          (r.analyzed env)).1 :=
  analyzed_two (.binary i op) (Check.binary op) (fun _ _ => by rw [Resolve.exp])
    (Check.exp_binary hop i) hl hr

theorem clean_assign : (Exp.assign i l r).Clean env ↔ l.Clean env ∧ r.Clean env ∧
    (Check.assign (.assign i (l.analyzed env).exp (r.analyzed env).exp) (l.analyzed env).type
      (r.analyzed env).type).2 = [] :=
  clean_two (.assign i) (fun e l r => Check.assign e l.type r.type)
    (fun _ _ => by rw [Resolve.exp]) (fun _ _ => by rw [Check.exp])

theorem analyzed_assign (hl : l.Clean env) (hr : r.Clean env) :
    (Exp.assign i l r).analyzed env =
      Check.record (.assign i (l.analyzed env).exp (r.analyzed env).exp)
        (Check.assign (.assign i (l.analyzed env).exp (r.analyzed env).exp) (l.analyzed env).type
          (r.analyzed env).type).1 :=
  analyzed_two (.assign i) (fun e l r => Check.assign e l.type r.type)
    (fun _ _ => by rw [Resolve.exp]) (fun _ _ => by rw [Check.exp]) hl hr

/-! ## Names -/

theorem clean_ident {x : Ident} : (Exp.ident x).Clean env ↔ ∃ s, env.find? x.name = some s := by
  constructor
  · rintro ⟨hr, -⟩
    rw [Resolve.exp, silent_map] at hr
    obtain ⟨s, hfind, -⟩ := Ident.bound_of_silent hr
    exact ⟨s, hfind⟩
  · rintro ⟨s, hfind⟩
    have hresolve : Resolve.exp env (.ident x) = .pure (.ident (x.bind s)) := by
      rw [Resolve.exp, Ident.resolve, hfind]
      rfl
    refine ⟨?_, ?_⟩
    · rw [hresolve]
      exact silent_pure _
    · rw [hresolve, value_pure, Check.exp, Check.ident_of_bound rfl]
      exact silent_pure _

theorem analyzed_ident {x : Ident} {s : Symbol} (hfind : env.find? x.name = some s) :
    (Exp.ident x).analyzed env = ⟨.ident (x.known s), s.type⟩ := by
  rw [analyzed, Resolve.exp, Ident.resolve, hfind, value_map, value_pure, Check.exp,
    Check.ident_of_bound rfl]
  rfl

theorem clean_call {f : Ident} {sp : Option Span} {args : List Exp} :
    (Exp.call i f sp args).Clean env ↔ ∃ s, env.find? f.name = some s ∧ ListClean env args ∧
      (Check.call (f.known s) (listAnalyzed env args)).2 = [] := by
  constructor
  · rintro ⟨hr, hc⟩
    rw [Resolve.exp, silent_andThen, silent_map] at hr
    obtain ⟨s, hfind, hbound⟩ := Ident.bound_of_silent hr.1
    rw [Resolve.exp, value_andThen hr.1.fault, value_map, hbound, Check.exp,
      Check.ident_of_bound rfl, pure_andThen, silent_andThen] at hc
    exact ⟨s, hfind, ⟨hr.2, hc.1⟩, hc.2.reports⟩
  · rintro ⟨s, hfind, ⟨hr, hc⟩, hrule⟩
    have hresolve : f.resolve env = .pure (f.bind s) := by rw [Ident.resolve, hfind]
    refine ⟨?_, ?_⟩
    · rw [Resolve.exp, hresolve, pure_andThen, silent_map]
      exact hr
    · rw [Resolve.exp, hresolve, pure_andThen, value_map, Check.exp, Check.ident_of_bound rfl,
        pure_andThen, silent_andThen]
      exact ⟨hc, rfl, hrule⟩

theorem analyzed_call {f : Ident} {sp : Option Span} {args : List Exp} {s : Symbol}
    (hfind : env.find? f.name = some s) (h : ListClean env args) :
    (Exp.call i f sp args).analyzed env =
      Check.record (.call i (f.known s) sp ((listAnalyzed env args).map Check.Part.exp))
        (Check.call (f.known s) (listAnalyzed env args)).1 := by
  have hresolve : f.resolve env = .pure (f.bind s) := by rw [Ident.resolve, hfind]
  rw [analyzed, Resolve.exp, hresolve, pure_andThen, value_map, Check.exp,
    Check.ident_of_bound rfl, pure_andThen, value_andThen h.check.fault]
  rfl

theorem listClean_cons {es : List Exp} :
    ListClean env (e :: es) ↔ e.Clean env ∧ ListClean env es := by
  constructor
  · rintro ⟨hr, hc⟩
    rw [Resolve.exps, silent_andThen, silent_map] at hr
    rw [Resolve.exps, value_andThen hr.1.fault, value_map, Check.exps, silent_andThen,
      silent_map] at hc
    exact ⟨⟨hr.1, hc.1⟩, hr.2, hc.2⟩
  · rintro ⟨⟨hr, hc⟩, hrs, hcs⟩
    refine ⟨?_, ?_⟩
    · rw [Resolve.exps, silent_andThen, silent_map]
      exact ⟨hr, hrs⟩
    · rw [Resolve.exps, value_andThen hr.fault, value_map, Check.exps, silent_andThen, silent_map]
      exact ⟨hc, hcs⟩

theorem listAnalyzed_cons (h : e.Clean env) (es : List Exp) :
    listAnalyzed env (e :: es) = e.analyzed env :: listAnalyzed env es := by
  rw [listAnalyzed, Resolve.exps, value_andThen h.resolve.fault, value_map, Check.exps,
    value_andThen h.check.fault, value_map]
  rfl

/-! ## Locations -/

end Exp

namespace Given

variable {env : Env} {e : Exp} {t : Ty}

/-- What has a struct type is a location of a struct. -/
theorem locates_of_type (henv : env.Sound) (h : Given env e t) {name : String}
    (ht : t = .struct name) : ∃ s n d, Locates env e s n (.struct d) ∧ d.name = name := by
  cases h with
  | value h => rcases h.cases_type henv with (rfl | rfl) | rfl | rfl <;> cases ht
  | @struct _ s n d hloc =>
    cases ht
    exact ⟨s, n, d, hloc, rfl⟩
  | name _ hs =>
    rw [ht] at hs
    rcases hs with hs | hs <;> cases hs

theorem type_of_locates (h : Given env e t) {s : Storage} {n : Nat} {d : StructDef}
    (hloc : Locates env e s n (.struct d)) : t = .struct d.name := by
  have hbase := (hloc.base d).mpr rfl
  cases h with
  | value h =>
    obtain ⟨s', n', hscalar, -⟩ := h.locates hloc.isLocation
    cases (hscalar.base d).mp hbase
  | struct hstruct => rw [Shape.struct.inj ((hstruct.base d).mp hbase)]
  | @name x s hbound hs =>
    rw [Exp.base, hbound] at hbase
    cases s with
    | storage st =>
      obtain ⟨_, _, _, shape⟩ := st
      cases shape with
      | scalar => cases hbase
      | struct => rcases hs with hs | hs <;> cases hs
    | function => cases hbase
    | struct => cases hbase

end Given

namespace Exp

/-- What is known of a clean expression. -/
theorem Clean.given {env : Env} (henv : env.Sound) {e : Exp} (he : e.Formed) (h : e.Clean env) :
    Given env (e.analyzed env).exp (e.analyzed env).type :=
  given_exp henv he h.resolve h.check

section Location

variable {env : Env} (henv : env.Closed) {loc : Exp} (hformed : loc.Formed)
  (hloc : loc.isLocation = true) {i : Info} {k : FieldLink} {f : Ident}

theorem isLocation_analyzed (env : Env) (e : Exp) :
    (e.analyzed env).exp.isLocation = e.isLocation :=
  (Check.isLocation_exp _).trans (Resolve.isLocation_exp env e)

include hloc in
theorem base_analyzed (h : loc.Clean env) :
    (loc.analyzed env).exp.base = (Resolve.exp env loc).value.base :=
  Check.base_exp h.check.fault ((Resolve.isLocation_exp env loc).trans hloc)

include hloc in
theorem resolve_of_clean_access (h : (Exp.access i k loc f).Clean env) :
    loc.Clean env ∧ (Resolve.access i (Resolve.exp env loc).value f).Silent := by
  obtain ⟨hr, hc⟩ := h
  rw [Resolve.exp, silent_andThen] at hr
  have hisLocation := (Resolve.isLocation_exp env loc).trans hloc
  obtain ⟨k', f', -, hvalue, -⟩ := Resolve.access_of_isLocation i hisLocation f
  rw [Resolve.exp, value_andThen hr.1.fault, hvalue, Check.exp, silent_andThen] at hc
  exact ⟨⟨hr.1, hc.1⟩, hr.2⟩

include henv hformed hloc in
theorem access_of_type (h : loc.Clean env) {d : StructDef} {g : Field StructDef}
    (htype : (loc.analyzed env).type = .struct d.name)
    (houter : env.outer? d.name = some (.struct d)) (hfield : d.field? f.name = some g) :
    Resolve.access i (Resolve.exp env loc).value f =
      .pure (.access i { owner := some d, target := g.shape.struct? } (Resolve.exp env loc).value
        (f.bind (.storage g.storage))) := by
  have hgiven := h.given henv.sound hformed
  obtain ⟨s, n, d', hlocates, hname⟩ := hgiven.locates_of_type henv.sound htype
  have hknown : env.outer? d'.name = some (.struct d') := henv.known hlocates
  rw [hname, houter] at hknown
  cases hknown
  have hbase := (base_analyzed hloc h).symm.trans ((hlocates.base d).mpr rfl)
  simp only [Resolve.access, hbase, Resolve.fieldOf, hfield]

include henv hformed hloc in
/-- An access is clean if it is to a field of a struct. -/
theorem clean_access : (Exp.access i k loc f).Clean env ↔ loc.Clean env ∧
    ∃ d g, (loc.analyzed env).type = .struct d.name ∧ env.outer? d.name = some (.struct d) ∧
      d.field? f.name = some g := by
  constructor
  · intro h
    obtain ⟨hclean, haccess⟩ := resolve_of_clean_access hloc h
    have hgiven := hclean.given henv.sound hformed
    have hanalyzed := (isLocation_analyzed env loc).trans hloc
    obtain ⟨d, g, hd, hfield, -⟩ := Resolve.access_of_silent
      (base_analyzed hloc hclean ▸ hgiven.base_ne_failed hanalyzed) haccess
    obtain ⟨s, n, hlocates⟩ := hgiven.locates hanalyzed ((base_analyzed hloc hclean).trans hd)
    exact ⟨hclean, d, g, hgiven.type_of_locates hlocates, henv.known hlocates, hfield⟩
  · rintro ⟨hclean, d, g, htype, houter, hfield⟩
    have haccess := access_of_type henv hformed hloc hclean htype houter hfield (i := i)
    refine ⟨?_, ?_⟩
    · rw [Resolve.exp, silent_andThen, haccess]
      exact ⟨hclean.resolve, silent_pure _⟩
    · rw [Resolve.exp, value_andThen hclean.resolve.fault, haccess, value_pure, Check.exp,
        silent_andThen, Check.ident_of_bound rfl, pure_andThen]
      exact ⟨hclean.check, silent_pure _⟩

include henv hformed hloc in
theorem analyzed_access (h : loc.Clean env) {d : StructDef} {g : Field StructDef}
    (htype : (loc.analyzed env).type = .struct d.name)
    (houter : env.outer? d.name = some (.struct d)) (hfield : d.field? f.name = some g) :
    (Exp.access i k loc f).analyzed env =
      Check.record (.access i { owner := some d, target := g.shape.struct? }
        (loc.analyzed env).exp (f.known (.storage g.storage))) g.shape.type := by
  have haccess := access_of_type henv hformed hloc h htype houter hfield (i := i)
  rw [analyzed, Resolve.exp, value_andThen h.resolve.fault, haccess, value_pure, Check.exp,
    value_andThen h.check.fault, Check.ident_of_bound rfl, pure_andThen]
  rfl

end Location

end Exp

/-! ## The rules -/

namespace Exp

/-- The type of an assignment that is accepted is that of a word. -/
theorem types_of_assign {env : Env} (henv : env.Sound) {l r : Exp} {whole : Exp}
    (hloc : l.isLocation = true) (hl : l.Formed) (hr : r.Formed) (hcl : l.Clean env)
    (hcr : r.Clean env)
    (h : (Check.assign whole (l.analyzed env).type (r.analyzed env).type).2 = []) :
    (l.analyzed env).type.IsWord ∧ (r.analyzed env).type = (l.analyzed env).type ∧
      (Check.assign whole (l.analyzed env).type (r.analyzed env).type).1 =
        (l.analyzed env).type := by
  have hgiven := hcl.given henv hl
  obtain ⟨hcause, hsame, hresult⟩ := Check.of_pair (Ty.ne_error_of_isGiven (hgiven.isGiven henv))
    (Ty.ne_error_of_isGiven ((hcr.given henv hr).isGiven henv)) h
  refine ⟨?_, hsame.symm, hresult⟩
  rw [← hsame] at hcause
  have hanalyzed := (isLocation_analyzed env l).trans hloc
  generalize (l.analyzed env).exp = e at hgiven hanalyzed
  generalize (l.analyzed env).type = t at hgiven hcause
  cases hgiven with
  | value hvalue =>
    obtain ⟨-, -, -, ht⟩ := hvalue.locates hanalyzed
    exact ht
  | struct => cases hcause
  | name _ hs => rcases hs with hs | hs <;> rw [hs] at hcause <;> cases hcause

/-- An accepted call is of a function, with arguments of the types of its formals. -/
theorem types_of_call {env : Env} (henv : env.Sound) {f : Ident} {s : Symbol} {ps : List Check.Part}
    (hfind : env.find? f.name = some s) (hps : ∀ p ∈ ps, p.type.isGiven = true)
    (h : (Check.call (f.known s) ps).2 = []) :
    ∃ sig, s = .function sig ∧ ps.map Check.Part.type = sig.params := by
  unfold Check.call at h
  rw [show (f.known s).binding = .bound s from rfl] at h
  cases s with
  | function sig =>
    cases henv.find? hfind with
    | function _ harity hwords _ =>
      dsimp only at h
      split at h
      · next hlength =>
        exact ⟨sig, rfl, Check.types_of_arguments (hlength.trans harity.symm) hps hwords h⟩
      · cases h
  | storage st =>
    have hne : (Symbol.storage st).type ≠ .error := by
      cases henv.find? hfind with
      | storage _ _ hlaid =>
        show st.shape.type ≠ .error
        generalize st.shape = sh at hlaid
        cases hlaid with
        | scalar ht => exact Ty.ne_error_of_isGiven ht.isGiven
        | struct => intro hx; cases hx
    dsimp only at h
    rw [if_neg hne] at h
    cases h
  | struct d => cases h

theorem call_of_types {env : Env} (henv : env.Sound) {f : Ident} {sig : Signature}
    {ps : List Check.Part} (hfind : env.find? f.name = some (.function sig))
    (hps : ps.map Check.Part.type = sig.params) :
    Check.call (f.known (.function sig)) ps = (sig.returns, []) := by
  cases henv.find? hfind with
  | function _ harity hwords _ =>
    have hlength : ps.length = sig.arity := by rw [← harity, ← hps, List.length_map]
    have hgiven : ∀ p ∈ ps, p.type.isGiven = true := fun p hp =>
      (hwords _ (hps ▸ List.mem_map_of_mem hp)).isGiven
    unfold Check.call
    rw [show (f.known (.function sig)).binding = .bound (.function sig) from rfl]
    dsimp only
    rw [if_pos hlength, ← hps, Check.arguments_of_types hgiven]

end Exp

mutual

/-- The rules give a clean expression a type, and the type that is recorded is the one. -/
theorem Exp.Clean.has {env : Env} (henv : env.Closed) : ∀ {e : Exp}, e.Formed → e.Clean env →
    e.Has Remark.none env.context (e.analyzed env).type ∧
      (e.analyzed env).exp.Has Remark.recorded env.context (e.analyzed env).type
  | .int .., _, _ => ⟨.int trivial, .int rfl⟩
  | .string .., _, _ => ⟨.string trivial, .string rfl⟩
  | .bool .., _, _ => ⟨.bool trivial, .bool rfl⟩
  | .ident x, _, h => by
    obtain ⟨s, hfind⟩ := Exp.clean_ident.mp h
    have hcontext : env.context.find? x.name = some s.entity := by
      rw [Env.find?_context, hfind]
      rfl
    rw [Exp.analyzed_ident hfind, ← s.type_entity]
    refine ⟨.ident hcontext trivial, .ident (x := x.known s) hcontext ?_⟩
    rw [s.type_entity]
    rfl
  | .access i k loc f, hformed, h => by
    obtain ⟨hclean, d, g, htype, houter, hfield⟩ :=
      (Exp.clean_access henv hformed.2.1 hformed.1).mp h
    obtain ⟨hraw, hrecorded⟩ := Exp.Clean.has henv hformed.2.1 hclean
    have hcontext : env.context.outer? d.name =
        some (.struct (d.fields.map fun f => (f.name, f.shape.type))) := by
      rw [Env.outer?_context, houter]
      rfl
    have hlookup : (d.fields.map fun f => (f.name, f.shape.type)).lookup f.name =
        some g.shape.type := by
      rw [StructDef.lookup_entity, hfield]
      rfl
    rw [htype] at hraw hrecorded
    rw [Exp.analyzed_access henv hformed.2.1 hformed.1 hclean htype houter hfield]
    exact ⟨.access hraw hcontext hlookup trivial trivial,
      .access hrecorded hcontext hlookup rfl rfl⟩
  | .assign i l r, hformed, h => by
    obtain ⟨hl, hr, hrule⟩ := Exp.clean_assign.mp h
    obtain ⟨hlraw, hlrecorded⟩ := Exp.Clean.has henv hformed.2.1 hl
    obtain ⟨hrraw, hrrecorded⟩ := Exp.Clean.has henv hformed.2.2 hr
    obtain ⟨hword, hsame, hresult⟩ :=
      Exp.types_of_assign henv.sound hformed.1 hformed.2.1 hformed.2.2 hl hr hrule
    rw [hsame] at hrraw hrrecorded
    rw [Exp.analyzed_assign hl hr, hresult]
    exact ⟨.assign hword hlraw hrraw trivial, .assign hword hlrecorded hrrecorded rfl⟩
  | .call i f s args, hformed, h => by
    obtain ⟨sym, hfind, hargs, hrule⟩ := Exp.clean_call.mp h
    obtain ⟨hraw, hrecorded⟩ := Exp.ListClean.have henv hformed.2 hargs
    have hgiven : ∀ p ∈ Exp.listAnalyzed env args, p.type.isGiven = true := fun p hp =>
      (given_exps henv.sound hformed.2 hargs.resolve hargs.check p hp).isGiven henv.sound
    obtain ⟨sig, rfl, htypes⟩ := Exp.types_of_call henv.sound hfind hgiven hrule
    have hcontext : env.context.find? f.name = some (.fn sig.params sig.returns) := by
      rw [Env.find?_context, hfind]
      rfl
    rw [htypes] at hraw hrecorded
    rw [Exp.analyzed_call hfind hargs, Exp.call_of_types henv.sound hfind htypes]
    exact ⟨.call hcontext hraw trivial trivial, .call hcontext hrecorded rfl rfl⟩
  | .neg i e, hformed, h => by
    obtain ⟨he, hrule⟩ := Exp.clean_neg.mp h
    obtain ⟨hraw, hrecorded⟩ := Exp.Clean.has henv (e := e) hformed he
    obtain ⟨htypes, hresult⟩ := Check.of_uniform (List.forall_mem_singleton.mpr
      (Ty.ne_error_of_isGiven ((he.given henv.sound (e := e) hformed).isGiven henv.sound))) hrule
    rw [htypes _ List.mem_cons_self] at hraw hrecorded
    rw [Exp.analyzed_neg he, hresult]
    exact ⟨.neg hraw trivial, .neg hrecorded rfl⟩
  | .not i e, hformed, h => by
    obtain ⟨he, hrule⟩ := Exp.clean_not.mp h
    obtain ⟨hraw, hrecorded⟩ := Exp.Clean.has henv (e := e) hformed he
    obtain ⟨htypes, hresult⟩ := Check.of_uniform (List.forall_mem_singleton.mpr
      (Ty.ne_error_of_isGiven ((he.given henv.sound (e := e) hformed).isGiven henv.sound))) hrule
    rw [htypes _ List.mem_cons_self] at hraw hrecorded
    rw [Exp.analyzed_not he, hresult]
    exact ⟨.not hraw trivial, .not hrecorded rfl⟩
  | .binary i op l r, hformed, h => by
    obtain ⟨hl, hr, hrule⟩ := (Exp.clean_binary hformed.1).mp h
    obtain ⟨hlraw, hlrecorded⟩ := Exp.Clean.has henv hformed.2.1 hl
    obtain ⟨hrraw, hrrecorded⟩ := Exp.Clean.has henv hformed.2.2 hr
    obtain ⟨htypes, hsame⟩ := Check.types_of_binary hformed.1
      ((hl.given henv.sound hformed.2.1).isGiven henv.sound)
      ((hr.given henv.sound hformed.2.2).isGiven henv.sound) hrule
    rw [hsame] at hrraw hrrecorded
    rw [Exp.analyzed_binary hformed.1 hl hr]
    exact ⟨.binary htypes hlraw hrraw trivial, .binary htypes hlrecorded hrrecorded rfl⟩

theorem Exp.ListClean.have {env : Env} (henv : env.Closed) : ∀ {es : List Exp},
    Exp.AllFormed es → Exp.ListClean env es →
    Exp.HaveAll Remark.none env.context es ((Exp.listAnalyzed env es).map Check.Part.type) ∧
      Exp.HaveAll Remark.recorded env.context ((Exp.listAnalyzed env es).map Check.Part.exp)
        ((Exp.listAnalyzed env es).map Check.Part.type)
  | [], _, _ => ⟨.nil, .nil⟩
  | e :: es, hformed, h => by
    obtain ⟨he, hes⟩ := Exp.listClean_cons.mp h
    obtain ⟨hraw, hrecorded⟩ := Exp.Clean.has henv hformed.1 he
    obtain ⟨hraws, hrecordeds⟩ := Exp.ListClean.have henv hformed.2 hes
    rw [Exp.listAnalyzed_cons he]
    exact ⟨.cons hraw hraws, .cons hrecorded hrecordeds⟩

end

mutual

/-- An expression that the rules give a type is clean and of that type. -/
theorem Exp.Has.clean {env : Env} (henv : env.Closed) : ∀ {e : Exp} {t : Ty}, e.Formed →
    e.Has Remark.none env.context t → e.Clean env ∧ (e.analyzed env).type = t
  | .int .., _, _, .int _ | .string .., _, _, .string _ | .bool .., _, _, .bool _ =>
    ⟨⟨silent_pure _, silent_pure _⟩, rfl⟩
  | .ident x, _, _, .ident hcontext _ => by
    rw [Env.find?_context] at hcontext
    obtain ⟨s, hfind, rfl⟩ := Option.map_eq_some_iff.mp hcontext
    rw [Exp.analyzed_ident hfind, s.type_entity]
    exact ⟨Exp.clean_ident.mpr ⟨s, hfind⟩, rfl⟩
  | .access i k loc f, t, hformed, .access hloc hcontext hlookup _ _ => by
    obtain ⟨hclean, htype⟩ := Exp.Has.clean henv hformed.2.1 hloc
    rw [Env.outer?_context] at hcontext
    obtain ⟨s, houter, hs⟩ := Option.map_eq_some_iff.mp hcontext
    cases s with
    | storage | function => cases hs
    | struct d =>
      cases hs
      rw [StructDef.lookup_entity] at hlookup
      obtain ⟨g, hfield, rfl⟩ := Option.map_eq_some_iff.mp hlookup
      have hname : d.name = _ := (henv.outer houter).1
      subst hname
      rw [Exp.analyzed_access henv hformed.2.1 hformed.1 hclean htype houter hfield]
      exact ⟨(Exp.clean_access henv hformed.2.1 hformed.1).mpr
        ⟨hclean, d, g, htype, houter, hfield⟩, rfl⟩
  | .assign i l r, t, hformed, .assign hword hl hr _ => by
    obtain ⟨hlclean, hltype⟩ := Exp.Has.clean henv hformed.2.1 hl
    obtain ⟨hrclean, hrtype⟩ := Exp.Has.clean henv hformed.2.2 hr
    have hrule : ∀ whole, Check.assign whole (l.analyzed env).type (r.analyzed env).type =
        (t, []) := by
      intro whole
      rw [hltype, hrtype]
      exact Check.pair_of_types (Ty.ne_error_of_isGiven hword.isGiven)
        (by rcases hword with rfl | rfl <;> rfl)
    rw [Exp.analyzed_assign hlclean hrclean, Exp.clean_assign, hrule]
    exact ⟨⟨hlclean, hrclean, rfl⟩, rfl⟩
  | .call i f s args, t, hformed, .call hcontext hargs _ _ => by
    obtain ⟨hclean, htypes⟩ := Exp.HaveAll.clean henv hformed.2 hargs
    rw [Env.find?_context] at hcontext
    obtain ⟨s, hfind, hs⟩ := Option.map_eq_some_iff.mp hcontext
    cases s with
    | storage | struct => cases hs
    | function sig =>
      cases hs
      have hrule := Exp.call_of_types henv.sound hfind htypes
      rw [Exp.analyzed_call hfind hclean, hrule]
      exact ⟨Exp.clean_call.mpr ⟨_, hfind, hclean, by rw [hrule]⟩, rfl⟩
  | .neg i e, _, hformed, .neg h _ => by
    obtain ⟨hclean, htype⟩ := Exp.Has.clean henv (e := e) hformed h
    have hrule : Check.uniform .int .int .arithmetic [e.analyzed env] = (.int, []) :=
      Check.uniform_of_types (List.forall_mem_singleton.mpr htype)
    rw [Exp.analyzed_neg hclean, Exp.clean_neg, hrule]
    exact ⟨⟨hclean, rfl⟩, rfl⟩
  | .not i e, _, hformed, .not h _ => by
    obtain ⟨hclean, htype⟩ := Exp.Has.clean henv (e := e) hformed h
    have hrule : Check.uniform .bool .bool .logical [e.analyzed env] = (.bool, []) :=
      Check.uniform_of_types (List.forall_mem_singleton.mpr htype)
    rw [Exp.analyzed_not hclean, Exp.clean_not, hrule]
    exact ⟨⟨hclean, rfl⟩, rfl⟩
  | .binary i op l r, t, hformed, .binary hop hl hr _ => by
    obtain ⟨hlclean, hltype⟩ := Exp.Has.clean henv hformed.2.1 hl
    obtain ⟨hrclean, hrtype⟩ := Exp.Has.clean henv hformed.2.2 hr
    rw [Exp.analyzed_binary hformed.1 hlclean hrclean, Exp.clean_binary hformed.1,
      Check.binary_of_types hop hltype hrtype]
    exact ⟨⟨hlclean, hrclean, rfl⟩, rfl⟩

theorem Exp.HaveAll.clean {env : Env} (henv : env.Closed) : ∀ {es : List Exp} {ts : List Ty},
    Exp.AllFormed es → Exp.HaveAll Remark.none env.context es ts →
    Exp.ListClean env es ∧ (Exp.listAnalyzed env es).map Check.Part.type = ts
  | [], _, _, .nil => ⟨⟨silent_pure _, silent_pure _⟩, rfl⟩
  | e :: es, _, hformed, .cons h hs => by
    obtain ⟨hclean, htype⟩ := Exp.Has.clean henv hformed.1 h
    obtain ⟨hcleans, htypes⟩ := Exp.HaveAll.clean henv hformed.2 hs
    rw [Exp.listAnalyzed_cons hclean, Exp.listClean_cons, List.map_cons, htype, htypes]
    exact ⟨⟨hclean, hcleans⟩, rfl⟩

end

end CMinusMinus
