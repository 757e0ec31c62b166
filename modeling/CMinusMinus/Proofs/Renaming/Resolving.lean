import CMinusMinus.Proofs.Renaming
import CMinusMinus.Proofs.Typing.Soundness

/-!
# Renaming and names

Name resolution binds the names of a renamed tree as it binds those of the tree.  Take a part that
is resolved without a report, rename what resolution left of it, and take any tree of that form:
among scopes with the new name that tree is resolved without a report too, and every identifier is
bound to the renamed symbol.

What the two resolved trees have in common is said by relations between trees.  They say nothing of
names that later passes do not look at.
-/

namespace CMinusMinus

open Outcome

variable {ρ : Renaming}

/-! ## Expressions -/

/-- Both identifiers are bound, and to the same declaration. -/
inductive Ident.Renamed (ρ : Renaming) : Ident → Ident → Prop where
  | bound {x x' : Ident} {s s' : Symbol} :
    x.binding = .bound s → x'.binding = .bound s' → x'.name = ρ.spell s.site x.name →
    s.Renamed ρ s' → Ident.Renamed ρ x x'

/-- Both accesses found the field of their name, at the same offset. -/
inductive FieldLink.Renamed (ρ : Renaming) : FieldLink → String → FieldLink → String → Prop where
  | found {d d' : StructDef} {g g' : Field StructDef} {name name' : String} :
    d.field? name = some g → d'.field? name' = some g' → g.Renamed ρ g' →
    FieldLink.Renamed ρ { owner := some d, target := g.shape.struct? } name
      { owner := some d', target := g'.shape.struct? } name'

mutual

/-- The expressions differ in the names of their identifiers, which are bound to the same
declarations. -/
inductive Exp.Renamed (ρ : Renaming) : Exp → Exp → Prop where
  | int {i i' : Info} {v : Int} : Exp.Renamed ρ (.int i v) (.int i' v)
  | string {i i' : Info} {text : String} : Exp.Renamed ρ (.string i text) (.string i' text)
  | bool {i i' : Info} {b : Bool} : Exp.Renamed ρ (.bool i b) (.bool i' b)
  | ident {x x' : Ident} : x.Renamed ρ x' → Exp.Renamed ρ (.ident x) (.ident x')
  | access {i i' : Info} {k k' : FieldLink} {loc loc' : Exp} {f f' : Ident} :
    Exp.Renamed ρ loc loc' → k.Renamed ρ f.name k' f'.name → f.Renamed ρ f' →
    Exp.Renamed ρ (.access i k loc f) (.access i' k' loc' f')
  | assign {i i' : Info} {l l' r r' : Exp} :
    Exp.Renamed ρ l l' → Exp.Renamed ρ r r' → Exp.Renamed ρ (.assign i l r) (.assign i' l' r')
  | call {i i' : Info} {f f' : Ident} {sp sp' : Option Span} {args args' : List Exp} :
    f.Renamed ρ f' → Exp.ListRenamed ρ args args' →
    Exp.Renamed ρ (.call i f sp args) (.call i' f' sp' args')
  | neg {i i' : Info} {e e' : Exp} : Exp.Renamed ρ e e' → Exp.Renamed ρ (.neg i e) (.neg i' e')
  | not {i i' : Info} {e e' : Exp} : Exp.Renamed ρ e e' → Exp.Renamed ρ (.not i e) (.not i' e')
  | binary {i i' : Info} {op : BinOp} {l l' r r' : Exp} :
    Exp.Renamed ρ l l' → Exp.Renamed ρ r r' →
    Exp.Renamed ρ (.binary i op l r) (.binary i' op l' r')

/-- The expressions differ in the names of their identifiers, one by one. -/
inductive Exp.ListRenamed (ρ : Renaming) : List Exp → List Exp → Prop where
  | nil : Exp.ListRenamed ρ [] []
  | cons {e e' : Exp} {es es' : List Exp} :
    Exp.Renamed ρ e e' → Exp.ListRenamed ρ es es' → Exp.ListRenamed ρ (e :: es) (e' :: es')

end

/-- Locations of structs stay locations of structs. -/
theorem Exp.Renamed.base {e e' : Exp} (h : e.Renamed ρ e') :
    e.base ≠ .failed ∧ ∀ d, e.base = .struct d → ∃ d', e'.base = .struct d' ∧ d.Renamed ρ d' := by
  cases h with
  | @ident x x' h =>
    obtain ⟨name, info, binding⟩ := x
    obtain ⟨name', info', binding'⟩ := x'
    obtain ⟨rfl, rfl, -, hs⟩ := h
    cases hs with
    | function | struct => exact ⟨nofun, nofun⟩
    | @storage s s' hs =>
      have hshape := hs.shape
      obtain ⟨n, site, place, shape⟩ := s
      obtain ⟨n', site', place', shape'⟩ := s'
      cases shape with
      | scalar => exact ⟨nofun, nofun⟩
      | struct d =>
        obtain ⟨d', rfl, hd⟩ : ∃ d', shape' = .struct d' ∧ d.Renamed ρ d' := hshape
        refine ⟨nofun, fun e he => ⟨d', rfl, ?_⟩⟩
        cases he
        exact hd
  | access _ hlink _ =>
    obtain @⟨_, _, g, g', _, _, -, -, hg⟩ := hlink
    obtain ⟨-, -, -, hshape⟩ := Field.renamed_iff.mp hg
    obtain ⟨n, site, offset, shape⟩ := g
    obtain ⟨n', site', offset', shape'⟩ := g'
    cases shape with
    | scalar => exact ⟨nofun, nofun⟩
    | struct d =>
      obtain ⟨d', rfl, hd⟩ : ∃ d', shape' = .struct d' ∧ d.Renamed ρ d' := hshape
      refine ⟨nofun, fun e he => ⟨d', rfl, ?_⟩⟩
      cases he
      exact hd
  | _ => exact ⟨nofun, nofun⟩

namespace Resolve

variable {env env' : Env}

theorem renamed_ident (henv : Env.Renamed ρ env env') {x y : Ident} (hs : (x.resolve env).Silent)
    (hy : y.form = ((x.resolve env).value.rename ρ).form) :
    (y.resolve env').Silent ∧ (x.resolve env).value.Renamed ρ (y.resolve env').value := by
  unfold Ident.resolve at hs hy ⊢
  cases hfind : Scopes.find? env x.name with
  | none =>
    rw [hfind] at hs
    cases silent_reporting.mp hs
  | some s =>
    rw [hfind] at hy
    obtain ⟨s', hs', hrelated⟩ := henv.find? hfind
    have hname : y.name = ρ.spell s.site x.name := congrArg Ident.name hy
    rw [hname, hs']
    exact ⟨silent_pure _, .bound rfl rfl hname hrelated⟩

theorem access_of_field {loc : Exp} {f : Ident} {d : StructDef} {g : Field StructDef}
    (hbase : loc.base = .struct d) (hfield : d.field? f.name = some g) (i : Info) :
    access i loc f = .pure (.access i { owner := some d, target := g.shape.struct? } loc
      (f.bind (.storage g.storage))) := by
  rw [access, hbase]
  dsimp only
  rw [fieldOf, hfield]

/-- Whatever becomes of an access, it stays an access to the same expression. -/
theorem value_access (i : Info) (loc : Exp) (f : Ident) :
    ∃ k x, (access i loc f).value = .access i k loc x := by
  unfold access fieldOf
  split
  · split <;> exact ⟨_, _, rfl⟩
  all_goals exact ⟨_, _, rfl⟩

/-- The access to a renamed field. -/
theorem renamed_access (i i' : Info) {loc loc' : Exp} {f f' : Ident} (hloc : loc.Renamed ρ loc')
    {d : StructDef} {g : Field StructDef} (hbase : loc.base = .struct d)
    (hfield : d.field? f.name = some g) (hname : f'.name = ρ.spell g.site f.name) :
    (access i' loc' f').Silent ∧ (access i loc f).value.Renamed ρ (access i' loc' f').value := by
  obtain ⟨d', hbase', hd⟩ := hloc.base.2 d hbase
  obtain ⟨g', hfield', hg⟩ := hd.field? hfield
  rw [← hname] at hfield'
  rw [access_of_field hbase hfield, access_of_field hbase' hfield']
  exact ⟨silent_pure _, .access hloc (.found hfield hfield' hg)
    (.bound rfl rfl hname (.storage hg.storage))⟩

mutual

/-- An expression that is resolved without a report, and one of the form of the renamed result. -/
theorem renamed_exp (henv : Env.Renamed ρ env env') : ∀ {e u : Exp}, (exp env e).Silent →
    u.form = ((exp env e).value.rename ρ).form →
    (exp env' u).Silent ∧ (exp env e).value.Renamed ρ (exp env' u).value
  | .int i v, u, _, hu => by
    cases u with
    | int =>
      cases hu
      exact ⟨silent_pure _, .int⟩
    | _ => cases hu
  | .string i s, u, _, hu => by
    cases u with
    | string =>
      cases hu
      exact ⟨silent_pure _, .string⟩
    | _ => cases hu
  | .bool i b, u, _, hu => by
    cases u with
    | bool =>
      cases hu
      exact ⟨silent_pure _, .bool⟩
    | _ => cases hu
  | .ident x, u, hs, hu => by
    rw [exp, silent_map] at hs
    rw [exp, value_map] at hu ⊢
    cases u with
    | ident y =>
      obtain ⟨hy, hrelated⟩ := renamed_ident henv hs (Exp.ident.inj hu)
      exact ⟨silent_map.mpr hy, .ident hrelated⟩
    | _ => cases hu
  | .access i k loc f, u, hs, hu => by
    rw [exp] at hs hu ⊢
    obtain ⟨hloc, haccess⟩ := silent_andThen.mp hs
    rw [value_andThen hloc.fault] at hu ⊢
    obtain ⟨k', x, hvalue⟩ := value_access i (exp env loc).value f
    cases u with
    | access i₁ k₁ loc₁ f₁ =>
      have hloc₁ : loc₁.form = ((exp env loc).value.rename ρ).form := by
        rw [hvalue] at hu
        exact (Exp.access.inj hu).2.2.1
      obtain ⟨hsloc, hrloc⟩ := renamed_exp henv hloc hloc₁
      obtain ⟨d, g, hbase, hfield, -⟩ := access_of_silent hrloc.base.1 haccess
      have hf₁ : f₁.name = ρ.spell g.site f.name := by
        rw [access_of_field hbase hfield] at hu
        exact congrArg Ident.name (Exp.access.inj hu).2.2.2
      obtain ⟨hsaccess, hraccess⟩ := renamed_access i i₁ hrloc hbase hfield hf₁
      rw [exp, value_andThen hsloc.fault]
      exact ⟨silent_andThen.mpr ⟨hsloc, hsaccess⟩, hraccess⟩
    | _ =>
      rw [hvalue] at hu
      cases hu
  | .assign i l r, u, hs, hu => by
    rw [exp] at hs hu ⊢
    obtain ⟨hl, hr⟩ := silent_andThen.mp hs
    rw [value_andThen hl.fault, value_map] at hu ⊢
    cases u with
    | assign i' l' r' =>
      obtain ⟨-, hl', hr'⟩ := Exp.assign.inj hu
      obtain ⟨hsl, hrl⟩ := renamed_exp henv hl hl'
      obtain ⟨hsr, hrr⟩ := renamed_exp henv (silent_map.mp hr) hr'
      rw [exp, value_andThen hsl.fault, value_map]
      exact ⟨silent_andThen.mpr ⟨hsl, silent_map.mpr hsr⟩, .assign hrl hrr⟩
    | _ => cases hu
  | .call i f s args, u, hs, hu => by
    rw [exp] at hs hu ⊢
    obtain ⟨hf, hargs⟩ := silent_andThen.mp hs
    rw [value_andThen hf.fault, value_map] at hu ⊢
    cases u with
    | call i' f' s' args' =>
      obtain ⟨-, hf', -, hargs'⟩ := Exp.call.inj hu
      obtain ⟨hsf, hrf⟩ := renamed_ident henv hf hf'
      obtain ⟨hsargs, hrargs⟩ := renamed_exps henv (silent_map.mp hargs) hargs'
      rw [exp, value_andThen hsf.fault, value_map]
      exact ⟨silent_andThen.mpr ⟨hsf, silent_map.mpr hsargs⟩, .call hrf hrargs⟩
    | _ => cases hu
  | .neg i e, u, hs, hu => by
    rw [exp, silent_map] at hs
    rw [exp, value_map] at hu ⊢
    cases u with
    | neg i' e' =>
      obtain ⟨hse, hre⟩ := renamed_exp henv hs (Exp.neg.inj hu).2
      exact ⟨silent_map.mpr hse, .neg hre⟩
    | _ => cases hu
  | .not i e, u, hs, hu => by
    rw [exp, silent_map] at hs
    rw [exp, value_map] at hu ⊢
    cases u with
    | not i' e' =>
      obtain ⟨hse, hre⟩ := renamed_exp henv hs (Exp.not.inj hu).2
      exact ⟨silent_map.mpr hse, .not hre⟩
    | _ => cases hu
  | .binary i op l r, u, hs, hu => by
    rw [exp] at hs hu ⊢
    obtain ⟨hl, hr⟩ := silent_andThen.mp hs
    rw [value_andThen hl.fault, value_map] at hu ⊢
    cases u with
    | binary i' op' l' r' =>
      obtain ⟨-, rfl, hl', hr'⟩ := Exp.binary.inj hu
      obtain ⟨hsl, hrl⟩ := renamed_exp henv hl hl'
      obtain ⟨hsr, hrr⟩ := renamed_exp henv (silent_map.mp hr) hr'
      rw [exp, value_andThen hsl.fault, value_map]
      exact ⟨silent_andThen.mpr ⟨hsl, silent_map.mpr hsr⟩, .binary hrl hrr⟩
    | _ => cases hu
  | .unknown i, _, hs, _ => absurd hs (not_silent_stop _ _)

theorem renamed_exps (henv : Env.Renamed ρ env env') : ∀ {es us : List Exp}, (exps env es).Silent →
    Exp.listForm us = Exp.listForm (Exp.listRename ρ (exps env es).value) →
    (exps env' us).Silent ∧ Exp.ListRenamed ρ (exps env es).value (exps env' us).value
  | [], us, _, hus => by
    cases us with
    | nil => exact ⟨silent_pure _, .nil⟩
    | cons => cases hus
  | e :: es, us, hs, hus => by
    rw [exps] at hs hus ⊢
    obtain ⟨he, hes⟩ := silent_andThen.mp hs
    rw [value_andThen he.fault, value_map] at hus ⊢
    cases us with
    | nil => cases hus
    | cons u us =>
      obtain ⟨hu, hus⟩ := List.cons.inj hus
      obtain ⟨hse, hre⟩ := renamed_exp henv he hu
      obtain ⟨hses, hres⟩ := renamed_exps henv (silent_map.mp hes) hus
      rw [exps, value_andThen hse.fault, value_map]
      exact ⟨silent_andThen.mpr ⟨hse, silent_map.mpr hses⟩, .cons hre hres⟩

end

end Resolve

/-! ## Declarations of variables -/

/-- The names that are declared are not the new one, and one that is to be renamed is the old
one. -/
def Renaming.AllSuit (ρ : Renaming) (ds : List VarDecl) : Prop :=
  ∀ d ∈ ds, ρ.Suits d.span d.name.name

/-- The variable was accepted under either name. -/
structure VarDecl.Renamed (ρ : Renaming) (d d' : VarDecl) : Prop where
  role : d'.role = d.role
  name : d.name.Renamed ρ d'.name

namespace Resolve

variable {env env' : Env}

/-- A type without reports stands for a shape of storage, and so does the renamed type. -/
theorem renamed_shape (henv : Env.Renamed ρ env env') {d u : VarDecl} (hs : (shape env d).Silent)
    (hu : u.type.form = ((shape env d).value.1.rename ρ).form) :
    (shape env' u).Silent ∧ ∃ sh sh', (shape env d).value.2 = some sh ∧
      (shape env' u).value.2 = some sh' ∧ sh.Renamed ρ sh' := by
  unfold shape at hs hu ⊢
  cases hd : d.type with
  | int sp =>
    rw [hd] at hu
    cases hu' : u.type with
    | int => exact ⟨silent_pure _, _, _, rfl, rfl, by decide, rfl⟩
    | _ =>
      rw [hu'] at hu
      cases hu
  | bool sp =>
    rw [hd] at hu
    cases hu' : u.type with
    | bool => exact ⟨silent_pure _, _, _, rfl, rfl, by decide, rfl⟩
    | _ =>
      rw [hu'] at hu
      cases hu
  | void sp =>
    rw [hd] at hs
    cases silent_reporting.mp hs
  | unknown sp =>
    rw [hd] at hs
    exact absurd hs (not_silent_stop _ _)
  | struct sp x =>
    rw [hd] at hs hu
    dsimp only at hs hu
    split at hs
    · next layout hlayout =>
      rw [hlayout] at hu
      obtain ⟨s', hs', hrelated⟩ := henv.outer? hlayout
      cases hrelated with
      | @struct _ layout' hlayout_renamed =>
        cases hu' : u.type with
        | struct sp' y =>
          rw [hu'] at hu
          have hy : y.name = ρ.spell (Symbol.struct layout).site x.name :=
            congrArg Ident.name (TypeNode.struct.inj hu).2
          rw [← hy] at hs'
          dsimp only
          rw [hlayout, hs']
          exact ⟨silent_pure _, _, _, rfl, rfl, layout', rfl, hlayout_renamed⟩
        | _ =>
          rw [hu'] at hu
          cases hu
    · cases silent_reporting.mp hs

theorem type_declare {env : Env} {taken : Option NameCause} {place : Shape StructDef → Place}
    {d : VarDecl} (h : (shape env d).fault = none) :
    (declare env taken place d).value.1.type = (shape env d).value.1 := by
  rw [declare, value_andThen h]
  dsimp only
  split <;> rfl

/-- A declaration that is accepted. -/
theorem declare_of_shape {env : Env} (place : Shape StructDef → Place) {d : VarDecl}
    (h : (shape env d).Silent) {sh : Shape StructDef} (hsh : (shape env d).value.2 = some sh) :
    (declare env none place d).Silent ∧ (declare env none place d).value =
      ({ d with
          type := (shape env d).value.1
          name := d.name.bind (.storage ⟨d.name.name, d.span, place sh, sh⟩) },
        some ⟨d.name.name, d.span, place sh, sh⟩) := by
  obtain ⟨type, hvalue⟩ : ∃ type, (shape env d).value = (type, some sh) := ⟨_, Prod.ext rfl hsh⟩
  rw [declare, silent_andThen, value_andThen h.fault, hvalue]
  exact ⟨⟨h, silent_pure _⟩, rfl⟩

/-- A declaration without a report is accepted under the new name too, with storage at the same
place. -/
theorem renamed_declare (henv : Env.Renamed ρ env env') {taken : Option NameCause}
    (taken' : Option NameCause) (place : Shape StructDef → Place) {d u : VarDecl}
    (hsuits : ρ.Suits d.span d.name.name)
    (htaken : taken = none → u.name.name = ρ.spell d.span d.name.name → taken' = none)
    (hplace : ∀ sh sh', sh.Renamed ρ sh' → place sh' = place sh)
    (hglobal : ∀ sh, place sh = .static → d.span ≠ ρ.site)
    (hs : (declare env taken place d).Silent)
    (hu : u.form = ((declare env taken place d).value.1.rename ρ).form) :
    (declare env' taken' place u).Silent ∧ ∃ d₁ u₁ s s',
      (declare env taken place d).value = (d₁, some s) ∧
      (declare env' taken' place u).value = (u₁, some s') ∧ d₁.Renamed ρ u₁ ∧
      d₁.name.binding = .bound (.storage s) ∧ s.site = d.span ∧ ρ.Suits s.site s.name ∧
      s.Renamed ρ s' := by
  have hshape : (shape env d).Silent := by
    rw [declare, silent_andThen] at hs
    exact hs.1
  obtain ⟨hshape', sh, sh', hsh, hsh', hrelated⟩ := renamed_shape henv hshape
    (u := u) (by rw [← type_declare hshape.fault]; exact congrArg VarDecl.type hu)
  have hnone : taken = none := by
    rw [declare, silent_andThen] at hs
    cases taken with
    | none => rfl
    | some cause => cases silent_reporting.mp hs.2
  subst hnone
  obtain ⟨-, hvalue⟩ := declare_of_shape place hshape hsh
  rw [hvalue] at hu ⊢
  have hrole : u.role = d.role := (congrArg VarDecl.role hu : u.form.role = _)
  have hname : u.name.name = ρ.spell d.span d.name.name :=
    congrArg Ident.name (congrArg VarDecl.name hu)
  cases htaken rfl hname
  obtain ⟨hsilent, hvalue'⟩ := declare_of_shape place hshape' hsh'
  rw [hvalue']
  have hstorage : Storage.Renamed ρ ⟨d.name.name, d.span, place sh, sh⟩
      ⟨u.name.name, u.span, place sh', sh'⟩ := ⟨hname, hplace _ _ hrelated, hrelated, hglobal _⟩
  exact ⟨hsilent, _, _, _, _, rfl, rfl, ⟨hrole, .bound rfl rfl hname (.storage hstorage)⟩, rfl, rfl,
    hsuits, hstorage⟩

/-- A variable that was accepted, among the scopes. -/
theorem renamed_extend (henv : Env.Renamed ρ env env') {s s' : Storage}
    (hsuits : ρ.Suits s.site s.name) (h : s.Renamed ρ s') :
    Env.Renamed ρ (extend env (some s)) (extend env' (some s')) :=
  henv.insert (.storage h) hsuits h.name

theorem renamed_taken (henv : Env.Renamed ρ env env') {site : Option Span} {name name' : String}
    (hsuits : ρ.Suits site name) (h : taken env name = none) (hname : name' = ρ.spell site name) :
    taken env' name' = none := by
  rw [taken, hname, henv.inner?_eq_none hsuits (taken_eq_none h)]
  rfl

/-- A number that is logged of one tree is logged of the other. -/
theorem silent_logged {α β : Type} {number : Option Int} {a : α} (h : (logged number a).Silent)
    (b : β) : (logged number b).Silent := by
  rw [logged_eq_map number (fun _ => b) a]
  exact silent_map.mpr h

section Sequence

variable {go : Env → Frame → List VarDecl → Resolved (List VarDecl × Env × Frame)}
  {place : Frame → Shape StructDef → Place} {next : Frame → Option Storage → Frame}
  {number : Frame → Option Storage → Option Int}

/-- Variables that are declared one after another, if where they lie and what is logged of them
depends on the shapes of their storage only. -/
theorem Sequence.renamed (hgo : Sequence go place next number)
    (hplace : ∀ frame sh sh', sh.Renamed ρ sh' → place frame sh' = place frame sh)
    (hglobal : ∀ frame sh, place frame sh ≠ .static)
    (hnext : ∀ frame s s', s.Renamed ρ s' → next frame (some s') = next frame (some s))
    (hnumber : ∀ frame s s', s.Renamed ρ s' → number frame (some s') = number frame (some s))
    (henv : Env.Renamed ρ env env') {frame : Frame} {ds us : List VarDecl} (hsuit : ρ.AllSuit ds)
    (hs : (go env frame ds).Silent)
    (hus : us.map VarDecl.form =
      ((go env frame ds).value.1.map (VarDecl.rename ρ)).map VarDecl.form) :
    (go env' frame us).Silent ∧
      List.Forall₂ (VarDecl.Renamed ρ) (go env frame ds).value.1 (go env' frame us).value.1 ∧
      Env.Renamed ρ (go env frame ds).value.2.1 (go env' frame us).value.2.1 ∧
      (go env' frame us).value.2.2 = (go env frame ds).value.2.2 := by
  induction ds generalizing env env' frame us with
  | nil =>
    rw [hgo.nil] at hus ⊢
    cases us with
    | nil =>
      rw [hgo.nil]
      exact ⟨silent_pure _, .nil, henv, rfl⟩
    | cons => cases hus
  | cons d ds ih =>
    obtain ⟨hd, hds⟩ := List.forall_mem_cons.mp hsuit
    obtain ⟨_, _, hcons⟩ := hgo.cons env frame d ds
    rw [hcons] at hs hus ⊢
    obtain ⟨hdeclare, hs⟩ := silent_andThen.mp hs
    obtain ⟨hlogged, hrest⟩ := silent_andThen.mp hs
    rw [value_andThen hdeclare.fault, value_andThen hlogged.fault, value_logged, value_map]
      at hus ⊢
    cases us with
    | nil => cases hus
    | cons u us =>
      obtain ⟨hsu, d₁, u₁, s, s', hvalue, hvalue', hrelated, -, -, hsuits, hstorage⟩ :=
        renamed_declare henv (taken env' u.name.name) (place frame) hd (renamed_taken henv hd)
          (hplace frame) (fun sh h => absurd h (hglobal frame sh)) hdeclare (List.cons.inj hus).1
      simp only [hvalue, value_logged, silent_map] at hus hrest hlogged ⊢
      obtain ⟨hsus, hrest', henv', hframe⟩ :=
        ih (renamed_extend henv hsuits hstorage) hds hrest (List.cons.inj hus).2
      obtain ⟨_, _, hcons'⟩ := hgo.cons env' frame u us
      have hlogged' := silent_logged hlogged (u₁, some s')
      rw [← hnumber frame s s' hstorage] at hlogged'
      rw [hcons', silent_andThen, silent_andThen, value_andThen hsu.fault, hvalue']
      dsimp only
      rw [value_andThen hlogged'.fault, value_logged, silent_map]
      dsimp only
      rw [hnext frame s s' hstorage]
      exact ⟨⟨hsu, hlogged', hsus⟩, .cons hrelated hrest', henv', hframe⟩

end Sequence

theorem renamed_localVars (henv : Env.Renamed ρ env env') {frame : Frame} {ds us : List VarDecl}
    (hsuit : ρ.AllSuit ds) (hs : (localVars env frame ds).Silent)
    (hus : us.map VarDecl.form =
      ((localVars env frame ds).value.1.map (VarDecl.rename ρ)).map VarDecl.form) :
    (localVars env' frame us).Silent ∧
      List.Forall₂ (VarDecl.Renamed ρ) (localVars env frame ds).value.1
        (localVars env' frame us).value.1 ∧
      Env.Renamed ρ (localVars env frame ds).value.2.1 (localVars env' frame us).value.2.1 ∧
      (localVars env' frame us).value.2.2 = (localVars env frame ds).value.2.2 :=
  sequence_localVars.renamed (fun _ _ _ h => by rw [h.size]) (fun _ _ => nofun)
    (fun _ _ _ h => by rw [extendFrame, extendFrame, h.shape.size])
    (fun _ _ _ h => by
      rw [localNumber, localNumber, Option.map_some, Option.map_some, h.shape.size])
    henv hsuit hs hus

theorem renamed_formals (henv : Env.Renamed ρ env env') {frame : Frame} {ds us : List VarDecl}
    (hsuit : ρ.AllSuit ds) (hs : (formals env frame ds).Silent)
    (hus : us.map VarDecl.form =
      ((formals env frame ds).value.1.map (VarDecl.rename ρ)).map VarDecl.form) :
    (formals env' frame us).Silent ∧
      List.Forall₂ (VarDecl.Renamed ρ) (formals env frame ds).value.1
        (formals env' frame us).value.1 ∧
      Env.Renamed ρ (formals env frame ds).value.2.1 (formals env' frame us).value.2.1 ∧
      (formals env' frame us).value.2.2 = (formals env frame ds).value.2.2 :=
  sequence_formals.renamed (fun _ _ _ _ => rfl) (fun _ _ => nofun) (fun _ _ _ _ => rfl)
    (fun _ _ _ _ => rfl) henv hsuit hs hus

theorem takenField_eq_none_iff {fs : List (Field StructDef)} {name : String} :
    takenField fs name = none ↔ fs.find? (·.name == name) = none := by
  rw [takenField, List.find?_eq_none]
  split
  · next hany =>
    refine iff_of_false nofun fun hnone => ?_
    obtain ⟨f, hf, heq⟩ := List.any_eq_true.mp hany
    exact hnone f hf heq
  · next hany => exact iff_of_true rfl fun f hf heq => hany (List.any_eq_true.mpr ⟨f, hf, heq⟩)

theorem renamed_fields (henv : Env.Renamed ρ env env') {before before' : List (Field StructDef)}
    (hbefore : List.Forall₂ (Field.Renamed ρ) before before') {size : Nat} {ds us : List VarDecl}
    (hsuit : ρ.AllSuit ds) (hs : (fields env before size ds).Silent)
    (hus : us.map VarDecl.form =
      ((fields env before size ds).value.1.map (VarDecl.rename ρ)).map VarDecl.form) :
    (fields env' before' size us).Silent ∧
      List.Forall₂ (Field.Renamed ρ) (fields env before size ds).value.2.1
        (fields env' before' size us).value.2.1 ∧
      (fields env' before' size us).value.2.2 = (fields env before size ds).value.2.2 := by
  induction ds generalizing before before' size us with
  | nil =>
    cases us with
    | nil => exact ⟨silent_pure _, hbefore, rfl⟩
    | cons => cases hus
  | cons d ds ih =>
    obtain ⟨hd, hds⟩ := List.forall_mem_cons.mp hsuit
    rw [fields] at hs hus ⊢
    obtain ⟨hfirst, hrest⟩ := silent_andThen.mp hs
    rw [value_andThen hfirst.fault, value_map] at hus ⊢
    cases us with
    | nil => cases hus
    | cons u us =>
      have htaken : takenField before d.name.name = none →
          u.name.name = ρ.spell d.span d.name.name → takenField before' u.name.name = none := by
        intro hnone hname
        rw [takenField_eq_none_iff] at hnone ⊢
        rw [hname]
        exact Field.find?_renamed_none hbefore hd hnone
      obtain ⟨hsu, d₁, u₁, s, s', hvalue, hvalue', -, -, -, hsuits, hstorage⟩ :=
        renamed_declare henv (takenField before' u.name.name) (fun _ => .unplaced) hd htaken
          (fun _ _ _ => rfl) (fun _ h => by cases h) hfirst (List.cons.inj hus).1
      have hfield : Field.Renamed ρ ⟨s.name, s.site, size, s.shape⟩
          ⟨s'.name, s'.site, size, s'.shape⟩ :=
        Field.renamed_iff.mpr ⟨hsuits, hstorage.name, rfl, hstorage.shape⟩
      simp only [hvalue, addField, silent_map] at hus hrest ⊢
      obtain ⟨hsus, hrest', hsize⟩ := ih (List.rel_append hbefore (.cons hfield .nil)) hds hrest
        (List.cons.inj hus).2
      rw [fields, silent_andThen, value_andThen hsu.fault]
      simp only [silent_map, value_map, hvalue', addField, hstorage.shape.size]
      exact ⟨⟨hsu, hsus⟩, hrest', hsize⟩

end Resolve

/-! ## Statements -/

mutual

/-- The statements differ in names only. -/
inductive Stmt.Renamed (ρ : Renaming) : Stmt → Stmt → Prop where
  | assign {s s' : Option Span} {e e' : Exp} :
    e.Renamed ρ e' → Stmt.Renamed ρ (.assign s e) (.assign s' e')
  | increment {s s' : Option Span} {e e' : Exp} :
    e.Renamed ρ e' → Stmt.Renamed ρ (.increment s e) (.increment s' e')
  | decrement {s s' : Option Span} {e e' : Exp} :
    e.Renamed ρ e' → Stmt.Renamed ρ (.decrement s e) (.decrement s' e')
  | read {s s' : Option Span} {e e' : Exp} :
    e.Renamed ρ e' → Stmt.Renamed ρ (.read s e) (.read s' e')
  | write {s s' : Option Span} {e e' : Exp} :
    e.Renamed ρ e' → Stmt.Renamed ρ (.write s e) (.write s' e')
  | ifThen {s s' : Option Span} {e e' : Exp} {b b' : Block Stmt} :
    e.Renamed ρ e' → Stmt.BlockRenamed ρ b b' → Stmt.Renamed ρ (.ifThen s e b) (.ifThen s' e' b')
  | ifElse {s s' : Option Span} {e e' : Exp} {b₁ b₁' b₂ b₂' : Block Stmt} :
    e.Renamed ρ e' → Stmt.BlockRenamed ρ b₁ b₁' → Stmt.BlockRenamed ρ b₂ b₂' →
    Stmt.Renamed ρ (.ifElse s e b₁ b₂) (.ifElse s' e' b₁' b₂')
  | while {s s' : Option Span} {e e' : Exp} {b b' : Block Stmt} :
    e.Renamed ρ e' → Stmt.BlockRenamed ρ b b' → Stmt.Renamed ρ (.while s e b) (.while s' e' b')
  | call {s s' : Option Span} {e e' : Exp} :
    e.Renamed ρ e' → Stmt.Renamed ρ (.call s e) (.call s' e')
  | exit {s s' : Option Span} : Stmt.Renamed ρ (.return s none) (.return s' none)
  | return {s s' : Option Span} {e e' : Exp} :
    e.Renamed ρ e' → Stmt.Renamed ρ (.return s (some e)) (.return s' (some e'))

/-- The blocks differ in names only. -/
inductive Stmt.BlockRenamed (ρ : Renaming) : Block Stmt → Block Stmt → Prop where
  | intro {ds ds' : VarDecls} {s s' : Option Span} {ss ss' : List Stmt} :
    List.Forall₂ (VarDecl.Renamed ρ) ds.items ds'.items → Stmt.ListRenamed ρ ss ss' →
    Stmt.BlockRenamed ρ ⟨ds, s, ss⟩ ⟨ds', s', ss'⟩

/-- The statements differ in names only, one by one. -/
inductive Stmt.ListRenamed (ρ : Renaming) : List Stmt → List Stmt → Prop where
  | nil : Stmt.ListRenamed ρ [] []
  | cons {s s' : Stmt} {ss ss' : List Stmt} :
    Stmt.Renamed ρ s s' → Stmt.ListRenamed ρ ss ss' → Stmt.ListRenamed ρ (s :: ss) (s' :: ss')

end

namespace Resolve

mutual

/-- A statement that is resolved without a report, and one of the form of the renamed result. -/
theorem renamed_stmt : ∀ {s u : Stmt} {env env' : Env} {frame : Frame}, Env.Renamed ρ env env' →
    ρ.AllSuit s.locals → (stmt env frame s).Silent →
    u.form = ((stmt env frame s).value.1.rename ρ).form →
    (stmt env' frame u).Silent ∧
      (stmt env frame s).value.1.Renamed ρ (stmt env' frame u).value.1 ∧
      (stmt env' frame u).value.2 = (stmt env frame s).value.2
  | .assign _ e, u, _, _, _, henv, _, hs, hu => by
    rw [stmt, silent_map] at hs
    rw [stmt, value_map] at hu ⊢
    cases u with
    | assign _ e' =>
      obtain ⟨hse, hre⟩ := renamed_exp henv hs (Stmt.assign.inj hu).2
      rw [stmt, silent_map, value_map]
      exact ⟨hse, .assign hre, rfl⟩
    | «return» _ v => cases v <;> cases hu
    | _ => cases hu
  | .increment _ e, u, _, _, _, henv, _, hs, hu => by
    rw [stmt, silent_map] at hs
    rw [stmt, value_map] at hu ⊢
    cases u with
    | increment _ e' =>
      obtain ⟨hse, hre⟩ := renamed_exp henv hs (Stmt.increment.inj hu).2
      rw [stmt, silent_map, value_map]
      exact ⟨hse, .increment hre, rfl⟩
    | «return» _ v => cases v <;> cases hu
    | _ => cases hu
  | .decrement _ e, u, _, _, _, henv, _, hs, hu => by
    rw [stmt, silent_map] at hs
    rw [stmt, value_map] at hu ⊢
    cases u with
    | decrement _ e' =>
      obtain ⟨hse, hre⟩ := renamed_exp henv hs (Stmt.decrement.inj hu).2
      rw [stmt, silent_map, value_map]
      exact ⟨hse, .decrement hre, rfl⟩
    | «return» _ v => cases v <;> cases hu
    | _ => cases hu
  | .read _ e, u, _, _, _, henv, _, hs, hu => by
    rw [stmt, silent_map] at hs
    rw [stmt, value_map] at hu ⊢
    cases u with
    | read _ e' =>
      obtain ⟨hse, hre⟩ := renamed_exp henv hs (Stmt.read.inj hu).2
      rw [stmt, silent_map, value_map]
      exact ⟨hse, .read hre, rfl⟩
    | «return» _ v => cases v <;> cases hu
    | _ => cases hu
  | .write _ e, u, _, _, _, henv, _, hs, hu => by
    rw [stmt, silent_map] at hs
    rw [stmt, value_map] at hu ⊢
    cases u with
    | write _ e' =>
      obtain ⟨hse, hre⟩ := renamed_exp henv hs (Stmt.write.inj hu).2
      rw [stmt, silent_map, value_map]
      exact ⟨hse, .write hre, rfl⟩
    | «return» _ v => cases v <;> cases hu
    | _ => cases hu
  | .call _ e, u, _, _, _, henv, _, hs, hu => by
    rw [stmt, silent_map] at hs
    rw [stmt, value_map] at hu ⊢
    cases u with
    | call _ e' =>
      obtain ⟨hse, hre⟩ := renamed_exp henv hs (Stmt.call.inj hu).2
      rw [stmt, silent_map, value_map]
      exact ⟨hse, .call hre, rfl⟩
    | «return» _ v => cases v <;> cases hu
    | _ => cases hu
  | .ifThen _ e b, u, _, _, _, henv, hsuit, hs, hu => by
    rw [stmt] at hs hu ⊢
    obtain ⟨he, hb⟩ := silent_andThen.mp hs
    rw [value_andThen he.fault, value_map] at hu ⊢
    cases u with
    | ifThen _ e' b' =>
      obtain ⟨-, he', hb'⟩ := Stmt.ifThen.inj hu
      obtain ⟨hse, hre⟩ := renamed_exp henv he he'
      obtain ⟨hsb, hrb, hframe⟩ := renamed_block henv.enter hsuit (silent_map.mp hb) hb'
      rw [stmt, silent_andThen, silent_map, value_andThen hse.fault, value_map]
      exact ⟨⟨hse, hsb⟩, .ifThen hre hrb, hframe⟩
    | «return» _ v => cases v <;> cases hu
    | _ => cases hu
  | .while _ e b, u, _, _, _, henv, hsuit, hs, hu => by
    rw [stmt] at hs hu ⊢
    obtain ⟨he, hb⟩ := silent_andThen.mp hs
    rw [value_andThen he.fault, value_map] at hu ⊢
    cases u with
    | «while» _ e' b' =>
      obtain ⟨-, he', hb'⟩ := Stmt.while.inj hu
      obtain ⟨hse, hre⟩ := renamed_exp henv he he'
      obtain ⟨hsb, hrb, hframe⟩ := renamed_block henv.enter hsuit (silent_map.mp hb) hb'
      rw [stmt, silent_andThen, silent_map, value_andThen hse.fault, value_map]
      exact ⟨⟨hse, hsb⟩, .while hre hrb, hframe⟩
    | «return» _ v => cases v <;> cases hu
    | _ => cases hu
  | .ifElse _ e b₁ b₂, u, env, env', frame, henv, hsuit, hs, hu => by
    obtain ⟨hsuit₁, hsuit₂⟩ := List.forall_mem_append.mp hsuit
    rw [stmt] at hs hu ⊢
    obtain ⟨he, hs⟩ := silent_andThen.mp hs
    obtain ⟨hb₁, hb₂⟩ := silent_andThen.mp hs
    rw [value_andThen he.fault, value_andThen hb₁.fault, value_map] at hu ⊢
    cases u with
    | ifElse _ e' b₁' b₂' =>
      obtain ⟨-, he', hb₁', hb₂'⟩ := Stmt.ifElse.inj hu
      obtain ⟨hse, hre⟩ := renamed_exp henv he he'
      obtain ⟨hsb₁, hrb₁, hframe₁⟩ := renamed_block henv.enter hsuit₁ hb₁ hb₁'
      obtain ⟨hsb₂, hrb₂, hframe₂⟩ := renamed_block henv.enter hsuit₂ (silent_map.mp hb₂) hb₂'
      rw [stmt, silent_andThen, silent_andThen, silent_map, value_andThen hse.fault,
        value_andThen hsb₁.fault, value_map, hframe₁]
      exact ⟨⟨hse, hsb₁, hsb₂⟩, .ifElse hre hrb₁ hrb₂, hframe₂⟩
    | «return» _ v => cases v <;> cases hu
    | _ => cases hu
  | .return _ none, u, _, _, _, _, _, _, hu => by
    cases u with
    | «return» _ v =>
      cases v with
      | none => exact ⟨silent_pure _, .exit, rfl⟩
      | some => cases hu
    | _ => cases hu
  | .return _ (some e), u, _, _, _, henv, _, hs, hu => by
    rw [stmt, silent_map] at hs
    rw [stmt, value_map] at hu ⊢
    cases u with
    | «return» _ v =>
      cases v with
      | none => cases hu
      | some e' =>
        obtain ⟨hse, hre⟩ := renamed_exp henv hs (Option.some.inj (Stmt.return.inj hu).2)
        rw [stmt, silent_map, value_map]
        exact ⟨hse, .return hre, rfl⟩
    | _ => cases hu
  | .unknown _, _, _, _, _, _, _, hs, _ => absurd hs (not_silent_stop _ _)

theorem renamed_block : ∀ {b u : Block Stmt} {env env' : Env} {frame : Frame},
    Env.Renamed ρ env env' → ρ.AllSuit (Stmt.blockLocals b) → (block env frame b).Silent →
    Stmt.blockForm u = Stmt.blockForm (Stmt.blockRename ρ (block env frame b).value.1) →
    (block env' frame u).Silent ∧
      Stmt.BlockRenamed ρ (block env frame b).value.1 (block env' frame u).value.1 ∧
      (block env' frame u).value.2 = (block env frame b).value.2
  | ⟨ds, _, ss⟩, ⟨us, _, ts⟩, _, _, _, henv, hsuit, hs, hu => by
    obtain ⟨hsuit_ds, hsuit_ss⟩ := List.forall_mem_append.mp hsuit
    rw [block] at hs hu
    obtain ⟨hds, hss⟩ := silent_andThen.mp hs
    rw [value_andThen hds.fault, value_map] at hu
    obtain ⟨hus, -, hts⟩ := Block.mk.inj hu
    obtain ⟨hsus, hrus, henv', hframe⟩ :=
      renamed_localVars henv hsuit_ds hds (congrArg VarDecls.items hus)
    obtain ⟨hsts, hrts, hframe'⟩ := renamed_stmts henv' hsuit_ss (silent_map.mp hss) hts
    rw [block, block, silent_andThen, silent_map, value_andThen hds.fault, value_map,
      value_andThen hsus.fault, value_map, hframe]
    exact ⟨⟨hsus, hsts⟩, .intro hrus hrts, hframe'⟩

theorem renamed_stmts : ∀ {ss us : List Stmt} {env env' : Env} {frame : Frame},
    Env.Renamed ρ env env' → ρ.AllSuit (Stmt.listLocals ss) → (stmts env frame ss).Silent →
    Stmt.listForm us = Stmt.listForm (Stmt.listRename ρ (stmts env frame ss).value.1) →
    (stmts env' frame us).Silent ∧
      Stmt.ListRenamed ρ (stmts env frame ss).value.1 (stmts env' frame us).value.1 ∧
      (stmts env' frame us).value.2 = (stmts env frame ss).value.2
  | [], us, _, _, _, _, _, _, hus => by
    cases us with
    | nil => exact ⟨silent_pure _, .nil, rfl⟩
    | cons => cases hus
  | s :: ss, us, _, _, _, henv, hsuit, hs, hus => by
    obtain ⟨hsuit_s, hsuit_ss⟩ := List.forall_mem_append.mp hsuit
    rw [stmts] at hs hus ⊢
    obtain ⟨hfirst, hrest⟩ := silent_andThen.mp hs
    rw [value_andThen hfirst.fault, value_map] at hus ⊢
    cases us with
    | nil => cases hus
    | cons u us =>
      obtain ⟨hu, hus⟩ := List.cons.inj hus
      obtain ⟨hsu, hru, hframe⟩ := renamed_stmt henv hsuit_s hfirst hu
      rw [stmts, silent_andThen, silent_map, value_andThen hsu.fault, value_map, hframe]
      obtain ⟨hsus, hrus, hframe'⟩ := renamed_stmts henv hsuit_ss (silent_map.mp hrest) hus
      exact ⟨⟨hsu, hsus⟩, .cons hru hrus, hframe'⟩

end

end Resolve

end CMinusMinus
