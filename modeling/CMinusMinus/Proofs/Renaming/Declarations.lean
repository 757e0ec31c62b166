import CMinusMinus.Proofs.Renaming.Resolving
import CMinusMinus.Proofs.Rules.Programs

/-!
# Renaming and declarations

What is renamed is declared inside a function or a struct, or is a struct.  So functions and globals
keep their names, and with them their labels.  The renamed declarations of a program are resolved as
the program is: without a report, with the same frames and with structs of the same layout
(`Resolve.renamed_decls`).
-/

namespace CMinusMinus

open Outcome

variable {ρ : Renaming}

/-- What is declared at the top of a program under its own name, unless it is a struct; all names in
it suit the renaming. -/
def Renaming.SuitsDecl (ρ : Renaming) : Decl → Prop
  | .var d => d.span ≠ ρ.site ∧ d.name.name ≠ ρ.new
  | .fn d =>
    d.span ≠ ρ.site ∧ d.name.name ≠ ρ.new ∧ ρ.AllSuit d.formals.items ∧
      ρ.AllSuit (Stmt.blockLocals d.body)
  | .struct d => ρ.Suits d.span d.name.name ∧ ρ.AllSuit d.fields.items
  | .unknown _ => False

theorem Renaming.suits_of_ne {site : Option Span} {name : String} (hsite : site ≠ ρ.site)
    (hname : name ≠ ρ.new) : ρ.Suits site name :=
  ⟨hname, fun h => absurd h hsite⟩

/-- The functions differ in names only, and not in their own. -/
structure FnDecl.Renamed (ρ : Renaming) (d d' : FnDecl) : Prop where
  name : d'.name.name = d.name.name
  returns : ∃ t, d.returns.type = .ok t ∧ d'.returns.type = .ok t ∧ t.isStruct = false
  formals : List.Forall₂ (VarDecl.Renamed ρ) d.formals.items d'.formals.items
  body : Stmt.BlockRenamed ρ d.body d'.body
  frame : d'.frame = d.frame

/-- The declarations differ in names only. -/
inductive Decl.Renamed (ρ : Renaming) : Decl → Decl → Prop where
  | var {d d' : VarDecl} {s : Storage} :
    d.Renamed ρ d' → d.name.binding = .bound (.storage s) → s.site ≠ ρ.site →
    Decl.Renamed ρ (.var d) (.var d')
  | fn {d d' : FnDecl} : d.Renamed ρ d' → Decl.Renamed ρ (.fn d) (.fn d')
  | struct {d d' : StructDecl} : d.name.Renamed ρ d'.name → Decl.Renamed ρ (.struct d) (.struct d')

/-- A silent pass is its value and nothing else. -/
theorem Outcome.Silent.eq_pure {α β φ : Type} {o : Outcome β φ α} (h : o.Silent) :
    o = .pure o.value := by
  obtain ⟨value, reports, fault⟩ := o
  obtain ⟨rfl, rfl⟩ : fault = none ∧ reports = [] := ⟨h.fault, h.reports⟩
  rfl

/-! ## Types of functions -/

namespace TypeNode

/-- Word types have no name to rename. -/
theorem form_renamed {t v u : TypeNode} (ht : t.isWordType = true) (hv : v.form = t.form)
    (hu : u.form = (v.rename ρ).form) : u.form = t.form := by
  cases v with
  | struct =>
    cases t with
    | struct => cases ht
    | _ => cases hv
  | _ => exact hu.trans hv

theorem type_form {t : TypeNode} (ht : t.isWordType = true) : t.form.type = t.type := by
  cases t with
  | struct | unknown => cases ht
  | _ => rfl

end TypeNode

namespace Resolve

theorem paramType_form (t : TypeNode) : paramType t.form = paramType t := by cases t <;> rfl

/-- The formals of a renamed function have the types of the formals, which are words. -/
theorem paramTypes_renamed {ds vs us : List VarDecl} (hds : ∀ d ∈ ds, d.FormedFormal)
    (hvs : vs.map VarDecl.form = ds.map VarDecl.form)
    (hus : us.map VarDecl.form = (vs.map (VarDecl.rename ρ)).map VarDecl.form) :
    us.map (paramType ·.type) = ds.map (paramType ·.type) := by
  induction ds generalizing vs us with
  | nil =>
    cases vs with
    | nil =>
      cases us with
      | nil => rfl
      | cons => cases hus
    | cons => cases hvs
  | cons d ds ih =>
    obtain ⟨hd, hds⟩ := List.forall_mem_cons.mp hds
    cases vs with
    | nil => cases hvs
    | cons v vs =>
      cases us with
      | nil => cases hus
      | cons u us =>
        obtain ⟨hv, hvs⟩ := List.cons.inj hvs
        obtain ⟨hu, hus⟩ := List.cons.inj hus
        have htype : u.type.form = d.type.form :=
          TypeNode.form_renamed hd.type (congrArg VarDecl.type hv) (congrArg VarDecl.type hu)
        have hparam : paramType u.type = paramType d.type := by
          rw [← paramType_form, htype, paramType_form]
        rw [List.map_cons, List.map_cons, hparam, ih hds hvs hus]

variable {env env' : Env}

/-! ## Functions -/

theorem renamed_name (henv : Env.Renamed ρ env env') {x y : Ident} {s s' : Symbol}
    (hsuits : ρ.Suits s.site x.name) (hsymbol : s.Renamed ρ s')
    (hy : y.name = ρ.spell s.site x.name) (hs : (name env x s).Silent) :
    (name env' y s').Silent ∧ (name env' y s').value = (y.bind s', env'.insert y.name s') ∧
      Env.Renamed ρ (env.insert x.name s) (env'.insert y.name s') := by
  obtain ⟨hnone, -⟩ := name_of_silent hs
  have hnone' : taken env' y.name = none := by
    rw [taken, hy, henv.inner?_eq_none hsuits hnone]
    rfl
  rw [name, hnone']
  exact ⟨silent_pure _, rfl, henv.insert hsymbol hsuits hy⟩

/-- A function that is resolved without a report, and one of the form of the renamed result. -/
theorem renamed_fnDecl (henv : Env.Renamed ρ env env') {d u : FnDecl} (hd : d.Formed)
    (hu : u.Formed)
    (hsuits : ρ.SuitsDecl (.fn d)) (hs : (fnDecl env d).Silent)
    (hform : u.form = ((fnDecl env d).value.1.rename ρ).form) :
    (fnDecl env' u).Silent ∧ (fnDecl env d).value.1.Renamed ρ (fnDecl env' u).value.1 ∧
      u.name.name = d.name.name ∧
      Env.Renamed ρ (fnDecl env d).value.2 (fnDecl env' u).value.2 := by
  obtain ⟨hsite, hfresh, hsuit_formals, hsuit_body⟩ := hsuits
  obtain ⟨returns, hreturns, hword⟩ := TypeNode.type_of_isWordType hd.returns
  obtain ⟨-, hvalue⟩ := fnDecl_of_formed hd hreturns hs.fault
  rw [hvalue] at hform ⊢
  unfold fnDecl at hs
  rw [hreturns] at hs
  dsimp only at hs
  rw [silent_andThen, silent_andThen, silent_andThen] at hs
  obtain ⟨hname, hformals, hbody, -⟩ := hs
  obtain ⟨-, hnamed⟩ := name_of_silent hname
  rw [hnamed] at hformals hbody hform ⊢
  dsimp only at hformals hbody hform ⊢
  obtain ⟨-, hfreturns, hfname, hfformals, -, hfbody, -⟩ := FnDecl.mk.inj hform
  have hfformals : u.formals.items.map VarDecl.form = _ := congrArg VarDecls.items hfformals
  have hfname : u.name.name = ρ.spell d.span d.name.name := congrArg Ident.name hfname
  have hreturns' : u.returns.type = .ok returns := by
    rw [← TypeNode.type_form hu.returns, TypeNode.form_renamed hd.returns rfl hfreturns,
      TypeNode.type_form hd.returns, hreturns]
  have hisStruct : returns.isStruct = false := by
    rcases hword with rfl | rfl | rfl <;> rfl
  have hparams := paramTypes_renamed hd.formals (form_formals _ _ _) hfformals
  have hsignature : (signature d returns).Renamed ρ (signature u returns) :=
    { site := hsite
      returns := rfl
      arity := by
        have hlength := congrArg List.length hparams
        rw [List.length_map, List.length_map] at hlength
        exact hlength
      params := by
        show paramTypes u.formals.items = paramTypes d.formals.items
        rw [paramTypes_of_formed hd.formals, paramTypes_of_formed hu.formals, hparams]
      words := by
        refine ⟨hisStruct, fun t ht => ?_⟩
        rw [signature, paramTypes_of_formed hd.formals] at ht
        rcases isWord_of_silent hd.formals hformals t ht with rfl | rfl <;> rfl }
  obtain ⟨hname', hnamed', henv'⟩ := renamed_name (s := .function (signature d returns)) henv
    (Renaming.suits_of_ne hsite hfresh) (.function hsignature) hfname hname
  obtain ⟨hformals', hrformals, henv'', hframe⟩ :=
    renamed_formals henv'.enter hsuit_formals hformals hfformals
  obtain ⟨hbody', hrbody, hframe'⟩ := renamed_block henv'' hsuit_body hbody hfbody
  have hsame : u.name.name = d.name.name := hfname.trans (Renaming.spell_of_ne hsite _)
  have hsilent : (fnDecl env' u).Silent := by
    rw [fnDecl, hreturns']
    dsimp only
    rw [silent_andThen, silent_andThen, silent_andThen, hnamed']
    dsimp only
    rw [hframe]
    exact ⟨hname', hformals', hbody', silent_pure _⟩
  obtain ⟨-, hvalue'⟩ := fnDecl_of_formed hu hreturns' hsilent.fault
  rw [hvalue', hnamed']
  dsimp only
  rw [hframe]
  exact ⟨hsilent, ⟨hsame, ⟨returns, hreturns, hreturns', hisStruct⟩, hrformals, hrbody,
    congrArg some hframe'⟩, hsame, henv'⟩

/-! ## Structs -/

theorem renamed_structDecl (henv : Env.Renamed ρ env env') {d u : StructDecl}
    (hsuits : ρ.SuitsDecl (.struct d)) (hs : (structDecl env d).Silent)
    (hform : u.form = ((structDecl env d).value.1.rename ρ).form) :
    (structDecl env' u).Silent ∧
      (structDecl env d).value.1.name.Renamed ρ (structDecl env' u).value.1.name ∧
      Env.Renamed ρ (structDecl env d).value.2 (structDecl env' u).value.2 := by
  obtain ⟨hsuits, hsuit_fields⟩ := hsuits
  rw [structDecl, silent_andThen, silent_reporting, silent_andThen] at hs
  obtain ⟨htaken, hfields, hlogged⟩ := hs
  have hnone : taken env d.name.name = none := by
    cases hcause : taken env d.name.name with
    | none => rfl
    | some cause =>
      rw [hcause] at htaken
      cases htaken
  rw [hnone] at hlogged
  rw [structDecl_of_fields (taken_eq_none hnone) hfields.eq_pure, value_logged] at hform ⊢
  have hname : u.name.name = ρ.spell d.span d.name.name :=
    congrArg Ident.name (congrArg StructDecl.name hform)
  obtain ⟨hfields', hrelated, hsize⟩ := renamed_fields henv .nil hsuit_fields hfields
    (congrArg VarDecls.items (congrArg StructDecl.fields hform))
  have hnone' := renamed_taken henv hsuits hnone hname
  rw [structDecl_of_fields (taken_eq_none hnone') hfields'.eq_pure, hsize, value_logged]
  have hlayout : Symbol.Renamed ρ
      (.struct ⟨d.name.name, d.span, (fields env [] 0 d.fields.items).value.2.1,
        (fields env [] 0 d.fields.items).value.2.2⟩)
      (.struct ⟨u.name.name, u.span, (fields env' [] 0 u.fields.items).value.2.1,
        (fields env' [] 0 u.fields.items).value.2.2⟩) :=
    .struct (StructDef.renamed_iff.mpr ⟨hsize, hrelated⟩)
  rw [hsize] at hlayout
  exact ⟨silent_logged hlogged _, .bound rfl rfl hname hlayout, henv.insert hlayout hsuits hname⟩

/-! ## Programs -/

theorem renamed_decl (henv : Env.Renamed ρ env env') {d u : Decl} (hd : d.Formed) (hu : u.Formed)
    (hsuits : ρ.SuitsDecl d) (hs : (decl env d).Silent)
    (hform : u.form = ((decl env d).value.1.rename ρ).form) :
    (decl env' u).Silent ∧ (decl env d).value.1.Renamed ρ (decl env' u).value.1 ∧
      isMain u = isMain d ∧ Env.Renamed ρ (decl env d).value.2 (decl env' u).value.2 := by
  cases d with
  | unknown => exact hd.elim
  | var d =>
    have hrole : d.role = .variable := VarDecl.Formed.role hd
    rw [decl, hrole, silent_map] at hs
    rw [decl, hrole] at hform ⊢
    dsimp only at hform ⊢
    rw [value_map] at hform ⊢
    cases u with
    | var u =>
      have hrole' : u.role = .variable := VarDecl.Formed.role hu
      obtain ⟨hsite, hfresh⟩ := hsuits
      have hsuits := Renaming.suits_of_ne hsite hfresh
      obtain ⟨hsu, d₁, u₁, s, s', hvalue, hvalue', hrelated, hbinding, hspan, hsuits', hstorage⟩ :=
        renamed_declare henv (taken env' u.name.name) (fun _ => .static) hsuits
          (renamed_taken henv hsuits) (fun _ _ _ => rfl) (fun _ _ => hsite) hs (Decl.var.inj hform)
      rw [decl, hrole', silent_map]
      dsimp only
      rw [value_map, hvalue, hvalue']
      exact ⟨hsu, .var hrelated hbinding (hspan ▸ hsite), rfl, renamed_extend henv hsuits' hstorage⟩
    | _ => cases hform
  | fn d =>
    rw [decl, silent_map] at hs
    rw [decl, value_map] at hform ⊢
    cases u with
    | fn u =>
      obtain ⟨hsu, hrelated, hname, henv'⟩ :=
        renamed_fnDecl henv hd hu hsuits hs (Decl.fn.inj hform)
      rw [decl, silent_map, value_map]
      refine ⟨hsu, .fn hrelated, ?_, henv'⟩
      rw [isMain, isMain, hname]
    | _ => cases hform
  | struct d =>
    rw [decl, silent_map] at hs
    rw [decl, value_map] at hform ⊢
    cases u with
    | struct u =>
      obtain ⟨hsu, hrelated, henv'⟩ := renamed_structDecl henv hsuits hs (Decl.struct.inj hform)
      rw [decl, silent_map, value_map]
      exact ⟨hsu, .struct hrelated, rfl, henv'⟩
    | _ => cases hform

/-- Declarations that are resolved without a report, and ones of the form of the renamed result. -/
theorem renamed_decls (henv : Env.Renamed ρ env env') {ds us : List Decl} (hds : ∀ d ∈ ds, d.Formed)
    (hus : ∀ u ∈ us, u.Formed) (hsuits : ∀ d ∈ ds, ρ.SuitsDecl d) (hs : (decls env ds).Silent)
    (hform : us.map Decl.form = ((decls env ds).value.1.map (Decl.rename ρ)).map Decl.form) :
    (decls env' us).Silent ∧
      List.Forall₂ (Decl.Renamed ρ) (decls env ds).value.1 (decls env' us).value.1 ∧
      (decls env' us).value.2.2 = (decls env ds).value.2.2 := by
  induction ds generalizing env env' us with
  | nil =>
    cases us with
    | nil => exact ⟨silent_pure _, .nil, rfl⟩
    | cons => cases hform
  | cons d ds ih =>
    obtain ⟨hd, hds⟩ := List.forall_mem_cons.mp hds
    obtain ⟨hsuits_d, hsuits⟩ := List.forall_mem_cons.mp hsuits
    rw [decls] at hs hform ⊢
    obtain ⟨hfirst, hrest⟩ := silent_andThen.mp hs
    rw [value_andThen hfirst.fault, value_map] at hform ⊢
    cases us with
    | nil => cases hform
    | cons u us =>
      obtain ⟨hu, hus⟩ := List.forall_mem_cons.mp hus
      obtain ⟨hform_u, hform⟩ := List.cons.inj hform
      obtain ⟨hsu, hrelated, hmain, henv'⟩ := renamed_decl henv hd hu hsuits_d hfirst hform_u
      obtain ⟨hsus, hrelated', hmain'⟩ := ih henv' hds hus hsuits (silent_map.mp hrest) hform
      rw [decls, silent_andThen, silent_map, value_andThen hsu.fault, value_map]
      exact ⟨⟨hsu, hsus⟩, .cons hrelated hrelated', congrArg₂ (· || ·) hmain hmain'⟩

end Resolve

end CMinusMinus
