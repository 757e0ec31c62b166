import CMinusMinus.Proofs.Compilation
import CMinusMinus.Proofs.Form
import CMinusMinus.Proofs.Rules.Statements

/-!
# Programs that obey the rules

Both passes are silent on a declaration exactly if it obeys the rules in the context of the scopes,
and then the scopes after it are the context after it (`Decl.Clean.obeys`, `Decl.Obeys.clean`).  So
an analysis reports no error exactly of a well-formed program (`analysis_iff_wellFormed`).
-/

namespace CMinusMinus

open Outcome

/-! ## Signatures -/

/-- A formal is of the type that it gives to its function, which is a word. -/
theorem TypeNode.Denotes.formal {Γ : Context} {type : TypeNode} {t : Ty} (h : type.Denotes Γ t)
    (hword : type.isWordType = true) : t = Resolve.paramType type ∧ t.IsWord := by
  cases h with
  | int => exact ⟨rfl, .inl rfl⟩
  | bool => exact ⟨rfl, .inr rfl⟩
  | struct => cases hword

theorem VarDecl.Declare.formals {Γ Γ' : Context} {ds : List VarDecl} {ts : List Ty}
    (h : VarDecl.Declare Γ ds ts Γ') (hds : ∀ d ∈ ds, d.FormedFormal) :
    ts = Resolve.paramTypes ds ∧ ∀ t ∈ ts, t.IsWord := by
  rw [Resolve.paramTypes_of_formed hds]
  induction h with
  | nil => exact ⟨rfl, nofun⟩
  | cons hdenotes _ _ ih =>
    obtain ⟨hd, hds⟩ := List.forall_mem_cons.mp hds
    obtain ⟨rfl, hword⟩ := hdenotes.formal hd.type
    obtain ⟨rfl, hwords⟩ := ih hds
    exact ⟨rfl, List.forall_mem_cons.mpr ⟨hword, hwords⟩⟩

namespace Resolve

variable {env : Env}

/-- The scopes with one more function. -/
theorem closed_function (henv : env.Closed) {d : FnDecl} (hd : d.Formed) {returns : Ty}
    (hreturns : d.returns.type = .ok returns) (hfresh : env.inner? d.name.name = none)
    (hwords : ∀ t ∈ paramTypes d.formals.items, t.IsWord) :
    Env.Closed (env.insert d.name.name (.function (signature d returns))) := by
  obtain ⟨returns', hreturns', hcases⟩ := TypeNode.type_of_isWordType hd.returns
  cases hreturns.symm.trans hreturns'
  refine henv.insert hfresh (.function rfl ?_ hwords ?_) trivial
  · show (paramTypes d.formals.items).length = d.formals.items.length
    rw [paramTypes_of_formed hd.formals, List.length_map]
  · rcases hcases with h | h | h
    · exact .inl (.inl h)
    · exact .inl (.inr h)
    · exact .inr h

/-- A function whose name and formals are accepted is resolved to what its body is resolved to. -/
theorem fnDecl_of_formals {d : FnDecl} {returns : Ty} (hreturns : d.returns.type = .ok returns)
    (hfresh : env.inner? d.name.name = none) {items : List VarDecl} {env' : Env} {frame : Frame}
    (hformals : formals (Scopes.enter (env.insert d.name.name (.function (signature d returns)))) {}
      d.formals.items = .pure (items, env', frame)) :
    fnDecl env d =
      (let d' := { d with
        name := d.name.bind (.function (signature d returns))
        formals := { d.formals with items } }
      let after := env.insert d.name.name (.function (signature d returns))
      (block env' frame d.body).andThen (fun v => ({ d' with body := v.1 }, after))
        fun v => .pure ({ d' with body := v.1, frame := some v.2 }, after)) := by
  have hname : name env d.name (.function (signature d returns)) =
      .pure (d.name.bind (.function (signature d returns)),
        env.insert d.name.name (.function (signature d returns))) := by
    rw [name, taken_of_none hfresh]
  simp only [fnDecl, hreturns, hname, pure_andThen, hformals]

theorem structDecl_of_fields {d : StructDecl} (hfresh : env.inner? d.name.name = none)
    {items : List VarDecl} {layout : List (Field StructDef)} {size : Nat}
    (hfields : fields env [] 0 d.fields.items = .pure (items, layout, size)) :
    structDecl env d = logged (some (size : Int))
      ({ d with
          name := d.name.bind (.struct ⟨d.name.name, d.span, layout, size⟩)
          fields := { d.fields with items } },
        env.insert d.name.name (.struct ⟨d.name.name, d.span, layout, size⟩)) := by
  simp only [structDecl, taken_of_none hfresh, hfields]
  rfl

end Resolve

/-! ## Declarations -/

namespace Decl

/-- Neither pass reports anything of the declaration. -/
structure Clean (env : Env) (d : Decl) : Prop where
  resolve : (Resolve.decl env d).Silent
  check : (Check.decl (Resolve.decl env d).value.1).Silent

/-- The declaration after both passes. -/
def analyzed (env : Env) (d : Decl) : Decl := (Check.decl (Resolve.decl env d).value.1).value

/-- The scopes after the declaration. -/
def after (env : Env) (d : Decl) : Env := (Resolve.decl env d).value.2

/-- Neither pass reports anything of the declarations. -/
structure ListClean (env : Env) (ds : List Decl) : Prop where
  resolve : (Resolve.decls env ds).Silent
  check : (Check.decls (Resolve.decls env ds).value.1).Silent

/-- The declarations after both passes. -/
def listAnalyzed (env : Env) (ds : List Decl) : List Decl :=
  (Check.decls (Resolve.decls env ds).value.1).value

variable {env : Env}

theorem listClean_cons {d : Decl} {ds : List Decl} :
    ListClean env (d :: ds) ↔ d.Clean env ∧ ListClean (d.after env) ds := by
  constructor
  · rintro ⟨hr, hc⟩
    rw [Resolve.decls, silent_andThen, silent_map] at hr
    rw [Resolve.decls, value_andThen hr.1.fault, value_map, Check.decls, silent_andThen,
      silent_map] at hc
    exact ⟨⟨hr.1, hc.1⟩, hr.2, hc.2⟩
  · rintro ⟨⟨hr, hc⟩, hrs, hcs⟩
    refine ⟨?_, ?_⟩
    · rw [Resolve.decls, silent_andThen, silent_map]
      exact ⟨hr, hrs⟩
    · rw [Resolve.decls, value_andThen hr.fault, value_map, Check.decls, silent_andThen,
        silent_map]
      exact ⟨hc, hcs⟩

theorem listAnalyzed_cons {d : Decl} (h : d.Clean env) (ds : List Decl) :
    listAnalyzed env (d :: ds) = d.analyzed env :: listAnalyzed (d.after env) ds := by
  rw [listAnalyzed, Resolve.decls, value_andThen h.resolve.fault, value_map, Check.decls,
    value_andThen h.check.fault, value_map]
  rfl

/-! ### Variables -/

section Variable

variable {d : VarDecl} (hrole : d.role = .variable)
include hrole

theorem clean_var : (Decl.var d).Clean env ↔
    (Resolve.declare env (Resolve.taken env d.name.name) (fun _ => .static) d).Silent := by
  constructor
  · rintro ⟨hr, -⟩
    simpa only [Resolve.decl, hrole, silent_map] using hr
  · intro h
    refine ⟨?_, ?_⟩
    · simpa only [Resolve.decl, hrole, silent_map] using h
    · simp only [Resolve.decl, hrole, value_map, Check.decl, silent_pure]

theorem var_of_declare {d' : VarDecl} {s : Storage}
    (hdeclare : Resolve.declare env (Resolve.taken env d.name.name) (fun _ => .static) d =
      .pure (d', some s)) :
    (Decl.var d).analyzed env = .var d' ∧
      (Decl.var d).after env = env.insert s.name (.storage s) := by
  simp only [analyzed, after, Resolve.decl, hrole, hdeclare, map_pure, value_pure, Check.decl]
  exact ⟨trivial, rfl⟩

end Variable

/-! ### Functions -/

section Function

variable {d : FnDecl} {returns : Ty} (hreturns : d.returns.type = .ok returns)
  (hfresh : env.inner? d.name.name = none) {items : List VarDecl} {env' : Env} {frame : Frame}
  (hformals : Resolve.formals
    (Scopes.enter (env.insert d.name.name (.function (Resolve.signature d returns)))) {}
    d.formals.items = .pure (items, env', frame))
include hreturns hfresh hformals

/-- A function whose name and formals are accepted is clean if its body is. -/
theorem clean_fn : (Decl.fn d).Clean env ↔ Stmt.BlockClean returns env' frame d.body := by
  constructor
  · rintro ⟨hr, hc⟩
    rw [Resolve.decl, silent_map, Resolve.fnDecl_of_formals hreturns hfresh hformals,
      silent_andThen] at hr
    rw [Resolve.decl, value_map, Resolve.fnDecl_of_formals hreturns hfresh hformals,
      value_andThen hr.1.fault, value_pure, Check.decl, silent_map, Check.fnDecl] at hc
    simp only [hreturns, silent_map] at hc
    exact ⟨hr.1, hc⟩
  · rintro ⟨hr, hc⟩
    refine ⟨?_, ?_⟩
    · rw [Resolve.decl, silent_map, Resolve.fnDecl_of_formals hreturns hfresh hformals,
        silent_andThen]
      exact ⟨hr, silent_pure _⟩
    · rw [Resolve.decl, value_map, Resolve.fnDecl_of_formals hreturns hfresh hformals,
        value_andThen hr.fault, value_pure, Check.decl, silent_map, Check.fnDecl]
      simp only [hreturns, silent_map]
      exact hc

theorem fn_of_formals (h : Stmt.BlockClean returns env' frame d.body) :
    (Decl.fn d).analyzed env = .fn { d with
        name := d.name.bind (.function (Resolve.signature d returns))
        formals := { d.formals with items }
        body := Stmt.blockAnalyzed returns env' frame d.body
        frame := some (Resolve.block env' frame d.body).value.2 } ∧
      (Decl.fn d).after env =
        env.insert d.name.name (.function (Resolve.signature d returns)) := by
  rw [analyzed, after, Resolve.decl, value_map,
    Resolve.fnDecl_of_formals hreturns hfresh hformals, value_andThen h.resolve.fault, value_pure,
    Check.decl, value_map, Check.fnDecl]
  simp only [hreturns, value_map]
  exact ⟨rfl, trivial⟩

end Function

theorem fn_of_silent {d : FnDecl} {returns : Ty} (hreturns : d.returns.type = .ok returns)
    (h : (Decl.fn d).Clean env) : env.inner? d.name.name = none ∧
      (Resolve.formals
        (Scopes.enter (env.insert d.name.name (.function (Resolve.signature d returns)))) {}
        d.formals.items).Silent := by
  have hr := h.resolve
  simp only [Resolve.decl, silent_map, Resolve.fnDecl, hreturns, silent_andThen] at hr
  obtain ⟨hname, hformals, -⟩ := hr
  obtain ⟨hfresh, hvalue⟩ := Resolve.name_of_silent hname
  rw [hvalue] at hformals
  exact ⟨hfresh, hformals⟩

/-! ### Structs -/

theorem struct_of_silent {d : StructDecl} (h : (Decl.struct d).Clean env) :
    env.inner? d.name.name = none ∧ (Resolve.fields env [] 0 d.fields.items).Silent := by
  have hr := h.resolve
  rw [Resolve.decl, silent_map, Resolve.structDecl, silent_andThen, silent_reporting,
    silent_andThen] at hr
  obtain ⟨htaken, hfields, -⟩ := hr
  refine ⟨Resolve.taken_eq_none ?_, hfields⟩
  cases hcause : Resolve.taken env d.name.name with
  | none => rfl
  | some cause =>
    rw [hcause] at htaken
    cases htaken

section Struct

variable {d : StructDecl} (hfresh : env.inner? d.name.name = none) {items : List VarDecl}
  {layout : List (Field StructDef)} {size : Nat}
  (hfields : Resolve.fields env [] 0 d.fields.items = .pure (items, layout, size))
include hfresh hfields

theorem isWritten_of_fields (h : (Resolve.decl env (.struct d)).fault = none) :
    Text.isWritten size = true := by
  rw [Resolve.decl, fault_map, Resolve.structDecl_of_fields hfresh hfields] at h
  exact Resolve.isWritten_of_logged h

theorem struct_of_fields (hwritten : Text.isWritten size = true) : (Decl.struct d).Clean env ∧
      (Decl.struct d).analyzed env = .struct { d with
        name := d.name.bind (.struct ⟨d.name.name, d.span, layout, size⟩)
        fields := { d.fields with items } } ∧
      (Decl.struct d).after env =
        env.insert d.name.name (.struct ⟨d.name.name, d.span, layout, size⟩) := by
  have hdecl := Resolve.structDecl_of_fields hfresh hfields
  rw [Resolve.logged_of_isWritten hwritten] at hdecl
  refine ⟨⟨?_, ?_⟩, ?_, ?_⟩
  · rw [Resolve.decl, hdecl, map_pure]
    exact silent_pure _
  · rw [Resolve.decl, hdecl, map_pure]
    exact silent_pure _
  · rw [analyzed, Resolve.decl, hdecl, map_pure]
    rfl
  · rw [after, Resolve.decl, hdecl, map_pure]
    rfl

end Struct

end Decl

/-! ## The rules -/

/-- A clean declaration obeys the rules, with the types that are recorded, and leaves scopes in
which the next declaration may be looked at. -/
theorem Decl.Clean.obeys {env : Env} (henv : env.Closed) {d : Decl} (hformed : d.Formed)
    (h : d.Clean env) : d.Obeys Remark.none env.context (Env.context (d.after env)) ∧
      (d.analyzed env).Obeys Remark.recorded env.context (Env.context (d.after env)) ∧
      Env.Closed (d.after env) := by
  cases d with
  | unknown => exact hformed.elim
  | var d =>
    have hrole : d.role = .variable := VarDecl.Formed.role hformed
    obtain ⟨htaken, t, hdenotes⟩ := Resolve.denotes_of_declare ((clean_var hrole).mp h)
    have hfresh := Resolve.taken_eq_none htaken
    obtain ⟨d', s, hdeclare, haccepts⟩ :=
      Resolve.declare_of_denotes henv (fun _ => .static) hdenotes
    rw [← htaken] at hdeclare
    obtain ⟨hanalyzed, hafter⟩ := var_of_declare hrole hdeclare
    have hcontext := env.inner?_context_eq_none.mpr hfresh
    have hplace : s.place ≠ .unplaced := Storage.placed_of_static haccepts.place
    rw [hanalyzed, hafter, haccepts.context]
    refine ⟨.var hdenotes hcontext, ?_, haccepts.closed henv hplace hfresh⟩
    rw [← haccepts.name]
    exact .var haccepts.denotes (by rw [haccepts.name]; exact hcontext)
  | fn d =>
    replace hformed : d.Formed := hformed
    obtain ⟨returns, hreturns, -⟩ := TypeNode.type_of_isWordType hformed.returns
    obtain ⟨hfresh, hformals⟩ := fn_of_silent hreturns h
    have hwords : ∀ t ∈ Resolve.paramTypes d.formals.items, t.IsWord := by
      rw [Resolve.paramTypes_of_formed hformed.formals]
      exact Resolve.isWord_of_silent hformed.formals hformals
    have henv' := Resolve.closed_function henv hformed hreturns hfresh hwords
    obtain ⟨ts, Γ, hdeclare⟩ := Resolve.sequence_formals.declare henv'.enter hformals
    obtain ⟨items, inner, frame, hpure, hinner, hclosed, hdeclare'⟩ :=
      Resolve.sequence_formals.of_declare henv'.enter hdeclare hformals.fault
    obtain ⟨rfl, -⟩ := hdeclare.formals hformed.formals
    have hbody := (clean_fn hreturns hfresh hpure).mp h
    obtain ⟨hraw, hrecorded⟩ := hbody.obeys hclosed hformed.body
    obtain ⟨hanalyzed, hafter⟩ := fn_of_formals hreturns hfresh hpure hbody
    have hcontext := env.inner?_context_eq_none.mpr hfresh
    rw [hinner] at hraw hrecorded
    rw [Env.context_enter, Env.context_insert] at hdeclare hdeclare'
    rw [hanalyzed, hafter, Env.context_insert]
    exact ⟨.fn hreturns hcontext hdeclare hraw, .fn hreturns hcontext hdeclare' hrecorded, henv'⟩
  | struct d =>
    obtain ⟨hfresh, hfields⟩ := struct_of_silent h
    obtain ⟨ts, Γ, hdeclare⟩ := Resolve.declare_of_fields henv hfields
    have hlaid := Resolve.laid_of_silent henv.sound .nil hfields
    obtain ⟨items, layout, size, hpure, hzip, hknown, hnames, hdeclare'⟩ :=
      Resolve.fields_of_declare henv [] 0 hdeclare
    rw [List.nil_append] at hpure
    rw [hpure] at hlaid
    have hwritten := isWritten_of_fields hfresh hpure h.resolve.fault
    obtain ⟨-, hanalyzed, hafter⟩ := struct_of_fields hfresh hpure hwritten
    have hcontext := env.inner?_context_eq_none.mpr hfresh
    rw [hanalyzed, hafter, Env.context_insert, Symbol.entity, hzip]
    refine ⟨.struct hcontext hdeclare, ?_, ?_⟩
    · rw [← hnames]
      exact .struct hcontext hdeclare'
    · exact henv.insert hfresh (.struct hlaid hwritten) ⟨rfl, hknown⟩

/-- A declaration that obeys the rules is clean if name resolution comes to its end there, and the
scopes after it are the context after it. -/
theorem Decl.Obeys.clean {env : Env} (henv : env.Closed) {d : Decl} (hformed : d.Formed)
    {Γ : Context} (h : d.Obeys Remark.none env.context Γ)
    (hfault : (Resolve.decl env d).fault = none) : d.Clean env ∧ Env.context (d.after env) = Γ := by
  cases h with
  | @var d t hdenotes hcontext =>
    have hrole : d.role = .variable := VarDecl.Formed.role hformed
    have htaken := Resolve.taken_of_none (env.inner?_context_eq_none.mp hcontext)
    obtain ⟨d', s, hdeclare, haccepts⟩ :=
      Resolve.declare_of_denotes henv (fun _ => .static) hdenotes
    rw [← htaken] at hdeclare
    refine ⟨(clean_var hrole).mpr (hdeclare ▸ silent_pure _), ?_⟩
    rw [(var_of_declare hrole hdeclare).2, haccepts.context]
  | @fn Γ' d params returns hreturns hcontext hdeclare hbody =>
    replace hformed : d.Formed := hformed
    have hfresh := env.inner?_context_eq_none.mp hcontext
    obtain ⟨rfl, hwords⟩ := hdeclare.formals hformed.formals
    have henv' := Resolve.closed_function henv hformed hreturns hfresh hwords
    have hinsert : env.context.insert d.name.name
        (.fn (Resolve.paramTypes d.formals.items) returns) =
          Env.context (env.insert d.name.name (.function (Resolve.signature d returns))) := by
      rw [Env.context_insert]
      rfl
    rw [hinsert, ← Env.context_enter] at hdeclare
    obtain ⟨items, inner, frame, hpure, hinner, hclosed, -⟩ :=
      Resolve.sequence_formals.of_declare henv'.enter hdeclare
        (Resolve.fault_formals _ {} fun f hf =>
          TypeNode.formed_of_isWordType (hformed.formals f hf).type)
    have hret : returns ≠ .error := by
      obtain ⟨returns', hreturns', hcases⟩ := TypeNode.type_of_isWordType hformed.returns
      cases hreturns.symm.trans hreturns'
      rcases hcases with rfl | rfl | rfl <;> decide
    rw [← hinner] at hbody
    rw [Resolve.decl, fault_map, Resolve.fnDecl_of_formals hreturns hfresh hpure,
      fault_andThen] at hfault
    have hclean := Stmt.BlockObeys.clean hret hclosed hformed.body hbody hfault.1
    refine ⟨(clean_fn hreturns hfresh hpure).mpr hclean, ?_⟩
    rw [(fn_of_formals hreturns hfresh hpure hclean).2, hinsert]
  | @struct Γ' d ts hcontext hdeclare =>
    have hfresh := env.inner?_context_eq_none.mp hcontext
    obtain ⟨items, layout, size, hpure, hzip, -⟩ := Resolve.fields_of_declare henv [] 0 hdeclare
    rw [List.nil_append] at hpure
    have hwritten := isWritten_of_fields hfresh hpure hfault
    obtain ⟨hclean, -, hafter⟩ := struct_of_fields hfresh hpure hwritten
    refine ⟨hclean, ?_⟩
    rw [hafter, Env.context_insert, Symbol.entity, hzip]

theorem Decl.ListClean.obeys {env : Env} (henv : env.Closed) {ds : List Decl}
    (hformed : ∀ d ∈ ds, d.Formed) (h : Decl.ListClean env ds) :
    Decl.ListObeys Remark.none env.context ds ∧
      Decl.ListObeys Remark.recorded env.context (Decl.listAnalyzed env ds) := by
  induction ds generalizing env with
  | nil => exact ⟨.nil, .nil⟩
  | cons d ds ih =>
    obtain ⟨hd, hds⟩ := List.forall_mem_cons.mp hformed
    obtain ⟨hclean, hcleans⟩ := Decl.listClean_cons.mp h
    obtain ⟨hraw, hrecorded, henv'⟩ := hclean.obeys henv hd
    obtain ⟨hraws, hrecordeds⟩ := ih henv' hds hcleans
    rw [Decl.listAnalyzed_cons hclean]
    exact ⟨.cons hraw hraws, .cons hrecorded hrecordeds⟩

theorem Decl.ListObeys.clean {env : Env} (henv : env.Closed) {ds : List Decl}
    (hformed : ∀ d ∈ ds, d.Formed) (h : Decl.ListObeys Remark.none env.context ds)
    (hfault : (Resolve.decls env ds).fault = none) : Decl.ListClean env ds := by
  induction ds generalizing env with
  | nil => exact ⟨silent_pure _, silent_pure _⟩
  | cons d ds ih =>
    obtain ⟨hd, hds⟩ := List.forall_mem_cons.mp hformed
    cases h with
    | cons hobeys hrest =>
      rw [Resolve.decls, fault_andThen, fault_map] at hfault
      obtain ⟨hclean, rfl⟩ := hobeys.clean henv hd hfault.1
      obtain ⟨-, -, henv'⟩ := hclean.obeys henv hd
      exact Decl.listClean_cons.mpr ⟨hclean, ih henv' hds hrest hfault.2⟩

/-! ## Programs -/

theorem Env.closed_empty : Env.Closed [[]] where
  ne_nil := List.cons_ne_nil _ _
  sound := Env.sound_empty
  find := fun _ _ h => by cases h
  outer := fun _ _ h => by cases h

theorem Resolve.hasMain_decls {env : Env} {ds : List Decl} (h : (decls env ds).fault = none) :
    (decls env ds).value.2.2 = ds.any isMain := by
  induction ds generalizing env with
  | nil => rfl
  | cons d ds ih =>
    rw [decls, fault_andThen, fault_map] at h
    rw [decls, value_andThen h.1, value_map, List.any_cons, ← ih h.2]

theorem Resolve.isMain_form (d : Decl) : isMain d.form = isMain d := by
  cases d <;> rfl

theorem Program.exists_main {p : Program} :
    (∃ d ∈ p.functions, d.name.name = "main") ↔ p.decls.any Resolve.isMain = true := by
  simp only [Program.functions, List.mem_filterMap, List.any_eq_true]
  constructor
  · rintro ⟨d, ⟨d', hmem, hd⟩, hname⟩
    cases d' with
    | fn f =>
      cases hd
      exact ⟨_, hmem, beq_iff_eq.mpr hname⟩
    | _ => cases hd
  · rintro ⟨d, hmem, hmain⟩
    cases d with
    | fn f => exact ⟨f, ⟨_, hmem, rfl⟩, beq_iff_eq.mp hmain⟩
    | _ => cases hmain

/-- Whether a program has a function named `main` shows in its form. -/
theorem Program.any_isMain_of_form {p q : Program} (h : q.form = p.form) :
    q.decls.any Resolve.isMain = p.decls.any Resolve.isMain := by
  have hany : ∀ r : Program, r.form.decls.any Resolve.isMain = r.decls.any Resolve.isMain := by
    intro r
    rw [Program.form, List.any_map]
    exact congrArg (List.any r.decls) (funext Resolve.isMain_form)
  rw [← hany q, ← hany p, h]

namespace Program

theorem hasMain_resolve {p : Program} (hfault : p.resolve.fault = none) :
    p.resolve.hasMain = p.decls.any Resolve.isMain :=
  Resolve.hasMain_decls (fault_resolve.symm.trans hfault)

namespace Formed

variable {p : Program} (h : p.Formed) (hfault : p.resolve.fault = none)
include h hfault

/-- The passes report nothing of a program if its declarations are clean and `main` is there. -/
theorem reports_eq_nil : (p.resolve.reports = [] ∧
    (p.resolve.program.check p.resolve.hasMain).reports = []) ↔
    Decl.ListClean [[]] p.decls ∧ p.decls.any Resolve.isMain = true := by
  have hsilent : (p.resolve.program.check p.resolve.hasMain).reports = [] ↔
      (p.resolve.program.check p.resolve.hasMain).Silent :=
    ⟨fun hreports => ⟨h.total_check hfault _, hreports⟩, fun hsilent => hsilent.reports⟩
  rw [hsilent, Program.check, silent_andThen, silent_reporting, ← hasMain_resolve hfault]
  constructor
  · rintro ⟨hresolve, hcheck, hmain⟩
    refine ⟨⟨⟨fault_resolve.symm.trans hfault, hresolve⟩, hcheck⟩, ?_⟩
    cases hcase : p.resolve.hasMain with
    | true => rfl
    | false =>
      rw [hcase] at hmain
      cases hmain
  · rintro ⟨hclean, hmain⟩
    exact ⟨hclean.resolve.reports, hclean.check, if_pos hmain⟩

/-- The passes report nothing of a program exactly if it is well formed. -/
theorem reports_eq_nil_iff : (p.resolve.reports = [] ∧
    (p.resolve.program.check p.resolve.hasMain).reports = []) ↔ p.WellFormed := by
  rw [h.reports_eq_nil hfault]
  constructor
  · rintro ⟨hclean, hmain⟩
    exact ⟨(hclean.obeys Env.closed_empty h).1, Program.exists_main.mpr hmain⟩
  · rintro ⟨hobeys, hmain⟩
    exact ⟨hobeys.clean Env.closed_empty h (fault_resolve.symm.trans hfault),
      Program.exists_main.mp hmain⟩

/-- What the passes leave of a well-formed program has the types recorded that the rules give. -/
theorem obeys_recorded (hwell : p.WellFormed) :
    (p.resolve.program.check p.resolve.hasMain).value.Obeys Remark.recorded := by
  have hclean := hwell.decls.clean Env.closed_empty h (fault_resolve.symm.trans hfault)
  have hdecls : (p.resolve.program.check p.resolve.hasMain).value.decls =
      Decl.listAnalyzed [[]] p.decls := by
    have hcheck : (Check.decls p.resolve.program.decls).fault = none := hclean.check.fault
    rw [Program.check, value_andThen hcheck]
    rfl
  refine ⟨?_, Program.exists_main.mpr ?_⟩
  · rw [hdecls]
    exact (hclean.obeys Env.closed_empty h).2
  · rw [Program.any_isMain_of_form (Program.form_check p _)]
    exact Program.exists_main.mp hwell.main

end Formed

end Program

namespace Compilation

/-- The main function is among the functions that the analysis leaves. -/
theorem exists_main_of_analysis {file : Option String} {p q : Program}
    (hfault : p.resolve.fault = none) (hq : (analysis file p).program = some q)
    (hmain : p.resolve.hasMain = true) :
    ∃ d ∈ q.functions, d.name.name = "main" := by
  have hform : q.form = p.form := by
    cases hq
    exact Program.form_check p _
  rw [Program.hasMain_resolve hfault, ← Program.any_isMain_of_form hform] at hmain
  exact Program.exists_main.mpr hmain

theorem hasErrors_analysis {file : Option String} {p : Program} :
    (analysis file p).hasErrors = false ↔ p.resolve.reports = [] ∧
      (p.resolve.program.check p.resolve.hasMain).reports = [] := by
  refine ⟨reports_of_hasErrors, fun h => ?_⟩
  rw [hasErrors, analysis, h.1, h.2]
  rfl

/-- An analysis reports an error exactly if the program is not well formed.  The program that it
leaves differs from the one that was read in annotations only.  If the program is well formed, the
type that is recorded at each expression is the one that the rules give it, and they give it no
other. -/
theorem analysis_iff_wellFormed {file : Option String} {source : String} {p : Program}
    {c : Compilation} (h : Program.parse file source = .ok p) (hc : analyze file source = .ok c) :
    ∃ q, c.program = some q ∧ q.form = p.form ∧
      (c.hasErrors = false ↔ p.WellFormed) ∧
      (p.WellFormed → q.Obeys Remark.recorded) ∧
      ∀ (Γ : Context) (e : Exp) (s t : Ty), e.Has Remark.recorded Γ s → e.Has Remark.none Γ t →
        s = t := by
  have hformed := Program.parse_formed h
  obtain ⟨hfault, rfl⟩ := analysis_of_parse h hc
  refine ⟨_, rfl, Program.form_check p _, ?_, hformed.obeys_recorded hfault,
    fun _ _ _ _ hs ht => hs.unique ht⟩
  rw [hasErrors_analysis, hformed.reports_eq_nil_iff hfault]

set_option maxRecDepth 100000 in
/-- A program with a struct and a recursive function is well formed, and its types are recorded. -/
theorem analysis_iff_wellFormed_of_recursive :
    ∃ p c q, Program.parse none
        "struct s { int x; }; struct s g; int f(bool b) { if (b) { return g.x; } return f(!b); }
         void main() { cout << f(true); }" = .ok p ∧
      analyze none
        "struct s { int x; }; struct s g; int f(bool b) { if (b) { return g.x; } return f(!b); }
         void main() { cout << f(true); }" = .ok c ∧
      c.program = some q ∧ q.form = p.form ∧ p.WellFormed ∧ q.Obeys Remark.recorded := by
  have haccepts : accepts
      "struct s { int x; }; struct s g; int f(bool b) { if (b) { return g.x; } return f(!b); }
         void main() { cout << f(true); }" = true :=
    accepts_of_chars rfl (by decide +kernel)
  obtain ⟨p, hp⟩ := parse_of_accepts haccepts
  obtain ⟨c, hc, -⟩ := analyze_of_accepts haccepts
  obtain ⟨q, hq, hform, hiff, hrecorded, -⟩ := analysis_iff_wellFormed hp hc
  have hwell := hiff.mp (hasErrors_of_accepts haccepts hc)
  exact ⟨p, c, q, hp, hc, hq, hform, hwell, hrecorded hwell⟩

end Compilation

end CMinusMinus
