import CMinusMinus.Proofs.Renaming.Statements
import CMinusMinus.Proofs.Scoping.Programs
import CMinusMinus.Syntax.Annotation

/-!
# Renaming in programs

A program without errors may have a formal, a local, a struct or a field renamed.  The text of the
renamed program is a program without errors again, its variables and fields lie where they lay, and
the same code is generated for it but for comments (`Compilation.analyze_of_renaming`).  Globals and
functions are not renamed, since their names are in the labels of the code.
-/

namespace CMinusMinus

open Outcome

variable {ρ : Renaming}

/-! ## Binders -/

/-- A declaration as a renaming sees it. -/
structure Binder where
  site : Option Span
  name : String
  /-- Whether the code does not need the name, which is so unless it is that of a global or
  function. -/
  inner : Bool

namespace VarDecl

/-- The declaration of a formal, local or field. -/
def binder (d : VarDecl) : Binder := ⟨d.span, d.name.name, true⟩

end VarDecl

/-- A declaration at the top of a program, and the declarations in it. -/
def Decl.binders : Decl → List Binder
  | .var d => [⟨d.span, d.name.name, false⟩]
  | .fn d => ⟨d.span, d.name.name, false⟩ ::
    (d.formals.items ++ Stmt.blockLocals d.body).map VarDecl.binder
  | .struct d => ⟨d.span, d.name.name, true⟩ :: d.fields.items.map VarDecl.binder
  | .unknown _ => []

/-- Whether the expression is an identifier of the name. -/
def Exp.isNamed (name : String) : Exp → Bool
  | .ident x => x.name == name
  | _ => false

/-- All declarations of a program. -/
def Program.binders (p : Program) : List Binder := p.decls.flatMap Decl.binders

/-- The renaming is of a formal, local, struct or field of the program, and its new name is the name
of no identifier in the program. -/
structure Renaming.Admitted (ρ : Renaming) (p : Program) : Prop where
  target : ⟨ρ.site, ρ.old, true⟩ ∈ p.binders
  fresh : ∀ x, .ident x ∈ p.expressions → x.name ≠ ρ.new

mutual

theorem Stmt.sites_eq : ∀ s : Stmt, s.sites = s.locals.map VarDecl.span
  | .ifThen _ _ b | .while _ _ b => Stmt.blockSites_eq b
  | .ifElse _ _ b₁ b₂ => by
    rw [sites, locals, List.map_append, blockSites_eq b₁, blockSites_eq b₂]
  | .assign .. | .increment .. | .decrement .. | .read .. | .write .. | .call .. | .return ..
  | .unknown _ => rfl

theorem Stmt.blockSites_eq : ∀ b : Block Stmt, blockSites b = (blockLocals b).map VarDecl.span
  | ⟨ds, _, ss⟩ => by
    rw [blockSites, blockLocals, List.map_append, listSites_eq ss]
    rfl

theorem Stmt.listSites_eq : ∀ ss : List Stmt, listSites ss = (listLocals ss).map VarDecl.span
  | [] => rfl
  | s :: ss => by rw [listSites, listLocals, List.map_append, sites_eq s, listSites_eq ss]

end

theorem VarDecl.sites_binder (ds : List VarDecl) :
    (ds.map VarDecl.binder).map Binder.site = VarDecl.sites ds :=
  List.map_map

theorem Decl.sites_binders (d : Decl) : d.binders.map Binder.site = d.sites := by
  cases d with
  | var => rfl
  | fn d =>
    rw [binders, List.map_cons, VarDecl.sites_binder, VarDecl.sites, List.map_append,
      ← Stmt.blockSites_eq]
    rfl
  | struct d =>
    rw [binders, List.map_cons, VarDecl.sites_binder]
    rfl
  | unknown => rfl

theorem Program.sites_binders (p : Program) : p.binders.map Binder.site = p.sites := by
  rw [binders, sites, List.map_flatMap]
  congr 1
  funext d
  exact d.sites_binders

/-! ## Names that are declared -/

theorem VarDecl.ident_mem {ds : VarDecls} {d : VarDecl} (hd : d ∈ ds.items) :
    Exp.ident d.name ∈ ds.expressions :=
  List.mem_flatMap.mpr ⟨d, hd, List.mem_append_right _ (List.mem_singleton.mpr rfl)⟩

mutual

theorem Stmt.ident_mem : ∀ {s : Stmt} {d : VarDecl}, d ∈ s.locals → .ident d.name ∈ s.expressions
  | .ifThen _ _ b, _, h | .while _ _ b, _, h => List.mem_append_right _ (Stmt.ident_mem_block h)
  | .ifElse _ _ b₁ b₂, _, h => by
    rw [expressions, List.append_assoc]
    refine List.mem_append_right _ ?_
    rcases List.mem_append.mp h with h | h
    · exact List.mem_append_left _ (ident_mem_block h)
    · exact List.mem_append_right _ (ident_mem_block h)
  | .assign .., _, h | .increment .., _, h | .decrement .., _, h | .read .., _, h | .write .., _, h
  | .call .., _, h | .return .., _, h | .unknown _, _, h => absurd h List.not_mem_nil

theorem Stmt.ident_mem_block : ∀ {b : Block Stmt} {d : VarDecl}, d ∈ blockLocals b →
    .ident d.name ∈ blockExpressions b
  | ⟨ds, _, ss⟩, _, h => by
    rw [blockExpressions]
    rcases List.mem_append.mp h with h | h
    · exact List.mem_append_left _ (VarDecl.ident_mem h)
    · exact List.mem_append_right _ (ident_mem_list h)

theorem Stmt.ident_mem_list : ∀ {ss : List Stmt} {d : VarDecl}, d ∈ listLocals ss →
    .ident d.name ∈ listExpressions ss
  | [], _, h => absurd h List.not_mem_nil
  | s :: ss, _, h => by
    rw [listExpressions]
    rcases List.mem_append.mp h with h | h
    · exact List.mem_append_left _ (ident_mem h)
    · exact List.mem_append_right _ (ident_mem_list h)

end

/-- What is declared under a name has an identifier of the name. -/
theorem Decl.ident_mem {d : Decl} {b : Binder} (hb : b ∈ d.binders) :
    ∃ x, .ident x ∈ d.expressions ∧ x.name = b.name := by
  cases d with
  | var d =>
    cases List.mem_singleton.mp hb
    exact ⟨d.name, List.mem_append_right _ (List.mem_singleton.mpr rfl), rfl⟩
  | fn d =>
    rw [expressions, List.append_assoc]
    rcases List.mem_cons.mp hb with rfl | hb
    · exact ⟨d.name, List.mem_append_right _ List.mem_cons_self, rfl⟩
    · obtain ⟨v, hv, rfl⟩ := List.mem_map.mp hb
      refine ⟨v.name, List.mem_append_right _ (List.mem_cons_of_mem _ ?_), rfl⟩
      rcases List.mem_append.mp hv with hv | hv
      · exact List.mem_append_left _ (VarDecl.ident_mem hv)
      · exact List.mem_append_right _ (Stmt.ident_mem_block hv)
  | struct d =>
    rcases List.mem_cons.mp hb with rfl | hb
    · exact ⟨d.name, List.mem_cons_self, rfl⟩
    · obtain ⟨v, hv, rfl⟩ := List.mem_map.mp hb
      exact ⟨v.name, List.mem_cons_of_mem _ (VarDecl.ident_mem hv), rfl⟩
  | unknown => cases hb

namespace Renaming.Admitted

variable {p : Program} (h : ρ.Admitted p) (hp : p.sites.Nodup)
include h

theorem ne_new {b : Binder} (hb : b ∈ p.binders) : b.name ≠ ρ.new := by
  obtain ⟨d, hd, hb⟩ := List.mem_flatMap.mp hb
  obtain ⟨x, hx, hname⟩ := Decl.ident_mem hb
  exact hname ▸ h.fresh x (List.mem_flatMap.mpr ⟨d, hd, hx⟩)

include hp

/-- Only one declaration is at the site of the renamed one. -/
theorem eq_target {b : Binder} (hb : b ∈ p.binders) (hsite : b.site = ρ.site) :
    b = ⟨ρ.site, ρ.old, true⟩ := by
  rw [← p.sites_binders] at hp
  exact List.inj_on_of_nodup_map hp hb h.target hsite

theorem suits {b : Binder} (hb : b ∈ p.binders) : ρ.Suits b.site b.name :=
  ⟨h.ne_new hb, fun hsite => congrArg Binder.name (h.eq_target hp hb hsite)⟩

theorem site_ne {b : Binder} (hb : b ∈ p.binders) (houter : b.inner = false) : b.site ≠ ρ.site := by
  intro hsite
  rw [h.eq_target hp hb hsite] at houter
  cases houter

theorem suitsDecl (hformed : p.Formed) {d : Decl} (hd : d ∈ p.decls) : ρ.SuitsDecl d := by
  have hmem : ∀ {b}, b ∈ d.binders → b ∈ p.binders := fun hb => List.mem_flatMap.mpr ⟨d, hd, hb⟩
  have hvars : ∀ {ds : List VarDecl}, (∀ v ∈ ds, v.binder ∈ d.binders) → ρ.AllSuit ds :=
    fun hds v hv => h.suits hp (hmem (hds v hv))
  cases d with
  | var d =>
    have hself := hmem (List.mem_singleton.mpr rfl)
    exact ⟨h.site_ne hp hself rfl, h.ne_new hself⟩
  | fn d =>
    have hself := hmem List.mem_cons_self
    exact ⟨h.site_ne hp hself rfl, h.ne_new hself,
      hvars fun v hv => List.mem_cons_of_mem _
        (List.mem_map_of_mem (List.mem_append_left _ hv)),
      hvars fun v hv => List.mem_cons_of_mem _
        (List.mem_map_of_mem (List.mem_append_right _ hv))⟩
  | struct d =>
    exact ⟨h.suits hp (hmem List.mem_cons_self),
      hvars fun v hv => List.mem_cons_of_mem _ (List.mem_map_of_mem hv)⟩
  | unknown => exact (hformed _ hd).elim

end Renaming.Admitted

/-! ## Layouts -/

/-- Where storage lies, and its size. -/
def Storage.extent (s : Storage) : Place × Nat := (s.place, s.shape.size)

/-- Where the words of a declaration lie. -/
inductive Layout where
  /-- The place and size of a global. -/
  | global (extent : Option (Place × Nat))
  /-- The frame of a function, and the places and sizes of its formals and locals. -/
  | function (frame : Option Frame) (formals locals : List (Place × Nat))
  /-- The size of a struct, and the offsets and sizes of its fields. -/
  | struct (size : Nat) (fields : List (Nat × Nat))
  /-- No words. -/
  | none

/-- Where the words of the declaration lie. -/
def Decl.layout : Decl → Layout
  | .var d => .global (d.storage?.map Storage.extent)
  | .fn d =>
    .function d.frame (d.formalStorages.map Storage.extent) (d.localStorages.map Storage.extent)
  | .struct d =>
    match d.name.binding with
    | .bound (.struct s) => .struct s.size (s.fields.map fun f => (f.offset, f.shape.size))
    | _ => .none
  | .unknown _ => .none

theorem Storage.Renamed.extent {s s' : Storage} (h : s.Renamed ρ s') : s'.extent = s.extent := by
  rw [Storage.extent, Storage.extent, h.place, h.shape.size]

theorem VarDecl.Renamed.extent {d d' : VarDecl} (h : d.Renamed ρ d') :
    d'.storage?.map Storage.extent = d.storage?.map Storage.extent := by
  obtain ⟨hbound, hbound', -, hs⟩ := h.name
  rw [storage?, storage?, hbound, hbound']
  cases hs with
  | storage hs => exact congrArg some hs.extent
  | function | struct => rfl

theorem VarDecl.extents_renamed {ds ds' : List VarDecl}
    (h : List.Forall₂ (VarDecl.Renamed ρ) ds ds') :
    (ds'.filterMap VarDecl.storage?).map Storage.extent =
      (ds.filterMap VarDecl.storage?).map Storage.extent := by
  rw [List.map_filterMap, List.map_filterMap]
  induction h with
  | nil => rfl
  | cons hd _ ih => rw [List.filterMap_cons, List.filterMap_cons, hd.extent, ih]

mutual

theorem Stmt.Renamed.locals : ∀ {s s' : Stmt}, s.Renamed ρ s' →
    List.Forall₂ (VarDecl.Renamed ρ) s.locals s'.locals
  | _, _, .ifThen _ hb | _, _, .while _ hb => Stmt.BlockRenamed.locals hb
  | _, _, .ifElse _ hb₁ hb₂ =>
    List.rel_append (Stmt.BlockRenamed.locals hb₁) (Stmt.BlockRenamed.locals hb₂)
  | _, _, .assign _ | _, _, .increment _ | _, _, .decrement _ | _, _, .read _ | _, _, .write _
  | _, _, .call _ | _, _, .exit | _, _, .return _ => .nil

theorem Stmt.BlockRenamed.locals : ∀ {b b' : Block Stmt}, Stmt.BlockRenamed ρ b b' →
    List.Forall₂ (VarDecl.Renamed ρ) (Stmt.blockLocals b) (Stmt.blockLocals b')
  | _, _, .intro hds hss => List.rel_append hds (Stmt.ListRenamed.locals hss)

theorem Stmt.ListRenamed.locals : ∀ {ss ss' : List Stmt}, Stmt.ListRenamed ρ ss ss' →
    List.Forall₂ (VarDecl.Renamed ρ) (Stmt.listLocals ss) (Stmt.listLocals ss')
  | _, _, .nil => .nil
  | _, _, .cons hs hss => List.rel_append (Stmt.Renamed.locals hs) (Stmt.ListRenamed.locals hss)

end

theorem Decl.Renamed.layout {d d' : Decl} (h : d.Renamed ρ d') : d'.layout = d.layout := by
  cases h with
  | var h => exact congrArg Layout.global h.extent
  | fn h =>
    rw [Decl.layout, Decl.layout, h.frame, FnDecl.formalStorages, FnDecl.formalStorages,
      VarDecl.extents_renamed h.formals, FnDecl.localStorages, FnDecl.localStorages,
      VarDecl.extents_renamed h.body.locals]
  | struct h =>
    obtain ⟨hbound, hbound', -, hs⟩ := h
    rw [Decl.layout, Decl.layout, hbound, hbound']
    cases hs with
    | storage | function => rfl
    | struct hd =>
      obtain ⟨hsize, hfields⟩ := StructDef.renamed_iff.mp hd
      have hextents : ∀ {fs fs' : List (Field StructDef)},
          List.Forall₂ (Field.Renamed ρ) fs fs' →
          fs'.map (fun f => (f.offset, f.shape.size)) =
            fs.map fun f => (f.offset, f.shape.size) := by
        intro fs fs' h
        induction h with
        | nil => rfl
        | cons hf _ ih =>
          obtain ⟨-, -, hoffset, hshape⟩ := Field.renamed_iff.mp hf
          rw [List.map_cons, List.map_cons, hoffset, hshape.size, ih]
      exact congrArg₂ Layout.struct hsize (hextents hfields)

/-! ## Type checking keeps layouts -/

namespace Check

mutual

theorem locals_stmt (ret : Ty) : ∀ s, (stmt ret s).value.locals = s.locals
  | .assign _ e | .increment _ e | .decrement _ e | .read _ e | .write _ e | .call _ e
  | .return _ (some e) => by
    rw [stmt, value_map, Stmt.locals, Stmt.locals]
    all_goals nofun
  | .ifThen _ e b | .while _ e b => by
    rw [stmt]
    refine view_andThen Stmt.locals rfl ?_
    rw [value_map, Stmt.locals, locals_block, Stmt.locals]
  | .ifElse _ e b₁ b₂ => by
    rw [stmt]
    refine view_andThen Stmt.locals rfl (view_andThen Stmt.locals ?_ ?_)
    · rw [Stmt.locals, locals_block, Stmt.locals]
    · rw [value_map, Stmt.locals, locals_block, locals_block, Stmt.locals]
  | .return _ none | .unknown _ => rfl

theorem locals_block (ret : Ty) : ∀ b, Stmt.blockLocals (block ret b).value = Stmt.blockLocals b
  | ⟨ds, _, ss⟩ => by
    rw [block, value_map, Stmt.blockLocals, locals_stmts, Stmt.blockLocals]

theorem locals_stmts (ret : Ty) : ∀ ss, Stmt.listLocals (stmts ret ss).value = Stmt.listLocals ss
  | [] => rfl
  | s :: ss => by
    rw [stmts]
    refine view_andThen Stmt.listLocals ?_ ?_
    · rw [Stmt.listLocals, locals_stmt, Stmt.listLocals]
    · rw [value_map, Stmt.listLocals, locals_stmt, locals_stmts, Stmt.listLocals]

end

theorem layout_decl (d : Decl) : (decl d).value.layout = d.layout := by
  cases d with
  | fn d =>
    rw [decl, value_map, fnDecl]
    split
    · rfl
    · rw [value_map, Decl.layout, Decl.layout, FnDecl.localStorages, locals_block]
      rfl
  | _ => rfl

theorem layout_decls (ds : List Decl) : (decls ds).value.map Decl.layout = ds.map Decl.layout := by
  induction ds with
  | nil => rfl
  | cons d ds ih =>
    rw [decls]
    refine view_andThen (List.map Decl.layout) ?_ ?_
    · rw [List.map_cons, layout_decl, List.map_cons]
    · rw [value_map, List.map_cons, layout_decl, ih, List.map_cons]

end Check

/-! ## Programs -/

theorem Decl.layouts_renamed {ds ds' : List Decl} (h : List.Forall₂ (Decl.Renamed ρ) ds ds') :
    (Check.decls ds').value.map Decl.layout = (Check.decls ds).value.map Decl.layout := by
  rw [Check.layout_decls, Check.layout_decls]
  induction h with
  | nil => rfl
  | cons hd _ ih => rw [List.map_cons, List.map_cons, hd.layout, ih]

/-- A clean program of the form of the renamed one, after name resolution. -/
theorem Program.Formed.renamed {p p' : Program} (h : p.Formed) (h' : p'.Formed)
    (hsuits : ∀ d ∈ p.decls, ρ.SuitsDecl d) (hclean : Decl.ListClean [[]] p.decls)
    (hmain : p.decls.any Resolve.isMain = true)
    (hform : p'.form = (p.resolve.program.rename ρ).form) :
    Decl.ListClean [[]] p'.decls ∧ p'.decls.any Resolve.isMain = true ∧
      List.Forall₂ (Decl.Renamed ρ) p.resolve.program.decls p'.resolve.program.decls := by
  have hempty : Env.Renamed ρ [[]] [[]] := .cons .nil .nil
  obtain ⟨hsilent, hrelated, hsame⟩ :=
    Resolve.renamed_decls hempty h h' hsuits hclean.resolve (congrArg Program.decls hform)
  refine ⟨⟨hsilent, (Check.renamed_decls hrelated hclean.check).1⟩, ?_, hrelated⟩
  have hmain_resolve := p.hasMain_resolve (Program.fault_resolve.trans hclean.resolve.fault)
  rw [← p'.hasMain_resolve (Program.fault_resolve.trans hsilent.fault)]
  exact (hsame.trans hmain_resolve).trans hmain

theorem Decl.ListClean.program {p : Program} (h : Decl.ListClean [[]] p.decls) (hasMain : Bool) :
    (p.resolve.program.check hasMain).value =
      { p.resolve.program with decls := (Check.decls p.resolve.program.decls).value } := by
  have hfault : (Check.decls p.resolve.program.decls).fault = none := h.check.fault
  rw [Program.check, value_andThen hfault]
  rfl

namespace Compilation

/-- The emitted items without comments are told by the sketch without comments. -/
theorem emit_bare {file : Option String} {p q : Program} (hp : p.Formed)
    (hfault : p.resolve.fault = none) (herrors : (analysis file p).hasErrors = false)
    (hq : (analysis file p).program = some q) {o : CodeOptions} (ho : o.comments = false) :
    ((analysis file p).emit o).result =
      .ok ((Decl.listSketch q.decls).bare.run [] { pool := o.pool }).1 := by
  obtain ⟨q', -, hq', -, hemit⟩ := emit_sketch hp hfault herrors
  cases hq.symm.trans hq'
  obtain ⟨-, -, hitems⟩ := hemit o
  rw [hitems, CodeOptions.finish, ho, Sketch.run_bare]
  rfl

/-- Renaming a formal, a local, a struct or a field of a program without errors to a name that the
program does not have leaves a program without errors.  Its frames and structs have the same
layouts, and the same items without comments are emitted for it. -/
theorem analyze_of_renaming {file file' : Option String} {source source' : String}
    {p p' : Program} {c : Compilation} {ρ : Renaming} (hp : Program.parse file source = .ok p)
    (hc : analyze file source = .ok c) (herrors : c.hasErrors = false) (hρ : ρ.Admitted p)
    (hp' : Program.parse file' source' = .ok p')
    (hform : p'.form = (p.resolve.program.rename ρ).form) :
    ∃ c' q q', analyze file' source' = .ok c' ∧ c'.hasErrors = false ∧
      c.program = some q ∧ c'.program = some q' ∧
      q'.decls.map Decl.layout = q.decls.map Decl.layout ∧
      ∀ o : CodeOptions, o.comments = false → ∃ items,
        (c.emit o).result = .ok items ∧ (c'.emit o).result = .ok items := by
  obtain ⟨hfault, rfl⟩ := analysis_of_parse hp hc
  have hformed := Program.parse_formed hp
  have hformed' := Program.parse_formed hp'
  obtain ⟨hclean, hmain⟩ := (hformed.reports_eq_nil hfault).mp (reports_of_hasErrors herrors)
  obtain ⟨hclean', hmain', hrelated⟩ := hformed.renamed hformed'
    (fun d hd => hρ.suitsDecl (Program.sites_nodup hp) hformed hd) hclean hmain hform
  have hfault' : p'.resolve.fault = none := Program.fault_resolve.trans hclean'.resolve.fault
  have herrors' : (analysis file' p').hasErrors = false :=
    hasErrors_analysis.mpr ((hformed'.reports_eq_nil hfault').mpr ⟨hclean', hmain'⟩)
  refine ⟨analysis file' p', _, _, analyze_of_parse hp' hfault', herrors', rfl, rfl, ?_,
    fun o ho => ?_⟩
  · rw [hclean.program, hclean'.program]
    exact Decl.layouts_renamed hrelated
  · refine ⟨_, emit_bare hformed hfault herrors rfl ho, ?_⟩
    rw [emit_bare hformed' hfault' herrors' rfl ho, hclean.program, hclean'.program]
    dsimp only
    rw [(Check.renamed_decls hrelated hclean.check).2]

set_option maxRecDepth 100000 in
/-- A field `x` is renamed beside a local and a global of that name. -/
theorem analyze_of_renaming_of_field : ∃ p p' c c' items,
    Program.parse none "struct p { int x; }; int x; void main() { struct p x; x.x = 1; }" = .ok p ∧
    Program.parse none "struct p { int y; }; int x; void main() { struct p x; x.y = 1; }" = .ok p' ∧
    Renaming.Admitted ⟨some ⟨1, 12, 1, 18⟩, "x", "y"⟩ p ∧
    p'.form = (p.resolve.program.rename ⟨some ⟨1, 12, 1, 18⟩, "x", "y"⟩).form ∧
    analyze none "struct p { int x; }; int x; void main() { struct p x; x.x = 1; }" = .ok c ∧
    analyze none "struct p { int y; }; int x; void main() { struct p x; x.y = 1; }" = .ok c' ∧
    (c.emit { comments := false }).result = .ok items ∧
    (c'.emit { comments := false }).result = .ok items := by
  have haccepts : accepts "struct p { int x; }; int x; void main() { struct p x; x.x = 1; }" =
      true :=
    accepts_of_chars rfl (by decide +kernel)
  have hforms : (Program.parse none
        "struct p { int y; }; int x; void main() { struct p x; x.y = 1; }").map Program.form =
      (Program.parse none "struct p { int x; }; int x; void main() { struct p x; x.x = 1; }").map
        fun p => (p.resolve.program.rename ⟨some ⟨1, 12, 1, 18⟩, "x", "y"⟩).form := by
    cbv
  obtain ⟨p, hp, hfields, hfresh⟩ : ∃ p, Program.parse none
      "struct p { int x; }; int x; void main() { struct p x; x.x = 1; }" = .ok p ∧
      p.binders[1]?.map (fun b => (b.site, b.name, b.inner)) =
        some (some ⟨1, 12, 1, 18⟩, "x", true) ∧
      p.expressions.any (Exp.isNamed "y") = false :=
    Program.exists_parse rfl (by decide +kernel)
  obtain ⟨⟨_, _, _⟩, htarget, hb⟩ := Option.map_eq_some_iff.mp hfields
  cases hb
  obtain ⟨c, hc, herrors⟩ := analyze_of_accepts haccepts
  rw [hp] at hforms
  cases hp' : Program.parse none
      "struct p { int y; }; int x; void main() { struct p x; x.y = 1; }" with
  | error e =>
    rw [hp'] at hforms
    cases hforms
  | ok p' =>
    rw [hp'] at hforms
    have hform := Except.ok.inj hforms
    have hadmitted : Renaming.Admitted ⟨some ⟨1, 12, 1, 18⟩, "x", "y"⟩ p :=
      { target := List.mem_of_getElem? htarget
        fresh := fun x hx => by
          have hne := List.any_eq_false.mp hfresh _ hx
          simpa [Exp.isNamed] using hne }
    obtain ⟨c', q, q', hc', -, -, -, -, hemit⟩ :=
      analyze_of_renaming hp hc herrors hadmitted hp' hform
    obtain ⟨items, hitems, hitems'⟩ := hemit { comments := false } rfl
    exact ⟨p, p', c, c', items, hp, rfl, hadmitted, hform, hc, hc', hitems, hitems'⟩

end Compilation

end CMinusMinus
