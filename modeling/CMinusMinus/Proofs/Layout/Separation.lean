import CMinusMinus.Proofs.Compilation
import CMinusMinus.Proofs.Form
import CMinusMinus.Proofs.Grammar.Reading
import CMinusMinus.Proofs.Height.Programs
import CMinusMinus.Proofs.Layout
import CMinusMinus.Proofs.Layout.Addresses
import Mathlib

/-!
# Words of a program

In a program without errors every access is to a word that is reserved for the variable it leads
to, and two accesses of one activation are to the same word exactly if they lead through the same
fields of the same variable (`Compilation.words_separate`).  Every function of a program that was
read has its frame laid out, with errors or without (`frames_laidOut`).
-/

namespace CMinusMinus

open Outcome

/-! ## Globals -/

/-- The storage of the variables among declarations at the top of a program. -/
def Decl.globals (ds : List Decl) : List Storage :=
  ds.filterMap fun
    | .var d => d.storage?
    | _ => none

/-- The storage of the global variables. -/
def Program.globals (p : Program) : List Storage := Decl.globals p.decls

theorem Introduces.globals {env : Env} {d : VarDecl} {s : Storage} (h : Introduces env d s)
    (ds : List Decl) : Decl.globals (.var d :: ds) = s :: Decl.globals ds :=
  List.filterMap_cons_some h.storage?

namespace DeclsTyped

variable {env env' : Env} {ds : List Decl}

theorem static (h : DeclsTyped env ds env') : ∀ s ∈ Decl.globals ds, s.place = .static := by
  induction h with
  | nil => nofun
  | var _ _ hd hplace _ _ ih =>
    rw [hd.globals]
    exact List.forall_mem_cons.mpr ⟨hplace, ih⟩
  | fn _ _ _ ih | struct _ _ _ _ ih => exact ih

theorem globals_find?_eq_none (h : DeclsTyped env ds env') (henv : env.length = 1) :
    ∀ s ∈ Decl.globals ds, env.find? s.name = none := by
  induction h with
  | nil => nofun
  | @var env _ _ _ _ _ _ hd _ _ _ ih =>
    rw [hd.globals]
    refine List.forall_mem_cons.mpr ⟨?_, fun t ht => ?_⟩
    · obtain ⟨scope, rfl⟩ := List.length_eq_one_iff.mp henv
      rw [Scopes.find?_single]
      exact hd.fresh
    · exact (Env.within_insert henv hd.fresh _).find?_eq_none
        (ih (Env.length_insert henv _ _) t ht)
  | fn hfresh _ _ ih | struct hfresh _ _ _ ih =>
    exact fun t ht => (Env.within_insert henv hfresh _).find?_eq_none
      (ih (Env.length_insert henv _ _) t ht)

/-- No two globals have one name. -/
theorem globals_nodup (h : DeclsTyped env ds env') (henv : env.length = 1) :
    ((Decl.globals ds).map Storage.name).Nodup := by
  induction h with
  | nil => exact List.nodup_nil
  | @var env _ _ _ s _ _ hd _ _ hrest ih =>
    have hne : env ≠ [] := List.length_pos_iff.mp (by rw [henv]; exact Nat.one_pos)
    have henv₁ := Env.length_insert henv s.name (.storage s)
    rw [hd.globals]
    refine List.nodup_cons.mpr ⟨fun hmem => ?_, ih henv₁⟩
    obtain ⟨t, ht, hname⟩ := List.mem_map.mp hmem
    have hnone := hrest.globals_find?_eq_none henv₁ t ht
    rw [Scopes.find?_insert hne hd.fresh, if_pos hname] at hnone
    cases hnone
  | fn _ _ _ ih | struct _ _ _ _ ih => exact ih (Env.length_insert henv _ _)

/-- A name that is declared as storage is that of a global. -/
theorem global_of_find? (h : DeclsTyped env ds env') (henv : env.length = 1) {name : String}
    {s : Storage} (hfind : env'.find? name = some (.storage s)) :
    env.find? name = some (.storage s) ∨ s ∈ Decl.globals ds := by
  induction h with
  | nil => exact .inl hfind
  | @var env _ _ _ _ _ _ hd _ _ _ ih =>
    have hne : env ≠ [] := List.length_pos_iff.mp (by rw [henv]; exact Nat.one_pos)
    rw [hd.globals]
    rcases ih (Env.length_insert henv _ _) hfind with hbefore | hafter
    · rw [Scopes.find?_insert hne hd.fresh] at hbefore
      split at hbefore
      · cases hbefore
        exact .inr List.mem_cons_self
      · exact .inl hbefore
    · exact .inr (List.mem_cons_of_mem _ hafter)
  | @fn env _ _ _ _ hfresh _ _ ih | @struct env _ _ _ _ hfresh _ _ _ ih =>
    have hne : env ≠ [] := List.length_pos_iff.mp (by rw [henv]; exact Nat.one_pos)
    rcases ih (Env.length_insert henv _ _) hfind with hbefore | hafter
    · rw [Scopes.find?_insert hne hfresh] at hbefore
      split at hbefore
      · cases hbefore
      · exact .inl hbefore
    · exact .inr hafter

end DeclsTyped

/-- The slot of each global is a piece of the code of the declarations. -/
theorem Generate.globalSlot_of_decls {env env' : Env} {ds : List Decl}
    (h : DeclsTyped env ds env') {ls : Labels} {current current' : Option String}
    {items : List Item} (hitems : decls ls current ds = .ok (items, current')) :
    ∀ s ∈ Decl.globals ds, Asm.globalSlot (globalLabel s.name) s.shape.size <:+: items := by
  induction h generalizing ls current items with
  | nil => nofun
  | @var _ _ d _ s _ _ hd hplace _ _ ih =>
    obtain ⟨code, ls', current₁, rest, hcode, hrest, rfl⟩ := decls_cons hitems
    have hslot : code = Asm.globalSlot (globalLabel s.name) s.shape.size := by
      cases hcode with
      | var hcode => exact slot_of_bound hd.binding hcode
    rw [hd.globals]
    refine List.forall_mem_cons.mpr ⟨hslot ▸ (List.prefix_append _ _).isInfix, fun t ht => ?_⟩
    exact (ih hrest t ht).trans (List.suffix_append _ _).isInfix
  | fn _ _ _ ih | struct _ _ _ _ ih =>
    obtain ⟨code, ls', current₁, rest, -, hrest, rfl⟩ := decls_cons hitems
    exact fun t ht => (ih hrest t ht).trans (List.suffix_append _ _).isInfix

theorem CodeOptions.finish_infix (o : CodeOptions) {q items : List Item} (h : q <:+: items) :
    o.finish q <:+: o.finish items := by
  rw [finish, finish]
  split
  · exact h
  · exact h.map _

theorem CodeOptions.finish_globalSlot (o : CodeOptions) (name : String) (size : Int) :
    o.finish (Asm.globalSlot name size) = Asm.globalSlot name size := by
  rw [finish]
  split <;> rfl

/-! ## Structs -/

/-- The struct has the declared fields in the order of their declarations, and its words are
consecutive. -/
structure StructDecl.Lays (d : StructDecl) (layout : StructDef) : Prop where
  binding : d.name.binding = .bound (.struct layout)
  fields : d.fields.items.map VarDecl.storage? = layout.fields.map fun f => some f.storage
  words : Words layout.words layout.size

namespace Resolve

theorem storages_of_silent {env : Env} (henv : env.Sound) {before : List (Field StructDef)}
    {size : Nat} {ds : List VarDecl} (h : (fields env before size ds).Silent) :
    ∃ fs, (fields env before size ds).value.2.1 = before ++ fs ∧
      (fields env before size ds).value.1.map VarDecl.storage? =
        fs.map fun f => some f.storage := by
  induction ds generalizing before size with
  | nil => exact ⟨[], (List.append_nil _).symm, rfl⟩
  | cons d ds ih =>
    rw [fields, silent_andThen, silent_map] at h
    rw [fields, value_andThen h.1.fault]
    obtain ⟨-, d', s, hvalue, -, hname, -, hplace, -⟩ := declare_of_silent henv h.1
    simp only [value_map, hvalue] at h ⊢
    obtain ⟨fs, hfs, hstorages⟩ := ih h.2
    have hstorage : d'.storage? = some s := by rw [VarDecl.storage?, hname]; rfl
    refine ⟨⟨s.name, s.site, size, s.shape⟩ :: fs, ?_, ?_⟩
    · rw [hfs, addField, List.append_assoc, List.singleton_append]
    · rw [List.map_cons, List.map_cons, hstorages, hstorage, Field.storage, ← hplace]

theorem lays_of_silent {env : Env} (henv : env.Sound) {d : StructDecl}
    (h : (structDecl env d).Silent) : ∃ layout, (structDecl env d).value.1.Lays layout := by
  unfold structDecl at h ⊢
  rw [silent_andThen, silent_reporting, silent_andThen] at h
  obtain ⟨htaken, hfields, -⟩ := h
  rw [value_andThen rfl, value_andThen hfields.fault]
  cases hcause : taken env d.name.name with
  | some cause =>
    rw [hcause] at htaken
    cases htaken
  | none =>
    obtain ⟨fs, hfs, hstorages⟩ := storages_of_silent henv hfields
    dsimp only
    rw [value_logged]
    refine ⟨_, rfl, ?_, ?_⟩
    · rw [List.nil_append] at hfs
      rw [← hfs] at hstorages
      exact hstorages
    · rw [StructDef.words_eq]
      exact (laid_of_silent henv .nil hfields).words

end Resolve

/-- A declaration without reports enters one sound symbol into the scopes. -/
theorem Resolve.insert_decl {env : Env} (henv : env.Sound) {d : Decl} (hd : d.Formed)
    (hr : (decl env d).Silent) (hc : (Check.decl (decl env d).value.1).Silent) :
    ∃ name s, (decl env d).value.2 = env.insert name s ∧ Symbol.Sound name s := by
  cases d with
  | unknown => exact hd.elim
  | var d =>
    rw [Decl.Formed] at hd
    simp only [decl, hd.role, silent_map, value_map] at hr ⊢
    obtain ⟨-, d', s, hvalue, -, -, -, hplace, hlaid, -⟩ := declare_of_silent henv hr
    simp only [hvalue, extend]
    exact ⟨_, _, rfl, .storage rfl (Storage.placed_of_static hplace) hlaid⟩
  | fn d =>
    rw [Decl.Formed] at hd
    simp only [decl, Check.decl, silent_map, value_map] at hr hc ⊢
    obtain ⟨sig, -, -, henv', hsound⟩ := fnTyped_of_silent henv hd hr hc
    exact ⟨_, _, henv', hsound⟩
  | struct d =>
    simp only [decl, silent_map, value_map] at hr ⊢
    obtain ⟨d', layout, hvalue, -, hlaid, hwritten⟩ := structDecl_of_silent henv hr
    simp only [hvalue]
    exact ⟨_, _, rfl, .struct hlaid hwritten⟩

theorem Resolve.sound_decl {env : Env} (henv : env.Sound) {d : Decl} (hd : d.Formed)
    (hr : (decl env d).Silent) (hc : (Check.decl (decl env d).value.1).Silent) :
    Env.Sound (decl env d).value.2 := by
  obtain ⟨name, s, henv', hs⟩ := insert_decl henv hd hr hc
  exact henv' ▸ henv.insert hs

/-- Each struct of a program without reports has its declared fields. -/
theorem lays_decls {env : Env} (henv : env.Sound) {ds : List Decl} (h : ∀ d ∈ ds, d.Formed)
    (hr : (Resolve.decls env ds).Silent)
    (hc : (Check.decls (Resolve.decls env ds).value.1).Silent) {d : StructDecl}
    (hd : .struct d ∈ (Check.decls (Resolve.decls env ds).value.1).value) :
    ∃ layout, d.Lays layout := by
  induction ds generalizing env with
  | nil => exact absurd hd List.not_mem_nil
  | cons d' ds ih =>
    obtain ⟨hformed, hds⟩ := List.forall_mem_cons.mp h
    rw [Resolve.decls, silent_andThen, silent_map] at hr
    rw [Resolve.decls, value_andThen hr.1.fault] at hc hd
    simp only [value_map] at hc hd
    rw [Check.decls, silent_andThen, silent_map] at hc
    rw [Check.decls, value_andThen hc.1.fault, value_map] at hd
    rcases List.mem_cons.mp hd with hhead | htail
    · have hr' := hr.1
      cases d' with
      | unknown => exact hformed.elim
      | var d' =>
        rw [Decl.Formed] at hformed
        simp only [Resolve.decl, hformed.role, Check.decl, value_map, value_pure] at hhead
        cases hhead
      | fn d' =>
        simp only [Resolve.decl, Check.decl, value_map] at hhead
        cases hhead
      | struct d' =>
        simp only [Resolve.decl, Check.decl, value_map, value_pure, silent_map] at hhead hr'
        cases hhead
        exact Resolve.lays_of_silent henv hr'
    · exact ih (Resolve.sound_decl henv hformed hr.1 hc.1) hds hr.2 hc.2 htail

theorem Program.Formed.lays {p : Program} (h : p.Formed) (hfault : p.resolve.fault = none)
    {hasMain : Bool} (hr : p.resolve.reports = [])
    (hc : (p.resolve.program.check hasMain).reports = [])
    {d : StructDecl} (hd : .struct d ∈ (p.resolve.program.check hasMain).value.decls) :
    ∃ layout, d.Lays layout := by
  obtain ⟨hresolve, hcheck⟩ := h.silent hfault hr hc
  rw [Program.check, silent_andThen] at hcheck
  rw [Program.check, value_andThen hcheck.1.fault] at hd
  exact lays_decls Env.sound_empty h hresolve hcheck.1 hd

/-! ## Accesses -/

/-- The access leads to a word that is reserved for its variable: of the slot of a global among
the items, or of the frame of the function. -/
def Exp.Reserved (e : Exp) (d : FnDecl) (items : List Item) : Prop :=
  ∃ x s operand n, e.root? = some x ∧ x.binding = .bound (.storage s) ∧
    Generate.placeOperand? s = some operand ∧ e.Emits operand n ∧
    (e.fieldPath, n) ∈ s.shape.words ∧
    ((s.place = .static ∧ n + wordSize ≤ s.shape.size ∧
        Asm.globalSlot (Generate.globalLabel s.name) s.shape.size <:+: items) ∨
      (s ∈ d.formalStorages ++ d.localStorages ∧
        ∃ offset, s.place = .frame offset ∧ s.Covers (offset - n)))

/-- What the root of the location is bound to. -/
def Exp.rootBinding? (e : Exp) : Option Binding := e.root?.map (·.binding)

/-- Every access of the function denotes a word, and two of them the same one exactly if they lead
through the same fields of the same variable. -/
structure FnDecl.Separates (d : FnDecl) (m : Placement) : Prop where
  denotes : ∀ e ∈ d.locations, ∃ a, m.Denotes e a
  same : ∀ e ∈ d.locations, ∀ e' ∈ d.locations, ∀ a a', m.Denotes e a → m.Denotes e' a' →
    (a = a' ↔ e.rootBinding? = e'.rootBinding? ∧ e.fieldPath = e'.fieldPath)

section Function

variable {d : FnDecl} {frame : Frame}

/-- The words of the formals and locals lie in the frame. -/
theorem FnDecl.FormalsPlaced.within (hplaced : d.FormalsPlaced)
    (hstack : Stacked { formals := wordSize * d.formals.items.length } d.localStorages frame) :
    ∀ s ∈ d.formalStorages ++ d.localStorages, ∃ offset, s.place = .frame offset ∧
      0 ≤ offset - s.shape.size + wordSize ∧ offset + wordSize ≤ frame.size := by
  have hformals : frame.formals = wordSize * d.formals.items.length := hstack.formals
  unfold Frame.size
  refine List.forall_mem_append.mpr ⟨fun s hs => ?_, fun s hs => ?_⟩
  · obtain ⟨i, hi, hplace, hsize⟩ := hplaced.of_mem hs
    refine ⟨_, hplace, ?_, ?_⟩ <;> unfold wordSize at * <;> omega
  · obtain ⟨offset, hplace, hlow, hhigh⟩ := hstack.within hs
    dsimp only at hlow hhigh
    refine ⟨offset, hplace, ?_, ?_⟩ <;> omega

/-- Storage that has a word is that of one formal or local only. -/
theorem FnDecl.LaidOut.distinct (h : d.LaidOut frame) :
    (d.formalStorages ++ d.localStorages).Pairwise fun s t => wordSize ≤ s.shape.size → s ≠ t := by
  refine h.apart.imp_of_mem fun {s t} hs _ happart hsize heq => ?_
  obtain ⟨offset, hplace⟩ := h.placed s hs
  have hcovers : s.Covers offset := by
    rw [Storage.covers_iff hplace]
    omega
  exact happart offset ⟨hcovers, heq ▸ hcovers⟩

variable {env env' : Env} {ds : List Decl} {sig : Signature}

/-- The words that a function accesses are reserved. -/
theorem FnTyped.reserved (h : FnTyped env d sig) (hsound : env.Sound) {items : List Item}
    (hglobals : ∀ name s, env.find? name = some (.storage s) → s.place = .static ∧
      Asm.globalSlot (Generate.globalLabel s.name) s.shape.size <:+: items) :
    ∀ e ∈ d.locations, e.Reserved d items := by
  intro e he
  obtain ⟨frame, -, hplaced, hstack⟩ := h.stacked
  obtain ⟨env₁, s, n, t, hsound₁, hloc, hhost⟩ := h.hosted hsound e he
  obtain ⟨hunplaced, hlaid⟩ := hloc.root hsound₁
  obtain ⟨operand, hoperand⟩ := Generate.placeOperand_of_placed hunplaced
  obtain ⟨x, hroot, hbound⟩ := hloc.root?_eq
  have hword := hloc.mem_words_scalar
  have hwithin : n + wordSize ≤ s.shape.size := hlaid.words.within hword
  refine ⟨x, s, operand, n, hroot, hbound, hoperand, hloc.emits hsound₁ hoperand, hword, ?_⟩
  rcases hhost with hmem | hfind
  · obtain ⟨offset, hplace, -⟩ := hplaced.within hstack s hmem
    refine .inr ⟨hmem, offset, hplace, ?_⟩
    rw [Storage.covers_iff hplace]
    omega
  · obtain ⟨hplace, hslot⟩ := hglobals _ _ hfind
    exact .inl ⟨hplace, hwithin, hslot⟩

/-- Where the globals and the frame lie apart, the accesses of a function do. -/
theorem FnTyped.separates (h : FnTyped env d sig) (hsound : env.Sound) {globals : List Storage}
    (hstatic : ∀ s ∈ globals, s.place = .static)
    (hglobals : ∀ name s, env.find? name = some (.storage s) → s ∈ globals) {m : Placement}
    (hframe : d.frame = some frame) (hm : m.Apart globals frame) : d.Separates m := by
  obtain ⟨frame', hframe', hplaced, hstack⟩ := h.stacked
  cases hframe.symm.trans hframe'
  have hlaidOut := FnDecl.LaidOut.of_stacked hplaced hstack
  refine ⟨fun e he => ?_, fun e he e' he' a a' ha ha' => ?_⟩
  · obtain ⟨env₁, s, n, t, hsound₁, hloc, -⟩ := h.hosted hsound e he
    exact ⟨_, (m.denotes_iff_of_locates hsound₁ hloc _).mpr rfl⟩
  · obtain ⟨env₁, s, n, t, hsound₁, hloc, hhost⟩ := h.hosted hsound e he
    obtain ⟨env₂, s', n', t', hsound₂, hloc', hhost'⟩ := h.hosted hsound e' he'
    obtain ⟨x, hroot, hbound⟩ := hloc.root?_eq
    obtain ⟨x', hroot', hbound'⟩ := hloc'.root?_eq
    rw [(m.denotes_iff_of_locates hsound₁ hloc a).mp ha,
      (m.denotes_iff_of_locates hsound₂ hloc' a').mp ha', Exp.rootBinding?, Exp.rootBinding?,
      hroot, hroot', Option.map_some, Option.map_some, hbound, hbound']
    have hwords := (hloc.root hsound₁).2.words
    have hwords' := (hloc'.root hsound₂).2.words
    constructor
    · intro heq
      have hs : s = s' := hm.eq_of_base hstatic (hplaced.within hstack) hlaidOut.apart
        (hhost.imp id (hglobals _ _)) (hhost'.imp id (hglobals _ _))
        (hwords.within hloc.mem_words_scalar) (hwords'.within hloc'.mem_words_scalar) heq
      subst hs
      refine ⟨rfl, (hwords.distance_eq_iff hloc.mem_words_scalar hloc'.mem_words_scalar).mp ?_⟩
      dsimp only
      omega
    · rintro ⟨hsame, hpath⟩
      cases hsame
      have hn := (hwords.distance_eq_iff hloc.mem_words_scalar hloc'.mem_words_scalar).mpr hpath
      dsimp only at hn
      rw [hn]

end Function

/-! ## Programs -/

namespace Compilation

/-- In the code that is emitted for the program, structs have their declared fields, globals have
slots of their own, and no two variables of a function have one storage.  Each access of a function
has code, leads to a word that is reserved, and denotes the word of just those accesses that lead to
the same place, wherever the globals and the frame lie. -/
structure Separated (p : Program) (items : List Item) (o : CodeOptions) : Prop where
  structs : ∀ d, .struct d ∈ p.decls → ∃ layout, d.Lays layout
  globals : (p.globals.map Storage.name).Nodup ∧
    ∀ s ∈ p.globals, Asm.globalSlot (Generate.globalLabel s.name) s.shape.size <:+: items
  placement : ∀ frame fp, ∃ m : Placement, m.fp = fp ∧ m.Apart p.globals frame
  functions : ∀ d ∈ p.functions, ∃ frame ls ls' code, d.frame = some frame ∧
    Generate.function d frame ls = .ok (code, ls') ∧ o.finish code <:+: items ∧
    ((d.formalStorages ++ d.localStorages).Pairwise
      fun s t => wordSize ≤ s.shape.size → s ≠ t) ∧
    (∀ e ∈ d.locations, e.Emitted code ∧ e.Reserved d items) ∧
    ∀ m : Placement, m.Apart p.globals frame → d.Separates m

/-- The words that a program without errors accesses are reserved, and apart wherever the globals
and a frame lie, as long as they do not meet. -/
theorem words_separate {file : Option String} {source : String} {c : Compilation}
    (hc : analyze file source = .ok c) (herrors : c.hasErrors = false) (o : CodeOptions) :
    ∃ p items, c.program = some p ∧ (c.emit o).result = .ok items ∧ Separated p items o := by
  obtain ⟨p, hp, hfault, rfl⟩ := analysis_of_analyze hc herrors
  have hformed := Program.parse_formed hp
  obtain ⟨hresolve, hcheck⟩ := reports_of_hasErrors herrors
  obtain ⟨env, htyped, -⟩ := hformed.typed hfault hresolve hcheck
  obtain ⟨⟨raw, current⟩, hraw⟩ := Generate.decls_of_typed htyped Env.sound_empty
    { pool := o.pool } none
  have hslots : ∀ s ∈ Decl.globals (p.resolve.program.check p.resolve.hasMain).value.decls,
      Asm.globalSlot (Generate.globalLabel s.name) s.shape.size <:+: o.finish raw := by
    intro s hs
    rw [← o.finish_globalSlot]
    exact o.finish_infix (Generate.globalSlot_of_decls htyped hraw s hs)
  have hnames := DeclsTyped.globals_nodup htyped rfl
  refine ⟨_, o.finish raw, rfl, ?_,
    { structs := fun d hd => hformed.lays hfault hresolve hcheck hd
      globals := ⟨hnames, hslots⟩
      placement := Placement.exists_apart hnames
      functions := fun d hd => ?_ }⟩
  · have hcurrent : (analysis file p).current = none := rfl
    have hq : (analysis file p).program =
      some (p.resolve.program.check p.resolve.hasMain).value := rfl
    simp only [emit, hq, hcurrent, Program.generateFrom, hraw, bind, Except.bind]
  · obtain ⟨frame, ls, ls', code, before, after, hframe, hcode, hsplit⟩ :=
      Generate.mem_decls hraw hd
    obtain ⟨sig, env₁, hsound, hwithin, -, hfn⟩ :=
      DeclsTyped.typedWithin htyped rfl Env.sound_empty hd
    obtain ⟨frame', hframe', hplaced, hstack⟩ := hfn.stacked
    cases hframe.symm.trans hframe'
    have hglobal : ∀ name s, env₁.find? name = some (.storage s) →
        s ∈ Decl.globals (p.resolve.program.check p.resolve.hasMain).value.decls := by
      intro name s hfind
      rcases DeclsTyped.global_of_find? htyped rfl (hwithin hfind) with hnone | hmem
      · cases hnone
      · exact hmem
    have hlaidOut := FnDecl.LaidOut.of_stacked hplaced hstack
    refine ⟨frame, ls, ls', code, hframe, hcode, ?_, hlaidOut.distinct, fun e he => ⟨?_, ?_⟩,
      fun m hm => ?_⟩
    · exact o.finish_infix ⟨before, after, by rw [hsplit, List.append_assoc]⟩
    · exact Generate.emitted_function hcode e he
    · exact hfn.reserved hsound
        (fun name s hfind => ⟨htyped.static s (hglobal name s hfind),
          hslots s (hglobal name s hfind)⟩) e he
    · exact hfn.separates hsound htyped.static hglobal hframe hm

set_option maxRecDepth 100000 in
/-- A word of a struct in a global, and a local that shares its name with a field. -/
theorem words_separate_of_nested :
    ∃ c p items, analyze none
        "struct p { bool y; int x; }; struct q { struct p b; }; struct q g;
         void main() { int x; g.b.x = x; }" = .ok c ∧
      c.hasErrors = false ∧ c.program = some p ∧ (c.emit {}).result = .ok items ∧
      Separated p items {} := by
  have haccepts : accepts
      "struct p { bool y; int x; }; struct q { struct p b; }; struct q g;
         void main() { int x; g.b.x = x; }" = true :=
    accepts_of_chars rfl (by decide +kernel)
  obtain ⟨c, hc, herrors⟩ := analyze_of_accepts haccepts
  obtain ⟨p, items, hp, hitems, hseparated⟩ := words_separate hc herrors {}
  exact ⟨c, p, items, hc, herrors, hp, hitems, hseparated⟩

end Compilation

/-! ## The frames of a program -/

/-- The name of a function and the number of its formals. -/
def FnDecl.heading (d : FnDecl) : String × Nat := (d.name.name, d.formals.items.length)

theorem layout_decls {env : Env} {ds : List Decl} (h : ∀ d ∈ ds, d.Formed)
    (hfault : (Resolve.decls env ds).fault = none) :
    (Program.functions { decls := (Resolve.decls env ds).value.1 }).map FnDecl.heading =
        (Program.functions { decls := ds }).map FnDecl.heading ∧
      ∀ d ∈ Program.functions { decls := (Resolve.decls env ds).value.1 },
        ∃ frame, d.frame = some frame ∧ d.LaidOut frame := by
  induction ds generalizing env with
  | nil => exact ⟨rfl, by intro d hd; cases hd⟩
  | cons d ds ih =>
    obtain ⟨hd, hds⟩ := List.forall_mem_cons.mp h
    rw [Resolve.decls, fault_andThen, fault_map] at hfault
    have htail := ih hds hfault.2
    rw [Resolve.decls, value_andThen hfault.1]
    unfold Program.functions at htail ⊢
    rw [value_map]
    cases d with
    | var d =>
      have hrole : d.role = .variable := VarDecl.Formed.role hd
      rw [Resolve.decl, hrole] at htail ⊢
      exact htail
    | fn d =>
      have hfn : (Resolve.fnDecl env d).fault = none := hfault.1
      obtain ⟨hlength, hframe⟩ := Resolve.laidOut_fnDecl hd hfn
      exact ⟨List.cons_eq_cons.mpr ⟨Prod.ext (Resolve.name_fnDecl hd hfn) hlength, htail.1⟩,
        List.forall_mem_cons.mpr ⟨hframe, htail.2⟩⟩
    | struct d => exact htail
    | unknown => exact hd.elim

/-- Where name resolution of a program that was read comes to its end, it leaves the program as it
was read but for annotations, and lays out the frame of each of its functions, whatever it
reports. -/
theorem frames_laidOut {file : Option String} {source : String} {p : Program}
    (h : Program.parse file source = .ok p) (hfault : p.resolve.fault = none) :
    p.resolve.program.form = p.form ∧
      p.resolve.program.functions.map FnDecl.heading = p.functions.map FnDecl.heading ∧
      ∀ d ∈ p.resolve.program.functions, ∃ frame, d.frame = some frame ∧ d.LaidOut frame :=
  ⟨p.form_resolve,
    layout_decls (Program.parse_formed h) (Program.fault_resolve.symm.trans hfault)⟩

set_option maxRecDepth 100000 in
/-- A function with a rejected formal between accepted ones, and locals in two blocks. -/
theorem frames_laidOut_of_rejected :
    ∃ p, Program.parse none
        "struct pair { int a; bool b; };
         void f(int x, void x, bool y) { struct pair p; if (y) { int p; void q; int x; } }" =
          .ok p ∧
      p.resolve.fault = none ∧ p.resolve.program.form = p.form ∧
      p.resolve.program.functions.map FnDecl.heading = p.functions.map FnDecl.heading ∧
      ∀ d ∈ p.resolve.program.functions, ∃ frame, d.frame = some frame ∧ d.LaidOut frame := by
  obtain ⟨p, hp, hnone⟩ : ∃ p, Program.parse none
      "struct pair { int a; bool b; };
         void f(int x, void x, bool y) { struct pair p; if (y) { int p; void q; int x; } }" =
        .ok p ∧ p.resolve.fault.isNone = true :=
    Program.exists_parse rfl (by decide +kernel)
  have hfault := Option.isNone_iff_eq_none.mp hnone
  exact ⟨p, hp, hfault, frames_laidOut hp hfault⟩

end CMinusMinus
