import Mathlib.Data.List.Forall2
import CMinusMinus.Proofs.Form
import CMinusMinus.Proofs.Layout

/-!
# Renaming

A *renaming* gives a declaration of a program another name, and with it every identifier that is
bound to the declaration.  What is bound to a declaration is told by the site of its symbol, so the
renaming is done on a tree whose names are bound.

Here are the renaming of trees and what becomes of symbols and scopes.  Names are looked up by their
spelling, yet a lookup under the new name finds what the lookup under the old one found
(`Env.Renamed.find?`): no other declaration has the new name, and all of that site have the old one.
-/

namespace CMinusMinus

/-- A new name for the declaration at a site. -/
structure Renaming where
  site : Option Span
  /-- The name that is declared there. -/
  old : String
  /-- The name that it gets. -/
  new : String

namespace Renaming

variable (ρ : Renaming)

/-- How a name is spelled that is bound to a symbol of the given site. -/
def spell (site : Option Span) (name : String) : String := if site = ρ.site then ρ.new else name

/-- The name declared at a site is not the new one, and it is the old one if the declaration is to
be renamed. -/
structure Suits (site : Option Span) (name : String) : Prop where
  fresh : name ≠ ρ.new
  old : site = ρ.site → name = ρ.old

variable {ρ} {site site' : Option Span} {name name' : String}

theorem spell_of_ne (h : site ≠ ρ.site) (name : String) : ρ.spell site name = name := if_neg h

/-- Names that were different stay different. -/
theorem Suits.spell_ne (h : ρ.Suits site name) (h' : ρ.Suits site' name') (hne : name ≠ name') :
    ρ.spell site name ≠ ρ.spell site' name' := by
  unfold spell
  split
  · next hsite =>
    split
    · next hsite' => exact absurd ((h.old hsite).trans (h'.old hsite').symm) hne
    · exact h'.fresh.symm
  · split
    · exact h.fresh
    · exact hne

end Renaming

variable (ρ : Renaming)

/-! ## Trees -/

/-- The identifier, renamed if it is bound to the declaration. -/
def Ident.rename (x : Ident) : Ident :=
  match x.binding with
  | .bound s => { x with name := ρ.spell s.site x.name }
  | _ => x

namespace Exp

mutual

/-- The expression with the identifiers renamed that are bound to the declaration. -/
def rename : Exp → Exp
  | .int i v => .int i v
  | .string i s => .string i s
  | .bool i b => .bool i b
  | .ident x => .ident (x.rename ρ)
  | .access i k loc f => .access i k loc.rename (f.rename ρ)
  | .assign i l r => .assign i l.rename r.rename
  | .call i f s args => .call i (f.rename ρ) s (listRename args)
  | .neg i e => .neg i e.rename
  | .not i e => .not i e.rename
  | .binary i op l r => .binary i op l.rename r.rename
  | .unknown i => .unknown i
termination_by structural e => e

/-- The expressions with the identifiers renamed that are bound to the declaration. -/
def listRename : List Exp → List Exp
  | [] => []
  | e :: es => e.rename :: listRename es
termination_by structural es => es

end

end Exp

/-- The written type, with its struct renamed if it is the declaration. -/
def TypeNode.rename : TypeNode → TypeNode
  | .struct s x => .struct s (x.rename ρ)
  | t => t

/-- The declaration of a variable, with its names renamed. -/
def VarDecl.rename (d : VarDecl) : VarDecl :=
  { d with type := d.type.rename ρ, name := d.name.rename ρ }

/-- The declarations of variables, with their names renamed. -/
def VarDecls.rename (ds : VarDecls) : VarDecls :=
  { ds with items := ds.items.map (VarDecl.rename ρ) }

namespace Stmt

mutual

/-- The statement with the identifiers renamed that are bound to the declaration. -/
def rename : Stmt → Stmt
  | .assign s e => .assign s (e.rename ρ)
  | .increment s e => .increment s (e.rename ρ)
  | .decrement s e => .decrement s (e.rename ρ)
  | .read s e => .read s (e.rename ρ)
  | .write s e => .write s (e.rename ρ)
  | .ifThen s e b => .ifThen s (e.rename ρ) (blockRename b)
  | .ifElse s e b₁ b₂ => .ifElse s (e.rename ρ) (blockRename b₁) (blockRename b₂)
  | .while s e b => .while s (e.rename ρ) (blockRename b)
  | .call s e => .call s (e.rename ρ)
  | .return s none => .return s none
  | .return s (some e) => .return s (some (e.rename ρ))
  | .unknown s => .unknown s
termination_by structural s => s

/-- The block with the identifiers renamed that are bound to the declaration. -/
def blockRename : Block Stmt → Block Stmt
  | ⟨ds, s, ss⟩ => ⟨ds.rename ρ, s, listRename ss⟩
termination_by structural b => b

/-- The statements with the identifiers renamed that are bound to the declaration. -/
def listRename : List Stmt → List Stmt
  | [] => []
  | s :: ss => s.rename :: listRename ss
termination_by structural ss => ss

end

end Stmt

/-- The function with the identifiers renamed that are bound to the declaration. -/
def FnDecl.rename (d : FnDecl) : FnDecl :=
  { d with
    returns := d.returns.rename ρ, name := d.name.rename ρ, formals := d.formals.rename ρ,
    body := Stmt.blockRename ρ d.body }

/-- The struct with the identifiers renamed that are bound to the declaration. -/
def StructDecl.rename (d : StructDecl) : StructDecl :=
  { d with name := d.name.rename ρ, fields := d.fields.rename ρ }

/-- The declaration with the identifiers renamed that are bound to the one that is renamed. -/
def Decl.rename : Decl → Decl
  | .var d => .var (d.rename ρ)
  | .fn d => .fn (d.rename ρ)
  | .struct d => .struct (d.rename ρ)
  | .unknown s => .unknown s

/-- The program with the declaration and all identifiers renamed that are bound to it. -/
def Program.rename (p : Program) : Program := { p with decls := p.decls.map (Decl.rename ρ) }

/-! ## Symbols -/

namespace StructDef

mutual

/-- The struct with other names: of the same size, its fields at the same offsets. -/
def Renamed : StructDef → StructDef → Prop
  | ⟨_, _, fields, size⟩, d' => d'.size = size ∧ FieldsRenamed fields d'.fields
termination_by structural d => d

/-- The fields with other names, one by one. -/
def FieldsRenamed : List (Field StructDef) → List (Field StructDef) → Prop
  | [], fs' => fs' = []
  | f :: fs, fs' => ∃ g gs, fs' = g :: gs ∧ FieldRenamed f g ∧ FieldsRenamed fs gs
termination_by structural fs => fs

/-- The field with its new name, at the same offset. -/
def FieldRenamed : Field StructDef → Field StructDef → Prop
  | ⟨name, site, offset, shape⟩, g =>
    ρ.Suits site name ∧ g.name = ρ.spell site name ∧ g.offset = offset ∧ ShapeRenamed shape g.shape
termination_by structural f => f

/-- The shape with other names. -/
def ShapeRenamed : Shape StructDef → Shape StructDef → Prop
  | .scalar t, shape' => t ≠ .error ∧ shape' = .scalar t
  | .struct d, shape' => ∃ d', shape' = .struct d' ∧ d.Renamed d'
termination_by structural shape => shape

end

end StructDef

/-- The shape with other names. -/
def Shape.Renamed (shape shape' : Shape StructDef) : Prop := StructDef.ShapeRenamed ρ shape shape'

/-- The field with its new name, at the same offset. -/
def Field.Renamed (f g : Field StructDef) : Prop := StructDef.FieldRenamed ρ f g

/-- The storage with its new name, at the same place.  A global keeps its name. -/
structure Storage.Renamed (s s' : Storage) : Prop where
  name : s'.name = ρ.spell s.site s.name
  place : s'.place = s.place
  shape : s.shape.Renamed ρ s'.shape
  global : s.place = .static → s.site ≠ ρ.site

/-- The function with its name, which takes and returns words. -/
structure Signature.Renamed (f f' : Signature) : Prop where
  site : f.site ≠ ρ.site
  returns : f'.returns = f.returns
  arity : f'.arity = f.arity
  params : f'.params = f.params
  words : f.returns.isStruct = false ∧ ∀ t ∈ f.params, t.isStruct = false

/-- The symbol with its new name. -/
inductive Symbol.Renamed : Symbol → Symbol → Prop where
  | storage {s s' : Storage} : s.Renamed ρ s' → Renamed (.storage s) (.storage s')
  | function {f f' : Signature} : f.Renamed ρ f' → Renamed (.function f) (.function f')
  | struct {d d' : StructDef} : d.Renamed ρ d' → Renamed (.struct d) (.struct d')

/-- Something under its new name.  Where it was declared is told by `site`. -/
structure EntryRenamed {α : Type} (site : α → Option Span) (R : α → α → Prop) (d d' : String × α) :
    Prop where
  suits : ρ.Suits (site d.2) d.1
  name : d'.1 = ρ.spell (site d.2) d.1
  related : R d.2 d'.2

/-- The declarations of a scope under their new names, one by one. -/
def Scope.Renamed (scope scope' : Scope Symbol) : Prop :=
  List.Forall₂ (EntryRenamed ρ Symbol.site (Symbol.Renamed ρ)) scope scope'

/-- The open scopes with other names, one by one. -/
def Env.Renamed (env env' : Env) : Prop := List.Forall₂ (Scope.Renamed ρ) env env'

variable {ρ}

/-! ## Looking up -/

section

variable {α : Type} {site : α → Option Span} {R : α → α → Prop} {ds ds' : List (String × α)}

/-- What is not declared under a name is not declared under the new one. -/
theorem lookup_renamed_none (h : List.Forall₂ (EntryRenamed ρ site R) ds ds') {s : Option Span}
    {name : String} (hs : ρ.Suits s name) (hnone : ds.lookup name = none) :
    ds'.lookup (ρ.spell s name) = none := by
  induction h with
  | nil => rfl
  | @cons d d' ds ds' hd _ ih =>
    obtain ⟨n, a⟩ := d
    obtain ⟨n', a'⟩ := d'
    rw [List.lookup_cons] at hnone ⊢
    split at hnone
    · cases hnone
    · next hne =>
      have hname : n' = ρ.spell (site a) n := hd.name
      have hne' : ρ.spell s name ≠ n' := by
        rw [hname]
        exact hs.spell_ne hd.suits (ne_of_beq_false hne)
      rw [beq_false_of_ne hne']
      exact ih hnone

/-- What is declared under a name is declared under the new one. -/
theorem lookup_renamed_some (h : List.Forall₂ (EntryRenamed ρ site R) ds ds') {name : String}
    {a : α} (hsome : ds.lookup name = some a) :
    ρ.Suits (site a) name ∧ ∃ a', ds'.lookup (ρ.spell (site a) name) = some a' ∧ R a a' := by
  induction h with
  | nil => cases hsome
  | @cons d d' ds ds' hd _ ih =>
    obtain ⟨n, b⟩ := d
    obtain ⟨n', b'⟩ := d'
    have hname : n' = ρ.spell (site b) n := hd.name
    rw [List.lookup_cons] at hsome
    split at hsome
    · next heq =>
      cases hsome
      cases eq_of_beq heq
      exact ⟨hd.suits, b', by rw [hname, List.lookup_cons, BEq.rfl], hd.related⟩
    · next hne =>
      obtain ⟨hsuits, a', ha', hrelated⟩ := ih hsome
      have hne' : ρ.spell (site a) name ≠ n' := by
        rw [hname]
        exact hsuits.spell_ne hd.suits (ne_of_beq_false hne)
      refine ⟨hsuits, a', ?_, hrelated⟩
      rw [List.lookup_cons, beq_false_of_ne hne']
      exact ha'

end

namespace Env.Renamed

variable {env env' : Env} {name : String} {s : Symbol}

theorem enter (h : Env.Renamed ρ env env') : Env.Renamed ρ env.enter env'.enter := .cons .nil h

/-- Another declaration in the innermost scope. -/
theorem insert (h : Env.Renamed ρ env env') {s' : Symbol} {name' : String} (hs : s.Renamed ρ s')
    (hsuits : ρ.Suits s.site name) (hname : name' = ρ.spell s.site name) :
    Env.Renamed ρ (env.insert name s) (env'.insert name' s') := by
  cases h with
  | nil => exact .nil
  | cons hscope houter =>
    refine .cons (List.rel_append hscope (.cons ?_ .nil)) houter
    exact ⟨hsuits, hname, hs⟩

/-- What a name denotes is what the new name denotes among the new names. -/
theorem find? (h : Env.Renamed ρ env env') (hsome : env.find? name = some s) :
    ∃ s', env'.find? (ρ.spell s.site name) = some s' ∧ s.Renamed ρ s' := by
  have hfind : ρ.Suits s.site name ∧
      ∃ s', env'.find? (ρ.spell s.site name) = some s' ∧ s.Renamed ρ s' := by
    induction h with
    | nil => cases hsome
    | cons hscope _ ih =>
      rw [Scopes.find?_cons] at hsome ⊢
      rcases Option.or_eq_some_iff.mp hsome with hscope_some | ⟨hscope_none, houter⟩
      · obtain ⟨hsuits, s', hs', hrelated⟩ := lookup_renamed_some hscope hscope_some
        exact ⟨hsuits, s', Option.or_eq_some_iff.mpr (.inl hs'), hrelated⟩
      · obtain ⟨hsuits, s', hs', hrelated⟩ := ih houter
        have hnone := lookup_renamed_none hscope hsuits hscope_none
        exact ⟨hsuits, s', Option.or_eq_some_iff.mpr (.inr ⟨hnone, hs'⟩), hrelated⟩
  exact hfind.2

/-- What the innermost scope does not have it does not have under the new name. -/
theorem inner?_eq_none (h : Env.Renamed ρ env env') {site : Option Span} (hs : ρ.Suits site name)
    (hnone : env.inner? name = none) : env'.inner? (ρ.spell site name) = none := by
  cases h with
  | nil => rfl
  | cons hscope _ => exact lookup_renamed_none hscope hs hnone

theorem outer? (h : Env.Renamed ρ env env') (hsome : env.outer? name = some s) :
    ∃ s', env'.outer? (ρ.spell s.site name) = some s' ∧ s.Renamed ρ s' := by
  have hlast : ∀ {env env' : Env}, Env.Renamed ρ env env' → ∀ {scope}, env.getLast? = some scope →
      ∃ scope', env'.getLast? = some scope' ∧ Scope.Renamed ρ scope scope' := by
    intro env env' h
    induction h with
    | nil => nofun
    | cons hscope houter ih =>
      intro scope hsome
      cases houter with
      | nil =>
        cases hsome
        exact ⟨_, rfl, hscope⟩
      | cons _ _ =>
        rw [List.getLast?_cons_cons] at hsome
        obtain ⟨scope', hscope', hrelated⟩ := ih hsome
        exact ⟨scope', by rw [List.getLast?_cons_cons, hscope'], hrelated⟩
  obtain ⟨scope, hscope, hfound⟩ := Option.bind_eq_some_iff.mp hsome
  obtain ⟨scope', hscope', hrelated⟩ := hlast h hscope
  obtain ⟨-, s', hs', hsymbol⟩ := lookup_renamed_some hrelated hfound
  exact ⟨s', Option.bind_eq_some_iff.mpr ⟨scope', hscope', hs'⟩, hsymbol⟩

end Env.Renamed

/-! ## Fields -/

namespace StructDef

theorem fieldsRenamed_iff {fs fs' : List (Field StructDef)} :
    FieldsRenamed ρ fs fs' ↔ List.Forall₂ (Field.Renamed ρ) fs fs' := by
  induction fs generalizing fs' with
  | nil => rw [FieldsRenamed, List.forall₂_nil_left_iff]
  | cons f fs ih =>
    rw [FieldsRenamed, List.forall₂_cons_left_iff]
    constructor
    · rintro ⟨g, gs, rfl, hf, hfs⟩
      exact ⟨g, gs, hf, ih.mp hfs, rfl⟩
    · rintro ⟨g, gs, hf, hfs, rfl⟩
      exact ⟨g, gs, rfl, hf, ih.mpr hfs⟩

theorem renamed_iff {d d' : StructDef} :
    d.Renamed ρ d' ↔ d'.size = d.size ∧ List.Forall₂ (Field.Renamed ρ) d.fields d'.fields := by
  cases d
  rw [Renamed, fieldsRenamed_iff]

end StructDef

theorem Field.renamed_iff {f g : Field StructDef} :
    f.Renamed ρ g ↔ ρ.Suits f.site f.name ∧ g.name = ρ.spell f.site f.name ∧
      g.offset = f.offset ∧ f.shape.Renamed ρ g.shape := by
  cases f
  exact .rfl

/-- Fields listed under their names. -/
theorem Field.entries_renamed {fs fs' : List (Field StructDef)}
    (h : List.Forall₂ (Field.Renamed ρ) fs fs') :
    List.Forall₂ (EntryRenamed ρ Field.site (Field.Renamed ρ)) (fs.map fun f => (f.name, f))
      (fs'.map fun f => (f.name, f)) := by
  refine List.forall₂_map_left_iff.mpr (List.forall₂_map_right_iff.mpr ?_)
  refine h.imp fun f g hfg => ?_
  obtain ⟨hsuits, hname, -⟩ := Field.renamed_iff.mp hfg
  exact ⟨hsuits, hname, hfg⟩

theorem Field.lookup_entries (fs : List (Field StructDef)) (name : String) :
    (fs.map fun f => (f.name, f)).lookup name = fs.find? (·.name == name) :=
  (Field.lookup_map fs id name).trans Option.map_id'

/-- What is no field of a name is none of the new name. -/
theorem Field.find?_renamed_none {fs fs' : List (Field StructDef)}
    (h : List.Forall₂ (Field.Renamed ρ) fs fs') {site : Option Span} {name : String}
    (hs : ρ.Suits site name) (hnone : fs.find? (·.name == name) = none) :
    fs'.find? (·.name == ρ.spell site name) = none := by
  rw [← lookup_entries] at hnone ⊢
  exact lookup_renamed_none (entries_renamed h) hs hnone

/-- The field of a name is the field of the new name. -/
theorem StructDef.Renamed.field? {d d' : StructDef} (h : d.Renamed ρ d') {name : String}
    {f : Field StructDef} (hf : d.field? name = some f) :
    ∃ g, d'.field? (ρ.spell f.site name) = some g ∧ f.Renamed ρ g := by
  have hentries := Field.entries_renamed (StructDef.renamed_iff.mp h).2
  obtain ⟨-, g, hg, hrelated⟩ :=
    lookup_renamed_some hentries ((Field.lookup_entries d.fields name).trans hf)
  exact ⟨g, (Field.lookup_entries d'.fields _).symm.trans hg, hrelated⟩

theorem Shape.Renamed.size {shape shape' : Shape StructDef} (h : shape.Renamed ρ shape') :
    shape'.size = shape.size := by
  cases shape with
  | scalar t =>
    obtain ⟨-, rfl⟩ := (h : t ≠ .error ∧ shape' = .scalar t)
    rfl
  | struct d =>
    obtain ⟨d', rfl, hd⟩ := (h : ∃ d', shape' = .struct d' ∧ d.Renamed ρ d')
    exact (StructDef.renamed_iff.mp hd).1

/-- A field as a symbol of its own. -/
theorem Field.Renamed.storage {f g : Field StructDef} (h : f.Renamed ρ g) :
    f.storage.Renamed ρ g.storage := by
  obtain ⟨-, hname, -, hshape⟩ := Field.renamed_iff.mp h
  exact ⟨hname, rfl, hshape, nofun⟩

end CMinusMinus
