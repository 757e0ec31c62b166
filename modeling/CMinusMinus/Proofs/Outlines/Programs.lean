import CMinusMinus.Proofs.Annotations
import CMinusMinus.Proofs.Outlines

/-!
# Outlines of programs

The outline of a program is the preorder of a tree of lines, one node for each node and one for each
part (`Program.render_tree`).  Nodes of different kinds have different headers, and a header shows
all values of its node, so the tree of lines tells the tree but for its annotations; operators are
told by their spelling if they are operators of the language.  So the texts of the outlines of two
programs that were read are the same if and only if the programs are (`Program.outline_inj`).
-/

namespace CMinusMinus

open Outline (IsWord Header)

/-- Takes every annotation out of a tree. -/
def Annotator.bare : Annotator := { Annotator.clear with type := fun _ => none }

theorem Info.bare_congr {i j : Info} (h : i.span = j.span) :
    i.annotate .bare = j.annotate .bare :=
  congrArg (Info.mk · none) h

/-! ## Nodes and parts -/

namespace Outline

/-- The header of a node without a value. -/
def Header.ofKind (kind : String) (h : IsWord kind) (span : Option Span) : Header :=
  ⟨kind, none, span, h, fun _ hv => by cases hv⟩

theorem pad_line (depth : Nat) (h : Header) : pad depth ++ h.line.text =
    match h.value with
    | none => node depth h.kind h.span
    | some v => valued depth h.kind v.1 v.2 h.span := by
  obtain ⟨kind, value, span, hkind, hvalue⟩ := h
  cases value <;> simp only [Header.line, Header.rest, node, valued, String.append_assoc]

namespace Tree

variable {name : String} {hname : IsWord name}

/-- The node of a part above the nodes in it, if there are any. -/
def part (name : String) (hname : IsWord name) (ts : List Tree) : List Tree :=
  if ts.isEmpty then [] else [.node (.label name hname) ts]

theorem part_cons_inj {t t' : Tree} {ps ps' : List Tree}
    (h : part name hname [t] ++ ps = part name hname [t'] ++ ps') : t = t' ∧ ps = ps' := by
  obtain ⟨hnode, hps⟩ := List.cons.inj h
  exact ⟨(List.cons.inj (Tree.node.inj hnode).2).1, hps⟩

theorem part_inj {ts ts' : List Tree} (h : part name hname ts = part name hname ts') :
    ts = ts' := by
  cases ts with
  | nil =>
    cases ts' with
    | nil => rfl
    | cons => cases h
  | cons =>
    cases ts' with
    | nil => cases h
    | cons => exact (Tree.node.inj (List.cons.inj h).1).2

theorem part_last_inj {t t' : Tree} (h : part name hname [t] = part name hname [t']) : t = t' :=
  (List.cons.inj (part_inj h)).1

theorem renderAll_append (depth : Nat) (ts us : List Tree) :
    renderAll depth (ts ++ us) = renderAll depth ts ++ renderAll depth us := by
  induction ts with
  | nil => rfl
  | cons t ts ih => rw [List.cons_append, renderAll, renderAll, ih, List.append_assoc]

theorem renderAll_part (depth : Nat) (name : String) (hname : IsWord name) (ts : List Tree) :
    renderAll (depth + 1) (part name hname ts) =
      Outline.part depth name (renderAll (depth + 2) ts) := by
  cases ts with
  | nil => rfl
  | cons t ts =>
    cases t with
    | node line us =>
      rw [part, if_neg (by simp), renderAll, renderAll, render, List.append_nil, renderAll, render,
        Outline.part, if_neg (by simp), Line.label, String.append_assoc]

theorem renderAll_singleton (depth : Nat) (t : Tree) : renderAll depth [t] = t.render depth := by
  rw [renderAll, renderAll, List.append_nil]

theorem renderAll_map {α : Type} {tree : α → Tree} {outline : α → List String} {depth : Nat}
    (h : ∀ a, (tree a).render depth = outline a) (as : List α) :
    renderAll depth (as.map tree) = as.flatMap outline := by
  induction as with
  | nil => rfl
  | cons a as ih => rw [List.map_cons, renderAll, List.flatMap_cons, h, ih]

/-- The node of a kind without a value. -/
def plain (kind : String) (hkind : IsWord kind) (span : Option Span) (ps : List Tree) : Tree :=
  .node (Header.ofKind kind hkind span).line ps

theorem render_plain (depth : Nat) (kind : String) (hkind : IsWord kind) (span : Option Span)
    (ps : List Tree) : (plain kind hkind span ps).render depth =
      Outline.node depth kind span :: renderAll (depth + 1) ps := by
  rw [plain, render, pad_line]
  rfl

theorem plain_inj {kind kind' : String} {hkind : IsWord kind} {hkind' : IsWord kind'}
    {span span' : Option Span} {ps ps' : List Tree}
    (h : plain kind hkind span ps = plain kind' hkind' span' ps') :
    kind = kind' ∧ span = span' ∧ ps = ps' := by
  obtain ⟨hline, hparts⟩ := Tree.node.inj h
  have hheader := Header.line_inj hline
  exact ⟨congrArg Header.kind hheader, congrArg Header.span hheader, hparts⟩

theorem plain_part_inj {kind kind' : String} {hkind : IsWord kind} {hkind' : IsWord kind'}
    {span span' : Option Span} {t t' : Tree}
    (h : plain kind hkind span (part name hname [t]) =
      plain kind' hkind' span' (part name hname [t'])) :
    t = t' :=
  part_last_inj (plain_inj h).2.2

/-- The node of a list, with one part. -/
def list (kind : String) (hkind : IsWord kind) (name : String) (hname : IsWord name)
    (span : Option Span) (ts : List Tree) : Tree :=
  .plain kind hkind span (part name hname ts)

theorem render_list (depth : Nat) (kind : String) (hkind : IsWord kind) (name : String)
    (hname : IsWord name) (span : Option Span) (ts : List Tree) :
    (list kind hkind name hname span ts).render depth =
      Outline.node depth kind span :: Outline.part depth name (renderAll (depth + 2) ts) := by
  rw [list, render_plain, renderAll_part]

theorem list_inj {kind : String} {hkind : IsWord kind} {span span' : Option Span}
    {ts ts' : List Tree}
    (h : list kind hkind name hname span ts = list kind hkind name hname span' ts') :
    span = span' ∧ ts = ts' := by
  obtain ⟨-, hspan, hparts⟩ := plain_inj h
  exact ⟨hspan, part_inj hparts⟩

end Tree

end Outline

open Outline.Tree (part part_cons_inj part_last_inj plain_inj plain_part_inj list_inj render_plain
  render_list renderAll_part renderAll_append renderAll_singleton renderAll_map)

theorem Text.notMem_quoted (s : String) : '\n' ∉ (Text.quoted s).toList := fun h =>
  absurd (Text.isPrintable_of_mem_quoted h) (by decide)

/-! ## Expressions -/

namespace Exp

/-- The value of a node that is no node itself, with its name. -/
def value? : Exp → Option (String × String)
  | .int _ v => some ("value", toString v)
  | .string _ s => some ("value", Text.quoted s)
  | .ident x => some ("name", Text.quoted x.name)
  | .binary _ op _ _ => some ("op", Text.quoted op.text)
  | _ => none

theorem isWord_kind (e : Exp) : IsWord e.kind := by
  cases e with
  | bool _ b => cases b <;> (dsimp only [kind]; decide)
  | _ => dsimp only [kind]; decide

theorem value?_legible (e : Exp) : ∀ v ∈ e.value?, IsWord v.1 ∧ '\n' ∉ v.2.toList := by
  intro v hv
  cases e with
  | int i n =>
    cases hv
    exact ⟨by dsimp only; decide, Text.notMem_int (by decide) (by decide) n⟩
  | string | ident | binary =>
    cases hv
    exact ⟨by dsimp only; decide, Text.notMem_quoted _⟩
  | _ => cases hv

/-- What the line of the expression shows. -/
def header (e : Exp) : Header := ⟨e.kind, e.value?, e.span, e.isWord_kind, e.value?_legible⟩

end Exp

/-- The lines of the identifier as a tree. -/
def Ident.tree (x : Ident) : Outline.Tree := .node (Exp.ident x).header.line []

theorem Ident.render_tree (depth : Nat) (x : Ident) : x.tree.render depth = x.outline depth := by
  rw [tree, Outline.Tree.render, Outline.pad_line]
  rfl

namespace Exp

mutual

/-- The lines of the expression as a tree. -/
def tree : Exp → Outline.Tree
  | .ident x => x.tree
  | e@(.int ..) | e@(.string ..) | e@(.bool ..) | e@(.unknown _) => .node e.header.line []
  | e@(.access _ _ loc f) =>
    .node e.header.line (part "loc" (by decide) [loc.tree] ++ part "id" (by decide) [f.tree])
  | e@(.assign _ l r) =>
    .node e.header.line (part "lhs" (by decide) [l.tree] ++ part "rhs" (by decide) [r.tree])
  | e@(.call _ f s args) =>
    .node e.header.line (part "id" (by decide) [f.tree] ++
      part "args" (by decide) [.list "ExpList" (by decide) "exps" (by decide) s (trees args)])
  | e@(.neg _ e') | e@(.not _ e') => .node e.header.line (part "exp" (by decide) [e'.tree])
  | e@(.binary _ _ l r) =>
    .node e.header.line (part "left" (by decide) [l.tree] ++ part "right" (by decide) [r.tree])
termination_by structural e => e

/-- The lines of the expressions as trees. -/
def trees : List Exp → List Outline.Tree
  | [] => []
  | e :: es => e.tree :: trees es
termination_by structural es => es

end

mutual

theorem render_tree (depth : Nat) : ∀ e : Exp, e.tree.render depth = e.outline depth
  | .ident x => x.render_tree depth
  | .int .. | .string .. | .bool .. | .unknown _ => by
    rw [tree, Outline.Tree.render, Outline.pad_line]
    rfl
  | .access _ _ loc f => by
    rw [tree, Outline.Tree.render, Outline.pad_line, renderAll_append, renderAll_part,
      renderAll_part, renderAll_singleton, renderAll_singleton, loc.render_tree, f.render_tree]
    rfl
  | .assign _ l r | .binary _ _ l r => by
    rw [tree, Outline.Tree.render, Outline.pad_line, renderAll_append, renderAll_part,
      renderAll_part, renderAll_singleton, renderAll_singleton, l.render_tree, r.render_tree]
    rfl
  | .call _ f s args => by
    rw [tree, Outline.Tree.render, Outline.pad_line, renderAll_append, renderAll_part,
      renderAll_part, renderAll_singleton, renderAll_singleton, f.render_tree, render_list,
      renderAll_trees _ args]
    rfl
  | .neg _ e | .not _ e => by
    rw [tree, Outline.Tree.render, Outline.pad_line, renderAll_part, renderAll_singleton,
      e.render_tree]
    rfl

theorem renderAll_trees (depth : Nat) : ∀ es : List Exp,
    Outline.Tree.renderAll depth (trees es) = outlines depth es
  | [] => rfl
  | e :: es => by
    rw [trees, Outline.Tree.renderAll, outlines, e.render_tree, renderAll_trees depth es]

end

mutual

/-- Annotations are no part of the lines. -/
theorem tree_annotate (a : Annotator) : ∀ e : Exp, (e.annotate a).tree = e.tree
  | .ident _ | .int .. | .string .. | .unknown _ => rfl
  | .bool _ b => by cases b <;> rfl
  | .access _ _ loc f => by
    rw [annotate, tree, tree, loc.tree_annotate a]
    rfl
  | .assign _ l r | .binary _ _ l r => by
    rw [annotate, tree, tree, l.tree_annotate a, r.tree_annotate a]
    rfl
  | .call _ f s args => by
    rw [annotate, tree, tree, trees_annotate a args]
    rfl
  | .neg _ e | .not _ e => by
    rw [annotate, tree, tree, e.tree_annotate a]
    rfl

theorem trees_annotate (a : Annotator) : ∀ es : List Exp, trees (annotateAll a es) = trees es
  | [] => rfl
  | e :: es => by rw [annotateAll, trees, trees, e.tree_annotate a, trees_annotate a es]

end

/-- A tree of lines shows the kind, the value and the span of the expression. -/
theorem header_of_tree {e e' : Exp} (h : e.tree = e'.tree) :
    e.kind = e'.kind ∧ e.value? = e'.value? ∧ e.span = e'.span := by
  have hroot : ∀ e : Exp, ∃ ps, e.tree = .node e.header.line ps := fun e => by
    cases e <;> exact ⟨_, rfl⟩
  obtain ⟨ps, hps⟩ := hroot e
  obtain ⟨ps', hps'⟩ := hroot e'
  rw [hps, hps'] at h
  have hheader := Header.line_inj (Outline.Tree.node.inj h).1
  exact ⟨congrArg Header.kind hheader, congrArg Header.value hheader, congrArg Header.span hheader⟩

end Exp

theorem Ident.bare_of_tree {x y : Ident} (h : x.tree = y.tree) :
    x.annotate .bare = y.annotate .bare := by
  obtain ⟨-, hvalue, hspan⟩ := @Exp.header_of_tree (.ident x) (.ident y) h
  have hname := Text.quoted_inj (Prod.mk.inj (Option.some.inj hvalue)).2
  obtain ⟨name, i, b⟩ := x
  obtain ⟨name', j, b'⟩ := y
  obtain rfl : name = name' := hname
  exact congrArg (Ident.mk name · .pending) (Info.bare_congr hspan)

/-- The operators of the language are told by their spelling. -/
theorem BinOp.text_inj {op op' : BinOp} (hop : op ∈ BinOp.all) (hop' : op' ∈ BinOp.all)
    (h : op.text = op'.text) : op = op' := by
  have hof : ∀ op ∈ BinOp.all, BinOp.ofText op.text = op := by decide
  rw [← hof op hop, ← hof op' hop', h]

namespace Exp

mutual

/-- The lines of formed expressions tell them but for their annotations. -/
theorem bare_of_tree : ∀ {e e' : Exp}, e.Formed → e'.Formed → e.tree = e'.tree →
    e.annotate .bare = e'.annotate .bare
  | .int i n, e', _, _, h => by
    obtain ⟨hkind, hvalue, hspan⟩ := header_of_tree h
    cases e' with
    | int j m =>
      have hn := (Prod.mk.inj (Option.some.inj hvalue)).2
      obtain rfl : n = m := Int.repr_injective hn
      exact congrArg (Exp.int · n) (Info.bare_congr hspan)
    | bool _ b => cases b <;> simp [kind] at hkind
    | _ => simp [kind] at hkind
  | .string i s, e', _, _, h => by
    obtain ⟨hkind, hvalue, hspan⟩ := header_of_tree h
    cases e' with
    | string j s' =>
      obtain rfl : s = s' := Text.quoted_inj (Prod.mk.inj (Option.some.inj hvalue)).2
      exact congrArg (Exp.string · s) (Info.bare_congr hspan)
    | bool _ b => cases b <;> simp [kind] at hkind
    | _ => simp [kind] at hkind
  | .bool i b, e', _, _, h => by
    obtain ⟨hkind, -, hspan⟩ := header_of_tree h
    cases e' with
    | bool j b' =>
      obtain rfl : b = b' := by cases b <;> cases b' <;> first | rfl | simp [kind] at hkind
      exact congrArg (Exp.bool · b) (Info.bare_congr hspan)
    | _ => cases b <;> simp [kind] at hkind
  | .ident x, e', _, _, h => by
    obtain ⟨hkind, -, -⟩ := header_of_tree h
    cases e' with
    | ident y => exact congrArg Exp.ident (Ident.bare_of_tree h)
    | bool _ b => cases b <;> simp [kind] at hkind
    | _ => simp [kind] at hkind
  | .access i k loc f, e', hf, hf', h => by
    obtain ⟨hkind, -, hspan⟩ := header_of_tree h
    cases e' with
    | access j k' loc' f' =>
      have hinfo : i.annotate .bare = j.annotate .bare := Info.bare_congr hspan
      obtain ⟨hloc, hparts⟩ := part_cons_inj (Outline.Tree.node.inj h).2
      have hfield := part_last_inj hparts
      rw [annotate, annotate, hinfo, bare_of_tree hf.2.1 hf'.2.1 hloc,
        Ident.bare_of_tree hfield]
      rfl
    | bool _ b => cases b <;> simp [kind] at hkind
    | _ => simp [kind] at hkind
  | .assign i l r, e', hf, hf', h => by
    obtain ⟨hkind, -, hspan⟩ := header_of_tree h
    cases e' with
    | assign j l' r' =>
      have hinfo : i.annotate .bare = j.annotate .bare := Info.bare_congr hspan
      obtain ⟨hl, hparts⟩ := part_cons_inj (Outline.Tree.node.inj h).2
      have hr := part_last_inj hparts
      rw [annotate, annotate, hinfo, bare_of_tree hf.2.1 hf'.2.1 hl,
        bare_of_tree hf.2.2 hf'.2.2 hr]
    | bool _ b => cases b <;> simp [kind] at hkind
    | _ => simp [kind] at hkind
  | .call i f s args, e', hf, hf', h => by
    obtain ⟨hkind, -, hspan⟩ := header_of_tree h
    cases e' with
    | call j f' s' args' =>
      have hinfo : i.annotate .bare = j.annotate .bare := Info.bare_congr hspan
      obtain ⟨hcallee, hparts⟩ := part_cons_inj (Outline.Tree.node.inj h).2
      have hlist := part_last_inj hparts
      obtain ⟨rfl, hargs⟩ := list_inj hlist
      rw [annotate, annotate, hinfo, Ident.bare_of_tree hcallee,
        bare_of_trees hf.2 hf'.2 hargs]
    | bool _ b => cases b <;> simp [kind] at hkind
    | _ => simp [kind] at hkind
  | .neg i e, e', hf, hf', h => by
    obtain ⟨hkind, -, hspan⟩ := header_of_tree h
    cases e' with
    | neg j x =>
      have hinfo : i.annotate .bare = j.annotate .bare := Info.bare_congr hspan
      have he := part_last_inj (Outline.Tree.node.inj h).2
      rw [annotate, annotate, hinfo, @bare_of_tree e x hf hf' he]
    | bool _ b => cases b <;> simp [kind] at hkind
    | _ => simp [kind] at hkind
  | .not i e, e', hf, hf', h => by
    obtain ⟨hkind, -, hspan⟩ := header_of_tree h
    cases e' with
    | not j x =>
      have hinfo : i.annotate .bare = j.annotate .bare := Info.bare_congr hspan
      have he := part_last_inj (Outline.Tree.node.inj h).2
      rw [annotate, annotate, hinfo, @bare_of_tree e x hf hf' he]
    | bool _ b => cases b <;> simp [kind] at hkind
    | _ => simp [kind] at hkind
  | .binary i op l r, e', hf, hf', h => by
    obtain ⟨hkind, hvalue, hspan⟩ := header_of_tree h
    cases e' with
    | binary j op' l' r' =>
      have hinfo : i.annotate .bare = j.annotate .bare := Info.bare_congr hspan
      have htext := Text.quoted_inj (Prod.mk.inj (Option.some.inj hvalue)).2
      obtain rfl := BinOp.text_inj hf.1 hf'.1 htext
      obtain ⟨hl, hparts⟩ := part_cons_inj (Outline.Tree.node.inj h).2
      have hr := part_last_inj hparts
      rw [annotate, annotate, hinfo, bare_of_tree hf.2.1 hf'.2.1 hl,
        bare_of_tree hf.2.2 hf'.2.2 hr]
    | bool _ b => cases b <;> simp [kind] at hkind
    | _ => simp [kind] at hkind

theorem bare_of_trees : ∀ {es es' : List Exp}, AllFormed es → AllFormed es' →
    trees es = trees es' → annotateAll .bare es = annotateAll .bare es'
  | [], [], _, _, _ => rfl
  | [], _ :: _, _, _, h | _ :: _, [], _, _, h => by cases h
  | e :: es, e' :: es', hf, hf', h => by
    obtain ⟨he, hes⟩ := List.cons.inj h
    rw [annotateAll, annotateAll, bare_of_tree hf.1 hf'.1 he, bare_of_trees hf.2 hf'.2 hes]

end

end Exp

/-! ## Declarations of variables -/

namespace TypeNode

theorem isWord_kind (t : TypeNode) : IsWord t.kind := by
  cases t <;> (dsimp only [kind]; decide)

/-- The parts of a type. -/
def parts : TypeNode → List Outline.Tree
  | .struct _ x => part "id" (by decide) [x.tree]
  | _ => []

/-- The lines of the type as a tree. -/
def tree (t : TypeNode) : Outline.Tree := .plain t.kind t.isWord_kind t.span t.parts

theorem render_tree (depth : Nat) (t : TypeNode) : t.tree.render depth = t.outline depth := by
  rw [tree, render_plain]
  cases t with
  | struct s x =>
    rw [parts, renderAll_part, renderAll_singleton, x.render_tree]
    rfl
  | _ => rfl

theorem tree_annotate (a : Annotator) (t : TypeNode) : (t.annotate a).tree = t.tree := by
  cases t <;> rfl

theorem bare_of_tree {t t' : TypeNode} (h : t.tree = t'.tree) :
    t.annotate .bare = t'.annotate .bare := by
  obtain ⟨hkind, hspan, hparts⟩ := plain_inj h
  cases t with
  | struct s x =>
    cases t' with
    | struct s' x' =>
      have hname := part_last_inj hparts
      obtain rfl : s = s' := hspan
      rw [annotate, annotate, Ident.bare_of_tree hname]
    | _ => simp [kind] at hkind
  | _ =>
    cases t' with
    | struct => simp [kind] at hkind
    | _ =>
      obtain rfl := hspan
      first
      | rfl
      | simp [kind] at hkind

end TypeNode

namespace VarDecl

theorem isWord_kind (d : VarDecl) : IsWord d.kind := by
  unfold kind
  split <;> decide

/-- The lines of the declaration as a tree. -/
def tree (d : VarDecl) : Outline.Tree :=
  .plain d.kind d.isWord_kind d.span
    (part "type" (by decide) [d.type.tree] ++ part "id" (by decide) [d.name.tree])

theorem render_tree (depth : Nat) (d : VarDecl) : d.tree.render depth = d.outline depth := by
  rw [tree, render_plain, renderAll_append, renderAll_part, renderAll_part, renderAll_singleton,
    renderAll_singleton, d.type.render_tree, d.name.render_tree]
  rfl

theorem tree_annotate (a : Annotator) (d : VarDecl) : (d.annotate a).tree = d.tree := by
  rw [annotate, tree, tree, d.type.tree_annotate a]
  rfl

theorem bare_of_tree {d d' : VarDecl} (h : d.tree = d'.tree) :
    d.annotate .bare = d'.annotate .bare := by
  obtain ⟨hkind, hspan, hparts⟩ := plain_inj h
  obtain ⟨htype, hparts⟩ := part_cons_inj hparts
  have hname := part_last_inj hparts
  have hrole : d.role = d'.role := by
    unfold kind at hkind
    cases hd : d.role <;> cases hd' : d'.role <;> first | rfl | simp [hd, hd'] at hkind
  rw [annotate, annotate, TypeNode.bare_of_tree htype, Ident.bare_of_tree hname, hrole, hspan]

end VarDecl

namespace VarDecls

/-- The lines of the declarations as a tree. -/
def tree (ds : VarDecls) : Outline.Tree :=
  .list "DeclList" (by decide) "decls" (by decide) ds.span (ds.items.map VarDecl.tree)

/-- The lines of the formals as a tree. -/
def formalsTree (ds : VarDecls) : Outline.Tree :=
  .list "FormalsList" (by decide) "formals" (by decide) ds.span (ds.items.map VarDecl.tree)

theorem render_tree (depth : Nat) (ds : VarDecls) : ds.tree.render depth = ds.outline depth := by
  rw [tree, render_list, renderAll_map (VarDecl.render_tree _)]
  rfl

theorem render_formalsTree (depth : Nat) (ds : VarDecls) :
    ds.formalsTree.render depth = ds.formalsOutline depth := by
  rw [formalsTree, render_list, renderAll_map (VarDecl.render_tree _)]
  rfl

theorem items_annotate (a : Annotator) (ds : VarDecls) :
    (ds.annotate a).items.map VarDecl.tree = ds.items.map VarDecl.tree := by
  rw [annotate, List.map_map]
  exact List.map_congr_left fun d _ => d.tree_annotate a

theorem bare_of_items {ds ds' : VarDecls} (hspan : ds.span = ds'.span)
    (h : ds.items.map VarDecl.tree = ds'.items.map VarDecl.tree) :
    ds.annotate .bare = ds'.annotate .bare := by
  have hitems := Text.map_congr_of_forall (P := fun _ => True)
    (fun _ _ => VarDecl.bare_of_tree) (fun _ _ => trivial) (fun _ _ => trivial) h
  rw [annotate, annotate, hspan, hitems]

end VarDecls

/-! ## Statements -/

namespace Stmt

theorem isWord_kind (s : Stmt) : IsWord s.kind := by
  cases s <;> (dsimp only [kind]; decide)

mutual

/-- The lines of the statement as a tree. -/
def tree : Stmt → Outline.Tree
  | s@(.assign _ e) => .plain s.kind s.isWord_kind s.span (part "assign" (by decide) [e.tree])
  | s@(.increment _ e) | s@(.decrement _ e) | s@(.read _ e) | s@(.write _ e)
  | s@(.return _ (some e)) => .plain s.kind s.isWord_kind s.span (part "exp" (by decide) [e.tree])
  | s@(.ifThen _ e b) | s@(.while _ e b) =>
    .plain s.kind s.isWord_kind s.span (part "exp" (by decide) [e.tree] ++
      blockParts "decl_list" (by decide) "stmt_list" (by decide) b)
  | s@(.ifElse _ e b₁ b₂) =>
    .plain s.kind s.isWord_kind s.span (part "exp" (by decide) [e.tree] ++
      blockParts "then_decls" (by decide) "then_stmts" (by decide) b₁ ++
      blockParts "else_decls" (by decide) "else_stmts" (by decide) b₂)
  | s@(.call _ e) => .plain s.kind s.isWord_kind s.span (part "call" (by decide) [e.tree])
  | s@(.return _ none) | s@(.unknown _) => .plain s.kind s.isWord_kind s.span []
termination_by structural s => s

/-- The two parts that a block is, as trees of lines. -/
def blockParts (declsName : String) (hdecls : IsWord declsName) (stmtsName : String)
    (hstmts : IsWord stmtsName) : Block Stmt → List Outline.Tree
  | ⟨ds, span, ss⟩ => part declsName hdecls [ds.tree] ++
      part stmtsName hstmts [.list "StmtList" (by decide) "stmts" (by decide) span (trees ss)]
termination_by structural b => b

/-- The lines of the statements as trees. -/
def trees : List Stmt → List Outline.Tree
  | [] => []
  | s :: ss => s.tree :: trees ss
termination_by structural ss => ss

end

mutual

theorem render_tree (depth : Nat) : ∀ s : Stmt, s.tree.render depth = s.outline depth
  | .assign _ e | .increment _ e | .decrement _ e | .read _ e | .write _ e | .return _ (some e)
  | .call _ e => by
    rw [tree, render_plain, renderAll_part, renderAll_singleton, e.render_tree]
    rfl
  | .ifThen _ e b | .while _ e b => by
    rw [tree, render_plain, renderAll_append, renderAll_part, renderAll_singleton, e.render_tree,
      renderAll_blockParts depth _ _ _ _ b]
    rfl
  | .ifElse _ e b₁ b₂ => by
    rw [tree, render_plain, renderAll_append, renderAll_append, renderAll_part,
      renderAll_singleton, e.render_tree, renderAll_blockParts depth _ _ _ _ b₁,
      renderAll_blockParts depth _ _ _ _ b₂]
    rfl
  | .return _ none | .unknown _ => by
    rw [tree, render_plain]
    rfl

theorem renderAll_blockParts (depth : Nat) (declsName : String) (hdecls : IsWord declsName)
    (stmtsName : String) (hstmts : IsWord stmtsName) : ∀ b : Block Stmt,
    Outline.Tree.renderAll (depth + 1) (blockParts declsName hdecls stmtsName hstmts b) =
      blockOutline depth declsName stmtsName b
  | ⟨ds, span, ss⟩ => by
    rw [blockParts, renderAll_append, renderAll_part, renderAll_part, renderAll_singleton,
      renderAll_singleton, ds.render_tree, render_list, renderAll_trees _ ss]
    rfl

theorem renderAll_trees (depth : Nat) : ∀ ss : List Stmt,
    Outline.Tree.renderAll depth (trees ss) = outlines depth ss
  | [] => rfl
  | s :: ss => by
    rw [trees, Outline.Tree.renderAll, outlines, s.render_tree, renderAll_trees depth ss]

end

mutual

/-- Annotations are no part of the lines. -/
theorem tree_annotate (a : Annotator) : ∀ s : Stmt, (s.annotate a).tree = s.tree
  | .assign _ e | .increment _ e | .decrement _ e | .read _ e | .write _ e | .call _ e => by
    rw [annotate, tree, tree, e.tree_annotate a]
    rfl
  | .return _ (some e) => by
    rw [annotate, Option.map_some, tree, tree, e.tree_annotate a]
    rfl
  | .ifThen _ e b | .while _ e b => by
    rw [annotate, tree, tree, e.tree_annotate a, blockParts_annotate a _ _ _ _ b]
    rfl
  | .ifElse _ e b₁ b₂ => by
    rw [annotate, tree, tree, e.tree_annotate a, blockParts_annotate a _ _ _ _ b₁,
      blockParts_annotate a _ _ _ _ b₂]
    rfl
  | .return _ none | .unknown _ => rfl

theorem blockParts_annotate (a : Annotator) (declsName : String) (hdecls : IsWord declsName)
    (stmtsName : String) (hstmts : IsWord stmtsName) : ∀ b : Block Stmt,
    blockParts declsName hdecls stmtsName hstmts (annotateBlock a b) =
      blockParts declsName hdecls stmtsName hstmts b
  | ⟨ds, span, ss⟩ => by
    rw [annotateBlock, blockParts, blockParts, VarDecls.tree, VarDecls.tree, ds.items_annotate a,
      trees_annotate a ss]
    rfl

theorem trees_annotate (a : Annotator) : ∀ ss : List Stmt, trees (annotateAll a ss) = trees ss
  | [] => rfl
  | s :: ss => by rw [annotateAll, trees, trees, s.tree_annotate a, trees_annotate a ss]

end

/-- A tree of lines shows the kind and the span of the statement, and no more of a statement
without parts. -/
theorem header_of_tree {s s' : Stmt} (h : s.tree = s'.tree) :
    s.kind = s'.kind ∧ s.span = s'.span := by
  have hroot : ∀ s : Stmt, ∃ ps, s.tree = .plain s.kind s.isWord_kind s.span ps := fun s => by
    cases s with
    | «return» _ e => cases e <;> exact ⟨_, rfl⟩
    | _ => exact ⟨_, rfl⟩
  obtain ⟨ps, hps⟩ := hroot s
  obtain ⟨ps', hps'⟩ := hroot s'
  rw [hps, hps'] at h
  obtain ⟨hkind, hspan, -⟩ := plain_inj h
  exact ⟨hkind, hspan⟩

mutual

/-- The lines of formed statements tell them but for their annotations. -/
theorem bare_of_tree : ∀ {s s' : Stmt}, s.Formed → s'.Formed → s.tree = s'.tree →
    s.annotate .bare = s'.annotate .bare
  | .assign sp e, s', hf, hf', h => by
    obtain ⟨hkind, hspan⟩ := header_of_tree h
    cases s' with
    | assign sp' e' =>
      obtain rfl : sp = sp' := hspan
      rw [annotate, annotate, Exp.bare_of_tree hf.2 hf'.2 (plain_part_inj h)]
    | _ => simp [kind] at hkind
  | .increment sp e, s', hf, hf', h => by
    obtain ⟨hkind, hspan⟩ := header_of_tree h
    cases s' with
    | increment sp' e' =>
      obtain rfl : sp = sp' := hspan
      rw [annotate, annotate, Exp.bare_of_tree hf.2 hf'.2 (plain_part_inj h)]
    | _ => simp [kind] at hkind
  | .decrement sp e, s', hf, hf', h => by
    obtain ⟨hkind, hspan⟩ := header_of_tree h
    cases s' with
    | decrement sp' e' =>
      obtain rfl : sp = sp' := hspan
      rw [annotate, annotate, Exp.bare_of_tree hf.2 hf'.2 (plain_part_inj h)]
    | _ => simp [kind] at hkind
  | .read sp e, s', hf, hf', h => by
    obtain ⟨hkind, hspan⟩ := header_of_tree h
    cases s' with
    | read sp' e' =>
      obtain rfl : sp = sp' := hspan
      rw [annotate, annotate, Exp.bare_of_tree hf.2 hf'.2 (plain_part_inj h)]
    | _ => simp [kind] at hkind
  | .write sp e, s', hf, hf', h => by
    obtain ⟨hkind, hspan⟩ := header_of_tree h
    cases s' with
    | write sp' e' =>
      obtain rfl : sp = sp' := hspan
      rw [annotate, annotate, @Exp.bare_of_tree e e' hf hf' (plain_part_inj h)]
    | _ => simp [kind] at hkind
  | .ifThen sp e b, s', hf, hf', h => by
    obtain ⟨hkind, hspan⟩ := header_of_tree h
    cases s' with
    | ifThen sp' e' b' =>
      obtain ⟨he, hblock⟩ := part_cons_inj (plain_inj h).2.2
      obtain ⟨hb, -⟩ := bare_of_blockParts hf.2 hf'.2 (congrArg (· ++ []) hblock)
      obtain rfl : sp = sp' := hspan
      rw [annotate, annotate, Exp.bare_of_tree hf.1 hf'.1 he, hb]
    | _ => simp [kind] at hkind
  | .ifElse sp e b₁ b₂, s', hf, hf', h => by
    obtain ⟨hkind, hspan⟩ := header_of_tree h
    cases s' with
    | ifElse sp' e' b₁' b₂' =>
      have hparts := (plain_inj h).2.2
      rw [List.append_assoc, List.append_assoc] at hparts
      obtain ⟨he, hblocks⟩ := part_cons_inj hparts
      obtain ⟨hb₁, hblock⟩ := bare_of_blockParts hf.2.1 hf'.2.1 hblocks
      obtain ⟨hb₂, -⟩ := bare_of_blockParts hf.2.2 hf'.2.2 (congrArg (· ++ []) hblock)
      obtain rfl : sp = sp' := hspan
      rw [annotate, annotate, Exp.bare_of_tree hf.1 hf'.1 he, hb₁, hb₂]
    | _ => simp [kind] at hkind
  | .while sp e b, s', hf, hf', h => by
    obtain ⟨hkind, hspan⟩ := header_of_tree h
    cases s' with
    | «while» sp' e' b' =>
      obtain ⟨he, hblock⟩ := part_cons_inj (plain_inj h).2.2
      obtain ⟨hb, -⟩ := bare_of_blockParts hf.2 hf'.2 (congrArg (· ++ []) hblock)
      obtain rfl : sp = sp' := hspan
      rw [annotate, annotate, Exp.bare_of_tree hf.1 hf'.1 he, hb]
    | _ => simp [kind] at hkind
  | .call sp e, s', hf, hf', h => by
    obtain ⟨hkind, hspan⟩ := header_of_tree h
    cases s' with
    | call sp' e' =>
      obtain rfl : sp = sp' := hspan
      rw [annotate, annotate, Exp.bare_of_tree hf.2 hf'.2 (plain_part_inj h)]
    | _ => simp [kind] at hkind
  | .return sp none, s', hf, hf', h => by
    obtain ⟨hkind, hspan⟩ := header_of_tree h
    cases s' with
    | «return» sp' e' =>
      cases e' with
      | none =>
        obtain rfl : sp = sp' := hspan
        rfl
      | some e' => cases (plain_inj h).2.2
    | _ => simp [kind] at hkind
  | .return sp (some e), s', hf, hf', h => by
    obtain ⟨hkind, hspan⟩ := header_of_tree h
    cases s' with
    | «return» sp' e' =>
      cases e' with
      | none => cases (plain_inj h).2.2
      | some e' =>
        obtain rfl : sp = sp' := hspan
        rw [annotate, annotate, Option.map_some, Option.map_some,
          @Exp.bare_of_tree e e' hf hf' (plain_part_inj h)]
    | _ => simp [kind] at hkind

theorem bare_of_blockParts {declsName stmtsName : String} {hdecls : IsWord declsName}
    {hstmts : IsWord stmtsName} : ∀ {b b' : Block Stmt} {ps ps' : List Outline.Tree},
    BlockFormed b → BlockFormed b' →
    blockParts declsName hdecls stmtsName hstmts b ++ ps =
      blockParts declsName hdecls stmtsName hstmts b' ++ ps' →
    annotateBlock .bare b = annotateBlock .bare b' ∧ ps = ps'
  | ⟨ds, _, ss⟩, ⟨ds', _, ss'⟩, ps, ps', hf, hf', h => by
    rw [blockParts, blockParts, List.append_assoc, List.append_assoc] at h
    obtain ⟨hds, hparts⟩ := part_cons_inj h
    obtain ⟨hlist, hps⟩ := part_cons_inj hparts
    obtain ⟨hspan, hitems⟩ := list_inj hds
    obtain ⟨rfl, hss⟩ := list_inj hlist
    rw [annotateBlock, annotateBlock, VarDecls.bare_of_items hspan hitems,
      bare_of_trees hf.2 hf'.2 hss]
    exact ⟨rfl, hps⟩

theorem bare_of_trees : ∀ {ss ss' : List Stmt}, AllFormed ss → AllFormed ss' →
    trees ss = trees ss' → annotateAll .bare ss = annotateAll .bare ss'
  | [], [], _, _, _ => rfl
  | [], _ :: _, _, _, h | _ :: _, [], _, _, h => by cases h
  | s :: ss, s' :: ss', hf, hf', h => by
    obtain ⟨hs, hss⟩ := List.cons.inj h
    rw [annotateAll, annotateAll, bare_of_tree hf.1 hf'.1 hs, bare_of_trees hf.2 hf'.2 hss]

end

end Stmt

/-! ## Programs -/

namespace Decl

theorem isWord_kind (d : Decl) : IsWord d.kind := by
  cases d with
  | var d => exact d.isWord_kind
  | _ => dsimp only [kind]; decide

/-- The lines of the declaration as a tree. -/
def tree : Decl → Outline.Tree
  | .var d => d.tree
  | .fn d =>
    .plain "FnDecl" (by decide) d.span (part "return_type" (by decide) [d.returns.tree] ++
      (part "id" (by decide) [d.name.tree] ++ (part "formals" (by decide) [d.formals.formalsTree] ++
        part "body" (by decide) [.plain "FnBody" (by decide) d.bodySpan
          (Stmt.blockParts "decl_list" (by decide) "stmt_list" (by decide) d.body)])))
  | .struct d =>
    .plain "StructDecl" (by decide) d.span
      (part "id" (by decide) [d.name.tree] ++ part "decl_list" (by decide) [d.fields.tree])
  | .unknown s => .plain "Decl" (by decide) s []

theorem render_tree (depth : Nat) (d : Decl) : d.tree.render depth = d.outline depth := by
  cases d with
  | var d => exact d.render_tree depth
  | fn d =>
    rw [tree, render_plain, renderAll_append, renderAll_append, renderAll_append, renderAll_part,
      renderAll_part, renderAll_part, renderAll_part, renderAll_singleton, renderAll_singleton,
      renderAll_singleton, renderAll_singleton, d.returns.render_tree, d.name.render_tree,
      d.formals.render_formalsTree, render_plain, Stmt.renderAll_blockParts]
    simp only [outline, Outline.body, List.append_assoc, List.cons_append]
  | struct d =>
    rw [tree, render_plain, renderAll_append, renderAll_part, renderAll_part, renderAll_singleton,
      renderAll_singleton, d.name.render_tree, d.fields.render_tree]
    rfl
  | unknown s =>
    rw [tree, render_plain]
    rfl

theorem tree_annotate (a : Annotator) (d : Decl) : (d.annotate a).tree = d.tree := by
  cases d with
  | var d => exact d.tree_annotate a
  | fn d =>
    rw [annotate, tree, tree, d.returns.tree_annotate a, VarDecls.formalsTree, VarDecls.formalsTree,
      d.formals.items_annotate a, Stmt.blockParts_annotate a]
    rfl
  | struct d =>
    rw [annotate, tree, tree, VarDecls.tree, VarDecls.tree, d.fields.items_annotate a]
    rfl
  | unknown s => rfl

/-- The lines of formed declarations tell them but for their annotations. -/
theorem bare_of_tree {d d' : Decl} (hf : d.Formed) (hf' : d'.Formed) (h : d.tree = d'.tree) :
    d.annotate .bare = d'.annotate .bare := by
  have hvar : ∀ {d : VarDecl} {k : String}, d.kind = k → k = "VarDecl" ∨ k = "FormalDecl" := by
    rintro d _ rfl
    unfold VarDecl.kind
    split
    · exact .inl rfl
    · exact .inr rfl
  cases d with
  | var d =>
    cases d' with
    | var d' => exact congrArg Decl.var (VarDecl.bare_of_tree h)
    | fn d' => rcases hvar (plain_inj h).1 with hkind | hkind <;> simp at hkind
    | struct d' => rcases hvar (plain_inj h).1 with hkind | hkind <;> simp at hkind
    | unknown s => cases hf'
  | fn d =>
    cases d' with
    | var d' => rcases hvar (plain_inj h).1.symm with hkind | hkind <;> simp at hkind
    | fn d' =>
      obtain ⟨-, hspan, hparts⟩ := plain_inj h
      obtain ⟨hreturns, hparts⟩ := part_cons_inj hparts
      obtain ⟨hname, hparts⟩ := part_cons_inj hparts
      obtain ⟨hformals, hparts⟩ := part_cons_inj hparts
      have hbody := part_last_inj hparts
      obtain ⟨hformalsSpan, hitems⟩ := list_inj hformals
      obtain ⟨-, hbodySpan, hblock⟩ := plain_inj hbody
      obtain ⟨hblock, -⟩ := Stmt.bare_of_blockParts hf.body hf'.body (congrArg (· ++ []) hblock)
      rw [annotate, annotate, TypeNode.bare_of_tree hreturns, Ident.bare_of_tree hname,
        VarDecls.bare_of_items hformalsSpan hitems, hblock, hspan, hbodySpan]
      rfl
    | struct d' => exact absurd (plain_inj h).1 (by decide)
    | unknown s => cases hf'
  | struct d =>
    cases d' with
    | var d' => rcases hvar (plain_inj h).1.symm with hkind | hkind <;> simp at hkind
    | fn d' => exact absurd (plain_inj h).1 (by decide)
    | struct d' =>
      obtain ⟨-, hspan, hparts⟩ := plain_inj h
      obtain ⟨hname, hparts⟩ := part_cons_inj hparts
      have hfields := part_last_inj hparts
      obtain ⟨hfieldsSpan, hitems⟩ := list_inj hfields
      rw [annotate, annotate, Ident.bare_of_tree hname,
        VarDecls.bare_of_items hfieldsSpan hitems, hspan]
    | unknown s => cases hf'
  | unknown s => cases hf

end Decl

namespace Program

/-- What the first line of an outline shows. -/
def header (p : Program) : Header where
  kind := "Program"
  value := p.filename.map fun f => ("filename", Text.quoted f)
  span := p.span
  isWord := by decide
  legible v hv := by
    obtain ⟨f, -, rfl⟩ := Option.map_eq_some_iff.mp hv
    exact ⟨by dsimp only; decide, Text.notMem_quoted f⟩

/-- The lines of the program as a tree. -/
def tree (p : Program) : Outline.Tree :=
  .node p.header.line (part "decl_list" (by decide)
    [.list "DeclList" (by decide) "decls" (by decide) p.declsSpan (p.decls.map Decl.tree)])

/-- The outline of a program is its tree of lines, in preorder. -/
theorem render_tree (depth : Nat) (p : Program) : p.tree.render depth = p.outline depth := by
  rw [tree, Outline.Tree.render, Outline.pad_line, renderAll_part, renderAll_singleton, render_list,
    renderAll_map (Decl.render_tree _)]
  obtain ⟨span, declsSpan, decls, filename⟩ := p
  cases filename <;> rfl

theorem tree_annotate (a : Annotator) (p : Program) : (p.annotate a).tree = p.tree := by
  have hdecls : (p.decls.map (Decl.annotate a)).map Decl.tree = p.decls.map Decl.tree := by
    rw [List.map_map]
    exact List.map_congr_left fun d _ => d.tree_annotate a
  rw [annotate, tree, tree, hdecls]
  rfl

/-- The lines of formed programs tell them but for their annotations. -/
theorem Formed.bare_of_tree {p q : Program} (hp : p.Formed) (hq : q.Formed) (h : p.tree = q.tree) :
    p.annotate .bare = q.annotate .bare := by
  obtain ⟨hline, hparts⟩ := Outline.Tree.node.inj h
  have hheader := Header.line_inj hline
  have hspan : p.span = q.span := congrArg Header.span hheader
  have hfilename : p.filename = q.filename :=
    Option.map_injective (fun f g hfg => Text.quoted_inj (Prod.mk.inj hfg).2)
      (congrArg Header.value hheader)
  have hlist := part_last_inj hparts
  obtain ⟨hdeclsSpan, hdecls⟩ := list_inj hlist
  have hbare := Text.map_congr_of_forall Decl.bare_of_tree hp hq hdecls
  rw [annotate, annotate, hspan, hdeclsSpan, hfilename, hbare]

/-- The outlines of formed programs have the same text if and only if the programs are the same but
for their annotations. -/
theorem Formed.text_iff {p q : Program} (hp : p.Formed) (hq : q.Formed) (depth : Nat) :
    "\n".intercalate (p.outline depth) = "\n".intercalate (q.outline depth) ↔
      p.annotate .bare = q.annotate .bare := by
  rw [← render_tree, ← render_tree, Outline.Tree.text_inj]
  refine ⟨hp.bare_of_tree hq, fun h => ?_⟩
  rw [← p.tree_annotate .bare, h, q.tree_annotate]

variable {file file' : Option String} {source source' : String} {p q : Program}

/-- The outlines of programs that were read have the same text if and only if the programs are the
same, spans and names of files included, annotations aside. -/
theorem outline_inj (hp : parse file source = .ok p) (hq : parse file' source' = .ok q) :
    "\n".intercalate (p.outline 0) = "\n".intercalate (q.outline 0) ↔
      p.annotate .bare = q.annotate .bare :=
  (parse_formed hp).text_iff (parse_formed hq) 0

set_option maxRecDepth 100000 in
/-- One text, read once from a file named `None` and once without a file. -/
theorem outline_inj_of_filenames :
    ∃ p q, parse (some "None") "void main() \x7b cout << \"a\\n\"; \x7d" = .ok p ∧
      parse none "void main() \x7b cout << \"a\\n\"; \x7d" = .ok q ∧
      ("\n".intercalate (p.outline 0) = "\n".intercalate (q.outline 0) ↔
        p.annotate .bare = q.annotate .bare) ∧
      "\n".intercalate (p.outline 0) ≠ "\n".intercalate (q.outline 0) := by
  obtain ⟨p, hp, hfile⟩ : ∃ p,
      parse (some "None") "void main() \x7b cout << \"a\\n\"; \x7d" = .ok p ∧
        p.filename = some "None" :=
    exists_parse rfl (by decide +kernel)
  obtain ⟨q, hq, hnone⟩ : ∃ q,
      parse none "void main() \x7b cout << \"a\\n\"; \x7d" = .ok q ∧ q.filename = none :=
    exists_parse rfl (by decide +kernel)
  have hiff := outline_inj hp hq
  refine ⟨p, q, hp, hq, hiff, fun htext => ?_⟩
  have hsame : (p.annotate .bare).filename = (q.annotate .bare).filename :=
    congrArg filename (hiff.mp htext)
  change p.filename = q.filename at hsame
  rw [hfile, hnone] at hsame
  cases hsame

end Program

end CMinusMinus
