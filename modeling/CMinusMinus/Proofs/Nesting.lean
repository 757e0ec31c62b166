import CMinusMinus.Proofs.Places.Lines
import CMinusMinus.Proofs.Places.Stretches

/-!
# Nested spans

The spans of a tree form a tree of their own (`Program.spans`).  A node encloses its children
(`SpanTree.Encloses`) if they lie within its span, one after another.  Since spans end with the
*text* of their last token, and that of a string literal is without its quotes, an operation whose
last operand is a string literal may end two columns before the literal does (`SpanTree.Nested`).

A tree is put together from tokens: its nodes are read from stretches of tokens that do not overlap
(`Token.Fits`, `Token.Holds`), and a span that runs from the first of these tokens to the last
encloses what is read from them (`Token.Fits.node`).
-/

namespace CMinusMinus

/-! ## Trees of spans -/

/-- What tells how a node's span ends. -/
inductive NodeSort where
  /-- A string literal, which ends with its closing quote. -/
  | quoted
  /-- An assignment or an operator, which ends with its last operand. -/
  | operation
  /-- Declarations or statements, of which there may be none. -/
  | series
  /-- Any other node. -/
  | plain
  deriving DecidableEq, Repr

/-- The span of a node, and those of the nodes below it, in the order of the text. -/
inductive SpanTree where
  | node (sort : NodeSort) (span : Option Span) (children : List SpanTree)

namespace SpanTree

/-- What tells how the span of the node at the top ends. -/
def sort : SpanTree → NodeSort
  | .node sort _ _ => sort

/-- The span of the node at the top. -/
def span : SpanTree → Option Span
  | .node _ span _ => span

/-- The trees of the nodes right below the one at the top. -/
def children : SpanTree → List SpanTree
  | .node _ _ children => children

mutual

/-- A node and all nodes below it. -/
def nodes : SpanTree → List SpanTree
  | .node sort span ks => .node sort span ks :: SpanTree.listNodes ks
termination_by structural k => k

/-- All nodes of trees. -/
def listNodes : List SpanTree → List SpanTree
  | [] => []
  | k :: ks => k.nodes ++ SpanTree.listNodes ks
termination_by structural ks => ks

end

theorem mem_listNodes {ks : List SpanTree} {k : SpanTree} :
    k ∈ listNodes ks ↔ ∃ l ∈ ks, k ∈ l.nodes := by
  induction ks with
  | nil => simp [listNodes]
  | cons l ks ih => simp [listNodes, ih]

end SpanTree

/-- The span of a name. -/
def Ident.spans (x : Ident) : SpanTree := .node .plain x.info.span []

mutual

/-- The spans of an expression. -/
def Exp.spans : Exp → SpanTree
  | .int i _ | .bool i _ | .unknown i => .node .plain i.span []
  | .string i _ => .node .quoted i.span []
  | .ident x => x.spans
  | .access i _ loc f => .node .plain i.span [loc.spans, f.spans]
  | .assign i l r | .binary i _ l r => .node .operation i.span [l.spans, r.spans]
  | .neg i e | .not i e => .node .operation i.span [e.spans]
  | .call i f argsSpan args =>
    .node .plain i.span [f.spans, .node .plain argsSpan (Exp.listSpans args)]
termination_by structural e => e

/-- The spans of expressions. -/
def Exp.listSpans : List Exp → List SpanTree
  | [] => []
  | e :: es => e.spans :: Exp.listSpans es
termination_by structural es => es

end

/-- The spans of a type. -/
def TypeNode.spans : TypeNode → SpanTree
  | .struct s x => .node .plain s [x.spans]
  | .int s | .bool s | .void s | .unknown s => .node .plain s []

/-- The spans of a declaration of storage. -/
def VarDecl.spans (d : VarDecl) : SpanTree := .node .plain d.span [d.type.spans, d.name.spans]

/-- The spans of declarations of storage. -/
def VarDecls.spans (sort : NodeSort) (ds : VarDecls) : SpanTree :=
  .node sort ds.span (ds.items.map VarDecl.spans)

mutual

/-- The spans of a statement. -/
def Stmt.spans : Stmt → SpanTree
  | .assign s e | .increment s e | .decrement s e | .read s e | .write s e | .call s e
  | .return s (some e) => .node .plain s [e.spans]
  | .ifThen s e b | .while s e b => .node .plain s (e.spans :: Stmt.blockSpans b)
  | .ifElse s e b₁ b₂ => .node .plain s (e.spans :: (Stmt.blockSpans b₁ ++ Stmt.blockSpans b₂))
  | .return s none | .unknown s => .node .plain s []
termination_by structural s => s

/-- The spans of the two lists of a block. -/
def Stmt.blockSpans : Block Stmt → List SpanTree
  | ⟨decls, span, ss⟩ => [decls.spans .series, .node .series span (Stmt.listSpans ss)]
termination_by structural b => b

/-- The spans of statements. -/
def Stmt.listSpans : List Stmt → List SpanTree
  | [] => []
  | s :: ss => s.spans :: Stmt.listSpans ss
termination_by structural ss => ss

end

/-- The spans of a declaration at the top. -/
def Decl.spans : Decl → SpanTree
  | .var d => d.spans
  | .fn d => .node .plain d.span [d.returns.spans, d.name.spans, d.formals.spans .plain,
      .node .plain d.bodySpan (Stmt.blockSpans d.body)]
  | .struct d => .node .plain d.span [d.name.spans, d.fields.spans .series]
  | .unknown s => .node .plain s []

/-- The spans of a program. -/
def Program.spans (p : Program) : SpanTree :=
  .node .plain p.span [.node .series p.declsSpan (p.decls.map Decl.spans)]

/-! ## Nested spans -/

namespace Position

/-- The one place is the other or comes before it. -/
def NotAfter (p q : Position) : Prop := q.before p = false

/-- The place some columns further on. -/
def right (p : Position) (n : Nat) : Position := ⟨p.line, p.column + n⟩

variable {p q r : Position}

theorem NotAfter.refl (p : Position) : p.NotAfter p := not_before_self p

theorem NotAfter.trans (hpq : p.NotAfter q) (hqr : q.NotAfter r) : p.NotAfter r :=
  not_before_trans hpq hqr

theorem notAfter_right (p : Position) (n : Nat) : p.NotAfter (p.right n) :=
  not_before.mpr (.inr ⟨rfl, Nat.le_add_right _ _⟩)

end Position

namespace SpanTree

/-- The one node ends before the other begins. -/
def Precedes (k l : SpanTree) : Prop :=
  ∃ s s', k.span = some s ∧ l.span = some s' ∧ s.stop.NotAfter s'.start

/-- The node's children lie within its span, its end being moved on by `n` columns, and each ends
before the next begins.  A series of nothing has no width. -/
structure Encloses (n : Nat) (k : SpanTree) : Prop where
  forward : ∃ s, k.span = some s ∧ s.start.NotAfter s.stop
  within : ∀ l ∈ k.children, ∃ s s', k.span = some s ∧ l.span = some s' ∧
    s.start.NotAfter s'.start ∧ s'.stop.NotAfter (s.stop.right n)
  apart : k.children.Pairwise Precedes
  empty : k.sort = .series → k.children = [] → ∃ s, k.span = some s ∧ s.start = s.stop

/-- Whether the node is an operation whose last operand is a string literal. -/
def endsInQuotes (k : SpanTree) : Bool :=
  k.sort = .operation && k.children.getLast?.any (·.sort = .quoted)

/-- The node encloses its children, but for the quotes of a string literal at the end of an
operation. -/
def Nested (k : SpanTree) : Prop :=
  k.Encloses 0 ∨ k.endsInQuotes = true ∧ k.Encloses 2

end SpanTree

/-! ## Stretches of tokens -/

namespace Token

/-- Each token begins before the later ones and ends, with its quotes, before they begin. -/
def Disjoint (ts : List Token) : Prop :=
  ts.Pairwise fun t u =>
    t.position.before u.position = true ∧ t.extent.stop.NotAfter u.position

theorem span_notAfter_extent (t : Token) : t.span.stop.NotAfter t.extent.stop := by
  rw [extent]
  split
  · exact Position.notAfter_right t.span.stop 2
  · exact .refl _

theorem position_notAfter_stop (t : Token) : t.position.NotAfter t.span.stop :=
  Position.notAfter_right t.position t.text.length

theorem Lexed.notAfter {before cs rest : List Char} {ts : List Token}
    (h : Lexed before cs ts rest) :
    ∀ t ∈ ts, (Position.following before).NotAfter t.position := by
  induction h with
  | nil => exact List.forall_mem_nil _
  | @cons before gap _ _ t ts _ hposition _ _ ih =>
    have hgap : (Position.following before).NotAfter t.position := by
      rw [hposition, Position.following_append]
      exact Position.after_not_before _ gap
    refine List.forall_mem_cons.mpr ⟨hgap, fun u hu => hgap.trans ?_⟩
    refine .trans ?_ (ih u hu)
    rw [Position.following_append, ← hposition]
    exact Position.after_not_before _ t.lexeme

/-- The tokens of a text do not overlap, even with their quotes. -/
theorem Lexed.apart {before cs rest : List Char} {ts : List Token} (h : Lexed before cs ts rest) :
    ts.Pairwise fun t u => t.extent.stop.NotAfter u.position := by
  induction h with
  | nil => exact .nil
  | @cons before gap _ _ t ts _ hposition _ hts ih =>
    refine List.pairwise_cons.mpr ⟨fun u hu => ?_, ih⟩
    refine .trans ?_ (hts.notAfter u hu)
    rw [Position.following_append, ← hposition, extent, ← length_lexeme]
    exact Position.after_not_before_column t.position t.lexeme (Nat.le_refl _)

theorem disjoint_of_scan {source : String} {ts : List Token} {eof : Token}
    (h : scan source = .ok (ts ++ [eof])) : Disjoint ts := by
  have hordered := (List.pairwise_append.mp (ordered_of_scan h)).1
  obtain ⟨us, gap, hlexed, -, heq⟩ := lexed_of_scan h
  obtain ⟨rfl, -⟩ := List.append_inj' heq rfl
  exact hordered.and hlexed.apart

/-- The last of the tokens is no string literal. -/
def Unquoted (ts : List Token) : Prop := ∀ t, ts.getLast? = some t → t.kind ≠ .string

theorem Unquoted.concat (ts : List Token) {t : Token} (h : t.kind ≠ .string) :
    Unquoted (ts ++ [t]) := by
  intro u hu
  rw [List.getLast?_concat] at hu
  cases hu
  exact h

theorem Unquoted.append {ts us : List Token} (hts : Unquoted ts) (hus : Unquoted us) :
    Unquoted (ts ++ us) := by
  intro t ht
  rw [List.getLast?_append] at ht
  cases hlast : us.getLast? with
  | none =>
    rw [hlast] at ht
    exact hts t ht
  | some u =>
    rw [hlast] at ht
    cases ht
    exact hus t hlast

/-! ## Trees that are read from tokens -/

/-- The span from the beginning of a token to the end of another one's text. -/
def spanTo (first last : Token) : Span :=
  ⟨first.line, first.column, last.line, last.column + last.text.length⟩

/-- The tree is read from the tokens: all its nodes are nested, and it lies between the first of the
tokens and the last.  Only a string literal and an operation end with a string literal, and only the
former with its quotes. -/
structure Fits (ts : List Token) (k : SpanTree) : Prop where
  nested : ∀ l ∈ k.nodes, l.Nested
  between : ∃ first last s, ts.head? = some first ∧ ts.getLast? = some last ∧ k.span = some s ∧
    first.position.NotAfter s.start ∧ s.start.NotAfter s.stop ∧
    (s.stop.NotAfter last.span.stop ∨ k.sort = .quoted ∧ s.stop = last.extent.stop)
  ends : k.sort = .quoted ∨ k.sort = .operation ∨ Unquoted ts

/-- The trees are read from stretches of the tokens, one after another.  A series of nothing is read
from no token and stands where the next one does. -/
inductive Holds : List Token → List SpanTree → Prop where
  | nil : Holds [] []
  | skip {ts : List Token} {ks : List SpanTree} (t : Token) : Holds ts ks → Holds (t :: ts) ks
  | tree {us ts : List Token} {k : SpanTree} {ks : List SpanTree} :
    Fits us k → Holds ts ks → Holds (us ++ ts) (k :: ks)
  | empty {t : Token} {ts : List Token} {ks : List SpanTree} :
    Holds (t :: ts) ks →
    Holds (t :: ts) (.node .series (some (Span.empty t.position)) [] :: ks)

namespace Holds

variable {ts us : List Token} {ks ls : List SpanTree}

theorem append (h : Holds ts ks) (h' : Holds us ls) : Holds (ts ++ us) (ks ++ ls) := by
  induction h with
  | nil => exact h'
  | skip t _ ih => exact .skip t ih
  | tree hk _ ih =>
    rw [List.append_assoc]
    exact .tree hk ih
  | empty _ ih => exact .empty ih

theorem none (ts : List Token) : Holds ts [] := by
  induction ts with
  | nil => exact .nil
  | cons t ts ih => exact .skip t ih

theorem before (h : Holds ts ks) (us : List Token) : Holds (ts ++ us) ks := by
  have happend := h.append (none us)
  rwa [List.append_nil] at happend

end Holds

theorem Fits.holds {ts : List Token} {k : SpanTree} (h : Fits ts k) : Holds ts [k] := by
  have htree := Holds.tree h .nil
  rwa [List.append_nil] at htree

end Token

/-! ## Nodes over what they are read from -/

namespace SpanTree

/-- A leaf is nested. -/
theorem nested_leaf {sort : NodeSort} {s : Span} (hs : s.start.NotAfter s.stop)
    (hempty : sort = .series → s.start = s.stop) :
    ∀ l ∈ (node sort (some s) []).nodes, l.Nested := by
  intro l hl
  obtain rfl := List.mem_singleton.mp hl
  exact .inl ⟨⟨s, rfl, hs⟩, List.forall_mem_nil _, .nil, fun hsort _ => ⟨s, rfl, hempty hsort⟩⟩

theorem nested_node {sort : NodeSort} {span : Option Span} {ks : List SpanTree}
    (h : (node sort span ks).Nested) (hks : ∀ k ∈ ks, ∀ l ∈ k.nodes, l.Nested) :
    ∀ l ∈ (node sort span ks).nodes, l.Nested := by
  intro l hl
  rcases List.mem_cons.mp hl with rfl | hl
  · exact h
  · obtain ⟨k, hk, hlk⟩ := mem_listNodes.mp hl
    exact hks k hk l hlk

end SpanTree

namespace Token

variable {ts us : List Token} {ks : List SpanTree} {k : SpanTree} {first last : Token}

/-- What is read from the tokens stands between two of them. -/
theorem Holds.between (h : Holds ts ks) : ∀ k ∈ ks, ∃ t ∈ ts, ∃ u ∈ ts, ∃ s, k.span = some s ∧
    t.position.NotAfter s.start ∧ s.start.NotAfter s.stop ∧ s.stop.NotAfter u.extent.stop := by
  induction h with
  | nil => exact List.forall_mem_nil _
  | skip v _ ih =>
    intro k hk
    obtain ⟨t, ht, u, hu, hs⟩ := ih k hk
    exact ⟨t, List.mem_cons_of_mem v ht, u, List.mem_cons_of_mem v hu, hs⟩
  | @tree us ts k ks hfits _ ih =>
    refine List.forall_mem_cons.mpr ⟨?_, fun l hl => ?_⟩
    · obtain ⟨first, last, s, hfirst, hlast, hs, hstart, hforward, hstop⟩ := hfits.between
      refine ⟨first, List.mem_append_left _ (List.mem_of_head? hfirst), last,
        List.mem_append_left _ (List.mem_of_getLast? hlast), s, hs, hstart, hforward, ?_⟩
      rcases hstop with hstop | ⟨-, hstop⟩
      · exact hstop.trans last.span_notAfter_extent
      · rw [hstop]
        exact .refl _
    · obtain ⟨t, ht, u, hu, hs⟩ := ih l hl
      exact ⟨t, List.mem_append_right us ht, u, List.mem_append_right us hu, hs⟩
  | @empty t ts ks _ ih =>
    have hmem : t ∈ t :: ts := List.mem_cons_self
    refine List.forall_mem_cons.mpr ⟨⟨t, hmem, t, hmem, _, rfl, .refl _, .refl _, ?_⟩, ih⟩
    exact t.position_notAfter_stop.trans t.span_notAfter_extent

theorem Holds.eq_nil (h : Holds [] ks) : ks = [] := by
  cases ks with
  | nil => rfl
  | cons k ks =>
    obtain ⟨t, ht, -⟩ := h.between k List.mem_cons_self
    cases ht

theorem Holds.nested (h : Holds ts ks) : ∀ k ∈ ks, ∀ l ∈ k.nodes, l.Nested := by
  induction h with
  | nil => exact List.forall_mem_nil _
  | skip _ _ ih => exact ih
  | tree hfits _ ih => exact List.forall_mem_cons.mpr ⟨hfits.nested, ih⟩
  | empty _ ih =>
    exact List.forall_mem_cons.mpr ⟨SpanTree.nested_leaf (.refl _) fun _ => rfl, ih⟩

/-- What is read from tokens that do not overlap does not either. -/
theorem Holds.precedes (h : Holds ts ks) (hd : Disjoint ts) : ks.Pairwise SpanTree.Precedes := by
  induction h with
  | nil => exact .nil
  | skip _ _ ih => exact ih (List.pairwise_cons.mp hd).2
  | @tree us ts k ks hfits hts ih =>
    obtain ⟨-, hdts, hacross⟩ := List.pairwise_append.mp hd
    refine List.pairwise_cons.mpr ⟨fun l hl => ?_, ih hdts⟩
    obtain ⟨-, -, u, hu, s, hs, -, -, hstop⟩ := hfits.holds.between k List.mem_cons_self
    obtain ⟨t, ht, -, -, s', hs', hstart, -⟩ := hts.between l hl
    exact ⟨s, s', hs, hs', (hstop.trans (hacross u hu t ht).2).trans hstart⟩
  | @empty t ts ks hts ih =>
    refine List.pairwise_cons.mpr ⟨fun l hl => ?_, ih hd⟩
    obtain ⟨u, hu, -, -, s', hs', hstart, -⟩ := hts.between l hl
    refine ⟨_, s', rfl, hs', .trans ?_ hstart⟩
    rcases List.mem_cons.mp hu with rfl | hu
    · exact .refl _
    · exact Position.not_before_of_before ((List.pairwise_cons.mp hd).1 u hu).1

theorem Disjoint.head_notAfter (hd : Disjoint ts) (hfirst : ts.head? = some first) {t : Token}
    (ht : t ∈ ts) : first.position.NotAfter t.position :=
  Ordered.not_before_head (hd.imp And.left) hfirst ht

theorem Disjoint.notAfter_last (hd : Disjoint ts) (hlast : ts.getLast? = some last) {t : Token}
    (ht : t ∈ ts) : t = last ∨ t.extent.stop.NotAfter last.position := by
  obtain ⟨us, rfl⟩ := List.getLast?_eq_some_iff.mp hlast
  rcases List.mem_append.mp ht with ht | ht
  · exact .inr ((List.pairwise_append.mp hd).2.2 t ht last (List.mem_singleton_self _)).2
  · exact .inl (List.mem_singleton.mp ht)

theorem Disjoint.extent_notAfter (hd : Disjoint ts) (hlast : ts.getLast? = some last) {t : Token}
    (ht : t ∈ ts) : t.extent.stop.NotAfter last.extent.stop := by
  rcases hd.notAfter_last hlast ht with rfl | hstop
  · exact .refl _
  · exact hstop.trans (last.position_notAfter_stop.trans last.span_notAfter_extent)

theorem any_getLast?_cons {α : Type} {p : α → Bool} (a : α) {as : List α}
    (h : as.getLast?.any p = true) : (a :: as).getLast?.any p = true := by
  cases as with
  | nil => cases h
  | cons b as =>
    rw [List.getLast?_cons_cons]
    exact h

/-- What is read from the tokens ends with the text of the last one, unless its last part is a
string literal. -/
theorem Holds.stop (h : Holds ts ks) (hd : Disjoint ts) (hlast : ts.getLast? = some last) :
    ks.getLast?.any (·.sort = .quoted) = true ∨
      ∀ k ∈ ks, ∀ s, k.span = some s → s.stop.NotAfter last.span.stop := by
  induction h with
  | nil => exact .inr (List.forall_mem_nil _)
  | @skip ts ks t hts ih =>
    cases ts with
    | nil =>
      rw [hts.eq_nil]
      exact .inr (List.forall_mem_nil _)
    | cons u ts => exact ih (List.pairwise_cons.mp hd).2 hlast
  | @tree us ts k ks hfits hts ih =>
    obtain ⟨-, last', s, -, hlast', hs, -, -, hstop⟩ := hfits.between
    cases ts with
    | nil =>
      rw [List.append_nil, hlast'] at hlast
      cases hlast
      rw [hts.eq_nil]
      rcases hstop with hstop | ⟨hsort, -⟩
      · refine .inr (List.forall_mem_singleton.mpr fun s' hs' => ?_)
        rw [hs] at hs'
        cases hs'
        exact hstop
      · exact .inl (by simp [hsort])
    | cons u ts =>
      have hlast₂ : (u :: ts).getLast? = some last := by
        rw [List.getLast?_append_of_ne_nil _ (List.cons_ne_nil u ts)] at hlast
        exact hlast
      obtain ⟨-, hdts, hacross⟩ := List.pairwise_append.mp hd
      have hk : ∀ s', k.span = some s' → s'.stop.NotAfter last.span.stop := by
        intro s' hs'
        obtain ⟨-, -, v, hv, s, hs, -, -, hstop⟩ := hfits.holds.between k List.mem_cons_self
        rw [hs] at hs'
        cases hs'
        have hbefore := (hacross v hv last (List.mem_of_getLast? hlast₂)).2
        exact (hstop.trans hbefore).trans last.position_notAfter_stop
      exact (ih hdts hlast₂).imp (any_getLast?_cons k)
        fun hall => List.forall_mem_cons.mpr ⟨hk, hall⟩
  | @empty t ts ks hts ih =>
    have hk : t.position.NotAfter last.span.stop := by
      rcases hd.notAfter_last hlast List.mem_cons_self with rfl | hstop
      · exact t.position_notAfter_stop
      · exact (t.position_notAfter_stop.trans t.span_notAfter_extent).trans
          (hstop.trans last.position_notAfter_stop)
    refine (ih hd hlast).imp (any_getLast?_cons _) fun hall =>
      List.forall_mem_cons.mpr ⟨?_, hall⟩
    rintro s hs
    cases hs
    exact hk

theorem extent_notAfter_right (t : Token) : t.extent.stop.NotAfter (t.span.stop.right 2) := by
  rw [extent]
  split
  · exact .refl _
  · exact Position.notAfter_right t.span.stop 2

theorem Unquoted.extent_eq (h : Unquoted ts) (hlast : ts.getLast? = some last) :
    last.extent = last.span := by
  rw [extent, if_neg (h last hlast)]
  rfl

/-- A node whose span runs over the tokens that its children are read from. -/
theorem Fits.node {sort : NodeSort} (h : Holds ts ks) (hd : Disjoint ts)
    (hfirst : ts.head? = some first) (hlast : ts.getLast? = some last)
    (hends : sort = .operation ∨ Unquoted ts) (hseries : sort = .series → ks ≠ []) :
    Fits ts (.node sort (some (spanTo first last)) ks) := by
  have hforward : first.position.NotAfter last.span.stop :=
    (hd.head_notAfter hfirst (List.mem_of_getLast? hlast)).trans last.position_notAfter_stop
  have hencloses {n : Nat} (hstop : ∀ k ∈ ks, ∀ s, k.span = some s →
      s.stop.NotAfter (last.span.stop.right n)) :
      (SpanTree.node sort (some (spanTo first last)) ks).Encloses n := by
    refine ⟨⟨_, rfl, hforward⟩, fun k hk => ?_, h.precedes hd, fun hsort hnil => ?_⟩
    · obtain ⟨t, ht, -, -, s, hs, hstart, -, -⟩ := h.between k hk
      exact ⟨_, s, rfl, hs, (hd.head_notAfter hfirst ht).trans hstart, hstop k hk s hs⟩
    · exact absurd hnil (hseries hsort)
  have hextent : ∀ k ∈ ks, ∀ s, k.span = some s → s.stop.NotAfter last.extent.stop := by
    intro k hk s hs
    obtain ⟨-, -, u, hu, s', hs', -, -, hstop⟩ := h.between k hk
    rw [hs] at hs'
    cases hs'
    exact hstop.trans (hd.extent_notAfter hlast hu)
  have hnested : (SpanTree.node sort (some (spanTo first last)) ks).Nested := by
    rcases hends with rfl | hunquoted
    · rcases h.stop hd hlast with hany | hall
      · have hquotes :
            (SpanTree.node .operation (some (spanTo first last)) ks).endsInQuotes = true := by
          rw [SpanTree.endsInQuotes, SpanTree.sort, SpanTree.children, hany]
          rfl
        refine .inr ⟨hquotes, ?_⟩
        exact hencloses fun k hk s hs => (hextent k hk s hs).trans last.extent_notAfter_right
      · exact .inl (hencloses hall)
    · rw [hunquoted.extent_eq hlast] at hextent
      exact .inl (hencloses hextent)
  exact ⟨SpanTree.nested_node hnested h.nested,
    ⟨first, last, _, hfirst, hlast, rfl, .refl _, hforward, .inl (.refl _)⟩, .inr hends⟩

/-- What stands in parentheses. -/
theorem Fits.group (h : Fits ts k) {t u : Token} (hd : Disjoint (t :: ts ++ [u]))
    (hu : u.kind ≠ .string) : Fits (t :: ts ++ [u]) k := by
  obtain ⟨first, last, s, hfirst, hlast, hs, hstart, hforward, -⟩ := h.between
  obtain ⟨-, -, v, hv, s', hs', -, -, hstop⟩ := h.holds.between k List.mem_cons_self
  rw [hs] at hs'
  cases hs'
  have hmem : first ∈ t :: ts ++ [u] :=
    List.mem_append_left _ (List.mem_cons_of_mem t (List.mem_of_head? hfirst))
  have hbefore := ((List.pairwise_append.mp hd).2.2 v (List.mem_cons_of_mem t hv) u
    (List.mem_singleton_self _)).2
  exact ⟨h.nested, ⟨t, u, s, rfl, List.getLast?_concat, hs,
    (hd.head_notAfter rfl hmem).trans hstart, hforward,
    .inl ((hstop.trans hbefore).trans u.position_notAfter_stop)⟩, .inr (.inr (.concat _ hu))⟩

end Token

end CMinusMinus
