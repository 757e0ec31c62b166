import CMinusMinus.Proofs.Places
import CMinusMinus.Proofs.Scoping.Sites

/-!
# Pieces of declarations

What places are told of in a declaration at the top are its *pieces*, in the order of the text:
names and literals, return statements without a value, and declarations of variables with the names
in them.  Among the tokens of a text the pieces stand one after another (`Token.Covers`).
-/

namespace CMinusMinus

/-! ## Tokens and places -/

/-- Where a stretch ends. -/
def Span.stop (s : Span) : Position := ⟨s.endLine, s.endColumn⟩

/-- The kinds of names and literals. -/
def TokenKind.isLeaf : TokenKind → Bool
  | .name | .numeral | .string | .keyword .true | .keyword .false => true
  | .eof | .keyword _ | .mark _ => false

/-- The stretch of a token, with the quotes of a string literal. -/
def Token.extent (t : Token) : Span :=
  Span.of t.position (if t.kind = .string then t.text.length + 2 else t.text.length)

/-- The places are those of names and literals among the tokens, in order. -/
def Token.Leaves (ts : List Token) (leaves : List (Option Span)) : Prop :=
  leaves.Sublist ((ts.filter (·.kind.isLeaf)).map (some ·.extent))

namespace Token.Leaves

variable {ts us : List Token} {leaves leaves' : List (Option Span)}

theorem nil (ts : List Token) : Leaves ts [] := List.nil_sublist _

theorem append (h : Leaves ts leaves) (h' : Leaves us leaves') :
    Leaves (ts ++ us) (leaves ++ leaves') := by
  rw [Leaves, List.filter_append, List.map_append]
  exact List.Sublist.append h h'

theorem after (h : Leaves us leaves) (ts : List Token) : Leaves (ts ++ us) leaves :=
  (nil ts).append h

theorem cons (h : Leaves ts leaves) (t : Token) : Leaves (t :: ts) leaves :=
  h.after [t]

theorem before (h : Leaves ts leaves) (us : List Token) : Leaves (ts ++ us) leaves := by
  have happend := h.append (nil us)
  rw [List.append_nil] at happend
  exact happend

theorem leaf {t : Token} (h : t.kind.isLeaf = true) : Leaves [t] [some t.extent] := by
  rw [Leaves, List.filter_cons_of_pos (p := fun t : Token => t.kind.isLeaf) h]
  exact List.Sublist.refl _

/-- Each of the places is that of a token. -/
theorem exists_token (h : Leaves ts leaves) {s : Option Span} (hs : s ∈ leaves) :
    ∃ t ∈ ts, t.kind.isLeaf = true ∧ s = some t.extent := by
  obtain ⟨t, ht, rfl⟩ := List.mem_map.mp (h.subset hs)
  obtain ⟨ht, hleaf⟩ := List.mem_filter.mp ht
  exact ⟨t, ht, hleaf, rfl⟩

end Token.Leaves

/-! ## Pieces -/

/-- What places are told of: a name or a literal, a return statement without a value, or the
declaration of a variable, with the places in it. -/
inductive Piece where
  | leaf (s : Option Span)
  | bareReturn (s : Option Span)
  | var (d : VarDecl)

namespace Piece

/-- The names and literals of a piece. -/
def leaves : Piece → List (Option Span)
  | .leaf s => [s]
  | .bareReturn _ => []
  | .var d => d.leaves

/-- The return statements without a value of a piece. -/
def bareReturns : Piece → List (Option Span)
  | .bareReturn s => [s]
  | .leaf _ | .var _ => []

theorem leaves_map (leaves : List (Option Span)) :
    (leaves.map leaf).flatMap Piece.leaves = leaves := by
  rw [List.flatMap_map]
  exact List.flatMap_singleton' leaves

theorem bareReturns_map (leaves : List (Option Span)) :
    (leaves.map leaf).flatMap Piece.bareReturns = [] := by
  rw [List.flatMap_map]
  exact List.flatMap_eq_nil_iff.mpr fun _ _ => rfl

theorem leaves_vars (ds : List VarDecl) :
    (ds.map var).flatMap Piece.leaves = VarDecl.listLeaves ds := by
  induction ds with
  | nil => rfl
  | cons d ds ih => exact congrArg (d.leaves ++ ·) ih

theorem bareReturns_vars (ds : List VarDecl) : (ds.map var).flatMap Piece.bareReturns = [] := by
  rw [List.flatMap_map]
  exact List.flatMap_eq_nil_iff.mpr fun _ _ => rfl

end Piece

mutual

/-- The pieces of a statement. -/
def Stmt.pieces : Stmt → List Piece
  | .assign _ e | .increment _ e | .decrement _ e | .read _ e | .write _ e | .call _ e
  | .return _ (some e) => e.leaves.map .leaf
  | .ifThen _ e b | .while _ e b => e.leaves.map .leaf ++ Stmt.blockPieces b
  | .ifElse _ e b₁ b₂ => e.leaves.map .leaf ++ (Stmt.blockPieces b₁ ++ Stmt.blockPieces b₂)
  | .return s none => [.bareReturn s]
  | .unknown _ => []
termination_by structural s => s

/-- The pieces of a block. -/
def Stmt.blockPieces : Block Stmt → List Piece
  | ⟨ds, _, ss⟩ => ds.items.map .var ++ Stmt.listPieces ss
termination_by structural b => b

/-- The pieces of statements. -/
def Stmt.listPieces : List Stmt → List Piece
  | [] => []
  | s :: ss => s.pieces ++ Stmt.listPieces ss
termination_by structural ss => ss

end

/-- The pieces of a declaration. -/
def Decl.pieces : Decl → List Piece
  | .var d => [.var d]
  | .fn d => .leaf d.name.info.span ::
      ((VarDecl.listLeaves d.formals.items).map .leaf ++ Stmt.blockPieces d.body)
  | .struct d => .leaf d.name.info.span :: d.fields.items.map .var
  | .unknown _ => []

mutual

/-- The places of a statement are those of its pieces. -/
theorem Stmt.places_pieces : ∀ s : Stmt,
    s.pieces.flatMap Piece.leaves = s.leaves ∧ s.pieces.flatMap Piece.bareReturns = s.bareReturns
  | .assign _ e | .increment _ e | .decrement _ e | .read _ e | .write _ e | .call _ e
  | .return _ (some e) => ⟨Piece.leaves_map _, Piece.bareReturns_map _⟩
  | .ifThen _ e b | .while _ e b => by
    obtain ⟨hleaves, hreturns⟩ := Stmt.places_blockPieces b
    rw [Stmt.pieces, List.flatMap_append, List.flatMap_append, hleaves, hreturns,
      Piece.leaves_map, Piece.bareReturns_map]
    exact ⟨rfl, rfl⟩
  | .ifElse _ e b₁ b₂ => by
    obtain ⟨hleaves₁, hreturns₁⟩ := Stmt.places_blockPieces b₁
    obtain ⟨hleaves₂, hreturns₂⟩ := Stmt.places_blockPieces b₂
    rw [Stmt.pieces, List.flatMap_append, List.flatMap_append, List.flatMap_append,
      List.flatMap_append, hleaves₁, hreturns₁, hleaves₂, hreturns₂, Piece.leaves_map,
      Piece.bareReturns_map]
    exact ⟨rfl, rfl⟩
  | .return _ none | .unknown _ => ⟨rfl, rfl⟩

theorem Stmt.places_blockPieces : ∀ b : Block Stmt,
    (Stmt.blockPieces b).flatMap Piece.leaves = Stmt.blockLeaves b ∧
      (Stmt.blockPieces b).flatMap Piece.bareReturns = Stmt.blockBareReturns b
  | ⟨ds, _, ss⟩ => by
    obtain ⟨hleaves, hreturns⟩ := Stmt.places_listPieces ss
    rw [Stmt.blockPieces, List.flatMap_append, List.flatMap_append, hleaves, hreturns,
      Piece.leaves_vars, Piece.bareReturns_vars]
    exact ⟨rfl, rfl⟩

theorem Stmt.places_listPieces : ∀ ss : List Stmt,
    (Stmt.listPieces ss).flatMap Piece.leaves = Stmt.listLeaves ss ∧
      (Stmt.listPieces ss).flatMap Piece.bareReturns = Stmt.listBareReturns ss
  | [] => ⟨rfl, rfl⟩
  | s :: ss => by
    obtain ⟨hleaves, hreturns⟩ := Stmt.places_pieces s
    obtain ⟨hleaves', hreturns'⟩ := Stmt.places_listPieces ss
    rw [Stmt.listPieces, List.flatMap_append, List.flatMap_append, hleaves, hreturns, hleaves',
      hreturns']
    exact ⟨rfl, rfl⟩

end

theorem Decl.places_pieces : ∀ d : Decl,
    d.pieces.flatMap Piece.leaves = d.leaves ∧ d.pieces.flatMap Piece.bareReturns = d.bareReturns
  | .var d => ⟨List.append_nil _, rfl⟩
  | .fn d => by
    obtain ⟨hleaves, hreturns⟩ := Stmt.places_blockPieces d.body
    rw [Decl.pieces, List.flatMap_cons, List.flatMap_cons, List.flatMap_append,
      List.flatMap_append, hleaves, hreturns, Piece.leaves_map, Piece.bareReturns_map]
    exact ⟨rfl, rfl⟩
  | .struct d => by
    rw [Decl.pieces, List.flatMap_cons, List.flatMap_cons, Piece.leaves_vars,
      Piece.bareReturns_vars]
    exact ⟨rfl, rfl⟩
  | .unknown _ => ⟨rfl, rfl⟩

/-! ## Pieces among tokens -/

/-- The span runs from the first of the tokens to the end of the last, which is a mark. -/
def Token.Spans (ts : List Token) (span : Option Span) : Prop :=
  ∃ t u m s, ts.head? = some t ∧ ts.getLast? = some u ∧ u.kind = .mark m ∧
    span = some s ∧ s.start = t.position ∧ s.stop = u.span.stop

/-- The declaration is read from the tokens: its names are among them, and its span runs over
them. -/
structure Token.Declares (ts : List Token) (d : VarDecl) : Prop where
  leaves : Leaves ts d.leaves
  span : Ordered ts → Spans ts d.span

/-- The pieces stand among the tokens, one after another. -/
inductive Token.Covers : List Token → List Piece → Prop where
  | nil : Covers [] []
  | skip {ts : List Token} {ps : List Piece} (t : Token) : Covers ts ps → Covers (t :: ts) ps
  | leaf {t : Token} {ts : List Token} {ps : List Piece} :
    t.kind.isLeaf = true → Covers ts ps → Covers (t :: ts) (.leaf (some t.extent) :: ps)
  | bareReturn {t : Token} {s : Option Span} {ts : List Token} {ps : List Piece} :
    s.map Span.start = some t.position → Covers ts ps → Covers (t :: ts) (.bareReturn s :: ps)
  | var {ts us : List Token} {d : VarDecl} {ps : List Piece} :
    Declares us d → Covers ts ps → Covers (us ++ ts) (.var d :: ps)

namespace Token.Covers

variable {ts us : List Token} {ps qs : List Piece}

theorem append (h : Covers ts ps) (h' : Covers us qs) : Covers (ts ++ us) (ps ++ qs) := by
  induction h with
  | nil => exact h'
  | skip t _ ih => exact .skip t ih
  | leaf ht _ ih => exact .leaf ht ih
  | bareReturn hs _ ih => exact .bareReturn hs ih
  | var hd _ ih =>
    rw [List.append_assoc]
    exact .var hd ih

theorem none (ts : List Token) : Covers ts [] := by
  induction ts with
  | nil => exact .nil
  | cons t ts ih => exact .skip t ih

theorem after (h : Covers us ps) (ts : List Token) : Covers (ts ++ us) ps :=
  (none ts).append h

theorem before (h : Covers ts ps) (us : List Token) : Covers (ts ++ us) ps := by
  have happend := h.append (none us)
  rw [List.append_nil] at happend
  exact happend

theorem of_leaves {leaves : List (Option Span)} (h : Leaves ts leaves) :
    Covers ts (leaves.map .leaf) := by
  induction ts generalizing leaves with
  | nil =>
    rw [List.sublist_nil.mp h]
    exact .nil
  | cons t ts ih =>
    cases ht : t.kind.isLeaf with
    | false =>
      rw [Leaves, List.filter_cons_of_neg (p := fun t : Token => t.kind.isLeaf)
        (Bool.eq_false_iff.mp ht)] at h
      exact .skip t (ih h)
    | true =>
      rw [Leaves, List.filter_cons_of_pos (p := fun t : Token => t.kind.isLeaf) ht,
        List.map_cons] at h
      cases h with
      | cons _ h => exact .skip t (ih h)
      | cons_cons _ h => exact .leaf ht (ih h)

theorem of_declares {d : VarDecl} (h : Declares ts d) : Covers ts [.var d] := by
  have hvar := Covers.var h .nil
  rwa [List.append_nil] at hvar

/-- What pieces stand among is cut where the pieces are. -/
theorem exists_append (h : Covers ts (ps ++ qs)) :
    ∃ us vs, ts = us ++ vs ∧ Covers us ps ∧ Covers vs qs := by
  generalize hrs : ps ++ qs = rs at h
  induction h generalizing ps with
  | nil =>
    obtain ⟨rfl, rfl⟩ := List.append_eq_nil_iff.mp hrs
    exact ⟨[], [], rfl, .nil, .nil⟩
  | skip t h ih =>
    obtain ⟨us, vs, rfl, hus, hvs⟩ := ih hrs
    exact ⟨t :: us, vs, rfl, .skip t hus, hvs⟩
  | @leaf t ts rs ht h ih =>
    cases ps with
    | nil =>
      cases hrs
      exact ⟨[], _, rfl, .nil, .leaf ht h⟩
    | cons p ps =>
      obtain ⟨rfl, rfl⟩ := List.cons.inj hrs
      obtain ⟨us, vs, rfl, hus, hvs⟩ := ih rfl
      exact ⟨t :: us, vs, rfl, .leaf ht hus, hvs⟩
  | @bareReturn t s ts rs hs h ih =>
    cases ps with
    | nil =>
      cases hrs
      exact ⟨[], _, rfl, .nil, .bareReturn hs h⟩
    | cons p ps =>
      obtain ⟨rfl, rfl⟩ := List.cons.inj hrs
      obtain ⟨us, vs, rfl, hus, hvs⟩ := ih rfl
      exact ⟨t :: us, vs, rfl, .bareReturn hs hus, hvs⟩
  | @var ts ws d rs hd h ih =>
    cases ps with
    | nil =>
      cases hrs
      exact ⟨[], _, rfl, .nil, .var hd h⟩
    | cons p ps =>
      obtain ⟨rfl, rfl⟩ := List.cons.inj hrs
      obtain ⟨us, vs, rfl, hus, hvs⟩ := ih rfl
      exact ⟨ws ++ us, vs, (List.append_assoc _ _ _).symm, .var hd hus, hvs⟩

/-- What a declaration is read from, with what comes before it and after it. -/
theorem exists_declares {d : VarDecl} (h : Covers ts (ps ++ .var d :: qs)) :
    ∃ us ws vs, ts = us ++ ws ++ vs ∧ Covers us ps ∧ Declares ws d ∧ Covers vs qs := by
  obtain ⟨us, vs, rfl, hus, hvs⟩ := h.exists_append
  clear h
  generalize hrs : Piece.var d :: qs = rs at hvs
  induction hvs generalizing us ps with
  | nil => cases hrs
  | @skip ts rs t hts ih =>
    obtain ⟨us', ws, vs, heq, hus', hws, hvs⟩ := ih _ (hus.before [t]) hrs
    exact ⟨us', ws, vs, by rw [← heq]; simp, hus', hws, hvs⟩
  | leaf => cases hrs
  | bareReturn => cases hrs
  | @var ts ws d' rs hd hts ih =>
    cases hrs
    exact ⟨us, ws, ts, (List.append_assoc _ _ _).symm, hus, hd, hts⟩

/-- The names and literals are tokens. -/
theorem leaves (h : Covers ts ps) : Leaves ts (ps.flatMap Piece.leaves) := by
  induction h with
  | nil => exact .nil []
  | skip t _ ih => exact ih.cons t
  | leaf ht _ ih => exact (Leaves.leaf ht).append ih
  | bareReturn _ _ ih => exact ih.cons _
  | var hd _ ih => exact hd.leaves.append ih

/-- The return statements without a value begin with tokens. -/
theorem returns (h : Covers ts ps) : Begin ts (ps.flatMap Piece.bareReturns) := by
  induction h with
  | nil => exact .nil []
  | skip t _ ih => exact ih.after [t]
  | leaf _ _ ih => exact ih.after [_]
  | bareReturn hs _ ih => exact .cons hs ih
  | var _ _ ih => exact ih.after _

end Token.Covers

namespace Parse

open Cursor

/-! ## Where spans end -/

theorem last_of_take? {c c' : Cursor} {kind : TokenKind} {t : Token} {h : c'.size < c.size}
    (ht : c.take? kind = some ⟨t, c', h⟩) : c'.last = t := by
  unfold take? at ht
  split at ht
  · cases ht
  · split at ht
    · cases ht
      rfl
    · cases ht

/-- The cursor stands after a mark, with some tokens before it. -/
def Ends (c c' : Cursor) : Prop :=
  ∃ ts m, c.rest = ts ++ c'.last :: c'.rest ∧ c'.last.kind = .mark m

theorem Ends.after {c c' c'' : Cursor} {ts : List Token} (hrest : c.rest = ts ++ c'.rest)
    (h : Ends c' c'') : Ends c c'' := by
  obtain ⟨us, m, hus, hkind⟩ := h
  exact ⟨ts ++ us, m, by rw [hrest, hus, List.append_assoc], hkind⟩

theorem ends_take? {c c' : Cursor} {m : Mark} {t : Token} {h : c'.size < c.size}
    (ht : c.take? (.mark m) = some ⟨t, c', h⟩) : Ends c c' := by
  obtain ⟨hrest, hkind⟩ := rest_of_take? ht
  rw [← last_of_take? ht] at hrest hkind
  exact ⟨[], m, hrest, hkind⟩

theorem ends_expect {c c' : Cursor} {wanted : Wanted} {m : Mark} (hw : wanted.kind = .mark m)
    {t : Token} {h : c'.size < c.size} (ht : c.expect wanted = .ok ⟨t, c', h⟩) : Ends c c' := by
  unfold expect at ht
  rw [hw] at ht
  split at ht
  · next htake =>
    cases ht
    exact ends_take? htake
  · cases ht

/-- A span up to a token that does not stand before its beginning. -/
theorem since_eq {c : Cursor} {p : Position} (h : c.last.position.before p = false) :
    (c.since p).start = p ∧ (c.since p).stop = c.last.span.stop := by
  rw [since, h]
  exact ⟨rfl, rfl⟩

/-- What was taken before reading went on. -/
theorem rest_of_takes {α : Type} {n : Nat} {c : Cursor} {P : List Token → α → Prop}
    {r : Reading α n} (h : Takes c P r) (hc : ∀ t ∈ c.rest, t.Spelled) {x : Read α n}
    (hx : r = .ok x) : ∃ ts, c.rest = ts ++ x.next.rest ∧ ∀ t ∈ x.next.rest, t.Spelled := by
  obtain ⟨ts, hts, -⟩ := h hc x hx
  exact ⟨ts, hts, fun t ht => hc t (hts ▸ List.mem_append_right ts ht)⟩

/-- The span of what was read up to a mark runs from the first of its tokens to the end of the
mark. -/
theorem Ends.stretch {c c' : Cursor} (h : Ends c c') {ts : List Token}
    (hts : c.rest = ts ++ c'.rest)
    (hordered : Token.Ordered ts) : ∃ t u m, ts.head? = some t ∧ ts.getLast? = some u ∧
      u.kind = .mark m ∧ (c'.since c.here).start = t.position ∧
      (c'.since c.here).stop = u.span.stop := by
  obtain ⟨us, m, hus, hkind⟩ := h
  obtain rfl : ts = us ++ [c'.last] := by
    rw [hus, List.append_cons] at hts
    exact (List.append_cancel_right hts).symm
  obtain ⟨t, hhead⟩ : ∃ t, (us ++ [c'.last]).head? = some t := by
    cases us with
    | nil => exact ⟨_, rfl⟩
    | cons u us => exact ⟨u, rfl⟩
  have hhere : c.here = t.position := by
    obtain ⟨vs, hvs⟩ := List.head?_eq_some_iff.mp hhead
    rw [here, peek, hts, hvs]
    rfl
  have hlast : c'.last.position.before c.here = false := by
    rw [hhere]
    cases us with
    | nil =>
      cases hhead
      exact Position.not_before_self _
    | cons u us =>
      cases hhead
      have hbefore := (List.pairwise_cons.mp hordered).1 c'.last (by simp)
      exact Position.not_before_of_before hbefore
  obtain ⟨hstart, hstop⟩ := since_eq hlast
  exact ⟨t, _, m, hhead, List.getLast?_concat, hkind, hstart.trans hhere, hstop⟩

end Parse

end CMinusMinus
