import CMinusMinus.Proofs.Nesting
import Mathlib

/-!
# Reading nests spans

Each reader moves its cursor over a stretch of tokens, and what it answers is read from these
(`Token.Fits`).  So all nodes of a program that is read are nested (`Program.nested_of_parse`).
-/

namespace CMinusMinus

open Token (Disjoint Fits Holds Unquoted)

/-! ## Moving over tokens -/

/-- The second cursor stands behind the tokens that come after the first. -/
structure Cursor.Moves (c : Cursor) (ts : List Token) (c' : Cursor) : Prop where
  rest : c.rest = ts ++ c'.rest
  last : c'.last = ts.getLast?.getD c.last
  eof : c'.eof = c.eof

namespace Cursor.Moves

variable {c c₁ c₂ : Cursor} {ts us : List Token} {ks : List SpanTree}

theorem refl (c : Cursor) : c.Moves [] c := ⟨rfl, rfl, rfl⟩

theorem append (h : c.Moves ts c₁) (h' : c₁.Moves us c₂) : c.Moves (ts ++ us) c₂ := by
  refine ⟨by rw [h.rest, h'.rest, List.append_assoc], ?_, h'.eof.trans h.eof⟩
  rw [h'.last, h.last, List.getLast?_append]
  cases us.getLast? <;> rfl

theorem disjoint (h : c.Moves ts c₁) (hd : Disjoint c.rest) : Disjoint ts := by
  rw [h.rest] at hd
  exact (List.pairwise_append.mp hd).1

theorem disjoint_rest (h : c.Moves ts c₁) (hd : Disjoint c.rest) : Disjoint c₁.rest := by
  rw [h.rest] at hd
  exact (List.pairwise_append.mp hd).2.1

theorem here_eq (h : c.Moves ts c₁) {first : Token} (hfirst : ts.head? = some first) :
    c.here = first.position := by
  obtain ⟨us, rfl⟩ := List.head?_eq_some_iff.mp hfirst
  rw [here, peek, h.rest]
  rfl

/-- The span of what was read runs over its tokens. -/
theorem since_eq (h : c.Moves ts c₁) (hd : Disjoint c.rest) {first last : Token}
    (hfirst : ts.head? = some first) (hlast : ts.getLast? = some last) :
    c₁.since c.here = Token.spanTo first last := by
  have hbefore : last.position.before first.position = false :=
    (h.disjoint hd).head_notAfter hfirst (List.mem_of_getLast? hlast)
  rw [h.here_eq hfirst, since, h.last, hlast, Option.getD_some, hbefore]
  rfl

/-- A node whose span is that of what was read. -/
theorem fits {sort : NodeSort} (h : c.Moves ts c₁) (hd : Disjoint c.rest) (hts : ts ≠ [])
    (hks : Holds ts ks) (hends : sort = .operation ∨ Unquoted ts)
    (hseries : (sort == .series) = false ∨ ks ≠ []) :
    Fits ts (.node sort (some (c₁.since c.here)) ks) := by
  obtain ⟨t, us, rfl⟩ := List.exists_cons_of_ne_nil hts
  have hlast := List.getLast?_eq_some_getLast hts
  rw [h.since_eq hd rfl hlast]
  exact .node hks (h.disjoint hd) rfl hlast hends fun hsort =>
    hseries.resolve_left fun hne => beq_eq_false_iff_ne.mp hne hsort

/-- The span of nothing that was read, behind a token. -/
theorem since_empty (h : c.Moves ts c₁) {last first : Token} (hlast : ts.getLast? = some last)
    (hbefore : last.position.before first.position = true) :
    c₁.since first.position = Span.empty first.position := by
  rw [since, h.last, hlast, Option.getD_some, if_pos hbefore]

end Cursor.Moves

namespace Parse

open Cursor

variable {c c₁ : Cursor} {t : Token}

theorem moves_take? {kind : TokenKind} {h : c₁.size < c.size}
    (ht : c.take? kind = some ⟨t, c₁, h⟩) : c.Moves [t] c₁ ∧ t.kind = kind := by
  unfold take? at ht
  split at ht
  · cases ht
  · next hrest =>
    split at ht
    · next hkind =>
      cases ht
      exact ⟨⟨hrest, rfl, rfl⟩, hkind⟩
    · cases ht

theorem moves_takeIf? {α : Type} {test : Token → Option α} {a : α} {h : c₁.size < c.size}
    (ht : c.takeIf? test = some ⟨(a, t), c₁, h⟩) : c.Moves [t] c₁ ∧ test t = some a := by
  unfold takeIf? at ht
  split at ht
  · cases ht
  · next hrest =>
    obtain ⟨a', ha, heq⟩ := Option.map_eq_some_iff.mp ht
    cases heq
    exact ⟨⟨hrest, rfl, rfl⟩, ha⟩

theorem moves_expect {wanted : Wanted} {h : c₁.size < c.size}
    (ht : c.expect wanted = .ok ⟨t, c₁, h⟩) : c.Moves [t] c₁ ∧ t.kind = wanted.kind := by
  unfold expect at ht
  split at ht
  · next htake =>
    cases ht
    exact moves_take? htake
  · cases ht

theorem unquoted_nil : Unquoted [] := fun _ h => by cases h

theorem unquoted_concat (ts : List Token) {kind : TokenKind} (ht : t.kind = kind)
    (hkind : (kind == .string) = false) : Unquoted (ts ++ [t]) :=
  .concat ts (by rw [ht]; exact beq_eq_false_iff_ne.mp hkind)

theorem unquoted_singleton {kind : TokenKind} (ht : t.kind = kind)
    (hkind : (kind == .string) = false) : Unquoted [t] :=
  unquoted_concat [] ht hkind

/-! ## Names and literals -/

/-- A token by itself. -/
theorem fits_token (ht : t.kind ≠ .string) : Fits [t] (.node .plain (some t.span) []) := by
  have hforward : t.span.start.NotAfter t.span.stop := t.position_notAfter_stop
  exact ⟨SpanTree.nested_leaf hforward (by rintro ⟨⟩),
    ⟨t, t, _, rfl, rfl, rfl, .refl _, hforward, .inl (.refl _)⟩, .inr (.inr (.concat [] ht))⟩

theorem fits_quoted (t : Token) : Fits [t] (.node .quoted (some t.extent) []) := by
  have hforward : t.extent.start.NotAfter t.extent.stop :=
    t.position_notAfter_stop.trans t.span_notAfter_extent
  exact ⟨SpanTree.nested_leaf hforward (by rintro ⟨⟩),
    ⟨t, t, _, rfl, rfl, rfl, .refl _, hforward, .inr ⟨rfl, rfl⟩⟩, .inl rfl⟩

theorem fits_leaf? {e : Exp} (h : leaf? t = some e) : Fits [t] e.spans := by
  unfold leaf? at h
  split at h
  · next hkind =>
    cases h
    exact fits_token (by rw [hkind]; rintro ⟨⟩)
  · next hkind =>
    cases h
    have hquoted := fits_quoted t
    rw [Token.extent, if_pos hkind] at hquoted
    exact hquoted
  · next hkind =>
    cases h
    exact fits_token (by rw [hkind]; rintro ⟨⟩)
  · next hkind =>
    cases h
    exact fits_token (by rw [hkind]; rintro ⟨⟩)
  · cases h

theorem fits_identOf (ht : t.kind = .name) : Fits [t] (identOf t).spans :=
  fits_token (by rw [ht]; rintro ⟨⟩)

theorem fits_ident {wanted : Wanted} (hw : wanted.kind = .name) {x : Read Ident c.size}
    (h : c.ident wanted = .ok x) :
    ∃ t, c.Moves [t] x.next ∧ Unquoted [t] ∧ Fits [t] x.value.spans := by
  obtain ⟨⟨t, c₁, h₁⟩, ht, h⟩ := bind_eq_ok.mp h
  cases h
  obtain ⟨hmoves, hkind⟩ := moves_expect ht
  rw [hw] at hkind
  exact ⟨t, hmoves, unquoted_singleton hkind rfl, fits_identOf hkind⟩

/-! ## Expressions -/

theorem fits_fields {c₀ : Cursor} (hd : Disjoint c₀.rest) {us : List Token} (loc : Exp)
    (hloc : Fits us loc.spans) (c : Cursor) (hc : c₀.Moves us c) {x : Read Exp (c.size + 1)}
    (h : fields c₀.here loc c = .ok x) : ∃ ts, c₀.Moves ts x.next ∧ Fits ts x.value.spans := by
  rw [fields] at h
  split at h
  · cases h
    exact ⟨us, hc, hloc⟩
  · next t c₁ h₁ hdot =>
    obtain ⟨⟨f, c₂, h₂⟩, hf, h⟩ := bind_eq_ok.mp h
    obtain ⟨⟨e, c₃, h₃⟩, he, h⟩ := bind_eq_ok.mp h
    cases h
    obtain ⟨ht, -⟩ := moves_take? hdot
    obtain ⟨u, hu, hunquoted, hf⟩ := fits_ident rfl hf
    have hall := (hc.append ht).append hu
    have haccess : Fits (us ++ [t] ++ [u]) (Exp.access (infoSince c₂ c₀.here) {} loc f).spans :=
      hall.fits hd (by simp) ((hloc.holds.before [t]).append hf.holds)
        (.inr (.concat _ (hunquoted u rfl))) (.inl rfl)
    exact fits_fields hd _ haccess c₂ hall he
termination_by c.size

theorem fits_location (c : Cursor) (hd : Disjoint c.rest) {x : Read Exp c.size}
    (h : location c = .ok x) : ∃ ts, c.Moves ts x.next ∧ Fits ts x.value.spans := by
  obtain ⟨⟨y, c₁, h₁⟩, hy, h⟩ := bind_eq_ok.mp h
  obtain ⟨⟨e, c₂, h₂⟩, he, h⟩ := bind_eq_ok.mp h
  cases h
  obtain ⟨t, ht, -, hfits⟩ := fits_ident rfl hy
  exact fits_fields hd (.ident y) hfits c₁ ht he

theorem spans_unaryOp {op : Info → Exp → Exp} (h : unaryOp? t = some op) (i : Info) (e : Exp) :
    (op i e).spans = .node .operation i.span [e.spans] := by
  unfold unaryOp? at h
  split at h <;> cases h <;> rfl

mutual

theorem fits_exp (c : Cursor) (hd : Disjoint c.rest) {x : Read Exp c.size}
    (h : exp c = .ok x) : ∃ ts, c.Moves ts x.next ∧ Fits ts x.value.spans := by
  rw [exp] at h
  obtain ⟨⟨l, c₁, h₁⟩, hl, h⟩ := bind_eq_ok.mp h
  obtain ⟨ts, hts, hl⟩ := fits_level .or c hd hl
  dsimp only at h
  split at h
  · cases h
    exact ⟨ts, hts, hl⟩
  · next t c₂ h₂ hassign =>
    split at h
    · obtain ⟨⟨r, c₃, h₃⟩, hr, h⟩ := bind_eq_ok.mp h
      cases h
      have hpre := hts.append (moves_take? hassign).1
      obtain ⟨us, hus, hr⟩ := fits_exp c₂ (hpre.disjoint_rest hd) hr
      have hall := hpre.append hus
      exact ⟨_, hall, hall.fits hd (by simp) ((hl.holds.before [t]).append hr.holds) (.inl rfl)
        (.inl rfl)⟩
    · cases h
termination_by (c.size, 14)
decreasing_by
  · exact .right _ (by decide)
  · exact .left _ _ (by omega)

theorem fits_level (l : Level) (c : Cursor) (hd : Disjoint c.rest) {x : Read Exp c.size}
    (h : level l c = .ok x) : ∃ ts, c.Moves ts x.next ∧ Fits ts x.value.spans := by
  rw [level] at h
  obtain ⟨⟨e, c₁, h₁⟩, he, h⟩ := bind_eq_ok.mp h
  obtain ⟨⟨e', c₂, h₂⟩, he', h⟩ := bind_eq_ok.mp h
  cases h
  obtain ⟨ts, hts, he⟩ := fits_operand l c hd he
  exact fits_operators l hd he c₁ hts he'
termination_by (c.size, 2 * l.height + 1)

theorem fits_operand (l : Level) (c : Cursor) (hd : Disjoint c.rest) {x : Read Exp c.size}
    (h : operand l c = .ok x) : ∃ ts, c.Moves ts x.next ∧ Fits ts x.value.spans := by
  rw [operand] at h
  split at h
  · next l' hl =>
    have := Level.height_tighter? hl
    exact fits_level l' c hd h
  · exact fits_unary c hd h
termination_by (c.size, 2 * l.height)
decreasing_by
  · exact .right _ (by omega)
  · exact .right _ (by cases l <;> decide)

theorem fits_operators (l : Level) {c₀ : Cursor} (hd : Disjoint c₀.rest) {us : List Token}
    {left : Exp} (hleft : Fits us left.spans) (c : Cursor) (hc : c₀.Moves us c)
    {x : Read Exp (c.size + 1)} (h : operators l c₀.here left c = .ok x) :
    ∃ ts, c₀.Moves ts x.next ∧ Fits ts x.value.spans := by
  rw [operators] at h
  split at h
  · cases h
    exact ⟨us, hc, hleft⟩
  · next op t c₁ h₁ hop =>
    obtain ⟨⟨r, c₂, h₂⟩, hr, h⟩ := bind_eq_ok.mp h
    have hpre := hc.append (moves_takeIf? hop).1
    obtain ⟨vs, hvs, hr⟩ := fits_operand l c₁ (hpre.disjoint_rest hd) hr
    have hall := hpre.append hvs
    have hbinary : Fits (us ++ [t] ++ vs) (Exp.binary (infoSince c₂ c₀.here) op left r).spans :=
      hall.fits hd (by simp) ((hleft.holds.before [t]).append hr.holds) (.inl rfl) (.inl rfl)
    dsimp only at h
    split at h
    · obtain ⟨⟨e, c₃, h₃⟩, he, h⟩ := bind_eq_ok.mp h
      cases h
      exact fits_operators l hd hbinary c₂ hall he
    · split at h
      · cases h
      · cases h
        exact ⟨_, hall, hbinary⟩
termination_by (c.size, 0)

theorem fits_unary (c : Cursor) (hd : Disjoint c.rest) {x : Read Exp c.size}
    (h : unary c = .ok x) : ∃ ts, c.Moves ts x.next ∧ Fits ts x.value.spans := by
  rw [unary] at h
  split at h
  · next op t c₁ h₁ hop =>
    obtain ⟨⟨e, c₂, h₂⟩, he, h⟩ := bind_eq_ok.mp h
    cases h
    obtain ⟨ht, hop⟩ := moves_takeIf? hop
    obtain ⟨ts, hts, he⟩ := fits_unary c₁ (ht.disjoint_rest hd) he
    have hall := ht.append hts
    dsimp only
    rw [spans_unaryOp hop]
    exact ⟨_, hall, hall.fits hd (by simp) (.skip t he.holds) (.inl rfl) (.inl rfl)⟩
  · exact fits_primary c hd h
termination_by (c.size, 1)

theorem fits_primary (c : Cursor) (hd : Disjoint c.rest) {x : Read Exp c.size}
    (h : primary c = .ok x) : ∃ ts, c.Moves ts x.next ∧ Fits ts x.value.spans := by
  rw [primary] at h
  split at h
  · next e t c₁ h₁ hleaf =>
    cases h
    obtain ⟨ht, hleaf⟩ := moves_takeIf? hleaf
    exact ⟨[t], ht, fits_leaf? hleaf⟩
  split at h
  · next t c₁ h₁ hparen =>
    obtain ⟨⟨e, c₂, h₂⟩, he, h⟩ := bind_eq_ok.mp h
    obtain ⟨⟨u, c₃, h₃⟩, hu, h⟩ := bind_eq_ok.mp h
    cases h
    have ht := (moves_take? hparen).1
    obtain ⟨ts, hts, he⟩ := fits_exp c₁ (ht.disjoint_rest hd) he
    obtain ⟨hu, hkind⟩ := moves_expect hu
    have hall := (ht.append hts).append hu
    exact ⟨_, hall, he.group (hall.disjoint hd) (by rw [hkind]; rintro ⟨⟩)⟩
  split at h
  · cases h
  · next t c₁ h₁ hname =>
    obtain ⟨ht, hkind⟩ := moves_take? hname
    have hf := fits_identOf hkind
    split at h
    · obtain ⟨⟨e, c₂, h₂⟩, he, h⟩ := bind_eq_ok.mp h
      cases h
      exact fits_fields hd (.ident (identOf t)) hf c₁ ht he
    · next u c₂ h₂ hparen =>
      obtain ⟨⟨es, c₃, h₃⟩, hes, h⟩ := bind_eq_ok.mp h
      cases h
      obtain ⟨hu, hparen⟩ := moves_take? hparen
      have hd₁ := ht.disjoint_rest hd
      obtain ⟨ts, hts, hunquoted, hes⟩ := holds_arguments c₂ (hu.disjoint_rest hd₁) hes
      have hargs := hu.append hts
      have hall := ht.append hargs
      have hunquoted : Unquoted ([u] ++ ts) := (unquoted_singleton hparen rfl).append hunquoted
      have hargsFits : Fits ([u] ++ ts) (.node .plain (some (c₃.since c₁.here))
          (Exp.listSpans es)) :=
        hargs.fits hd₁ (by simp) (.skip u hes) (.inr hunquoted) (.inl rfl)
      exact ⟨_, hall, hall.fits hd (by simp) (hf.holds.append hargsFits.holds)
        (.inr ((unquoted_singleton hkind rfl).append hunquoted)) (.inl rfl)⟩
termination_by (c.size, 0)

theorem holds_arguments (c : Cursor) (hd : Disjoint c.rest) {x : Read (List Exp) c.size}
    (h : arguments c = .ok x) :
    ∃ ts, c.Moves ts x.next ∧ Unquoted ts ∧ Holds ts (Exp.listSpans x.value) := by
  rw [arguments] at h
  split at h
  · next t c₁ h₁ hparen =>
    cases h
    obtain ⟨ht, hkind⟩ := moves_take? hparen
    exact ⟨[t], ht, unquoted_singleton hkind rfl, .none _⟩
  · exact holds_argumentList c hd h
termination_by (c.size, 16)

theorem holds_argumentList (c : Cursor) (hd : Disjoint c.rest) {x : Read (List Exp) c.size}
    (h : argumentList c = .ok x) :
    ∃ ts, c.Moves ts x.next ∧ Unquoted ts ∧ Holds ts (Exp.listSpans x.value) := by
  rw [argumentList] at h
  obtain ⟨⟨e, c₁, h₁⟩, he, h⟩ := bind_eq_ok.mp h
  obtain ⟨ts, hts, he⟩ := fits_exp c hd he
  dsimp only at h
  split at h
  · next t c₂ h₂ hcomma =>
    obtain ⟨⟨es, c₃, h₃⟩, hes, h⟩ := bind_eq_ok.mp h
    cases h
    obtain ⟨ht, hcomma⟩ := moves_take? hcomma
    have hpre := hts.append ht
    obtain ⟨us, hus, hunquoted, hes⟩ := holds_argumentList c₂ (hpre.disjoint_rest hd) hes
    have hts : Unquoted (ts ++ [t]) := unquoted_concat _ hcomma rfl
    exact ⟨_, hpre.append hus, hts.append hunquoted, (he.holds.before [t]).append hes⟩
  · obtain ⟨⟨u, c₂, h₂⟩, hu, h⟩ := bind_eq_ok.mp h
    cases h
    obtain ⟨hu, hkind⟩ := moves_expect hu
    exact ⟨_, hts.append hu, unquoted_concat _ hkind rfl, he.holds.before [u]⟩
termination_by (c.size, 15)

end

/-! ## Series -/

/-- The series is read from the tokens, or from none and stands where the cursor does. -/
def Series (c : Cursor) (us : List Token) (k : SpanTree) : Prop :=
  us = [] ∧ k = .node .series (some (c.since c.here)) [] ∨ Fits us k

variable {us ws : List Token} {k : SpanTree} {ks : List SpanTree}

theorem series_of_holds (h : c.Moves us c₁) (hd : Disjoint c.rest) (hks : Holds us ks)
    (hunquoted : Unquoted us) (hnil : ks = [] → us = []) :
    Series c us (.node .series (some (c₁.since c.here)) ks) := by
  by_cases hus : us = []
  · subst hus
    have hsince : c₁.since c.here = c.since c.here := by
      rw [since, h.last, List.getLast?_nil, Option.getD_none, since]
    rw [hks.eq_nil, hsince]
    exact .inl ⟨rfl, rfl⟩
  · exact .inr (h.fits hd hus hks (.inr hunquoted) (.inr fun hks => hus (hnil hks)))

/-- A series between other tokens. -/
theorem Series.holds {c₀ : Cursor} {ts vs : List Token} (h : Series c us k) (hts : c₀.Moves ts c)
    (hne : ts ≠ []) (hd : Disjoint c₀.rest) (hrest : c.rest = us ++ (ws ++ vs)) (hws : ws ≠ [])
    (hks : Holds ws ks) : Holds (us ++ ws) (k :: ks) := by
  rcases h with ⟨rfl, rfl⟩ | hfits
  · obtain ⟨t, ws, rfl⟩ := List.exists_cons_of_ne_nil hws
    have hlast := List.getLast?_eq_some_getLast hne
    have hhere : c.here = t.position := by
      rw [here, peek, hrest]
      rfl
    have hbefore : (ts.getLast hne).position.before t.position = true := by
      rw [hts.rest, hrest] at hd
      exact ((List.pairwise_append.mp hd).2.2 _ (List.getLast_mem hne) t List.mem_cons_self).1
    rw [hhere, hts.since_empty hlast hbefore]
    exact .empty hks
  · exact .tree hfits hks

/-! ## Declarations of variables -/

theorem unquoted_of_fits {ts : List Token} (h : Fits ts k) (hsort : k.sort = .plain) :
    Unquoted ts := by
  rcases h.ends with hquoted | hoperation | hunquoted
  · rw [hsort] at hquoted
    cases hquoted
  · rw [hsort] at hoperation
    cases hoperation
  · exact hunquoted

theorem sort_type (type : TypeNode) : type.spans.sort = .plain := by cases type <;> rfl

theorem spans_wordType? {node : Option Span → TypeNode} (h : wordType? t = some node)
    (s : Option Span) : (node s).spans = .node .plain s [] := by
  unfold wordType? at h
  split at h <;> cases h <;> rfl

theorem unquoted_wordType? {node : Option Span → TypeNode} (h : wordType? t = some node) :
    t.kind ≠ .string := by
  intro hkind
  rw [wordType?, hkind] at h
  cases h

theorem fits_wordType (hd : Disjoint c.rest) {x : Read TypeNode c.size}
    (h : wordType c = .ok x) : ∃ ts, c.Moves ts x.next ∧ Fits ts x.value.spans := by
  unfold wordType at h
  split at h
  · next node t c₁ h₁ hword =>
    cases h
    obtain ⟨ht, hword⟩ := moves_takeIf? hword
    dsimp only
    rw [spans_wordType? hword]
    have hunquoted : Unquoted [t] := .concat [] (unquoted_wordType? hword)
    exact ⟨[t], ht, ht.fits hd (by simp) (.none _) (.inr hunquoted) (.inl rfl)⟩
  · cases h

theorem fits_varType (hd : Disjoint c.rest) {x : Read TypeNode c.size}
    (h : varType c = .ok x) : ∃ ts, c.Moves ts x.next ∧ Fits ts x.value.spans := by
  unfold varType at h
  split at h
  · next t c₁ h₁ hstruct =>
    obtain ⟨⟨y, c₂, h₂⟩, hy, h⟩ := bind_eq_ok.mp h
    cases h
    obtain ⟨u, hu, hunquoted, hy⟩ := fits_ident rfl hy
    have hall := (moves_take? hstruct).1.append hu
    exact ⟨_, hall, hall.fits hd (by simp) (.skip t hy.holds) (.inr (.concat _ (hunquoted u rfl)))
      (.inl rfl)⟩
  · exact fits_wordType hd h

theorem fits_varDecl (hd : Disjoint c.rest) {x : Read VarDecl c.size} (h : varDecl c = .ok x) :
    ∃ ts, c.Moves ts x.next ∧ Fits ts x.value.spans := by
  obtain ⟨⟨type, c₁, h₁⟩, htype, h⟩ := bind_eq_ok.mp h
  obtain ⟨⟨name, c₂, h₂⟩, hname, h⟩ := bind_eq_ok.mp h
  obtain ⟨⟨u, c₃, h₃⟩, hu, h⟩ := bind_eq_ok.mp h
  cases h
  obtain ⟨ts, hts, htype⟩ := fits_varType hd htype
  obtain ⟨y, hy, -, hname⟩ := fits_ident rfl hname
  obtain ⟨hu, hkind⟩ := moves_expect hu
  have hall := (hts.append hy).append hu
  exact ⟨_, hall, hall.fits hd (by simp) ((htype.holds.append hname.holds).before [u])
    (.inr (unquoted_concat _ hkind rfl)) (.inl rfl)⟩

theorem holds_varDeclItems (c : Cursor) (hd : Disjoint c.rest)
    {x : Read (List VarDecl) (c.size + 1)} (h : varDeclItems c = .ok x) :
    ∃ ts, c.Moves ts x.next ∧ Unquoted ts ∧ Holds ts (x.value.map VarDecl.spans) ∧
      (x.value.map VarDecl.spans = [] → ts = []) := by
  rw [varDeclItems] at h
  split at h
  · obtain ⟨⟨d, c₁, h₁⟩, hfirst, h⟩ := bind_eq_ok.mp h
    obtain ⟨⟨ds, c₂, h₂⟩, hds, h⟩ := bind_eq_ok.mp h
    cases h
    obtain ⟨ts, hts, hfirst⟩ := fits_varDecl hd hfirst
    obtain ⟨us, hus, hunquoted, hds, -⟩ := holds_varDeclItems c₁ (hts.disjoint_rest hd) hds
    exact ⟨_, hts.append hus, (unquoted_of_fits hfirst rfl).append hunquoted,
      hfirst.holds.append hds, by rintro ⟨⟩⟩
  · cases h
    exact ⟨[], .refl c, unquoted_nil, .nil, fun _ => rfl⟩
termination_by c.size

theorem series_varDecls (hd : Disjoint c.rest) {x : Read VarDecls (c.size + 1)}
    (h : varDecls c = .ok x) :
    ∃ ts, c.Moves ts x.next ∧ Unquoted ts ∧ Series c ts (x.value.spans .series) := by
  obtain ⟨⟨ds, c₁, h₁⟩, hds, h⟩ := bind_eq_ok.mp h
  cases h
  obtain ⟨ts, hts, hunquoted, hds, hnil⟩ := holds_varDeclItems c hd hds
  exact ⟨ts, hts, hunquoted, series_of_holds hts hd hds hunquoted hnil⟩

theorem holds_formalItems (c : Cursor) (hd : Disjoint c.rest) {x : Read (List VarDecl) c.size}
    (h : formalItems c = .ok x) :
    ∃ ts, c.Moves ts x.next ∧ Unquoted ts ∧ Holds ts (x.value.map VarDecl.spans) := by
  rw [formalItems] at h
  obtain ⟨⟨type, c₁, h₁⟩, htype, h⟩ := bind_eq_ok.mp h
  obtain ⟨⟨name, c₂, h₂⟩, hname, h⟩ := bind_eq_ok.mp h
  obtain ⟨ts, hts, htype⟩ := fits_wordType hd htype
  obtain ⟨y, hy, hunquoted, hname⟩ := fits_ident rfl hname
  have hpre := hts.append hy
  have hformal : Fits (ts ++ [y])
      (VarDecl.spans ⟨.formal, some (c₂.since c.here), type, name⟩) :=
    hpre.fits hd (by simp) (htype.holds.append hname.holds) (.inr (.concat _ (hunquoted y rfl)))
      (.inl rfl)
  dsimp only at h
  split at h
  · next t c₃ h₃ hcomma =>
    obtain ⟨⟨ds, c₄, h₄⟩, hds, h⟩ := bind_eq_ok.mp h
    cases h
    obtain ⟨ht, hcomma⟩ := moves_take? hcomma
    have hmoves := hpre.append ht
    obtain ⟨us, hus, hunquoted, hds⟩ := holds_formalItems c₃ (hmoves.disjoint_rest hd) hds
    have hts : Unquoted (ts ++ [y] ++ [t]) := unquoted_concat _ hcomma rfl
    exact ⟨_, hmoves.append hus, hts.append hunquoted, (hformal.holds.before [t]).append hds⟩
  · obtain ⟨⟨u, c₃, h₃⟩, hu, h⟩ := bind_eq_ok.mp h
    cases h
    obtain ⟨hu, hkind⟩ := moves_expect hu
    exact ⟨_, hpre.append hu, unquoted_concat _ hkind rfl, hformal.holds.before [u]⟩
termination_by c.size

theorem fits_formals (hd : Disjoint c.rest) {x : Read VarDecls c.size} (h : formals c = .ok x) :
    ∃ ts, c.Moves ts x.next ∧ Fits ts (x.value.spans .plain) := by
  obtain ⟨⟨t, c₁, h₁⟩, ht, h⟩ := bind_eq_ok.mp h
  obtain ⟨ht, hparen⟩ := moves_expect ht
  dsimp only at h
  split at h
  · next u c₂ h₂ hclose =>
    cases h
    obtain ⟨hu, hkind⟩ := moves_take? hclose
    have hall := ht.append hu
    exact ⟨_, hall, hall.fits hd (by simp) (.none _) (.inr (unquoted_concat _ hkind rfl))
      (.inl rfl)⟩
  · obtain ⟨⟨ds, c₂, h₂⟩, hds, h⟩ := bind_eq_ok.mp h
    cases h
    obtain ⟨ts, hts, hunquoted, hds⟩ := holds_formalItems c₁ (ht.disjoint_rest hd) hds
    have hall := ht.append hts
    have hunquoted := (unquoted_singleton hparen rfl).append hunquoted
    exact ⟨_, hall, hall.fits hd (by simp) (.skip t hds) (.inr hunquoted) (.inl rfl)⟩

/-! ## Statements -/

theorem sort_stmt (s : Stmt) : s.spans.sort = .plain := by
  cases s with
  | «return» _ e => cases e <;> rfl
  | _ => rfl

theorem spans_stepOp? {op : Option Span → Exp → Stmt} (h : stepOp? t = some op) (s : Option Span)
    (e : Exp) : (op s e).spans = .node .plain s [e.spans] := by
  unfold stepOp? at h
  split at h <;> cases h <;> rfl

theorem spans_stmtOfExp? {span : Span} {e : Exp} {s : Stmt} (h : stmtOfExp? span e = some s) :
    s.spans = .node .plain (some span) [e.spans] := by
  unfold stmtOfExp? at h
  split at h <;> cases h <;> rfl

theorem fits_expStmt (hd : Disjoint c.rest) {x : Read Stmt c.size} (h : expStmt c = .ok x) :
    ∃ ts, c.Moves ts x.next ∧ Fits ts x.value.spans := by
  obtain ⟨⟨e, c₁, h₁⟩, he, h⟩ := bind_eq_ok.mp h
  obtain ⟨ts, hts, he⟩ := fits_exp c hd he
  dsimp only at h
  split at h
  · next op t c₂ h₂ hop =>
    split at h
    · obtain ⟨⟨u, c₃, h₃⟩, hu, h⟩ := bind_eq_ok.mp h
      cases h
      obtain ⟨ht, hop⟩ := moves_takeIf? hop
      obtain ⟨hu, hkind⟩ := moves_expect hu
      have hall := (hts.append ht).append hu
      dsimp only
      rw [spans_stepOp? hop]
      exact ⟨_, hall, hall.fits hd (by simp) ((he.holds.before [t]).before [u])
        (.inr (unquoted_concat _ hkind rfl)) (.inl rfl)⟩
    · cases h
  · obtain ⟨⟨u, c₂, h₂⟩, hu, h⟩ := bind_eq_ok.mp h
    dsimp only at h
    split at h
    · next s hs =>
      cases h
      obtain ⟨hu, hkind⟩ := moves_expect hu
      have hall := hts.append hu
      dsimp only
      rw [spans_stmtOfExp? hs]
      exact ⟨_, hall, hall.fits hd (by simp) (he.holds.before [u])
        (.inr (unquoted_concat _ hkind rfl)) (.inl rfl)⟩
    · cases h

/-- What is left of a statement after its first token. -/
def FitsAfter (c₀ : Cursor) (t : Token) (c' : Cursor) (s : Stmt) : Prop :=
  ∃ ts, c₀.Moves ([t] ++ ts) c' ∧ Fits ([t] ++ ts) s.spans

variable {c₀ : Cursor}

theorem fits_readStmt (hd : Disjoint c₀.rest) (hc : c₀.Moves [t] c) {x : Read Stmt c.size}
    (h : readStmt c₀.here c = .ok x) : FitsAfter c₀ t x.next x.value := by
  obtain ⟨⟨a, c₁, h₁⟩, ha, h⟩ := bind_eq_ok.mp h
  obtain ⟨⟨loc, c₂, h₂⟩, hloc, h⟩ := bind_eq_ok.mp h
  obtain ⟨⟨u, c₃, h₃⟩, hu, h⟩ := bind_eq_ok.mp h
  cases h
  have ha := (moves_expect ha).1
  obtain ⟨ts, hts, hloc⟩ := fits_location c₁ ((hc.append ha).disjoint_rest hd) hloc
  obtain ⟨hu, hkind⟩ := moves_expect hu
  have hall := hc.append ((ha.append hts).append hu)
  exact ⟨_, hall, hall.fits hd (by simp) (.skip t (.skip a (hloc.holds.before [u])))
    (.inr (unquoted_concat (t :: a :: ts) hkind rfl)) (.inl rfl)⟩

theorem fits_writeStmt (hd : Disjoint c₀.rest) (hc : c₀.Moves [t] c) {x : Read Stmt c.size}
    (h : writeStmt c₀.here c = .ok x) : FitsAfter c₀ t x.next x.value := by
  obtain ⟨⟨a, c₁, h₁⟩, ha, h⟩ := bind_eq_ok.mp h
  obtain ⟨⟨e, c₂, h₂⟩, he, h⟩ := bind_eq_ok.mp h
  obtain ⟨⟨u, c₃, h₃⟩, hu, h⟩ := bind_eq_ok.mp h
  cases h
  have ha := (moves_expect ha).1
  obtain ⟨ts, hts, he⟩ := fits_exp c₁ ((hc.append ha).disjoint_rest hd) he
  obtain ⟨hu, hkind⟩ := moves_expect hu
  have hall := hc.append ((ha.append hts).append hu)
  exact ⟨_, hall, hall.fits hd (by simp) (.skip t (.skip a (he.holds.before [u])))
    (.inr (unquoted_concat (t :: a :: ts) hkind rfl)) (.inl rfl)⟩

theorem fits_returnStmt (hd : Disjoint c₀.rest) (hc : c₀.Moves [t] c) {x : Read Stmt c.size}
    (h : returnStmt c₀.here c = .ok x) : FitsAfter c₀ t x.next x.value := by
  unfold returnStmt at h
  split at h
  · next u c₁ h₁ hsemi =>
    cases h
    obtain ⟨hu, hkind⟩ := moves_take? hsemi
    have hall := hc.append hu
    exact ⟨_, hall, hall.fits hd (by simp) (.none _)
      (.inr (unquoted_concat [t] hkind rfl)) (.inl rfl)⟩
  · obtain ⟨⟨e, c₁, h₁⟩, he, h⟩ := bind_eq_ok.mp h
    obtain ⟨⟨u, c₂, h₂⟩, hu, h⟩ := bind_eq_ok.mp h
    cases h
    obtain ⟨ts, hts, he⟩ := fits_exp c (hc.disjoint_rest hd) he
    obtain ⟨hu, hkind⟩ := moves_expect hu
    have hall := hc.append (hts.append hu)
    exact ⟨_, hall, hall.fits hd (by simp) (.skip t (he.holds.before [u]))
      (.inr (unquoted_concat (t :: ts) hkind rfl)) (.inl rfl)⟩

theorem holds_condition (keyword : Keyword) (hd : Disjoint c.rest) {x : Read Exp c.size}
    (h : condition keyword c = .ok x) :
    ∃ ts, c.Moves ts x.next ∧ Unquoted ts ∧ Holds ts [x.value.spans] := by
  obtain ⟨⟨t, c₁, h₁⟩, ht, h⟩ := bind_eq_ok.mp h
  obtain ⟨⟨e, c₂, h₂⟩, he, h⟩ := bind_eq_ok.mp h
  obtain ⟨⟨u, c₃, h₃⟩, hu, h⟩ := bind_eq_ok.mp h
  cases h
  have ht := (moves_expect ht).1
  obtain ⟨ts, hts, he⟩ := fits_exp c₁ (ht.disjoint_rest hd) he
  obtain ⟨hu, hkind⟩ := moves_expect hu
  exact ⟨_, ht.append (hts.append hu), unquoted_concat (t :: ts) hkind rfl,
    .skip t (he.holds.before [u])⟩

mutual

theorem fits_stmt (c : Cursor) (hd : Disjoint c.rest) {x : Read Stmt c.size}
    (h : stmt c = .ok x) : ∃ ts, c.Moves ts x.next ∧ Fits ts x.value.spans := by
  rw [stmt] at h
  split at h
  · next t c₁ h₁ hcin =>
    obtain ⟨⟨s, c₂, h₂⟩, hs, h⟩ := bind_eq_ok.mp h
    cases h
    obtain ⟨ts, hts⟩ := fits_readStmt hd (moves_take? hcin).1 hs
    exact ⟨_, hts⟩
  split at h
  · next t c₁ h₁ hcout =>
    obtain ⟨⟨s, c₂, h₂⟩, hs, h⟩ := bind_eq_ok.mp h
    cases h
    obtain ⟨ts, hts⟩ := fits_writeStmt hd (moves_take? hcout).1 hs
    exact ⟨_, hts⟩
  split at h
  · next t c₁ h₁ hif =>
    obtain ⟨⟨s, c₂, h₂⟩, hs, h⟩ := bind_eq_ok.mp h
    cases h
    obtain ⟨ht, hkind⟩ := moves_take? hif
    obtain ⟨ts, hts⟩ := fits_ifStmt hd (unquoted_singleton hkind rfl) c₁ ht hs
    exact ⟨_, hts⟩
  split at h
  · next t c₁ h₁ hwhile =>
    obtain ⟨⟨e, c₂, h₂⟩, he, h⟩ := bind_eq_ok.mp h
    obtain ⟨⟨b, c₃, h₃⟩, hb, h⟩ := bind_eq_ok.mp h
    cases h
    obtain ⟨ht, hkind⟩ := moves_take? hwhile
    obtain ⟨ts, hts, hts', he⟩ := holds_condition .while (ht.disjoint_rest hd) he
    have hpre := ht.append hts
    obtain ⟨us, hus, hus', hb⟩ := holds_block .loopStart c₂ (hpre.disjoint_rest hd) hb
    have hall := hpre.append hus
    have hunquoted := ((unquoted_singleton hkind rfl).append hts').append hus'
    exact ⟨_, hall, hall.fits hd (by simp) ((Holds.skip t he).append hb) (.inr hunquoted)
      (.inl rfl)⟩
  split at h
  · next t c₁ h₁ hreturn =>
    obtain ⟨⟨s, c₂, h₂⟩, hs, h⟩ := bind_eq_ok.mp h
    cases h
    obtain ⟨ts, hts⟩ := fits_returnStmt hd (moves_take? hreturn).1 hs
    exact ⟨_, hts⟩
  · exact fits_expStmt hd h
termination_by (c.size, 0)

theorem fits_ifStmt {c₀ : Cursor} (hd : Disjoint c₀.rest) {t : Token} (ht : Unquoted [t])
    (c : Cursor) (hc : c₀.Moves [t] c) {x : Read Stmt c.size} (h : ifStmt c₀.here c = .ok x) :
    FitsAfter c₀ t x.next x.value := by
  rw [ifStmt] at h
  obtain ⟨⟨e, c₁, h₁⟩, he, h⟩ := bind_eq_ok.mp h
  obtain ⟨⟨yes, c₂, h₂⟩, hyes, h⟩ := bind_eq_ok.mp h
  obtain ⟨ts, hts, hts', he⟩ := holds_condition .if (hc.disjoint_rest hd) he
  obtain ⟨us, hus, hus', hyes⟩ := holds_block .thenStart c₁ ((hc.append hts).disjoint_rest hd) hyes
  have hpre := hc.append (hts.append hus)
  have hunquoted := ht.append (hts'.append hus')
  dsimp only at h
  split at h
  · next v c₃ h₃ helse =>
    obtain ⟨⟨no, c₄, h₄⟩, hno, h⟩ := bind_eq_ok.mp h
    cases h
    obtain ⟨hv, hkind⟩ := moves_take? helse
    obtain ⟨ws, hws, hws', hno⟩ := holds_block .elseStart c₃ ((hpre.append hv).disjoint_rest hd) hno
    have hall := hc.append ((hts.append hus).append (hv.append hws))
    have hunquoted := ht.append ((hts'.append hus').append
      ((unquoted_singleton hkind rfl).append hws'))
    exact ⟨_, hall, hall.fits hd (by simp) (.skip t ((he.append hyes).append (.skip v hno)))
      (.inr hunquoted) (.inl rfl)⟩
  · cases h
    exact ⟨_, hpre, hpre.fits hd (by simp) (.skip t (he.append hyes)) (.inr hunquoted) (.inl rfl)⟩
termination_by (c.size, 0)

theorem holds_block (wanted : Wanted) (c : Cursor) (hd : Disjoint c.rest)
    {x : Read (Block Stmt) c.size} (h : block wanted c = .ok x) :
    ∃ ts, c.Moves ts x.next ∧ Unquoted ts ∧ Holds ts (Stmt.blockSpans x.value) := by
  rw [block] at h
  obtain ⟨⟨t, c₁, h₁⟩, ht, h⟩ := bind_eq_ok.mp h
  obtain ⟨⟨ds, c₂, h₂⟩, hds, h⟩ := bind_eq_ok.mp h
  obtain ⟨⟨⟨ss, span⟩, c₃, h₃⟩, hss, h⟩ := bind_eq_ok.mp h
  cases h
  have ht := (moves_expect ht).1
  obtain ⟨us, hus, -, hds⟩ := series_varDecls (ht.disjoint_rest hd) hds
  have hpre := ht.append hus
  obtain ⟨vs, c', q, hvs, hq, hcurly, hunquoted, hss, hnil, rfl⟩ :=
    holds_stmts c₂.here c₂ (hpre.disjoint_rest hd) hss
  have hend := hvs.append hq
  -- The statements are read before the brace, and the declarations before both.
  have hstmts : Holds (vs ++ [q]) [.node .series (some (c'.since c₂.here)) (Stmt.listSpans ss)] :=
    (series_of_holds hvs (hpre.disjoint_rest hd) hss hunquoted hnil).holds hpre (by simp) hd
      (List.append_assoc _ _ _ ▸ hend.rest) (List.cons_ne_nil q []) (.none [q])
  have hdecls : Holds (us ++ (vs ++ [q])) (Stmt.blockSpans ⟨ds, some (c'.since c₂.here), ss⟩) :=
    hds.holds ht (List.cons_ne_nil t []) hd (List.append_assoc _ _ _ ▸ (hus.append hend).rest)
      (by simp) hstmts
  refine ⟨_, ht.append (hus.append hend), ?_, .skip t hdecls⟩
  rw [← List.append_assoc, ← List.append_assoc]
  exact unquoted_concat _ hcurly rfl
termination_by (c.size, 0)

theorem holds_stmts (start : Position) (c : Cursor) (hd : Disjoint c.rest)
    {x : Read (List Stmt × Span) c.size} (h : stmts start c = .ok x) :
    ∃ us c' q, c.Moves us c' ∧ c'.Moves [q] x.next ∧ q.kind = .mark .rightCurly ∧ Unquoted us ∧
      Holds us (Stmt.listSpans x.value.1) ∧ (Stmt.listSpans x.value.1 = [] → us = []) ∧
      x.value.2 = c'.since start := by
  rw [stmts] at h
  split at h
  · next q c₁ h₁ hcurly =>
    cases h
    obtain ⟨hq, hkind⟩ := moves_take? hcurly
    exact ⟨[], c, q, .refl c, hq, hkind, unquoted_nil, .nil, fun _ => rfl, rfl⟩
  split at h
  · cases h
  split at h
  · cases h
  · obtain ⟨⟨s, c₁, h₁⟩, hs, h⟩ := bind_eq_ok.mp h
    obtain ⟨⟨⟨ss, span⟩, c₂, h₂⟩, hss, h⟩ := bind_eq_ok.mp h
    cases h
    obtain ⟨ts, hts, hs⟩ := fits_stmt c hd hs
    obtain ⟨us, c', q, hus, hq, hkind, hunquoted, hss, -, hspan⟩ :=
      holds_stmts start c₁ (hts.disjoint_rest hd) hss
    exact ⟨ts ++ us, c', q, hts.append hus, hq, hkind,
      (unquoted_of_fits hs (sort_stmt s)).append hunquoted, hs.holds.append hss, by rintro ⟨⟩,
      hspan⟩
termination_by (c.size, 1)

end

/-! ## Programs -/

theorem sort_decl (d : Decl) : d.spans.sort = .plain := by cases d <;> rfl

theorem fits_structDecl (hd : Disjoint c.rest) {x : Read StructDecl c.size}
    (h : structDecl c = .ok x) :
    ∃ ts, c.Moves ts x.next ∧ Fits ts (Decl.struct x.value).spans := by
  unfold structDecl at h
  split at h
  · cases h
  · next t c₁ h₁ hstruct =>
    obtain ⟨⟨name, c₂, h₂⟩, hname, h⟩ := bind_eq_ok.mp h
    obtain ⟨⟨p, c₃, h₃⟩, hp, h⟩ := bind_eq_ok.mp h
    obtain ⟨⟨ds, c₄, h₄⟩, hds, h⟩ := bind_eq_ok.mp h
    dsimp only at h
    split at h
    · cases h
    · obtain ⟨⟨q, c₅, h₅⟩, hq, h⟩ := bind_eq_ok.mp h
      obtain ⟨⟨u, c₆, h₆⟩, hu, h⟩ := bind_eq_ok.mp h
      cases h
      obtain ⟨y, hy, -, hname⟩ := fits_ident rfl hname
      obtain ⟨hp, hcurly⟩ := moves_expect hp
      have hpre := ((moves_take? hstruct).1.append hy).append hp
      obtain ⟨ts, hts, hts', hds⟩ := series_varDecls (hpre.disjoint_rest hd) hds
      obtain ⟨hu, hsemi⟩ := moves_expect hu
      have hend := (moves_expect hq).1.append hu
      have hfields : Holds (ts ++ [q, u]) [ds.spans .series] :=
        hds.holds hpre (by simp) hd (List.append_assoc _ _ _ ▸ (hts.append hend).rest)
          (List.cons_ne_nil q [u]) (.none _)
      have hall := hpre.append (hts.append hend)
      have hunquoted : Unquoted ([t] ++ [y] ++ [p] ++ (ts ++ ([q] ++ [u]))) :=
        .append (unquoted_concat _ hcurly rfl)
          (.append hts' (unquoted_concat [q] hsemi rfl))
      exact ⟨_, hall, hall.fits hd (by simp)
        (((Holds.skip t hname.holds).before [p]).append hfields) (.inr hunquoted) (.inl rfl)⟩

theorem fits_fnDecl (hd : Disjoint c.rest) {x : Read FnDecl c.size} (h : fnDecl c = .ok x) :
    ∃ ts, c.Moves ts x.next ∧ Fits ts (Decl.fn x.value).spans := by
  obtain ⟨⟨type, c₁, h₁⟩, htype, h⟩ := bind_eq_ok.mp h
  obtain ⟨⟨name, c₂, h₂⟩, hname, h⟩ := bind_eq_ok.mp h
  obtain ⟨⟨ds, c₃, h₃⟩, hds, h⟩ := bind_eq_ok.mp h
  obtain ⟨⟨b, c₄, h₄⟩, hb, h⟩ := bind_eq_ok.mp h
  cases h
  obtain ⟨ts, hts, htype⟩ := fits_wordType hd htype
  obtain ⟨y, hy, hy', hname⟩ := fits_ident rfl hname
  have hpre := hts.append hy
  obtain ⟨us, hus, hds⟩ := fits_formals (hpre.disjoint_rest hd) hds
  have hpre' := hpre.append hus
  have hd₃ := hpre'.disjoint_rest hd
  obtain ⟨vs, hvs, hvs', hb⟩ := holds_block .bodyStart c₃ hd₃ hb
  have hall := hpre'.append hvs
  have hne : vs ≠ [] := by
    rintro rfl
    cases b
    cases hb.eq_nil
  have hbody : Fits vs (.node .plain (some (c₄.since c₃.here)) (Stmt.blockSpans b)) :=
    hvs.fits hd₃ hne hb (.inr hvs') (.inl rfl)
  have hunquoted := (((unquoted_of_fits htype (sort_type _)).append hy').append
    (unquoted_of_fits hds rfl)).append hvs'
  exact ⟨_, hall, hall.fits hd (by simp)
    (((htype.holds.append hname.holds).append hds.holds).append hbody.holds) (.inr hunquoted)
    (.inl rfl)⟩

theorem fits_decl (hd : Disjoint c.rest) {x : Read Decl c.size} (h : decl c = .ok x) :
    ∃ ts, c.Moves ts x.next ∧ Fits ts x.value.spans := by
  unfold decl at h
  split at h
  · obtain ⟨⟨d, c₁, h₁⟩, hstruct, h⟩ := bind_eq_ok.mp h
    cases h
    exact fits_structDecl hd hstruct
  split at h
  · obtain ⟨⟨d, c₁, h₁⟩, hfn, h⟩ := bind_eq_ok.mp h
    cases h
    exact fits_fnDecl hd hfn
  split at h
  · obtain ⟨⟨d, c₁, h₁⟩, hvar, h⟩ := bind_eq_ok.mp h
    cases h
    exact fits_varDecl hd hvar
  · cases h

theorem holds_decls (c : Cursor) (hd : Disjoint c.rest) {x : Read (List Decl) (c.size + 1)}
    (h : decls c = .ok x) :
    ∃ ts, c.Moves ts x.next ∧ Unquoted ts ∧ Holds ts (x.value.map Decl.spans) ∧
      (x.value.map Decl.spans = [] → ts = []) := by
  rw [decls] at h
  split at h
  · cases h
    exact ⟨[], .refl c, unquoted_nil, .nil, fun _ => rfl⟩
  · obtain ⟨⟨d, c₁, h₁⟩, hfirst, h⟩ := bind_eq_ok.mp h
    obtain ⟨⟨ds, c₂, h₂⟩, hds, h⟩ := bind_eq_ok.mp h
    cases h
    obtain ⟨ts, hts, hfirst⟩ := fits_decl hd hfirst
    obtain ⟨us, hus, hunquoted, hds, -⟩ := holds_decls c₁ (hts.disjoint_rest hd) hds
    exact ⟨_, hts.append hus, (unquoted_of_fits hfirst (sort_decl d)).append hunquoted,
      hfirst.holds.append hds, by rintro ⟨⟩⟩
termination_by c.size

/-- The end of the text by itself. -/
theorem fits_ending {eof : Token} (heof : eof.kind = .eof) (htext : eof.text = "") :
    Fits [eof] (.node .series (some eof.span) []) := by
  have hempty : eof.span.start = eof.span.stop := by
    rw [Token.span, htext]
    rfl
  have hforward : eof.span.start.NotAfter eof.span.stop := eof.position_notAfter_stop
  exact ⟨SpanTree.nested_leaf hforward fun _ => hempty,
    ⟨eof, eof, _, rfl, rfl, rfl, .refl _, hforward, .inl (.refl _)⟩,
    .inr (.inr (unquoted_singleton heof rfl))⟩

/-- A program is read from its tokens, or from the end of the text if there are none. -/
theorem fits_program {ts : List Token} {eof : Token} (hd : Disjoint ts) (heof : eof.kind = .eof)
    (htext : eof.text = "") {p : Program} (h : program ts eof = .ok p) :
    ∃ us, Fits us p.spans := by
  obtain ⟨⟨ds, c₁, h₁⟩, hds, h⟩ := bind_eq_ok.mp h
  cases h
  have hd : Disjoint (Cursor.ofTokens ts eof).rest := hd
  have hrest : c₁.rest = [] := rest_decls _ hds
  obtain ⟨us, hus, hunquoted, hds, hnil⟩ := holds_decls _ hd hds
  by_cases hne : us = []
  · subst hne
    obtain rfl : ts = [] := hus.rest.trans hrest
    have hsince : c₁.since (Cursor.ofTokens [] eof).here = eof.span := by
      rw [since, hus.last]
      exact if_neg (Bool.eq_false_iff.mp (Position.not_before_self eof.position))
    have hprogram : Fits [eof]
        (.node .plain (some (Token.spanTo eof eof)) [.node .series (some eof.span) []]) :=
      .node (fits_ending heof htext).holds (List.pairwise_singleton _ _) rfl rfl
        (.inr (unquoted_singleton heof rfl)) (by rintro ⟨⟩)
    refine ⟨[eof], ?_⟩
    rw [Program.spans, hsince, hds.eq_nil]
    exact hprogram
  · rcases series_of_holds hus hd hds hunquoted hnil with ⟨hnil, -⟩ | hseries
    · exact absurd hnil hne
    · exact ⟨us, hus.fits hd hne hseries.holds (.inr hunquoted) (.inl rfl)⟩

end Parse

namespace Program

variable {file : Option String} {source : String} {p : Program}

/-- A program that was read is read from tokens. -/
theorem exists_fits (h : Program.parse file source = .ok p) : ∃ us, Fits us p.spans := by
  obtain ⟨tokens, q, hscan, hq, rfl⟩ := exists_ofTokens_of_parse h
  obtain ⟨hspelled, ts, eof, rfl, heof, -⟩ := Token.text_of_scan hscan
  have htext : eof.text = "" := by
    have heof' := hspelled eof (List.mem_append_right _ (List.mem_singleton_self _))
    rwa [Token.Spelled, heof] at heof'
  rw [ofTokens_append] at hq
  have hfits := Parse.fits_program (Token.disjoint_of_scan hscan) heof htext hq
  exact hfits

/-- Every node of a program that was read runs forward. -/
theorem forward_of_parse (h : Program.parse file source = .ok p) {k : SpanTree}
    (hk : k ∈ p.spans.nodes) : ∃ s, k.span = some s ∧ s.start.NotAfter s.stop := by
  obtain ⟨us, hfits⟩ := exists_fits h
  rcases hfits.nested k hk with hencloses | ⟨-, hencloses⟩
  · exact hencloses.forward
  · exact hencloses.forward

/-- Every node of a program that was read encloses its children, one after another, except that the
quotes of a string literal at the end of an operation may stand out by two columns. -/
theorem nested_of_parse (h : Program.parse file source = .ok p) :
    ∀ k ∈ p.spans.nodes, k.Encloses 0 ∨ k.endsInQuotes = true ∧ k.Encloses 2 := by
  obtain ⟨us, hfits⟩ := exists_fits h
  exact hfits.nested

set_option maxRecDepth 100000 in
/-- In a program without string literals every node encloses its children. -/
theorem nested_of_parse_of_loop : ∃ p, Program.parse none
    "struct s { int x; }; int f(int a) { struct s t; while (a < (t.x)) { } return -f(a); }" =
      .ok p ∧
      p.spans.nodes.length = 36 ∧ ∀ k ∈ p.spans.nodes, k.Encloses 0 := by
  obtain ⟨p, hp, hlength, hquotes⟩ : ∃ p, Program.parse none
      "struct s { int x; }; int f(int a) { struct s t; while (a < (t.x)) { } return -f(a); }" =
        .ok p ∧ p.spans.nodes.length = 36 ∧ p.spans.nodes.any (·.endsInQuotes) = false :=
    exists_parse rfl (by decide +kernel)
  refine ⟨p, hp, hlength, fun k hk => ?_⟩
  rcases nested_of_parse hp k hk with hencloses | ⟨hends, -⟩
  · exact hencloses
  · exact absurd hends (List.any_eq_false.mp hquotes k hk)

set_option maxRecDepth 100000 in
/-- An assignment of a string literal ends before the literal does. -/
theorem not_encloses_of_string : ∃ p k, Program.parse none
    "void main() \x7b x = \"a\"; \x7d" = .ok p ∧ k ∈ p.spans.nodes ∧ ¬k.Encloses 0 := by
  have hnode : (Program.parse none "void main() \x7b x = \"a\"; \x7d").map
      (fun p => p.spans.nodes[10]?) = .ok (some (.node .operation (some ⟨1, 15, 1, 20⟩)
        [.node .plain (some ⟨1, 15, 1, 16⟩) [], .node .quoted (some ⟨1, 19, 1, 22⟩) []])) := by
    cbv
  cases hp : Program.parse none "void main() \x7b x = \"a\"; \x7d" with
  | error e =>
    rw [hp] at hnode
    cases hnode
  | ok p =>
    rw [hp] at hnode
    refine ⟨p, _, rfl, List.mem_of_getElem? (Except.ok.inj hnode), fun hencloses => ?_⟩
    obtain ⟨s, s', hs, hs', -, hstop⟩ :=
      hencloses.within _ (List.mem_cons_of_mem _ (List.mem_singleton_self _))
    cases hs
    cases hs'
    exact absurd hstop (by unfold Position.NotAfter; decide)

end Program

end CMinusMinus
