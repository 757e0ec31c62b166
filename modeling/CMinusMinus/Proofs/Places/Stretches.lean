import CMinusMinus.Proofs.Places.Checking
import CMinusMinus.Proofs.Places.Reading

/-!
# Stretches of declarations

The declarations of a text are read from one stretch of tokens each, one after another, and the span
of a declaration runs from the first of its tokens to the end of the last one
(`Program.exists_stretches`).  So what is reported of a declaration is reported within its span and
within no other (`Token.Stretches.within_iff`).
-/

namespace CMinusMinus

theorem Position.before_of_not_before {p q r : Position} (hpq : q.before p = false)
    (hqr : q.before r = true) : p.before r = true := by
  rw [not_before] at hpq
  rw [before_iff] at hqr ⊢
  omega

/-! ## Tokens do not overlap -/

/-- A text ends on a later line, or that many columns further on. -/
theorem Position.after_not_before_column (p : Position) (cs : List Char) {n : Nat}
    (h : n ≤ cs.length) : (p.after cs).before ⟨p.line, p.column + n⟩ = false := by
  induction cs generalizing p n with
  | nil =>
    obtain rfl : n = 0 := Nat.le_zero.mp h
    exact not_before_self p
  | cons c cs ih =>
    rw [after_cons, advance]
    split
    · have hline := after_not_before ⟨p.line + 1, 1⟩ cs
      rw [not_before] at hline ⊢
      dsimp only at hline ⊢
      omega
    · have hcolumn := ih ⟨p.line, p.column + 1⟩ (Nat.sub_le_of_le_add h)
      rw [not_before] at hcolumn ⊢
      dsimp only at hcolumn ⊢
      omega

namespace Token

/-- Each token ends before the later ones begin. -/
def Apart (ts : List Token) : Prop :=
  ts.Pairwise fun t u => u.position.before t.span.stop = false

theorem length_textOf_le (kind : TokenKind) (lexeme : List Char) :
    (textOf kind lexeme).length ≤ lexeme.length := by
  rw [textOf, String.length_ofList]
  split
  · rw [List.length_dropLast, List.length_tail]
    omega
  · exact Nat.le_refl _

theorem apart_of_scanFrom {cs : List Char} {p : Position} {ts : List Token}
    (h : scanFrom cs p = .ok ts) : Apart ts := by
  fun_induction scanFrom cs p generalizing ts with
  | case1 cs p q hq =>
    cases h
    exact List.pairwise_singleton _ _
  | case2 cs p c rest q hq ih =>
    obtain ⟨⟨kind, n⟩, hm, h⟩ := bind_eq_ok.mp h
    obtain ⟨tail, htail, h⟩ := bind_eq_ok.mp h
    cases h
    obtain ⟨hafter, -⟩ := ordered_of_scanFrom htail
    refine List.pairwise_cons.mpr ⟨fun t ht => ?_, ih _ htail⟩
    exact Position.not_before_trans
      (Position.after_not_before_column q (c :: rest.take n) (length_textOf_le kind _))
      (hafter t ht)

/-- No two tokens of a text overlap. -/
theorem apart_of_scan {source : String} {ts : List Token} (h : scan source = .ok ts) :
    Apart ts :=
  apart_of_scanFrom h

theorem line_of_scan {source : String} {ts : List Token} (h : scan source = .ok ts) :
    ∀ t ∈ ts, 0 < t.line := by
  intro t ht
  have hstart := (ordered_of_scanFrom h).1 t ht
  rw [Position.not_before] at hstart
  have hline : t.position.line = t.line := rfl
  have hone : Position.start.line = 1 := rfl
  omega

/-! ## What a declaration is read from -/

/-- The declaration is read from the tokens: its names, literals and return statements are among
them, and its span runs over them. -/
structure Reads (ts : List Token) (d : Decl) : Prop where
  covers : Parse.CoversDecl ts d
  span : Spans ts d.span

end Token

namespace Parse

open Cursor

theorem ends_stmts (start : Position) (c : Cursor) (hc : ∀ t ∈ c.rest, t.Spelled)
    {x : Read (List Stmt × Span) c.size} (h : stmts start c = .ok x) : Ends c x.next := by
  rw [stmts] at h
  split at h
  · next htake =>
    cases h
    exact ends_take? htake
  split at h
  · cases h
  split at h
  · cases h
  · obtain ⟨⟨s, c₁, h₁⟩, hs, h⟩ := bind_eq_ok.mp h
    obtain ⟨⟨ss, c₂, h₂⟩, hss, h⟩ := bind_eq_ok.mp h
    cases h
    obtain ⟨ts, hts, hc₁⟩ := rest_of_takes (takes_stmt c) hc hs
    exact (ends_stmts start c₁ hc₁ hss).after hts
termination_by c.size

theorem ends_block (wanted : Wanted) (c : Cursor) (hc : ∀ t ∈ c.rest, t.Spelled)
    {x : Read (Block Stmt) c.size} (h : block wanted c = .ok x) : Ends c x.next := by
  rw [block] at h
  obtain ⟨⟨t, c₁, h₁⟩, ht, h⟩ := bind_eq_ok.mp h
  obtain ⟨⟨ds, c₂, h₂⟩, hds, h⟩ := bind_eq_ok.mp h
  obtain ⟨⟨⟨ss, span⟩, c₃, h₃⟩, hss, h⟩ := bind_eq_ok.mp h
  cases h
  obtain ⟨ts, hts, hc₁⟩ := rest_of_takes (takes_expect c wanted) hc ht
  obtain ⟨us, hus, hc₂⟩ := rest_of_takes (takes_varDecls c₁) hc₁ hds
  exact ((ends_stmts c₂.here c₂ hc₂ hss).after hus).after hts

theorem ends_structDecl (c : Cursor) (hc : ∀ t ∈ c.rest, t.Spelled)
    {x : Read StructDecl c.size} (h : structDecl c = .ok x) :
    Ends c x.next ∧ x.value.span = some (x.next.since c.here) := by
  unfold structDecl at h
  split at h
  · cases h
  · next t c₁ h₁ hstruct =>
    obtain ⟨hrest, -⟩ := rest_of_take? hstruct
    have hc₁ : ∀ t ∈ c₁.rest, t.Spelled := fun t ht => hc t (hrest ▸ List.mem_cons_of_mem _ ht)
    obtain ⟨⟨name, c₂, h₂⟩, hname, h⟩ := bind_eq_ok.mp h
    obtain ⟨⟨u, c₃, h₃⟩, hu, h⟩ := bind_eq_ok.mp h
    obtain ⟨⟨ds, c₄, h₄⟩, hds, h⟩ := bind_eq_ok.mp h
    dsimp only at h
    split at h
    · cases h
    · obtain ⟨⟨v, c₅, h₅⟩, hv, h⟩ := bind_eq_ok.mp h
      obtain ⟨⟨w, c₆, h₆⟩, hw, h⟩ := bind_eq_ok.mp h
      cases h
      obtain ⟨ts, hts, hc₂⟩ := rest_of_takes (takes_ident c₁ rfl) hc₁ hname
      obtain ⟨us, hus, hc₃⟩ := rest_of_takes (takes_expect c₂ _) hc₂ hu
      obtain ⟨vs, hvs, hc₄⟩ := rest_of_takes (takes_varDecls c₃) hc₃ hds
      obtain ⟨ws, hws, -⟩ := rest_of_takes (takes_expect c₄ _) hc₄ hv
      have hends := (((ends_expect rfl hw).after hws).after hvs).after hus
      have hrest : c.rest = [t] ++ c₁.rest := hrest
      exact ⟨(hends.after hts).after hrest, rfl⟩

theorem ends_fnDecl (c : Cursor) (hc : ∀ t ∈ c.rest, t.Spelled) {x : Read FnDecl c.size}
    (h : fnDecl c = .ok x) : Ends c x.next ∧ x.value.span = some (x.next.since c.here) := by
  obtain ⟨⟨type, c₁, h₁⟩, htype, h⟩ := bind_eq_ok.mp h
  obtain ⟨⟨name, c₂, h₂⟩, hname, h⟩ := bind_eq_ok.mp h
  obtain ⟨⟨fs, c₃, h₃⟩, hfs, h⟩ := bind_eq_ok.mp h
  obtain ⟨⟨b, c₄, h₄⟩, hb, h⟩ := bind_eq_ok.mp h
  cases h
  obtain ⟨ts, hts, hc₁⟩ := rest_of_takes (takes_wordType c) hc htype
  obtain ⟨us, hus, hc₂⟩ := rest_of_takes (takes_ident c₁ rfl) hc₁ hname
  obtain ⟨vs, hvs, hc₃⟩ := rest_of_takes (takes_formals c₂) hc₂ hfs
  exact ⟨(((ends_block .bodyStart c₃ hc₃ hb).after hvs).after hus).after hts, rfl⟩

theorem ends_decl (c : Cursor) (hc : ∀ t ∈ c.rest, t.Spelled) {x : Read Decl c.size}
    (h : decl c = .ok x) : Ends c x.next ∧ x.value.span = some (x.next.since c.here) := by
  unfold decl at h
  split at h
  · obtain ⟨⟨d, c₁, h₁⟩, hd, h⟩ := bind_eq_ok.mp h
    cases h
    exact ends_structDecl c hc hd
  split at h
  · obtain ⟨⟨d, c₁, h₁⟩, hd, h⟩ := bind_eq_ok.mp h
    cases h
    exact ends_fnDecl c hc hd
  split at h
  · obtain ⟨⟨d, c₁, h₁⟩, hd, h⟩ := bind_eq_ok.mp h
    cases h
    exact ends_varDecl c hc hd
  · cases h

theorem reads_decl (c : Cursor) (hc : ∀ t ∈ c.rest, t.Spelled) (hordered : Token.Ordered c.rest)
    {x : Read Decl c.size} (h : decl c = .ok x) :
    ∃ ts, c.rest = ts ++ x.next.rest ∧ Token.Reads ts x.value := by
  obtain ⟨ts, hts, hcovers⟩ := covers_decl c hc x h
  obtain ⟨hends, hspan⟩ := ends_decl c hc h
  rw [hts] at hordered
  obtain ⟨t, u, m, hhead, hlast, hkind, hstart, hstop⟩ :=
    hends.stretch hts (List.pairwise_append.mp hordered).1
  exact ⟨ts, hts, hcovers, t, u, m, _, hhead, hlast, hkind, hspan, hstart, hstop⟩

/-- The declarations are read from stretches of tokens, one after another. -/
theorem reads_decls (c : Cursor) (hc : ∀ t ∈ c.rest, t.Spelled) (hordered : Token.Ordered c.rest)
    {x : Read (List Decl) (c.size + 1)} (h : decls c = .ok x) :
    ∃ tss, c.rest = tss.flatten ++ x.next.rest ∧ List.Forall₂ Token.Reads tss x.value := by
  rw [decls] at h
  split at h
  · cases h
    exact ⟨[], rfl, .nil⟩
  · obtain ⟨⟨d, c₁, h₁⟩, hd, h⟩ := bind_eq_ok.mp h
    obtain ⟨⟨ds, c₂, h₂⟩, hds, h⟩ := bind_eq_ok.mp h
    cases h
    obtain ⟨ts, hts, hreads⟩ := reads_decl c hc hordered hd
    rw [hts] at hc hordered
    obtain ⟨tss, htss, hall⟩ := reads_decls c₁ (fun t ht => hc t (List.mem_append_right _ ht))
      (List.pairwise_append.mp hordered).2.1 hds
    exact ⟨ts :: tss, by rw [hts, htss, List.flatten_cons, List.append_assoc], .cons hreads hall⟩
termination_by c.size

end Parse

/-! ## Places within spans -/

/-- Whether a place begins within a span. -/
def Locus.beginsIn (l : Locus) (s : Option Span) : Bool :=
  match l.line, l.column, s with
  | some line, some column, some s =>
    decide ((s.startLine < line ∨ s.startLine = line ∧ s.startColumn ≤ column) ∧
      (line < s.endLine ∨ line = s.endLine ∧ column < s.endColumn))
  | _, _, _ => false

theorem Locus.beginsIn_ofSpan? (a s : Span) : (Locus.ofSpan? (some a)).beginsIn (some s) = true ↔
    a.start.before s.start = false ∧ a.start.before s.stop = true := by
  rw [Position.not_before, Position.before_iff]
  simp only [beginsIn, ofSpan?, ofSpan, Option.map_some, Option.getD_some, decide_eq_true_eq,
    Span.start, Span.stop]
  omega

namespace Token

/-- The tokens of a text, in stretches that its declarations are read from. -/
structure Stretches (tss : List (List Token)) (ds : List Decl) : Prop where
  reads : List.Forall₂ Reads tss ds
  ordered : Ordered tss.flatten
  apart : Apart tss.flatten
  spelled : ∀ t ∈ tss.flatten, t.Spelled
  line : ∀ t ∈ tss.flatten, 0 < t.line

/-- A mark ends behind its beginning. -/
theorem before_stop {t : Token} {m : Mark} (h : t.Spelled) (hkind : t.kind = .mark m) :
    t.position.before t.span.stop = true := by
  have htext : t.text = m.text := by
    rw [Spelled, hkind] at h
    exact h
  have hlength : 0 < t.text.length := by
    rw [htext]
    cases m <;> decide
  rw [Position.before_iff]
  exact .inr ⟨rfl, Nat.lt_add_of_pos_right hlength⟩

theorem Ordered.not_before_head {ts : List Token} (h : Ordered ts) {t u : Token}
    (ht : ts.head? = some t) (hu : u ∈ ts) : u.position.before t.position = false := by
  obtain ⟨us, rfl⟩ := List.head?_eq_some_iff.mp ht
  rcases List.mem_cons.mp hu with rfl | hu
  · exact Position.not_before_self _
  · exact Position.not_before_of_before ((List.pairwise_cons.mp h).1 u hu)

theorem Ordered.not_after_last {ts : List Token} (h : Ordered ts) {t u : Token}
    (ht : ts.getLast? = some t) (hu : u ∈ ts) : t.position.before u.position = false := by
  obtain ⟨us, rfl⟩ := List.getLast?_eq_some_iff.mp ht
  rcases List.mem_append.mp hu with hu | hu
  · exact Position.not_before_of_before
      ((List.pairwise_append.mp h).2.2 u hu t (List.mem_singleton_self _))
  · rw [List.mem_singleton.mp hu]
    exact Position.not_before_self _

namespace Spans

variable {ts : List Token} {span : Option Span} {t : Token} {a : Span}

/-- What is at one of the tokens is within the span. -/
theorem beginsIn (h : Spans ts span) (hordered : Ordered ts) (hspelled : ∀ t ∈ ts, t.Spelled)
    (ht : t ∈ ts) (ha : a.start = t.position) :
    (Locus.ofSpan? (some a)).beginsIn span = true := by
  obtain ⟨first, last, m, s, hfirst, hlast, hmark, rfl, hstart, hstop⟩ := h
  have hstop' := before_stop (hspelled last (List.mem_of_getLast? hlast)) hmark
  rw [Locus.beginsIn_ofSpan?, ha, hstart, hstop]
  exact ⟨hordered.not_before_head hfirst ht,
    Position.before_of_not_before (hordered.not_after_last hlast ht) hstop'⟩

/-- What is at a token before all of the tokens is not within the span. -/
theorem not_beginsIn_of_before (h : Spans ts span)
    (ht : ∀ u ∈ ts, t.position.before u.position = true) (ha : a.start = t.position) :
    (Locus.ofSpan? (some a)).beginsIn span = false := by
  obtain ⟨first, -, -, s, hfirst, -, -, rfl, hstart, -⟩ := h
  rw [← Bool.not_eq_true, Locus.beginsIn_ofSpan?, ha, hstart, ht first (List.mem_of_head? hfirst)]
  exact fun hboth => Bool.noConfusion hboth.1

/-- What is at a token after all of the tokens is not within the span. -/
theorem not_beginsIn_of_after (h : Spans ts span)
    (ht : ∀ u ∈ ts, t.position.before u.span.stop = false) (ha : a.start = t.position) :
    (Locus.ofSpan? (some a)).beginsIn span = false := by
  obtain ⟨-, last, -, s, -, hlast, -, rfl, -, hstop⟩ := h
  rw [← Bool.not_eq_true, Locus.beginsIn_ofSpan?, ha, hstop, ht last (List.mem_of_getLast? hlast)]
  exact fun hboth => Bool.noConfusion hboth.2

end Spans

namespace Stretches

variable {tss : List (List Token)} {ds : List Decl} {i j : Nat} {us vs : List Token} {d : Decl}

/-- A token begins within the span of the declaration that it belongs to and of no other. -/
theorem within_iff (h : Stretches tss ds) (hd : ds[i]? = some d) (hvs : tss[j]? = some vs)
    {t : Token} (ht : t ∈ vs) {a : Span} (ha : a.start = t.position) :
    (Locus.ofSpan? (some a)).beginsIn d.span = true ↔ j = i := by
  obtain ⟨hlength, hreads⟩ := List.forall₂_iff_get.mp h.reads
  obtain ⟨hid, rfl⟩ := List.getElem?_eq_some_iff.mp hd
  obtain ⟨hj, rfl⟩ := List.getElem?_eq_some_iff.mp hvs
  have hi : i < tss.length := hlength ▸ hid
  have hspan := (hreads i hi hid).span
  obtain ⟨hordered, hacross⟩ := List.pairwise_flatten.mp h.ordered
  rcases Nat.lt_trichotomy j i with hlt | rfl | hgt
  · have hbefore := List.pairwise_iff_getElem.mp hacross j i hj hi hlt t ht
    exact iff_of_false (Bool.not_eq_true _ ▸ hspan.not_beginsIn_of_before hbefore ha)
      (Nat.ne_of_lt hlt)
  · have hmem : tss[j] ∈ tss := List.getElem_mem hj
    exact iff_of_true (hspan.beginsIn (hordered _ hmem)
      (fun t ht => h.spelled t (List.mem_flatten_of_mem hmem ht)) ht ha) rfl
  · have hapart := (List.pairwise_flatten.mp h.apart).2
    have hafter := fun u hu => List.pairwise_iff_getElem.mp hapart i j hi hj hgt u hu t ht
    exact iff_of_false (Bool.not_eq_true _ ▸ hspan.not_beginsIn_of_after hafter ha)
      (Nat.ne_of_gt hgt)

end Stretches

end Token

/-- The declarations of a program are read from stretches of the tokens of its text. -/
theorem Program.exists_stretches {file : Option String} {source : String} {p : Program}
    (h : Program.parse file source = .ok p) :
    ∃ tokens tss, Token.scan source = .ok tokens ∧ tss.flatten.Sublist tokens ∧
      Token.Stretches tss p.decls := by
  obtain ⟨tokens, q, hscan, hq, rfl⟩ := exists_ofTokens_of_parse h
  obtain ⟨hspelled, ts, eof, rfl, -, -⟩ := Token.text_of_scan hscan
  have hordered := Token.ordered_of_scan hscan
  have hapart := Token.apart_of_scan hscan
  have hline := Token.line_of_scan hscan
  rw [ofTokens_append] at hq
  obtain ⟨x, hx, hq⟩ := bind_eq_ok.mp hq
  cases hq
  obtain ⟨tss, htss, hreads⟩ := Parse.reads_decls (.ofTokens ts eof)
    (fun t ht => hspelled t (List.mem_append_left _ ht)) (List.pairwise_append.mp hordered).1 hx
  have hsublist : tss.flatten.Sublist (ts ++ [eof]) := by
    have hts : ts = tss.flatten ++ x.next.rest := htss
    rw [hts]
    exact (List.sublist_append_left _ _).trans (List.sublist_append_left _ _)
  exact ⟨_, tss, hscan, hsublist, hreads, hordered.sublist hsublist, hapart.sublist hsublist,
    fun t ht => hspelled t (hsublist.subset ht), fun t ht => hline t (hsublist.subset ht)⟩

/-- What a declaration of a program is read from. -/
theorem Token.Stretches.exists_reads {tss : List (List Token)} {ds : List Decl}
    (h : Stretches tss ds) {d : Decl} (hd : d ∈ ds) : ∃ ts ∈ tss, Reads ts d := by
  obtain ⟨hlength, hreads⟩ := List.forall₂_iff_get.mp h.reads
  obtain ⟨i, hi, rfl⟩ := List.getElem_of_mem hd
  have hi' : i < tss.length := hlength ▸ hi
  exact ⟨_, List.getElem_mem hi', hreads i hi' hi⟩

end CMinusMinus
