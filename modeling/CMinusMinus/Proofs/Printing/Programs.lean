import CMinusMinus.Proofs.Form
import CMinusMinus.Proofs.Printing.Literals
import CMinusMinus.Proofs.Printing.Statements

/-!
# Printing and reading

A program that can be printed is read again as the same program, and every program that a text is
read as can be printed (`Program.parse_source`).  So printing what was read and reading it again
changes nothing.

The printed text is cut into tokens that derive the form of the program, so the parser returns a
program of this form.
-/

namespace CMinusMinus

open Grammar
open Token (Prints WordEnds wordEnds_cons Blank lines)

/-! ## What can be printed -/

namespace Exp

mutual

theorem unprintable?_eq_none : (e : Exp) → e.Formed → e.unprintable? = none
  | .int .., _ | .string .., _ | .bool .., _ | .ident _, _ => rfl
  | .access _ _ loc _, h => unprintable?_eq_none loc h.2.1
  | .assign _ l r, h | .binary _ _ l r, h => by
    rw [unprintable?, unprintable?_eq_none l h.2.1, unprintable?_eq_none r h.2.2]
    rfl
  | .call _ _ _ es, h => firstUnprintable?_eq_none es h.2
  | .neg _ e, h | .not _ e, h => unprintable?_eq_none e h
  | .unknown _, h => h.elim
termination_by structural e => e

theorem firstUnprintable?_eq_none : (es : List Exp) → AllFormed es → firstUnprintable? es = none
  | [], _ => rfl
  | e :: es, h => by
    rw [firstUnprintable?, unprintable?_eq_none e h.1, firstUnprintable?_eq_none es h.2]
    rfl
termination_by structural es => es

end

end Exp

theorem TypeNode.unprintable?_eq_none {t : TypeNode} (h : t.Formed) : t.unprintable? = none := by
  cases t with
  | unknown => exact h.elim
  | _ => rfl

theorem VarDecls.unprintable?_eq_none {ds : VarDecls} (h : ∀ d ∈ ds.items, d.Formed) :
    ds.unprintable? = none := by
  refine List.findSome?_eq_none_iff.mpr fun d hd => ?_
  rw [VarDecl.unprintable?, (h d hd).role]
  exact TypeNode.unprintable?_eq_none (h d hd).type

namespace Stmt

mutual

theorem unprintable?_eq_none : (s : Stmt) → s.Formed → s.unprintable? = none
  | .assign _ e, h | .increment _ e, h | .decrement _ e, h | .read _ e, h | .call _ e, h =>
    e.unprintable?_eq_none h.2
  | .write _ e, h | .return _ (some e), h => e.unprintable?_eq_none h
  | .ifThen _ e b, h | .while _ e b, h => by
    rw [unprintable?, e.unprintable?_eq_none h.1, blockUnprintable?_eq_none b h.2]
    rfl
  | .ifElse _ e b₁ b₂, h => by
    rw [unprintable?, e.unprintable?_eq_none h.1, blockUnprintable?_eq_none b₁ h.2.1,
      blockUnprintable?_eq_none b₂ h.2.2]
    rfl
  | .return _ none, _ => rfl
  | .unknown _, h => h.elim
termination_by structural s => s

theorem blockUnprintable?_eq_none : (b : Block Stmt) → BlockFormed b → blockUnprintable? b = none
  | ⟨_, _, ss⟩, h => by
    rw [blockUnprintable?, VarDecls.unprintable?_eq_none h.1, firstUnprintable?_eq_none ss h.2]
    rfl
termination_by structural b => b

theorem firstUnprintable?_eq_none : (ss : List Stmt) → AllFormed ss → firstUnprintable? ss = none
  | [], _ => rfl
  | s :: ss, h => by
    rw [firstUnprintable?, unprintable?_eq_none s h.1, firstUnprintable?_eq_none ss h.2]
    rfl
termination_by structural ss => ss

end

end Stmt

theorem Decl.unprintable?_eq_none {d : Decl} (h : d.Formed) : d.unprintable? = none := by
  cases d with
  | var d =>
    have hd : d.Formed := h
    rw [unprintable?, VarDecl.unprintable?, hd.role]
    exact TypeNode.unprintable?_eq_none hd.type
  | fn d =>
    have hd : d.Formed := h
    have hformals : d.formals.items.findSome? (·.type.unprintable?) = none :=
      List.findSome?_eq_none_iff.mpr fun f hf =>
        TypeNode.unprintable?_eq_none (TypeNode.formed_of_isWordType (hd.formals f hf).type)
    rw [unprintable?, hformals,
      TypeNode.unprintable?_eq_none (TypeNode.formed_of_isWordType hd.returns),
      Stmt.blockUnprintable?_eq_none d.body hd.body]
    rfl
  | struct d => exact VarDecls.unprintable?_eq_none (StructDecl.Formed.fields h)
  | unknown => exact h.elim

/-- A formed program has a text. -/
theorem Program.source_of_formed {p : Program} (h : p.Formed) : p.source = .ok p.text := by
  have hnone : p.decls.findSome? Decl.unprintable? = none :=
    List.findSome?_eq_none_iff.mpr fun d hd => Decl.unprintable?_eq_none (h d hd)
  rw [source, hnone]

/-! ## Declarations -/

namespace Decl

theorem lines_struct (d : StructDecl) :
    lines (source (.struct d)) = Keyword.struct.text.toList ++ (' ' :: (d.name.name.toList ++
      (' ' :: '{' :: '\n' :: (lines (d.fields.source 1) ++ ['}', ';', '\n'])))) := by
  simp [source, lines, Keyword.text]

theorem lines_fn (d : FnDecl) :
    lines (source (.fn d)) = d.returns.source.toList ++ (' ' :: (d.name.name.toList ++
      ('(' :: ([',', ' '].intercalate ((d.formals.items.map VarDecl.source).map String.toList) ++
        (')' :: ' ' :: (Stmt.bracesText 0 d.body ++ ['\n'])))))) := by
  simp [source, lines, Stmt.bracesText]

theorem prints_struct {d : StructDecl} (h : d.Formed) (rest : List Char) :
    Prints (lines (source (.struct d))) rest fun ts => Declaration ts (form (.struct d)) := by
  rw [lines_struct]
  refine Prints.keyword .struct (wordEnds_cons (by decide) _) fun t ht => .space ?_
  refine Prints.name h.name (wordEnds_cons (by decide) _) fun x hx hname => .space ?_
  refine Prints.mark (m := .leftCurly) rfl rfl fun p hp => .newline ?_
  refine (VarDecl.prints_lines 1 h.fields _).bind fun us hus => ?_
  refine Prints.mark (m := .rightCurly) rfl rfl fun q hq => ?_
  refine Prints.mark (m := .semi) rfl rfl fun u hu => .newline (.nil ?_)
  have hne : d.fields.items.map VarDecl.form ≠ [] :=
    fun hnil => h.nonempty (List.map_eq_nil_iff.mp hnil)
  have hstruct := Declaration.struct ht hx hp hus hne hq hu
  rwa [identOf, hname] at hstruct

theorem prints_fn {d : FnDecl} (h : d.Formed)
    (hwritable : ∀ x ∈ Stmt.blockExpressions d.body, x.Writable) (rest : List Char) :
    Prints (lines (source (.fn d))) rest fun ts => Declaration ts (form (.fn d)) := by
  rw [lines_fn]
  refine TypeNode.prints_word h.returns (wordEnds_cons (by decide) _) fun t ht => .space ?_
  refine Prints.name h.name (wordEnds_cons (by decide) _) fun x hx hname => ?_
  refine Prints.mark (m := .leftParen) rfl rfl fun p hp => ?_
  refine (VarDecl.prints_formals h.formals _ (wordEnds_cons (by decide) _)).bind fun us hus => ?_
  refine Prints.mark (m := .rightParen) rfl rfl fun q hq => .space ?_
  have hbody : ∀ rest, Prints (Stmt.bracesText 0 d.body) rest fun ts =>
      Braces ts (Stmt.blockForm d.body) :=
    Stmt.prints_braces (Stmt.prints_block 1 d.body h.body hwritable)
  refine (hbody _).bind fun vs hvs => .newline (.nil ?_)
  have hfn := Declaration.fn ht hx hp hus hq hvs
  rw [identOf, hname] at hfn
  simpa [form, FnDecl.form, VarDecls.form, Ident.form] using hfn

/-- A printed declaration is cut into tokens that derive its form. -/
theorem prints {d : Decl} (h : d.Formed) (hwritable : ∀ x ∈ d.expressions, x.Writable)
    (rest : List Char) : Prints (lines d.source) rest fun ts => Declaration ts d.form := by
  cases d with
  | var d =>
    have hlines : lines (source (.var d)) = (d.source ++ ";").toList ++ ['\n'] :=
      List.append_nil _
    rw [hlines]
    refine (VarDecl.prints h _).bind fun us hus => .newline (.nil ?_)
    rw [List.append_nil]
    exact .var hus
  | fn d => exact prints_fn h (fun x hx => hwritable x (List.mem_append_right _ hx)) rest
  | struct d => exact prints_struct h rest
  | unknown => exact h.elim

/-- Printed declarations, with or without empty lines between them. -/
theorem prints_list : {ds : List Decl} → (∀ d ∈ ds, d.Formed) →
    (∀ x ∈ ds.flatMap expressions, x.Writable) → (rest : List Char) →
    Prints (lines (sources ds)) rest fun ts => Declarations ts (ds.map form)
  | [], _, _, _ => .nil .nil
  | [d], h, hwritable, rest => by
    rw [List.flatMap_singleton] at hwritable
    refine (prints (h d (List.mem_singleton.mpr rfl)) hwritable rest).mono fun ts hts => ?_
    simpa using Declarations.cons hts .nil
  | d :: d' :: ds, h, hwritable, rest => by
    obtain ⟨hd, hds⟩ := List.forall_mem_cons.mp h
    rw [List.flatMap_cons, List.forall_mem_append] at hwritable
    have hrest := prints_list hds hwritable.2 rest
    have hblank : Blank (lines (if d.standsApart then [""] else [])) := by
      split
      · exact List.forall_mem_singleton.mpr (by decide)
      · exact List.forall_mem_nil _
    rw [sources, Token.lines_append, Token.lines_append, List.append_assoc]
    · refine (prints hd hwritable.1 _).bind fun us hus => .blank hblank ?_
      exact hrest.mono fun vs hvs => .cons hus hvs
    · rintro ⟨⟩

/-- Only what cannot be printed has no lines. -/
theorem source_ne_nil {d : Decl} (h : d.Formed) : d.source ≠ [] := by
  cases d with
  | unknown => exact h.elim
  | _ => exact List.cons_ne_nil _ _

theorem sources_ne_nil {ds : List Decl} (hne : ds ≠ []) (h : ∀ d ∈ ds, d.Formed) :
    sources ds ≠ [] := by
  match ds with
  | [] => exact absurd rfl hne
  | [d] => exact source_ne_nil (h d (List.mem_singleton.mpr rfl))
  | d :: d' :: ds =>
    rw [sources]
    · exact List.append_ne_nil_of_left_ne_nil
        (List.append_ne_nil_of_left_ne_nil (source_ne_nil (h d List.mem_cons_self)) _) _
    · rintro ⟨⟩

end Decl

/-! ## Programs -/

theorem Token.lines_intercalate {ls : List String} (h : ls ≠ []) :
    ("\n".intercalate ls ++ "\n").toList = lines ls := by
  induction ls with
  | nil => exact absurd rfl h
  | cons l ls ih =>
    cases ls with
    | nil => simp [lines]
    | cons l' ls =>
      rw [lines_cons, ← ih (List.cons_ne_nil _ _)]
      simp [String.toList_intercalate]

namespace Program

variable {p : Program}

/-- The text of a program is cut into tokens that derive its form. -/
theorem prints (h : p.Grammatical) :
    Prints p.text.toList [] fun ts => Declarations ts (p.decls.map Decl.form) := by
  by_cases hdecls : p.decls = []
  · rw [text, hdecls]
    exact Prints.newline (.nil .nil)
  · rw [text, Token.lines_intercalate (Decl.sources_ne_nil hdecls h.formed)]
    exact Decl.prints_list h.formed h.literals []

/-- The text of a program is read as a program of its form. -/
theorem parse_text (h : p.Grammatical) (file : Option String) :
    ∃ q, parse file p.text = .ok q ∧ q.form = p.form := by
  obtain ⟨ts, gap, hgap, hlexed, hts⟩ := p.prints h [] [] (List.forall_mem_nil _)
  rw [List.nil_append, List.append_nil, List.append_nil] at hlexed
  have hscan := Token.scan_of_lexed hlexed (hgap.isGap [])
  obtain ⟨q, hq, hform⟩ := Derived.exists_ofTokens (Token.text_of_scan hscan)
    ⟨ts, _, _, rfl, rfl, hts⟩
  refine ⟨{ q with filename := file }, ?_, hform⟩
  simp only [parse, hscan, hq]

/-- A program that can be printed has a text, which is read as the same program; and every program
that a text is read as can be printed.  So its text is read as the same program again. -/
theorem parse_source :
    (∀ p : Program, p.Grammatical →
      ∃ text, p.source = .ok text ∧
        ∀ file, ∃ q, parse file text = .ok q ∧ p.same q = true) ∧
    (∀ file source p, parse file source = .ok p → p.Grammatical ∧
      ∃ text, p.source = .ok text ∧
        ∀ file, ∃ q, parse file text = .ok q ∧ p.same q = true) := by
  have hprinted : ∀ p : Program, p.Grammatical → ∃ text, p.source = .ok text ∧
      ∀ file, ∃ q, parse file text = .ok q ∧ p.same q = true := by
    intro p h
    refine ⟨p.text, source_of_formed h.formed, fun file => ?_⟩
    obtain ⟨q, hq, hform⟩ := parse_text h file
    exact ⟨q, hq, same_of_form hform.symm⟩
  refine ⟨hprinted, fun file source p h => ?_⟩
  have hgrammatical := grammatical_of_parse h
  exact ⟨hgrammatical, hprinted p hgrammatical⟩

set_option maxRecDepth 100000 in
/-- A text with an assignment inside an expression, a minus before a minus and a quote inside a
string literal is read, printed and read again as the same program. -/
theorem parse_source_of_operators :
    ∃ p text q,
      parse none "void f() \x7b cout << - -(a.b = 1) * 2; cout << \"\\\"\"; \x7d" = .ok p ∧
        p.Grammatical ∧ p.source = .ok text ∧ parse none text = .ok q ∧ p.same q = true := by
  obtain ⟨p, hp, -⟩ : ∃ p,
      parse none "void f() \x7b cout << - -(a.b = 1) * 2; cout << \"\\\"\"; \x7d" = .ok p ∧ True :=
    exists_parse rfl (by decide +kernel)
  obtain ⟨hgrammatical, -⟩ := parse_source.2 none _ p hp
  obtain ⟨text, htext, hread⟩ := parse_source.1 p hgrammatical
  obtain ⟨q, hq, hsame⟩ := hread none
  exact ⟨p, text, q, hp, hgrammatical, htext, hq, hsame⟩

end Program

end CMinusMinus
