import Mathlib
import CMinusMinus.Proofs.Derivation.Statements
import CMinusMinus.Proofs.Derivation.Tokens
import CMinusMinus.Proofs.Grammar.Reading

/-!
# The language of the parser

The tokens that are read as a program are those that the grammar derives, and the program that is
read has the tree of their derivation (`Program.ofTokens_iff_derived`).  All derivations of the same
tokens have the same tree: each of them is the form of what the parser returns, which is one.
-/

namespace CMinusMinus

open Grammar Parse
open Token (nextKind)

/-! ## Declarations -/

theorem Cursor.At.third {c : Cursor} {t u v : Token} {ts : List Token}
    (h : c.At (t :: u :: v :: ts)) : c.peekAt 2 = v := by
  rw [Cursor.peekAt, h.rest]
  rfl

namespace Grammar

variable {c : Cursor} {ts rest : List Token}

theorem answers_struct {t x p q u : Token} {ds : List VarDecl} (ht : t.kind = .keyword .struct)
    (hx : x.kind = .name) (hp : p.kind = .mark .leftCurly) (hds : Variables ts ds) (hne : ds ≠ [])
    (hq : q.kind = .mark .rightCurly) (hu : u.kind = .mark .semi)
    (hc : c.At (t :: x :: p :: (ts ++ q :: u :: rest))) :
    Answers StructDecl.form rest
      { span := none, name := Grammar.identOf x, fields := { items := ds } } (structDecl c) := by
  obtain ⟨c₁, h₁, htake, hc₁⟩ := hc.take
  have hnext : (nextKind (q :: u :: rest)).beginsDecl = false := by
    rw [nextKind, hq]
    rfl
  rw [structDecl, ← ht, htake]
  refine (answers_ident hc₁ hx .definedName rfl).bind fun name c₂ h₂ hname hc₂ => ?_
  refine (answers_expect hc₂ .fieldsStart hp).bind fun _ c₃ h₃ _ hc₃ => ?_
  refine (hds.answers_varDecls hc₃ hnext).bind fun fields c₄ h₄ hfields hc₄ => ?_
  have hitems : ¬ fields.items.isEmpty = true := by
    intro hempty
    have hnil : fields.items = [] := List.isEmpty_iff.mp hempty
    rw [VarDecls.form, hnil] at hfields
    exact hne (congrArg VarDecls.items hfields).symm
  dsimp only
  rw [if_neg hitems]
  refine (answers_expect hc₄ .fieldsEnd hq).bind fun _ c₅ h₅ _ hc₅ => ?_
  refine (answers_expect hc₅ .structEnd hu).bind fun _ c₆ h₆ _ hc₆ => ?_
  exact .ok (by rw [StructDecl.form, hname, hfields]) hc₆

theorem answers_fn {t x p q : Token} {us : List Token} {type : TypeNode} {ds : List VarDecl}
    {b : Block Stmt} (ht : WordType t type) (hx : x.kind = .name) (hp : p.kind = .mark .leftParen)
    (hds : Formals ts ds) (hq : q.kind = .mark .rightParen) (hb : Braces us b)
    (hc : c.At (t :: x :: p :: (ts ++ q :: (us ++ rest)))) :
    Answers FnDecl.form rest
      { span := none, returns := type, name := Grammar.identOf x, formals := { items := ds },
        bodySpan := none, body := b } (fnDecl c) := by
  refine (ht.answers hc).bind fun returns c₁ h₁ hreturns hc₁ => ?_
  refine (answers_ident hc₁ hx .functionName rfl).bind fun name c₂ h₂ hname hc₂ => ?_
  refine (hds.answers hp hq hc₂).bind fun formals c₃ h₃ hformals hc₃ => ?_
  refine (hb.reads c₃ rest _ rfl hc₃).bind fun body c₄ h₄ hbody hc₄ => ?_
  exact .ok (by rw [FnDecl.form, hreturns, hname, hformals, hbody]) hc₄

/-- A variable is read as one: no brace or parenthesis is its third token. -/
theorem Variable.answers_decl {d : VarDecl} (h : Variable ts d) (hc : c.At (ts ++ rest)) :
    Answers Decl.form rest (.var d) (decl c) := by
  have hread := h.answers hc
  obtain ⟨t, us, hts, ht⟩ := h.head
  have hbegins : beginsDecl c.peek = true := by
    rw [hc.beginsDecl, hts]
    exact ht
  have hthird : (c.peekAt 2).kind ≠ .mark .leftCurly ∧
      ¬ ((wordType? c.peek).isSome ∧ (c.peekAt 2).kind = .mark .leftParen) := by
    cases h with
    | word _ _ hu =>
      rw [hc.third, hu]
      exact ⟨by decide, fun h => by cases h.2⟩
    | struct _ _ hx _ =>
      rw [hc.third, hx]
      exact ⟨by decide, fun h => by cases h.2⟩
  rw [decl, if_neg (fun h => hthird.1 h.2), if_neg hthird.2, if_pos hbegins]
  exact hread.bind fun d c₁ h₁ hd hc₁ => .ok (by rw [Decl.form, hd]) hc₁

theorem Declaration.answers {d : Decl} (h : Declaration ts d) (hc : c.At (ts ++ rest)) :
    Answers Decl.form rest d (decl c) := by
  cases h with
  | struct ht hx hp hds hne hq hu =>
    simp only [List.append_assoc, List.cons_append, List.nil_append] at hc
    have hstruct : c.peek.kind = .keyword .struct ∧ (c.peekAt 2).kind = .mark .leftCurly := by
      rw [hc.peek, hc.third]
      exact ⟨ht, hp⟩
    rw [decl, if_pos hstruct]
    exact (answers_struct ht hx hp hds hne hq hu hc).bind fun d c₁ h₁ hd hc₁ =>
      .ok (by rw [Decl.form, hd]) hc₁
  | var h => exact h.answers_decl hc
  | fn ht hx hp hds hq hb =>
    simp only [List.append_assoc, List.cons_append] at hc
    have hstruct : ¬ (c.peek.kind = .keyword .struct ∧
        (c.peekAt 2).kind = .mark .leftCurly) := by
      rw [hc.peek]
      exact fun h => ht.begins.2 h.1
    have hfn : (wordType? c.peek).isSome ∧ (c.peekAt 2).kind = .mark .leftParen := by
      obtain ⟨make, hmake, -⟩ := ht.exists_wordType?
      rw [hc.third, Cursor.peek, hc.rest, List.headD_cons, hmake]
      exact ⟨rfl, hp⟩
    rw [decl, if_neg hstruct, if_pos hfn]
    exact (answers_fn ht hx hp hds hq hb hc).bind fun d c₁ h₁ hd hc₁ =>
      .ok (by rw [Decl.form, hd]) hc₁

theorem Declaration.ne_nil {d : Decl} (h : Declaration ts d) : ts ≠ [] := by
  cases h with
  | var h =>
    obtain ⟨t, us, rfl, -⟩ := h.head
    exact List.cons_ne_nil _ _
  | struct | fn => exact List.cons_ne_nil _ _

theorem Declarations.answers {ds : List Decl} (h : Declarations ts ds) {c : Cursor}
    (hc : c.At ts) : Answers (List.map Decl.form) [] ds (decls c) := by
  induction h generalizing c with
  | nil =>
    have hempty : c.rest.isEmpty = true := by
      rw [hc.rest]
      rfl
    rw [decls, if_pos hempty]
    exact .ok rfl hc
  | cons hd _ ih =>
    have hempty : ¬ c.rest.isEmpty = true := by
      rw [hc.rest, List.isEmpty_iff]
      exact List.append_ne_nil_of_left_ne_nil hd.ne_nil _
    rw [decls, if_neg hempty]
    refine (hd.answers hc).bind fun d c₁ h₁ hd' hc₁ => ?_
    refine (ih hc₁).bind fun ds c₂ h₂ hds hc₂ => ?_
    exact .ok (by rw [List.map_cons, hd', hds]) hc₂

end Grammar

/-! ## Programs -/

/-- What is derived is read. -/
theorem Program.Derived.exists_ofTokens {tokens : List Token} (h : Token.Text tokens) {q : Program}
    (hq : Program.Derived tokens q) : ∃ p, Program.ofTokens tokens = .ok p ∧ p.form = q := by
  obtain ⟨ts, eof, ds, rfl, rfl, hds⟩ := hq
  have heof : eof.kind = .eof := by
    obtain ⟨us, eof', heq, heof, -⟩ := h.ends
    obtain ⟨-, hlast⟩ := List.append_inj' heq rfl
    cases hlast
    exact heof
  have hc : (Cursor.ofTokens ts eof).At ts := ⟨rfl, heof⟩
  obtain ⟨⟨ds', c', h'⟩, hread, hform, -⟩ := hds.answers hc
  rw [ofTokens_append, program, hread]
  exact ⟨_, rfl, by rw [Program.form]; exact congrArg (Program.mk none none · none) hform⟩

/-- What is read is derived. -/
theorem Program.derived_of_ofTokens {tokens : List Token} (h : Token.Text tokens) {p : Program}
    (hp : Program.ofTokens tokens = .ok p) : Program.Derived tokens p.form := by
  obtain ⟨ts, eof, rfl, heof, hts⟩ := h.ends
  rw [ofTokens_append] at hp
  obtain ⟨ds, hform, hds⟩ := derived_program
    (fun t ht => h.spelled t (List.mem_append_left _ ht)) hp
  exact ⟨ts, eof, ds, rfl, hform, hds⟩

/-- The parser returns a program of the tokens exactly if they are derived, and then its form is the
tree of every derivation. -/
theorem Program.ofTokens_iff_derived {tokens : List Token} (h : Token.Text tokens) :
    ((∃ p, Program.ofTokens tokens = .ok p) ↔ ∃ q, Program.Derived tokens q) ∧
      ∀ p, Program.ofTokens tokens = .ok p → ∀ q, Program.Derived tokens q ↔ q = p.form := by
  refine ⟨⟨?_, ?_⟩, fun p hp q => ⟨fun hq => ?_, ?_⟩⟩
  · rintro ⟨p, hp⟩
    exact ⟨p.form, derived_of_ofTokens h hp⟩
  · rintro ⟨q, hq⟩
    obtain ⟨p, hp, -⟩ := hq.exists_ofTokens h
    exact ⟨p, hp⟩
  · obtain ⟨p', hp', hform⟩ := hq.exists_ofTokens h
    cases hp.symm.trans hp'
    exact hform.symm
  · rintro rfl
    exact derived_of_ofTokens h hp

set_option maxRecDepth 100000 in
/-- The tokens of a text with operators of every level are read, and so they are derived. -/
theorem Program.ofTokens_iff_derived_of_operators :
    ∃ tokens p,
      Token.scan "int main() { x = -a.b - 1 * 2; if (x < 1 == b && c || d) { x++; } }" =
        .ok tokens ∧
      Token.Text tokens ∧ Program.ofTokens tokens = .ok p ∧ Program.Derived tokens p.form := by
  obtain ⟨p, hp, -⟩ : ∃ p, Program.parse none
      "int main() { x = -a.b - 1 * 2; if (x < 1 == b && c || d) { x++; } }" = .ok p ∧ True :=
    Program.exists_parse rfl (by decide +kernel)
  obtain ⟨tokens, q, hscan, hq, -⟩ := exists_ofTokens_of_parse hp
  have htext := Token.text_of_scan hscan
  exact ⟨tokens, q, hscan, htext, hq, ((ofTokens_iff_derived htext).2 q hq q.form).mpr rfl⟩

end CMinusMinus
