import CMinusMinus.Proofs.Derivation.Programs
import CMinusMinus.Proofs.Printing

/-!
# Literals of texts

A program that a text is read as can be printed: its literals were lexemes of the text
(`Program.grammatical_of_parse`).  The induction is on the derivation of the tokens, which tells of
the form of the program; the literals of a program are those of its form.
-/

namespace CMinusMinus

open Grammar
open Token (Lexeme Lexed)

/-! ## Tokens that were read -/

/-- The token is a lexeme of some text. -/
def Token.IsRead (t : Token) : Prop := ∃ rest, Lexeme t.kind t.lexeme rest

theorem Token.Lexed.isRead {before cs rest : List Char} {ts : List Token}
    (h : Lexed before cs ts rest) : ∀ t ∈ ts, t.IsRead := by
  induction h with
  | nil => exact List.forall_mem_nil _
  | cons _ _ hlexeme _ ih => exact List.forall_mem_cons.mpr ⟨⟨_, hlexeme⟩, ih⟩

theorem Token.IsRead.writable_numeral {t : Token} (h : t.IsRead) (ht : t.kind = .numeral) {v : Nat}
    (hv : Text.decimal? t.text.toList = some v) : (Exp.int {} v).Writable := by
  obtain ⟨rest, h⟩ := h
  rw [Token.lexeme, if_neg (by rw [ht]; decide), ht] at h
  cases h with
  | numeral _ _ _ hvalue hmax =>
    cases hv.symm.trans hvalue
    exact ⟨Int.natCast_nonneg v, Int.ofNat_le.mpr hmax⟩

theorem Token.IsRead.writable_string {t : Token} (h : t.IsRead) (ht : t.kind = .string) :
    (Exp.string {} t.text).Writable := by
  obtain ⟨rest, h⟩ := h
  rw [Token.lexeme, if_pos ht, ht] at h
  generalize hlexeme : '"' :: t.text.toList ++ ['"'] = lexeme at h
  cases h with
  | string hlongest =>
    obtain ⟨body, hbody, rfl⟩ := hlongest.is
    have htext : t.text.toList = body := List.append_cancel_right (List.cons.inj hlexeme).2
    rwa [Exp.Writable, htext]

/-! ## Literals of derivations -/

/-- All literals among the expressions can be written. -/
def AllWritable (es : List Exp) : Prop := ∀ e ∈ es, e.Writable

theorem allWritable_nil : AllWritable [] := List.forall_mem_nil _

theorem allWritable_append {es fs : List Exp} :
    AllWritable (es ++ fs) ↔ AllWritable es ∧ AllWritable fs :=
  List.forall_mem_append

theorem allWritable_cons {e : Exp} {es : List Exp} :
    AllWritable (e :: es) ↔ e.Writable ∧ AllWritable es :=
  List.forall_mem_cons

theorem allWritable_singleton {e : Exp} : AllWritable [e] ↔ e.Writable :=
  List.forall_mem_singleton

/-- No name is a literal. -/
theorem TypeNode.writable (t : TypeNode) : AllWritable t.expressions := by
  cases t with
  | struct => exact allWritable_singleton.mpr trivial
  | _ => exact allWritable_nil

theorem VarDecl.writable (d : VarDecl) : AllWritable d.expressions :=
  allWritable_append.mpr ⟨d.type.writable, allWritable_singleton.mpr trivial⟩

theorem VarDecls.writable (ds : VarDecls) : AllWritable ds.expressions := by
  intro e he
  obtain ⟨d, -, he⟩ := List.mem_flatMap.mp he
  exact d.writable e he

namespace Grammar

mutual

theorem Derives.writable {x : Nonterminal} {ts : List Token} {e : Exp} :
    Derives x ts e → (∀ t ∈ ts, t.IsRead) → AllWritable e.expressions
  | .pass _ he, hts => he.writable hts
  | .groups _ hl _ hr, hts | .alone _ hl _ hr, hts | .assign hl _ _ hr, hts => by
    obtain ⟨hts, -, hus⟩ := by
      simpa only [List.forall_mem_append, List.forall_mem_cons] using hts
    exact allWritable_cons.mpr
      ⟨trivial, allWritable_append.mpr ⟨hl.writable hts, hr.writable hus⟩⟩
  | .not _ he, hts | .neg _ he, hts =>
    allWritable_cons.mpr ⟨trivial, he.writable (List.forall_mem_cons.mp hts).2⟩
  | .int ht hv, hts =>
    allWritable_singleton.mpr ((List.forall_mem_singleton.mp hts).writable_numeral ht hv)
  | .string ht, hts =>
    allWritable_singleton.mpr ((List.forall_mem_singleton.mp hts).writable_string ht)
  | .true _, _ | .false _, _ | .name _, _ => allWritable_singleton.mpr trivial
  | .group _ he _, hts => by
    obtain ⟨-, hts, -⟩ := by
      simpa only [List.forall_mem_append, List.forall_mem_cons, and_assoc] using hts
    exact he.writable hts
  | .call _ _ hes _, hts => by
    obtain ⟨-, -, hts, -⟩ := by
      simpa only [List.forall_mem_append, List.forall_mem_cons, and_assoc] using hts
    exact allWritable_cons.mpr ⟨trivial, allWritable_cons.mpr ⟨trivial, hes.writable hts⟩⟩
  | .field he _ _, hts => by
    have hloc := he.writable (List.forall_mem_append.mp hts).1
    exact allWritable_cons.mpr
      ⟨trivial, allWritable_append.mpr ⟨hloc, allWritable_singleton.mpr trivial⟩⟩

theorem Arguments.writable {ts : List Token} {es : List Exp} :
    Arguments ts es → (∀ t ∈ ts, t.IsRead) → AllWritable (Exp.listExpressions es)
  | .none, _ => allWritable_nil
  | .some hes, hts => hes.writable hts

theorem ArgumentList.writable {ts : List Token} {es : List Exp} :
    ArgumentList ts es → (∀ t ∈ ts, t.IsRead) → AllWritable (Exp.listExpressions es)
  | .last he, hts => allWritable_append.mpr ⟨he.writable hts, allWritable_nil⟩
  | .cons he _ hes, hts => by
    obtain ⟨hts, -, hus⟩ := by
      simpa only [List.forall_mem_append, List.forall_mem_cons] using hts
    exact allWritable_append.mpr ⟨he.writable hts, hes.writable hus⟩

end

theorem Acts.expressions {e : Exp} {s : Stmt} (h : Acts e s) : s.expressions = e.expressions := by
  cases h <;> rfl

mutual

theorem Statement.writable {ts : List Token} {s : Stmt} :
    Statement ts s → (∀ t ∈ ts, t.IsRead) → AllWritable s.expressions
  | .read _ _ he _, hts | .write _ _ he _, hts => by
    obtain ⟨-, -, hts, -⟩ := by
      simpa only [List.forall_mem_append, List.forall_mem_cons, and_assoc] using hts
    exact he.writable hts
  | .ifThen _ _ he _ hb, hts | .while _ _ he _ hb, hts => by
    obtain ⟨-, -, hts, -, hus⟩ := by
      simpa only [List.forall_mem_append, List.forall_mem_cons, and_assoc] using hts
    exact allWritable_append.mpr ⟨he.writable hts, hb.writable hus⟩
  | .ifElse _ _ he _ hb₁ _ hb₂, hts => by
    obtain ⟨-, -, hts, -, hus, -, hvs⟩ := by
      simpa only [List.forall_mem_append, List.forall_mem_cons, and_assoc] using hts
    exact allWritable_append.mpr
      ⟨allWritable_append.mpr ⟨he.writable hts, hb₁.writable hus⟩, hb₂.writable hvs⟩
  | .exit _ _, _ => allWritable_nil
  | .return _ he _, hts => by
    obtain ⟨-, hts, -⟩ := by
      simpa only [List.forall_mem_append, List.forall_mem_cons, and_assoc] using hts
    exact he.writable hts
  | .act he hs _, hts => by
    rw [hs.expressions]
    exact he.writable (List.forall_mem_append.mp hts).1
  | .increment he _ _ _, hts | .decrement he _ _ _, hts =>
    he.writable (List.forall_mem_append.mp hts).1

theorem Braces.writable {ts : List Token} {b : Block Stmt} :
    Braces ts b → (∀ t ∈ ts, t.IsRead) → AllWritable (Stmt.blockExpressions b)
  | .intro _ _ hss _, hts => by
    obtain ⟨-, -, hus, -⟩ := by
      simpa only [List.forall_mem_append, List.forall_mem_cons, and_assoc] using hts
    exact allWritable_append.mpr ⟨VarDecls.writable _, hss.writable hus⟩

theorem Statements.writable {ts : List Token} {ss : List Stmt} :
    Statements ts ss → (∀ t ∈ ts, t.IsRead) → AllWritable (Stmt.listExpressions ss)
  | .nil, _ => allWritable_nil
  | .cons hs hss, hts => by
    obtain ⟨hts, hus⟩ := List.forall_mem_append.mp hts
    exact allWritable_append.mpr ⟨hs.writable hts, hss.writable hus⟩

end

theorem Declaration.writable {ts : List Token} {d : Decl} (h : Declaration ts d)
    (hts : ∀ t ∈ ts, t.IsRead) : AllWritable d.expressions := by
  cases h with
  | struct => exact allWritable_cons.mpr ⟨trivial, VarDecls.writable _⟩
  | var => exact VarDecl.writable _
  | fn _ _ _ _ _ hb =>
    obtain ⟨-, -, -, -, -, hus⟩ := by
      simpa only [List.forall_mem_append, List.forall_mem_cons, and_assoc] using hts
    refine allWritable_append.mpr
      ⟨allWritable_append.mpr ⟨TypeNode.writable _, ?_⟩, hb.writable hus⟩
    exact allWritable_cons.mpr ⟨trivial, VarDecls.writable _⟩

theorem Declarations.writable {ts : List Token} {ds : List Decl} (h : Declarations ts ds)
    (hts : ∀ t ∈ ts, t.IsRead) : AllWritable (ds.flatMap Decl.expressions) := by
  induction h with
  | nil => exact allWritable_nil
  | cons hd _ ih =>
    obtain ⟨hts, hus⟩ := List.forall_mem_append.mp hts
    rw [List.flatMap_cons]
    exact allWritable_append.mpr ⟨hd.writable hts, ih hus⟩

end Grammar

/-! ## Literals of forms -/

namespace Exp

theorem writable_form (e : Exp) : e.form.Writable ↔ e.Writable := by
  cases e <;> exact Iff.rfl

mutual

/-- The expressions of a form are the forms of the expressions. -/
theorem expressions_form : (e : Exp) → e.form.expressions = e.expressions.map form
  | .int .. | .string .. | .bool .. | .ident _ | .unknown _ => rfl
  | .access i k loc f => by
    simp only [form, expressions, List.map_append, List.map_cons, List.map_nil,
      expressions_form loc]
  | .assign i l r | .binary i op l r => by
    simp only [form, expressions, List.map_append, List.map_cons, expressions_form l,
      expressions_form r]
  | .call i f sp es => by
    simp only [form, expressions, List.map_cons, listExpressions_form es]
  | .neg i e | .not i e => by
    simp only [form, expressions, List.map_cons, expressions_form e]
termination_by structural e => e

theorem listExpressions_form : (es : List Exp) →
    listExpressions (listForm es) = (listExpressions es).map form
  | [] => rfl
  | e :: es => by
    simp only [listForm, listExpressions, List.map_append, expressions_form e,
      listExpressions_form es]
termination_by structural es => es

end

end Exp

theorem TypeNode.expressions_form (t : TypeNode) :
    t.form.expressions = t.expressions.map Exp.form := by
  cases t <;> rfl

theorem VarDecl.expressions_form (d : VarDecl) :
    d.form.expressions = d.expressions.map Exp.form := by
  simp only [form, expressions, List.map_append, List.map_cons, List.map_nil,
    TypeNode.expressions_form, Exp.form]

theorem VarDecls.expressions_form (ds : VarDecls) :
    ds.form.expressions = ds.expressions.map Exp.form := by
  simp only [form, expressions, List.flatMap_map, List.map_flatMap, VarDecl.expressions_form]

namespace Stmt

mutual

theorem expressions_form : (s : Stmt) → s.form.expressions = s.expressions.map Exp.form
  | .assign _ e | .increment _ e | .decrement _ e | .read _ e | .write _ e | .call _ e
  | .return _ (some e) => e.expressions_form
  | .ifThen _ e b | .while _ e b => by
    simp only [form, expressions, List.map_append, e.expressions_form, blockExpressions_form b]
  | .ifElse _ e b₁ b₂ => by
    simp only [form, expressions, List.map_append, e.expressions_form, blockExpressions_form b₁,
      blockExpressions_form b₂]
  | .return _ none | .unknown _ => rfl
termination_by structural s => s

theorem blockExpressions_form : (b : Block Stmt) →
    blockExpressions (blockForm b) = (blockExpressions b).map Exp.form
  | ⟨ds, sp, ss⟩ => by
    simp only [blockForm, blockExpressions, List.map_append, ds.expressions_form,
      listExpressions_form ss]
termination_by structural b => b

theorem listExpressions_form : (ss : List Stmt) →
    listExpressions (listForm ss) = (listExpressions ss).map Exp.form
  | [] => rfl
  | s :: ss => by
    simp only [listForm, listExpressions, List.map_append, expressions_form s,
      listExpressions_form ss]
termination_by structural ss => ss

end

end Stmt

theorem Decl.expressions_form (d : Decl) : d.form.expressions = d.expressions.map Exp.form := by
  cases d with
  | var d => exact d.expressions_form
  | fn d =>
    simp only [form, FnDecl.form, expressions, List.map_append, List.map_cons,
      TypeNode.expressions_form, VarDecls.expressions_form, Stmt.blockExpressions_form, Exp.form]
  | struct d =>
    simp only [form, StructDecl.form, expressions, List.map_cons, VarDecls.expressions_form,
      Exp.form]
  | unknown => rfl

theorem Program.expressions_form (p : Program) :
    p.form.expressions = p.expressions.map Exp.form := by
  simp only [form, expressions, List.flatMap_map, List.map_flatMap, Decl.expressions_form]

/-- What holds of the expressions of a tree whatever their annotations are holds of those of every
tree of the same form. -/
theorem Program.forall_expressions_of_form {P : Exp → Prop} (hP : ∀ e : Exp, P e.form ↔ P e)
    {p q : Program} (hform : q.form = p.form) (h : ∀ e ∈ p.expressions, P e) :
    ∀ e ∈ q.expressions, P e := by
  intro e he
  have hmem : e.form ∈ p.expressions.map Exp.form := by
    rw [← p.expressions_form, ← hform, q.expressions_form]
    exact List.mem_map_of_mem he
  obtain ⟨e', he', heq⟩ := List.mem_map.mp hmem
  rw [← hP e, ← heq, hP e']
  exact h e' he'

/-- Every program that a text is read as can be printed. -/
theorem Program.grammatical_of_parse {file : Option String} {source : String} {p : Program}
    (h : Program.parse file source = .ok p) : p.Grammatical := by
  refine ⟨parse_formed h, fun e he => ?_⟩
  obtain ⟨tokens, q, hscan, hq, rfl⟩ := exists_ofTokens_of_parse h
  obtain ⟨ts, gap, hlexed, -, rfl⟩ := Token.lexed_of_scan hscan
  obtain ⟨ts', eof, ds, htokens, hform, hds⟩ := derived_of_ofTokens (Token.text_of_scan hscan) hq
  obtain ⟨rfl, -⟩ := List.append_inj' htokens rfl
  have hwritable : AllWritable q.form.expressions := by
    rw [hform]
    exact hds.writable hlexed.isRead
  rw [expressions_form] at hwritable
  exact e.writable_form.mp (hwritable _ (List.mem_map_of_mem he))

end CMinusMinus
