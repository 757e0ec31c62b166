import CMinusMinus.Parse.Program
import CMinusMinus.Proofs.Spans.Reading

/-!
# Programs of the same words

Where two lists of tokens have the same words, the programs that are read off them differ in spans
only, or a token at the same place is refused in both for the same cause (`Program.ofTokens_agree`).
What begins a declaration and which declaration it begins are facts about the words to come
(`beginsDecl_of_word`).
-/

namespace CMinusMinus

namespace Parse

open Cursor

variable {ps : List (Token × Token)} {c c' : Cursor}

/-! ## Declarations of variables -/

theorem wordType?_of_word {t t' : Token} (h : t.word = t'.word) : wordType? t = wordType? t' := by
  have hkind : t.kind = t'.kind := congrArg Prod.fst h
  unfold wordType?
  rw [hkind]

theorem beginsDecl_of_word {t t' : Token} (h : t.word = t'.word) :
    beginsDecl t = beginsDecl t' := by
  have hkind : t.kind = t'.kind := congrArg Prod.fst h
  rw [beginsDecl, beginsDecl, wordType?_of_word h, hkind]

/-- A word type is written the same wherever it stands. -/
theorem respan_wordType? {t : Token} {node : Option Span → TypeNode} (h : wordType? t = some node)
    (s s' : Option Span) :
    (node s).respan Span.forget = (node s').respan Span.forget := by
  unfold wordType? at h
  split at h <;> cases h <;> rfl

theorem agree_wordType (h : c.Twin ps c') :
    Agree ps (TypeNode.respan Span.forget) (wordType c) (wordType c') := by
  unfold wordType
  rcases h.takeIf? wordType? id fun t t' ht => congrArg (Option.map id) (wordType?_of_word ht) with
    ⟨hn, hn'⟩ | ⟨node, _, t, t', c₁, c₁', h₁, h₁', hs, hs', hnode, htwin⟩
  · rw [hn, hn']
    exact .refuse h _
  · obtain rfl : _ = _ := hnode
    rw [hs, hs']
    exact .ok (respan_wordType? (rest_of_takeIf? hs).2 _ _) htwin

theorem agree_varType (h : c.Twin ps c') :
    Agree ps (TypeNode.respan Span.forget) (varType c) (varType c') := by
  unfold varType
  rcases h.take? (.keyword .struct) with ⟨hn, hn'⟩ | ⟨t, t', c₁, c₁', h₁, h₁', hs, hs', -, htwin⟩
  · rw [hn, hn']
    exact agree_wordType h
  · rw [hs, hs']
    refine (agree_ident htwin _).bind fun x x' c₂ c₂' _ _ hx htwin₂ => ?_
    exact .ok (congrArg (TypeNode.struct none) hx) htwin₂

theorem agree_varDecl (h : c.Twin ps c') :
    Agree ps (VarDecl.respan Span.forget) (varDecl c) (varDecl c') := by
  refine (agree_varType h).bind fun type type' c₁ c₁' _ _ htype htwin => ?_
  refine (agree_ident htwin _).bind fun x x' c₂ c₂' _ _ hx htwin₂ => ?_
  refine (agree_expect htwin₂ _).bind fun _ _ c₃ c₃' _ _ _ htwin₃ => ?_
  exact .ok (congrArg₂ (VarDecl.mk .variable none) htype hx) htwin₃

theorem agree_varDeclItems {c c' : Cursor} (h : c.Twin ps c') :
    Agree ps (List.map (VarDecl.respan Span.forget)) (varDeclItems c) (varDeclItems c') := by
  rw [varDeclItems.eq_def c, varDeclItems.eq_def c', beginsDecl_of_word (h.words _ h.peek)]
  split
  · refine (agree_varDecl h).bind fun d d' c₁ c₁' h₁ _ hd htwin => ?_
    refine (agree_varDeclItems htwin).bind fun ds ds' c₂ c₂' _ _ hds htwin₂ => ?_
    exact .ok (congrArg₂ List.cons hd hds) htwin₂
  · exact .ok rfl h
termination_by c.size

theorem agree_varDecls (h : c.Twin ps c') :
    Agree ps (VarDecls.respan Span.forget) (varDecls c) (varDecls c') := by
  refine (agree_varDeclItems h).bind fun ds ds' c₁ c₁' _ _ hds htwin => ?_
  exact .ok (congrArg (VarDecls.mk none) hds) htwin

theorem agree_formalItems {c c' : Cursor} (h : c.Twin ps c') :
    Agree ps (List.map (VarDecl.respan Span.forget)) (formalItems c) (formalItems c') := by
  rw [formalItems.eq_def c, formalItems.eq_def c']
  refine (agree_wordType h).bind fun type type' c₁ c₁' h₁ _ htype htwin => ?_
  refine (agree_ident htwin _).bind fun x x' c₂ c₂' h₂ _ hx htwin₂ => ?_
  have hformal : VarDecl.respan Span.forget ⟨.formal, some (c₂.since c.here), type, x⟩ =
      VarDecl.respan Span.forget ⟨.formal, some (c₂'.since c'.here), type', x'⟩ :=
    congrArg₂ (VarDecl.mk .formal none) htype hx
  dsimp only
  rcases htwin₂.take? (.mark .comma) with
    ⟨hn, hn'⟩ | ⟨t, t', c₃, c₃', h₃, h₃', hs, hs', -, htwin₃⟩
  · rw [hn, hn']
    refine (agree_expect htwin₂ _).bind fun _ _ _ _ _ _ _ htwin₃ => ?_
    exact .ok (congrArg ([·]) hformal) htwin₃
  · rw [hs, hs']
    refine (agree_formalItems htwin₃).bind fun ds ds' _ _ _ _ hds htwin₄ => ?_
    exact .ok (congrArg₂ List.cons hformal hds) htwin₄
termination_by c.size

theorem agree_formals (h : c.Twin ps c') :
    Agree ps (VarDecls.respan Span.forget) (formals c) (formals c') := by
  refine (agree_expect h _).bind fun _ _ c₁ c₁' _ _ _ htwin => ?_
  dsimp only
  rcases htwin.take? (.mark .rightParen) with
    ⟨hn, hn'⟩ | ⟨t, t', c₂, c₂', h₂, h₂', hs, hs', -, htwin₂⟩
  · rw [hn, hn']
    refine (agree_formalItems htwin).bind fun ds ds' _ _ _ _ hds htwin₂ => ?_
    exact .ok (congrArg (VarDecls.mk none) hds) htwin₂
  · rw [hs, hs']
    exact .ok rfl htwin₂

/-! ## Statements -/

theorem stepOp?_of_word {t t' : Token} (h : t.word = t'.word) : stepOp? t = stepOp? t' := by
  have hkind : t.kind = t'.kind := congrArg Prod.fst h
  unfold stepOp?
  rw [hkind]

/-- A step is written the same wherever it stands. -/
theorem respan_stepOp? {t : Token} {op : Option Span → Exp → Stmt} (h : stepOp? t = some op)
    (s s' : Option Span) {e e' : Exp} (he : bareExp e = bareExp e') :
    (op s e).respan Span.forget = (op s' e').respan Span.forget := by
  unfold stepOp? at h
  split at h
  · cases h
    exact congrArg (Stmt.increment none) he
  · cases h
    exact congrArg (Stmt.decrement none) he
  · cases h

/-- The statement that a bare expression is. -/
def bareStmt? : Exp → Option Stmt
  | e@(.assign ..) => some (.assign none e)
  | e@(.call ..) => some (.call none e)
  | _ => none

/-- Which statement an expression is does not depend on its spans. -/
theorem respan_stmtOfExp? (s s' : Span) {e e' : Exp} (he : bareExp e = bareExp e') :
    (stmtOfExp? s e).map (Stmt.respan Span.forget) =
      (stmtOfExp? s' e').map (Stmt.respan Span.forget) := by
  have hself : ∀ (s : Span) (e : Exp),
      (stmtOfExp? s e).map (Stmt.respan Span.forget) = bareStmt? (bareExp e) :=
    fun s e => by cases e <;> rfl
  rw [hself, hself, he]

theorem agree_expStmt (h : c.Twin ps c') :
    Agree ps (Stmt.respan Span.forget) (expStmt c) (expStmt c') := by
  refine (agree_exp h).bind fun e e' c₁ c₁' _ _ he htwin => ?_
  dsimp only
  rcases htwin.takeIf? stepOp? id fun t t' ht => congrArg (Option.map id) (stepOp?_of_word ht) with
    ⟨hn, hn'⟩ | ⟨op, _, t, t', c₂, c₂', h₂, h₂', hs, hs', hop, htwin₂⟩
  · rw [hn, hn']
    dsimp only
    unfold expect
    rcases htwin.take? Wanted.statementEnd.kind with
      ⟨hn, hn'⟩ | ⟨t, t', c₂, c₂', h₂, h₂', hs, hs', ht, htwin₂⟩
    · rw [hn, hn']
      exact .refuse htwin _
    · rw [hs, hs']
      have hstmt := respan_stmtOfExp? (c₂.since c.here) (c₂'.since c'.here) he
      dsimp only [bind, Except.bind]
      cases hfirst : stmtOfExp? (c₂.since c.here) e with
      | none =>
        rw [hfirst] at hstmt
        rw [Option.map_eq_none_iff.mp hstmt.symm]
        exact .error ht
      | some s =>
        rw [hfirst] at hstmt
        obtain ⟨s', hs', heq⟩ := Option.map_eq_some_iff.mp hstmt.symm
        rw [hs']
        exact .ok heq.symm htwin₂
  · obtain rfl : _ = _ := hop
    rw [hs, hs']
    dsimp only
    rw [isLocation_bareExp he]
    split
    · refine (agree_expect htwin₂ _).bind fun _ _ c₃ c₃' _ _ _ htwin₃ => ?_
      exact .ok (respan_stepOp? (rest_of_takeIf? hs).2 _ _ he) htwin₃
    · exact .refuse htwin _

theorem agree_readStmt (h : c.Twin ps c') (start start' : Position) :
    Agree ps (Stmt.respan Span.forget) (readStmt start c) (readStmt start' c') := by
  refine (agree_expect h _).bind fun _ _ c₁ c₁' _ _ _ htwin => ?_
  refine (agree_location htwin).bind fun e e' c₂ c₂' _ _ he htwin₂ => ?_
  refine (agree_expect htwin₂ _).bind fun _ _ c₃ c₃' _ _ _ htwin₃ => ?_
  exact .ok (congrArg (Stmt.read none) he) htwin₃

theorem agree_writeStmt (h : c.Twin ps c') (start start' : Position) :
    Agree ps (Stmt.respan Span.forget) (writeStmt start c) (writeStmt start' c') := by
  refine (agree_expect h _).bind fun _ _ c₁ c₁' _ _ _ htwin => ?_
  refine (agree_exp htwin).bind fun e e' c₂ c₂' _ _ he htwin₂ => ?_
  refine (agree_expect htwin₂ _).bind fun _ _ c₃ c₃' _ _ _ htwin₃ => ?_
  exact .ok (congrArg (Stmt.write none) he) htwin₃

theorem agree_returnStmt (h : c.Twin ps c') (start start' : Position) :
    Agree ps (Stmt.respan Span.forget) (returnStmt start c) (returnStmt start' c') := by
  unfold returnStmt
  rcases h.take? (.mark .semi) with ⟨hn, hn'⟩ | ⟨t, t', c₁, c₁', h₁, h₁', hs, hs', -, htwin⟩
  · rw [hn, hn']
    refine (agree_exp h).bind fun e e' c₁ c₁' _ _ he htwin => ?_
    refine (agree_expect htwin _).bind fun _ _ c₂ c₂' _ _ _ htwin₂ => ?_
    exact .ok (congrArg (fun e => Stmt.return none (some e)) he) htwin₂
  · rw [hs, hs']
    exact .ok rfl htwin

theorem agree_condition (h : c.Twin ps c') (keyword : Keyword) :
    Agree ps bareExp (condition keyword c) (condition keyword c') := by
  refine (agree_expect h _).bind fun _ _ c₁ c₁' _ _ _ htwin => ?_
  refine (agree_exp htwin).bind fun e e' c₂ c₂' _ _ he htwin₂ => ?_
  refine (agree_expect htwin₂ _).bind fun _ _ c₃ c₃' _ _ _ htwin₃ => ?_
  exact .ok he htwin₃

mutual

theorem agree_stmt {c c' : Cursor} (h : c.Twin ps c') :
    Agree ps (Stmt.respan Span.forget) (stmt c) (stmt c') := by
  rw [stmt.eq_def c, stmt.eq_def c']
  rcases h.take? (.keyword .cin) with ⟨hn, hn'⟩ | ⟨t, t', c₁, c₁', h₁, h₁', hs, hs', -, htwin⟩
  · rw [hn, hn']
    dsimp only
    rcases h.take? (.keyword .cout) with ⟨hn, hn'⟩ | ⟨t, t', c₁, c₁', h₁, h₁', hs, hs', -, htwin⟩
    · rw [hn, hn']
      dsimp only
      rcases h.take? (.keyword .if) with ⟨hn, hn'⟩ | ⟨t, t', c₁, c₁', h₁, h₁', hs, hs', -, htwin⟩
      · rw [hn, hn']
        dsimp only
        rcases h.take? (.keyword .while) with
          ⟨hn, hn'⟩ | ⟨t, t', c₁, c₁', h₁, h₁', hs, hs', -, htwin⟩
        · rw [hn, hn']
          dsimp only
          rcases h.take? (.keyword .return) with
            ⟨hn, hn'⟩ | ⟨t, t', c₁, c₁', h₁, h₁', hs, hs', -, htwin⟩
          · rw [hn, hn']
            exact agree_expStmt h
          · rw [hs, hs']
            refine (agree_returnStmt htwin _ _).bind fun s s' c₂ c₂' _ _ hstmt htwin₂ => ?_
            exact .ok hstmt htwin₂
        · rw [hs, hs']
          refine (agree_condition htwin _).bind fun e e' c₂ c₂' h₂ _ he htwin₂ => ?_
          refine (agree_block _ htwin₂).bind fun b b' c₃ c₃' _ _ hb htwin₃ => ?_
          exact .ok (congrArg₂ (Stmt.while none) he hb) htwin₃
      · rw [hs, hs']
        refine (agree_ifStmt c.here c'.here htwin).bind fun s s' c₂ c₂' _ _ hstmt htwin₂ => ?_
        exact .ok hstmt htwin₂
    · rw [hs, hs']
      refine (agree_writeStmt htwin _ _).bind fun s s' c₂ c₂' _ _ hstmt htwin₂ => ?_
      exact .ok hstmt htwin₂
  · rw [hs, hs']
    refine (agree_readStmt htwin _ _).bind fun s s' c₂ c₂' _ _ hstmt htwin₂ => ?_
    exact .ok hstmt htwin₂
termination_by (c.size, 0)

theorem agree_ifStmt (start start' : Position) {c c' : Cursor} (h : c.Twin ps c') :
    Agree ps (Stmt.respan Span.forget) (ifStmt start c) (ifStmt start' c') := by
  rw [ifStmt.eq_def start c, ifStmt.eq_def start' c']
  refine (agree_condition h _).bind fun e e' c₁ c₁' h₁ _ he htwin => ?_
  refine (agree_block _ htwin).bind fun yes yes' c₂ c₂' h₂ _ hyes htwin₂ => ?_
  dsimp only
  rcases htwin₂.take? (.keyword .else) with
    ⟨hn, hn'⟩ | ⟨t, t', c₃, c₃', h₃, h₃', hs, hs', -, htwin₃⟩
  · rw [hn, hn']
    exact .ok (congrArg₂ (Stmt.ifThen none) he hyes) htwin₂
  · rw [hs, hs']
    refine (agree_block _ htwin₃).bind fun no no' c₄ c₄' _ _ hno htwin₄ => ?_
    have hboth : Stmt.respan Span.forget (.ifElse (some (c₄.since start)) e yes no) =
        Stmt.respan Span.forget (.ifElse (some (c₄'.since start')) e' yes' no') := by
      show Stmt.ifElse none (bareExp e) _ _ = Stmt.ifElse none (bareExp e') _ _
      rw [he, hyes, hno]
    exact .ok hboth htwin₄
termination_by (c.size, 0)

theorem agree_block (wanted : Wanted) {c c' : Cursor} (h : c.Twin ps c') :
    Agree ps (Stmt.blockRespan Span.forget) (block wanted c) (block wanted c') := by
  rw [block.eq_def wanted c, block.eq_def wanted c']
  refine (agree_expect h _).bind fun _ _ c₁ c₁' h₁ _ _ htwin => ?_
  refine (agree_varDecls htwin).bind fun ds ds' c₂ c₂' h₂ _ hds htwin₂ => ?_
  refine (agree_stmts c₂.here c₂'.here htwin₂).bind fun s s' c₃ c₃' _ _ hss htwin₃ => ?_
  exact .ok (congrArg₂ (Block.mk · none ·) hds hss) htwin₃
termination_by (c.size, 0)

theorem agree_stmts (start start' : Position) {c c' : Cursor} (h : c.Twin ps c') :
    Agree ps (fun x => Stmt.listRespan Span.forget x.1) (stmts start c) (stmts start' c') := by
  rw [stmts.eq_def start c, stmts.eq_def start' c']
  rcases h.take? (.mark .rightCurly) with ⟨hn, hn'⟩ | ⟨t, t', c₁, c₁', h₁, h₁', hs, hs', -, htwin⟩
  · rw [hn, hn']
    dsimp only
    rw [h.isEmpty_rest, beginsDecl_of_word (h.words _ h.peek)]
    split
    · exact .refuse h _
    · split
      · exact .refuse h _
      · refine (agree_stmt h).bind fun s s' c₁ c₁' h₁ _ hstmt htwin => ?_
        refine (agree_stmts start start' htwin).bind fun ss ss' c₂ c₂' _ _ hss htwin₂ => ?_
        exact .ok (congrArg₂ List.cons hstmt hss) htwin₂
  · rw [hs, hs']
    exact .ok rfl htwin
termination_by (c.size, 1)

end

/-! ## Declarations at the top -/

theorem agree_structDecl (h : c.Twin ps c') :
    Agree ps (StructDecl.respan Span.forget) (structDecl c) (structDecl c') := by
  unfold structDecl
  rcases h.take? (.keyword .struct) with ⟨hn, hn'⟩ | ⟨t, t', c₁, c₁', h₁, h₁', hs, hs', -, htwin⟩
  · rw [hn, hn']
    exact .refuse h _
  · rw [hs, hs']
    refine (agree_ident htwin _).bind fun x x' c₂ c₂' _ _ hx htwin₂ => ?_
    refine (agree_expect htwin₂ _).bind fun _ _ c₃ c₃' _ _ _ htwin₃ => ?_
    refine (agree_varDecls htwin₃).bind fun ds ds' c₄ c₄' _ _ hds htwin₄ => ?_
    have hempty : ds.items.isEmpty = ds'.items.isEmpty := by
      have hitems := congrArg (fun ds => ds.items.isEmpty) hds
      simpa [VarDecls.respan] using hitems
    dsimp only
    rw [hempty]
    split
    · exact .refuse htwin₄ _
    · refine (agree_expect htwin₄ _).bind fun _ _ c₅ c₅' _ _ _ htwin₅ => ?_
      refine (agree_expect htwin₅ _).bind fun _ _ c₆ c₆' _ _ _ htwin₆ => ?_
      exact .ok (congrArg₂ (StructDecl.mk none) hx hds) htwin₆

theorem agree_fnDecl (h : c.Twin ps c') :
    Agree ps (FnDecl.respan Span.forget) (fnDecl c) (fnDecl c') := by
  refine (agree_wordType h).bind fun type type' c₁ c₁' _ _ htype htwin => ?_
  refine (agree_ident htwin _).bind fun x x' c₂ c₂' _ _ hx htwin₂ => ?_
  refine (agree_formals htwin₂).bind fun fs fs' c₃ c₃' _ _ hfs htwin₃ => ?_
  refine (agree_block _ htwin₃).bind fun b b' c₄ c₄' _ _ hb htwin₄ => ?_
  have hx : Ident.respan Span.forget x = Ident.respan Span.forget x' := hx
  refine .ok ?_ htwin₄
  unfold FnDecl.respan
  dsimp only
  rw [htype, hx, hfs, hb]
  rfl

theorem agree_decl (h : c.Twin ps c') :
    Agree ps (Decl.respan Span.forget) (decl c) (decl c') := by
  unfold decl
  rw [h.kind_eq h.peek, h.kind_eq (h.peekAt 2), wordType?_of_word (h.words _ h.peek),
    beginsDecl_of_word (h.words _ h.peek)]
  split
  · refine (agree_structDecl h).bind fun d d' _ _ _ _ hd htwin => ?_
    exact .ok (congrArg Decl.struct hd) htwin
  · split
    · refine (agree_fnDecl h).bind fun d d' _ _ _ _ hd htwin => ?_
      exact .ok (congrArg Decl.fn hd) htwin
    · split
      · refine (agree_varDecl h).bind fun d d' _ _ _ _ hd htwin => ?_
        exact .ok (congrArg Decl.var hd) htwin
      · exact .refuse h _

theorem agree_decls {c c' : Cursor} (h : c.Twin ps c') :
    Agree ps (List.map (Decl.respan Span.forget)) (decls c) (decls c') := by
  rw [decls.eq_def c, decls.eq_def c', h.isEmpty_rest]
  split
  · exact .ok rfl h
  · refine (agree_decl h).bind fun d d' c₁ c₁' h₁ _ hd htwin => ?_
    refine (agree_decls htwin).bind fun ds ds' c₂ c₂' _ _ hds htwin₂ => ?_
    exact .ok (congrArg₂ List.cons hd hds) htwin₂
termination_by c.size

end Parse

/-! ## Programs -/

/-- Tokens at the same place of two lists of the same words have the same word. -/
theorem Token.word_of_mem_zip {ts ts' : List Token} (h : ts.map word = ts'.map word)
    {p : Token × Token} (hp : p ∈ ts.zip ts') : p.1.word = p.2.word := by
  obtain ⟨i, hi⟩ := List.mem_iff_getElem?.mp hp
  obtain ⟨hfirst, hsecond⟩ := List.getElem?_zip_eq_some.mp hi
  have hword := congrArg (·[i]?) h
  simp only [List.getElem?_map, hfirst, hsecond, Option.map_some] at hword
  exact Option.some.inj hword

/-- Cursors before the same words are twins. -/
theorem Cursor.Twin.ofTokens {ts ts' : List Token} {t t' : Token}
    (h : (ts ++ [t]).map Token.word = (ts' ++ [t']).map Token.word) :
    (Cursor.ofTokens ts t).Twin ((ts ++ [t]).zip (ts' ++ [t'])) (Cursor.ofTokens ts' t') := by
  have hlength : ts.length = ts'.length := by
    simpa using congrArg List.length h
  rw [List.zip_append hlength]
  refine ⟨?_, ⟨ts.zip ts', List.subset_append_left _ _, ?_, ?_⟩, ?_⟩
  · rw [← List.zip_append hlength]
    exact fun p hp => Token.word_of_mem_zip h hp
  · exact (List.map_fst_zip (Nat.le_of_eq hlength)).symm
  · exact (List.map_snd_zip (Nat.le_of_eq hlength.symm)).symm
  · exact List.mem_append_right _ (List.mem_singleton_self _)

/-- Lists of the same words are programs that differ in spans only, or are refused at the same
place for the same cause. -/
theorem Program.ofTokens_agree {ts ts' : List Token} (h : ts.map Token.word = ts'.map Token.word) :
    (∃ (cause : SyntaxCause) (t t' : Token) (i : Nat), Program.ofTokens ts = .error ⟨cause, t⟩ ∧
      Program.ofTokens ts' = .error ⟨cause, t'⟩ ∧ ts[i]? = some t ∧ ts'[i]? = some t') ∨
    ∃ p p', Program.ofTokens ts = .ok p ∧ Program.ofTokens ts' = .ok p' ∧
      p.respan Span.forget = p'.respan Span.forget := by
  rcases List.eq_nil_or_concat ts with rfl | ⟨us, u, rfl⟩
  · obtain rfl : ts' = [] := List.map_eq_nil_iff.mp h.symm
    have hnil : ∃ p, Program.ofTokens [] = .ok p := by
      rw [Program.ofTokens, List.getLast?_nil]
      dsimp only
      rw [Parse.program, Parse.decls]
      exact ⟨_, rfl⟩
    obtain ⟨p, hp⟩ := hnil
    exact .inr ⟨p, p, hp, hp, rfl⟩
  · rcases List.eq_nil_or_concat ts' with rfl | ⟨us', u', rfl⟩
    · exact absurd (List.map_eq_nil_iff.mp h) (by simp)
    · have hlast : ∀ (vs : List Token) (v : Token),
          Program.ofTokens (vs ++ [v]) = Parse.program vs v := fun vs v => by
        rw [Program.ofTokens, List.getLast?_concat, List.dropLast_concat]
      rw [List.concat_eq_append, List.concat_eq_append] at h ⊢
      rw [hlast, hlast, Parse.program, Parse.program]
      have hagree := Parse.agree_decls (Cursor.Twin.ofTokens h)
      revert hagree
      generalize Parse.decls (Cursor.ofTokens us u) = x
      generalize Parse.decls (Cursor.ofTokens us' u') = x'
      intro hagree
      cases hagree with
      | @error cause t t' ht =>
        obtain ⟨i, hi⟩ := List.mem_iff_getElem?.mp ht
        obtain ⟨hfirst, hsecond⟩ := List.getElem?_zip_eq_some.mp hi
        exact .inl ⟨cause, t, t', i, rfl, rfl, hfirst, hsecond⟩
      | ok hds => exact .inr ⟨_, _, rfl, rfl, congrArg (Program.mk none none · none) hds⟩

end CMinusMinus
