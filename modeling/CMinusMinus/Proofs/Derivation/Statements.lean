import CMinusMinus.Proofs.Derivation.Acceptance

/-!
# Statements and declarations are read

What is derived as a declaration or a statement is read.  The first token of each tells which
reader it goes to, and that what comes before it has ended: no statement begins like a declaration
or with `else`, and the third token of a declaration tells what it declares.
-/

namespace CMinusMinus

open Grammar Parse
open Token (nextKind Stops)

/-! ## Declarations of variables -/

/-- The kinds of token that declarations begin with. -/
def TokenKind.beginsDecl : TokenKind → Bool
  | .keyword .struct | .keyword .int | .keyword .bool | .keyword .void => true
  | _ => false

theorem Parse.beginsDecl_eq (t : Token) : beginsDecl t = t.kind.beginsDecl := by
  unfold beginsDecl wordType?
  cases t.kind with
  | keyword k => cases k <;> rfl
  | _ => rfl

theorem Cursor.At.beginsDecl {c : Cursor} {ts : List Token} (h : c.At ts) :
    beginsDecl c.peek = (nextKind ts).beginsDecl := by
  rw [beginsDecl_eq, h.peek]

namespace Grammar

theorem WordType.exists_wordType? {t : Token} {type : TypeNode} (h : WordType t type) :
    ∃ make, wordType? t = some make ∧ ∀ span, (make span).form = type := by
  unfold wordType?
  cases h with
  | int ht => rw [ht]; exact ⟨_, rfl, fun _ => rfl⟩
  | bool ht => rw [ht]; exact ⟨_, rfl, fun _ => rfl⟩
  | void ht => rw [ht]; exact ⟨_, rfl, fun _ => rfl⟩

theorem WordType.begins {t : Token} {type : TypeNode} (h : WordType t type) :
    t.kind.beginsDecl = true ∧ t.kind ≠ .keyword .struct := by
  cases h with
  | int ht => rw [ht]; exact ⟨rfl, by decide⟩
  | bool ht => rw [ht]; exact ⟨rfl, by decide⟩
  | void ht => rw [ht]; exact ⟨rfl, by decide⟩

variable {c : Cursor} {ts rest : List Token}

theorem WordType.answers {t : Token} {type : TypeNode} (h : WordType t type)
    (hc : c.At (t :: rest)) : Answers TypeNode.form rest type (wordType c) := by
  obtain ⟨make, hmake, hform⟩ := h.exists_wordType?
  obtain ⟨c₁, h₁, htake, hc₁⟩ := hc.takeIf hmake
  rw [wordType, htake]
  exact .ok (hform _) hc₁

theorem answers_structType {t s : Token} (ht : t.kind = .keyword .struct) (hs : s.kind = .name)
    (hc : c.At (t :: s :: rest)) :
    Answers TypeNode.form rest (.struct none (Grammar.identOf s)) (varType c) := by
  obtain ⟨c₁, h₁, htake, hc₁⟩ := hc.take
  rw [varType, ← ht, htake]
  refine (answers_ident hc₁ hs .structName rfl).bind fun x c₂ h₂ hx hc₂ => ?_
  exact .ok (by rw [TypeNode.form, hx]) hc₂

theorem WordType.answers_varType {t : Token} {type : TypeNode} (h : WordType t type)
    (hc : c.At (t :: rest)) : Answers TypeNode.form rest type (varType c) := by
  rw [varType, hc.take_none h.begins.2]
  exact h.answers hc

theorem answers_declared {type : TypeNode} {x u : Token} (hx : x.kind = .name)
    (hu : u.kind = .mark .semi) (htype : Answers TypeNode.form (x :: u :: rest) type (varType c)) :
    Answers VarDecl.form rest ⟨.variable, none, type, Grammar.identOf x⟩ (varDecl c) := by
  refine htype.bind fun type' c₁ h₁ htype' hc₁ => ?_
  refine (answers_ident hc₁ hx .variableName rfl).bind fun name c₂ h₂ hname hc₂ => ?_
  refine (answers_expect hc₂ .variableEnd hu).bind fun _ c₃ h₃ _ hc₃ => ?_
  exact .ok (by rw [VarDecl.form, htype', hname]) hc₃

theorem Variable.answers {d : VarDecl} (h : Variable ts d) (hc : c.At (ts ++ rest)) :
    Answers VarDecl.form rest d (varDecl c) := by
  cases h with
  | word ht hx hu => exact answers_declared hx hu (ht.answers_varType hc)
  | struct ht hs hx hu => exact answers_declared hx hu (answers_structType ht hs hc)

theorem Variable.head {d : VarDecl} (h : Variable ts d) :
    ∃ t us, ts = t :: us ∧ t.kind.beginsDecl = true := by
  cases h with
  | word ht => exact ⟨_, _, rfl, ht.begins.1⟩
  | struct ht => exact ⟨_, _, rfl, by rw [ht]; rfl⟩

theorem Variables.answers {ds : List VarDecl} (h : Variables ts ds) {c : Cursor}
    (hc : c.At (ts ++ rest)) (hrest : (nextKind rest).beginsDecl = false) :
    Answers (List.map VarDecl.form) rest ds (varDeclItems c) := by
  induction h generalizing c with
  | nil =>
    rw [varDeclItems, hc.beginsDecl, List.nil_append, hrest]
    exact .ok rfl hc
  | cons hd _ ih =>
    obtain ⟨t, us, hts, ht⟩ := hd.head
    have hbegins : beginsDecl c.peek = true := by
      rw [hc.beginsDecl, hts]
      exact ht
    rw [List.append_assoc] at hc
    rw [varDeclItems, if_pos hbegins]
    refine (hd.answers hc).bind fun d c₁ h₁ hd' hc₁ => ?_
    refine (ih hc₁).bind fun ds c₂ h₂ hds hc₂ => ?_
    exact .ok (by rw [List.map_cons, hd', hds]) hc₂

theorem Variables.answers_varDecls {ds : List VarDecl} (h : Variables ts ds)
    (hc : c.At (ts ++ rest)) (hrest : (nextKind rest).beginsDecl = false) :
    Answers VarDecls.form rest { items := ds } (varDecls c) := by
  refine (h.answers hc hrest).bind fun ds c₁ h₁ hds hc₁ => ?_
  exact .ok (by rw [VarDecls.form, hds]) hc₁

/-! ## Formals -/

theorem FormalList.answers {ds : List VarDecl} (h : FormalList ts ds) {q : Token}
    (hq : q.kind = .mark .rightParen) {c : Cursor} (hc : c.At (ts ++ q :: rest)) :
    Answers (List.map VarDecl.form) rest ds (formalItems c) := by
  induction h generalizing c with
  | last ht hx =>
    rw [formalItems]
    refine (ht.answers hc).bind fun type c₁ h₁ htype hc₁ => ?_
    refine (answers_ident hc₁ hx .formalName rfl).bind fun name c₂ h₂ hname hc₂ => ?_
    have hcomma : nextKind (q :: rest) ≠ .mark .comma := by
      rw [nextKind, hq]
      decide
    dsimp only
    rw [hc₂.take_none hcomma]
    refine (answers_expect hc₂ .formalsEnd hq).bind fun _ c₃ h₃ _ hc₃ => ?_
    exact .ok (by rw [List.map_singleton, VarDecl.form, htype, hname]) hc₃
  | cons ht hx hu _ ih =>
    rw [formalItems]
    refine (ht.answers hc).bind fun type c₁ h₁ htype hc₁ => ?_
    refine (answers_ident hc₁ hx .formalName rfl).bind fun name c₂ h₂ hname hc₂ => ?_
    obtain ⟨c₃, h₃, htake, hc₃⟩ := hc₂.take
    dsimp only
    rw [← hu, htake]
    refine (ih hc₃).bind fun ds c₄ h₄ hds hc₄ => ?_
    exact .ok (by rw [List.map_cons, VarDecl.form, htype, hname, hds]) hc₄

theorem FormalList.head {ds : List VarDecl} (h : FormalList ts ds) :
    ∃ t us, ts = t :: us ∧ t.kind.beginsDecl = true := by
  cases h with
  | last ht => exact ⟨_, _, rfl, ht.begins.1⟩
  | cons ht => exact ⟨_, _, rfl, ht.begins.1⟩

theorem Formals.answers {ds : List VarDecl} (h : Formals ts ds) {p q : Token}
    (hp : p.kind = .mark .leftParen) (hq : q.kind = .mark .rightParen)
    (hc : c.At (p :: (ts ++ q :: rest))) :
    Answers VarDecls.form rest { items := ds } (formals c) := by
  refine (answers_expect hc .formalsStart hp).bind fun _ c₁ h₁ _ hc₁ => ?_
  dsimp only
  cases h with
  | none =>
    obtain ⟨c₂, h₂, htake, hc₂⟩ := hc₁.take
    rw [← hq, htake]
    exact .ok rfl hc₂
  | some h =>
    obtain ⟨t, us, rfl, ht⟩ := h.head
    rw [hc₁.take_none (TokenKind.ne_of_test ht rfl)]
    refine (h.answers hq hc₁).bind fun ds c₂ h₂ hds hc₂ => ?_
    exact .ok (by rw [VarDecls.form, hds]) hc₂

/-! ## Statements -/

end Grammar

/-- The kinds of token that statements begin with. -/
def TokenKind.beginsStmt : TokenKind → Bool
  | .keyword .cin | .keyword .cout | .keyword .if | .keyword .while | .keyword .return => true
  | k => Nonterminal.exp.begins k

theorem TokenKind.beginsStmt_of_exp {k : TokenKind} (h : Nonterminal.exp.begins k = true) :
    k.beginsStmt = true := by
  cases k with
  | keyword k => cases k <;> first | exact h | rfl
  | _ => exact h

theorem TokenKind.not_beginsDecl {k : TokenKind} (h : k.beginsStmt = true) :
    k.beginsDecl = false := by
  cases k with
  | keyword k => cases k <;> first | rfl | cases h
  | _ => rfl

namespace Grammar

theorem Statement.head {ts : List Token} {s : Stmt} (h : Statement ts s) :
    ∃ t us, ts = t :: us ∧ t.kind.beginsStmt = true := by
  cases h with
  | read ht => exact ⟨_, _, rfl, by rw [ht]; rfl⟩
  | write ht => exact ⟨_, _, rfl, by rw [ht]; rfl⟩
  | ifThen ht => exact ⟨_, _, rfl, by rw [ht]; rfl⟩
  | ifElse ht => exact ⟨_, _, rfl, by rw [ht]; rfl⟩
  | «while» ht => exact ⟨_, _, rfl, by rw [ht]; rfl⟩
  | exit ht => exact ⟨_, _, rfl, by rw [ht]; rfl⟩
  | «return» ht => exact ⟨_, _, rfl, by rw [ht]; rfl⟩
  | act he | increment he | decrement he =>
    obtain ⟨t, us, rfl, ht⟩ := he.head
    exact ⟨t, _, List.cons_append, TokenKind.beginsStmt_of_exp ht⟩

theorem Acts.exists_stmtOfExp? {e : Exp} {s : Stmt} (h : Acts e.form s) (span : Span) :
    ∃ s', stmtOfExp? span e = some s' ∧ s'.form = s := by
  cases e <;> simp only [Exp.form] at h <;> cases h <;> exact ⟨_, rfl, rfl⟩

variable {c : Cursor} {ts rest : List Token} {e : Exp} {u : Token}

/-- An expression and the semicolon that ends it. -/
theorem Derives.answers_exp {x : Nonterminal} (h : Derives x ts e) (hc : c.At (ts ++ u :: rest))
    {m : Mark} (hu : u.kind = .mark m) (hm : m.rank = 8) :
    Answers Exp.form (u :: rest) e (x.reader c) :=
  h.leads.reads c _ hc (Token.stops_mark hu (by rw [hm]; cases x <;> decide) rest)

/-- A statement that is no keyword's. -/
theorem stmt_eq_expStmt (h : Derives .exp ts e) (hc : c.At (ts ++ rest)) : stmt c = expStmt c := by
  obtain ⟨t, us, rfl, ht⟩ := h.head
  have hne : ∀ k, Nonterminal.exp.begins (.keyword k) = false →
      c.take? (.keyword k) = none := fun k hk => hc.take_none (TokenKind.ne_of_test ht hk)
  rw [stmt, hne .cin rfl, hne .cout rfl, hne .if rfl, hne .while rfl, hne .return rfl]

theorem answers_act {s : Stmt} (h : Derives .exp ts e) (hs : Acts e s) (hu : u.kind = .mark .semi)
    (hc : c.At (ts ++ u :: rest)) : Answers Stmt.form rest s (expStmt c) := by
  refine (h.answers_exp hc hu rfl).bind fun e' c₁ h₁ he hc₁ => ?_
  have hnone : c₁.takeIf? stepOp? = none := hc₁.takeIf_none fun t ht => by
    rw [stepOp?, ht, nextKind, hu]
  dsimp only
  rw [hnone]
  refine (answers_expect hc₁ .statementEnd hu).bind fun _ c₂ h₂ _ hc₂ => ?_
  obtain ⟨s', hs', hform⟩ := (he ▸ hs).exists_stmtOfExp? (c₂.since c.here)
  dsimp only
  rw [hs']
  exact .ok hform hc₂

theorem answers_step {o : Token} {make : Option Span → Exp → Stmt} (h : Derives .exp ts e)
    (hloc : e.isLocation = true) {m : Mark} (ho : o.kind = .mark m) (hm : m.rank = 8)
    (hmake : stepOp? o = some make) (hform : ∀ span e, (make span e).form = make none e.form)
    (hu : u.kind = .mark .semi) (hc : c.At (ts ++ o :: u :: rest)) :
    Answers Stmt.form rest (make none e) (expStmt c) := by
  refine (h.answers_exp hc ho hm).bind fun e' c₁ h₁ he hc₁ => ?_
  obtain ⟨c₂, h₂, htake, hc₂⟩ := hc₁.takeIf hmake
  have hlocation : e'.isLocation = true := by rw [← isLocation_form, he, hloc]
  dsimp only
  rw [htake]
  dsimp only
  rw [if_pos hlocation]
  refine (answers_expect hc₂ .statementEnd hu).bind fun _ c₃ h₃ _ hc₃ => ?_
  exact .ok (by rw [hform, he]) hc₃

theorem answers_condition {p q : Token} (hp : p.kind = .mark .leftParen) (h : Derives .exp ts e)
    (hq : q.kind = .mark .rightParen) (keyword : Keyword) (hc : c.At (p :: (ts ++ q :: rest))) :
    Answers Exp.form rest e (condition keyword c) := by
  refine (answers_expect hc (.conditionStart keyword) hp).bind
    fun _ c₁ h₁ _ hc₁ => ?_
  refine (h.answers_exp hc₁ hq rfl).bind fun e' c₂ h₂ he hc₂ => ?_
  refine (answers_expect hc₂ .conditionEnd hq).bind fun _ c₃ h₃ _ hc₃ => ?_
  exact .ok he hc₃

theorem answers_readStmt {a : Token} (start : Position) (ha : a.kind = .mark .read)
    (h : Derives .loc ts e) (hu : u.kind = .mark .semi) (hc : c.At (a :: (ts ++ u :: rest))) :
    Answers Stmt.form rest (.read none e) (readStmt start c) := by
  refine (answers_expect hc .readArrow ha).bind fun _ c₁ h₁ _ hc₁ => ?_
  refine (h.answers_exp hc₁ hu rfl).bind fun e' c₂ h₂ he hc₂ => ?_
  refine (answers_expect hc₂ .readEnd hu).bind fun _ c₃ h₃ _ hc₃ => ?_
  exact .ok (by rw [Stmt.form, he]) hc₃

theorem answers_writeStmt {a : Token} (start : Position) (ha : a.kind = .mark .write)
    (h : Derives .exp ts e) (hu : u.kind = .mark .semi) (hc : c.At (a :: (ts ++ u :: rest))) :
    Answers Stmt.form rest (.write none e) (writeStmt start c) := by
  refine (answers_expect hc .writeArrow ha).bind fun _ c₁ h₁ _ hc₁ => ?_
  refine (h.answers_exp hc₁ hu rfl).bind fun e' c₂ h₂ he hc₂ => ?_
  refine (answers_expect hc₂ .writeEnd hu).bind fun _ c₃ h₃ _ hc₃ => ?_
  exact .ok (by rw [Stmt.form, he]) hc₃

theorem answers_exit (start : Position) (hu : u.kind = .mark .semi) (hc : c.At (u :: rest)) :
    Answers Stmt.form rest (.return none none) (returnStmt start c) := by
  obtain ⟨c₁, h₁, htake, hc₁⟩ := hc.take
  rw [returnStmt, ← hu, htake]
  exact .ok rfl hc₁

theorem answers_return (start : Position) (h : Derives .exp ts e) (hu : u.kind = .mark .semi)
    (hc : c.At (ts ++ u :: rest)) :
    Answers Stmt.form rest (.return none (some e)) (returnStmt start c) := by
  have hread := h.answers_exp hc hu rfl
  obtain ⟨t, us, rfl, ht⟩ := h.head
  rw [returnStmt, hc.take_none (TokenKind.ne_of_test ht rfl)]
  refine hread.bind fun e' c₁ h₁ he hc₁ => ?_
  refine (answers_expect hc₁ .returnEnd hu).bind fun _ c₂ h₂ _ hc₂ => ?_
  exact .ok (by rw [Stmt.form, he]) hc₂

/-- A block is read. -/
def ReadsBlock (ts : List Token) (b : Block Stmt) : Prop :=
  ∀ c rest (wanted : Wanted), wanted.kind = .mark .leftCurly → c.At (ts ++ rest) →
    Answers Stmt.blockForm rest b (block wanted c)

/-- A statement that `else` does not follow is read. -/
def ReadsStmt (ts : List Token) (s : Stmt) : Prop :=
  ∀ c rest, nextKind rest ≠ .keyword .else → c.At (ts ++ rest) →
    Answers Stmt.form rest s (stmt c)

/-- Statements are read, and the brace after them. -/
def ReadsStmts (ts : List Token) (ss : List Stmt) : Prop :=
  ∀ c q rest start, q.kind = .mark .rightCurly → c.At (ts ++ q :: rest) →
    Answers (fun x => Stmt.listForm x.1) rest ss (stmts start c)

theorem answers_ifThen {p q : Token} {us : List Token} {b : Block Stmt} (start : Position)
    (hp : p.kind = .mark .leftParen) (h : Derives .exp ts e) (hq : q.kind = .mark .rightParen)
    (hb : ReadsBlock us b) (hrest : nextKind rest ≠ .keyword .else)
    (hc : c.At (p :: (ts ++ q :: (us ++ rest)))) :
    Answers Stmt.form rest (.ifThen none e b) (ifStmt start c) := by
  rw [ifStmt]
  refine (answers_condition hp h hq _ hc).bind fun e' c₁ h₁ he hc₁ => ?_
  refine (hb c₁ rest _ rfl hc₁).bind fun b' c₂ h₂ hb' hc₂ => ?_
  dsimp only
  rw [hc₂.take_none hrest]
  exact .ok (by rw [Stmt.form, he, hb']) hc₂

theorem answers_ifElse {p q v : Token} {us vs : List Token} {b₁ b₂ : Block Stmt}
    (start : Position) (hp : p.kind = .mark .leftParen) (h : Derives .exp ts e)
    (hq : q.kind = .mark .rightParen) (hb₁ : ReadsBlock us b₁) (hv : v.kind = .keyword .else)
    (hb₂ : ReadsBlock vs b₂) (hc : c.At (p :: (ts ++ q :: (us ++ v :: (vs ++ rest))))) :
    Answers Stmt.form rest (.ifElse none e b₁ b₂) (ifStmt start c) := by
  rw [ifStmt]
  refine (answers_condition hp h hq _ hc).bind fun e' c₁ h₁ he hc₁ => ?_
  refine (hb₁ c₁ _ _ rfl hc₁).bind fun b₁' c₂ h₂ hb₁' hc₂ => ?_
  obtain ⟨c₃, h₃, htake, hc₃⟩ := hc₂.take
  dsimp only
  rw [← hv, htake]
  refine (hb₂ c₃ rest _ rfl hc₃).bind fun b₂' c₄ h₄ hb₂' hc₄ => ?_
  exact .ok (by rw [Stmt.form, he, hb₁', hb₂']) hc₄

theorem reads_while {t p q : Token} {us : List Token} {b : Block Stmt}
    (ht : t.kind = .keyword .while) (hp : p.kind = .mark .leftParen) (h : Derives .exp ts e)
    (hq : q.kind = .mark .rightParen) (hb : ReadsBlock us b) :
    ReadsStmt (t :: p :: ts ++ q :: us) (.while none e b) := by
  intro c rest hrest hc
  rw [List.append_assoc] at hc
  obtain ⟨c₁, h₁, htake, hc₁⟩ := hc.take
  have hcin : c.take? (.keyword .cin) = none := hc.take_none_of_kind ht (by decide)
  have hcout : c.take? (.keyword .cout) = none := hc.take_none_of_kind ht (by decide)
  have hif : c.take? (.keyword .if) = none := hc.take_none_of_kind ht (by decide)
  rw [stmt, hcin, hcout, hif, ← ht, htake]
  refine (answers_condition hp h hq _ hc₁).bind fun e' c₂ h₂ he hc₂ => ?_
  refine (hb c₂ rest _ rfl hc₂).bind fun b' c₃ h₃ hb' hc₃ => ?_
  exact .ok (by rw [Stmt.form, he, hb']) hc₃

/-- What `if` begins is read as an if statement. -/
theorem answers_if {t : Token} (ht : t.kind = .keyword .if) {s : Stmt} (hc : c.At (t :: ts))
    (hs : ∀ c₁, c₁.At ts → Answers Stmt.form rest s (ifStmt c.here c₁)) :
    Answers Stmt.form rest s (stmt c) := by
  obtain ⟨c₁, h₁, htake, hc₁⟩ := hc.take
  have hcin : c.take? (.keyword .cin) = none := hc.take_none_of_kind ht (by decide)
  have hcout : c.take? (.keyword .cout) = none := hc.take_none_of_kind ht (by decide)
  rw [stmt, hcin, hcout, ← ht, htake]
  exact (hs c₁ hc₁).bind fun s c₂ h₂ hs hc₂ => .ok hs hc₂

/-- What `return` begins is read as a return statement. -/
theorem answers_returns {t : Token} (ht : t.kind = .keyword .return) {s : Stmt}
    (hc : c.At (t :: ts))
    (hs : ∀ c₁, c₁.At ts → Answers Stmt.form rest s (returnStmt c.here c₁)) :
    Answers Stmt.form rest s (stmt c) := by
  obtain ⟨c₁, h₁, htake, hc₁⟩ := hc.take
  have hcin : c.take? (.keyword .cin) = none := hc.take_none_of_kind ht (by decide)
  have hcout : c.take? (.keyword .cout) = none := hc.take_none_of_kind ht (by decide)
  have hif : c.take? (.keyword .if) = none := hc.take_none_of_kind ht (by decide)
  have hwhile : c.take? (.keyword .while) = none := hc.take_none_of_kind ht (by decide)
  rw [stmt, hcin, hcout, hif, hwhile, ← ht, htake]
  exact (hs c₁ hc₁).bind fun s c₂ h₂ hs hc₂ => .ok hs hc₂

/-- Statements begin like a statement or end with a brace. -/
theorem Statements.nextKind {ss : List Stmt} (h : Statements ts ss) {q : Token}
    (hq : q.kind = .mark .rightCurly) (rest : List Token) :
    nextKind (ts ++ q :: rest) = .mark .rightCurly ∨
      (nextKind (ts ++ q :: rest)).beginsStmt = true := by
  cases h with
  | nil => exact .inl hq
  | cons hs _ =>
    obtain ⟨t, us, rfl, ht⟩ := hs.head
    exact .inr ht

mutual

/-- Statements are read, by induction on derivations. -/
theorem Statement.reads : {ts : List Token} → {s : Stmt} → Statement ts s → ReadsStmt ts s
  | _, _, .read ht ha he hu => by
    intro c rest hrest hc
    rw [List.append_assoc] at hc
    obtain ⟨c₁, h₁, htake, hc₁⟩ := hc.take
    rw [stmt, ← ht, htake]
    exact (answers_readStmt c.here ha he hu hc₁).bind fun s c₂ h₂ hs hc₂ => .ok hs hc₂
  | _, _, .write ht ha he hu => by
    intro c rest hrest hc
    rw [List.append_assoc] at hc
    obtain ⟨c₁, h₁, htake, hc₁⟩ := hc.take
    have hcin : c.take? (.keyword .cin) = none := hc.take_none_of_kind ht (by decide)
    rw [stmt, hcin, ← ht, htake]
    exact (answers_writeStmt c.here ha he hu hc₁).bind fun s c₂ h₂ hs hc₂ => .ok hs hc₂
  | _, _, .ifThen ht hp he hq hb => by
    intro c rest hrest hc
    rw [List.append_assoc] at hc
    exact answers_if ht hc fun c₁ hc₁ => answers_ifThen _ hp he hq hb.reads hrest hc₁
  | _, _, .ifElse ht hp he hq hb₁ hv hb₂ => by
    intro c rest hrest hc
    rw [List.append_assoc, List.append_assoc] at hc
    exact answers_if ht hc fun c₁ hc₁ => answers_ifElse _ hp he hq hb₁.reads hv hb₂.reads hc₁
  | _, _, .while ht hp he hq hb => reads_while ht hp he hq hb.reads
  | _, _, .exit ht hu => by
    intro c rest hrest hc
    exact answers_returns ht hc fun c₁ hc₁ => answers_exit _ hu hc₁
  | _, _, .return ht he hu => by
    intro c rest hrest hc
    rw [List.append_assoc] at hc
    exact answers_returns ht hc fun c₁ hc₁ => answers_return _ he hu hc₁
  | _, _, .act he hs hu => by
    intro c rest hrest hc
    rw [List.append_assoc] at hc
    rw [stmt_eq_expStmt he hc]
    exact answers_act he hs hu hc
  | _, _, .increment he hloc ho hu => by
    intro c rest hrest hc
    rw [List.append_assoc] at hc
    rw [stmt_eq_expStmt he hc]
    exact answers_step he hloc ho rfl (by rw [stepOp?, ho]) (fun _ _ => rfl) hu hc
  | _, _, .decrement he hloc ho hu => by
    intro c rest hrest hc
    rw [List.append_assoc] at hc
    rw [stmt_eq_expStmt he hc]
    exact answers_step he hloc ho rfl (by rw [stepOp?, ho]) (fun _ _ => rfl) hu hc

theorem Braces.reads : {ts : List Token} → {b : Block Stmt} → Braces ts b → ReadsBlock ts b
  | _, _, .intro hp hds hss hq => by
    intro c rest wanted hw hc
    have hnext := (hss.nextKind hq rest).elim (fun h => by rw [h]; rfl) TokenKind.not_beginsDecl
    simp only [List.append_assoc, List.cons_append, List.nil_append] at hc
    rw [block]
    refine (answers_expect hc wanted (hp.trans hw.symm)).bind fun _ c₁ h₁ _ hc₁ => ?_
    refine (hds.answers_varDecls hc₁ hnext).bind fun ds c₂ h₂ hds' hc₂ => ?_
    refine (hss.reads c₂ _ rest _ hq hc₂).bind fun ss c₃ h₃ hss' hc₃ => ?_
    exact .ok (by rw [Stmt.blockForm, hds', hss']) hc₃

theorem Statements.reads : {ts : List Token} → {ss : List Stmt} → Statements ts ss →
    ReadsStmts ts ss
  | _, _, .nil => by
    intro c q rest start hq hc
    obtain ⟨c₁, h₁, htake, hc₁⟩ := hc.take
    rw [stmts, ← hq, htake]
    exact .ok rfl hc₁
  | _, _, .cons hs hss => by
    intro c q rest start hq hc
    have hread := hs.reads
    have helse : Token.nextKind (_ ++ q :: rest) ≠ .keyword .else :=
      (hss.nextKind hq rest).elim (fun h => by rw [h]; decide) (TokenKind.ne_of_test · rfl)
    rw [List.append_assoc] at hc
    obtain ⟨t, us, rfl, ht⟩ := hs.head
    have hcurly : c.take? (.mark .rightCurly) = none :=
      hc.take_none_of_kind rfl (TokenKind.ne_of_test ht rfl)
    have hdecl : ¬ beginsDecl c.peek = true := by
      rw [hc.beginsDecl]
      exact (TokenKind.not_beginsDecl ht).symm ▸ nofun
    have hempty : ¬ c.rest.isEmpty = true := by
      rw [hc.rest]
      nofun
    rw [stmts, hcurly]
    dsimp only
    rw [if_neg hempty, if_neg hdecl]
    refine (hread c _ helse hc).bind fun s c₁ h₁ hs' hc₁ => ?_
    refine (hss.reads c₁ q rest start hq hc₁).bind fun ss c₂ h₂ hss' hc₂ => ?_
    exact .ok (by rw [Stmt.listForm, hs', hss']) hc₂

end

end Grammar

end CMinusMinus
