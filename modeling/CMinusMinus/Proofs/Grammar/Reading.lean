import CMinusMinus.Proofs.Grammar

/-!
# Reading makes formed trees

Every tree that is read is formed (`Program.parse_formed`).  Names come from name tokens, which
the scanner spells like names, and each reader builds a node only after the test that `Formed`
asks for, so the proof follows the readers one by one.
-/

namespace CMinusMinus

/-- The tokens to come are scanned. -/
def Cursor.Scanned (c : Cursor) : Prop := ∀ t ∈ c.rest, t.Scanned

namespace Parse

/-- Whatever the reader answers is as stated, and leaves scanned tokens. -/
def Yields {α : Type} {n : Nat} (P : α → Prop) (r : Reading α n) : Prop :=
  ∀ x, r = .ok x → P x.value ∧ x.next.Scanned

namespace Yields

variable {α β : Type} {n m : Nat} {P : α → Prop} {Q : β → Prop}

theorem ok {a : α} {c : Cursor} {h : c.size < n} (ha : P a) (hc : c.Scanned) :
    Yields P (.ok ⟨a, c, h⟩ : Reading α n) := by
  intro x hx
  cases hx
  exact ⟨ha, hc⟩

theorem error (e : SyntaxError) : Yields P (.error e : Reading α n) := by
  intro x hx
  cases hx

theorem refuse (c : Cursor) (cause : SyntaxCause) :
    Yields P (c.refuse cause : Reading α n) :=
  error _

theorem bind {r : Reading α n} {next : Read α n → Reading β m} (hr : Yields P r)
    (hn : ∀ a c h, P a → c.Scanned → Yields Q (next ⟨a, c, h⟩)) : Yields Q (r >>= next) := by
  intro y hy
  obtain ⟨⟨a, c, h⟩, hx, hy⟩ := bind_eq_ok.mp hy
  obtain ⟨ha, hc⟩ := hr _ hx
  exact hn a c h ha hc y hy

end Yields

/-! ## Tokens -/

section

variable {c : Cursor} (hc : c.Scanned)
include hc

theorem scanned_take? {kind : TokenKind} {t : Token} {c' : Cursor} {h : c'.size < c.size}
    (ht : c.take? kind = some ⟨t, c', h⟩) : t.kind = kind ∧ t.Scanned ∧ c'.Scanned := by
  unfold Cursor.take? at ht
  split at ht
  · cases ht
  · next t' ts hrest =>
    split at ht
    · next hk =>
      cases ht
      rw [Cursor.Scanned, hrest] at hc
      exact ⟨hk, hc _ List.mem_cons_self, fun u hu => hc u (List.mem_cons_of_mem _ hu)⟩
    · cases ht

theorem scanned_takeIf? {α : Type} {test : Token → Option α} {a : α} {t : Token} {c' : Cursor}
    {h : c'.size < c.size} (ht : c.takeIf? test = some ⟨(a, t), c', h⟩) :
    test t = some a ∧ c'.Scanned := by
  unfold Cursor.takeIf? at ht
  split at ht
  · cases ht
  · next t' ts hrest =>
    obtain ⟨a', ha, heq⟩ := Option.map_eq_some_iff.mp ht
    cases heq
    rw [Cursor.Scanned, hrest] at hc
    exact ⟨ha, fun u hu => hc u (List.mem_cons_of_mem _ hu)⟩

theorem yields_expect (wanted : Wanted) :
    Yields (fun t => t.kind = wanted.kind ∧ t.Scanned) (c.expect wanted) := by
  unfold Cursor.expect
  split
  · next r hr =>
    obtain ⟨hk, ht, hc'⟩ := scanned_take? hc hr
    exact .ok ⟨hk, ht⟩ hc'
  · exact .refuse _ _

theorem yields_ident {wanted : Wanted} (hw : wanted.kind = .name) :
    Yields Ident.Named (c.ident wanted) := by
  refine (yields_expect hc wanted).bind fun t c₁ h₁ ht hc₁ => ?_
  exact .ok (ht.2 (ht.1.trans hw)) hc₁

end

/-! ## Expressions -/

theorem formed_leaf {t : Token} {e : Exp} (h : leaf? t = some e) : e.Formed := by
  unfold leaf? at h
  split at h <;> cases h <;> trivial

theorem formed_unaryOp {t : Token} {op : Info → Exp → Exp} (h : unaryOp? t = some op) (i : Info)
    {e : Exp} (he : e.Formed) : (op i e).Formed := by
  unfold unaryOp? at h
  split at h <;> cases h <;> exact he

theorem mem_all_ofToken {l : Level} {t : Token} {op : BinOp} (h : l.ofToken? t = some op) :
    op ∈ BinOp.all := by
  unfold Level.ofToken? at h
  split at h
  · unfold Level.op? at h
    split at h <;> cases h <;> decide
  · cases h

/-- What is asked of a location that is read. -/
def FormedLocation (e : Exp) : Prop := e.isLocation = true ∧ e.Formed

theorem yields_fields (start : Position) {loc : Exp} (hloc : FormedLocation loc) {c : Cursor}
    (hc : c.Scanned) : Yields FormedLocation (fields start loc c) := by
  rw [fields]
  split
  · exact .ok hloc hc
  · next _ c₁ h₁ hdot =>
    obtain ⟨-, -, hc₁⟩ := scanned_take? hc hdot
    refine (yields_ident hc₁ rfl).bind fun f c₂ h₂ hf hc₂ => ?_
    have hloc' : FormedLocation (.access (infoSince c₂ start) {} loc f) :=
      ⟨rfl, hloc.1, hloc.2, hf⟩
    refine (yields_fields start hloc' hc₂).bind fun e c₃ h₃ he hc₃ => ?_
    exact .ok he hc₃
termination_by c.size

theorem yields_location {c : Cursor} (hc : c.Scanned) : Yields FormedLocation (location c) := by
  refine (yields_ident hc rfl).bind fun x c₁ h₁ hx hc₁ => ?_
  have hroot : FormedLocation (.ident x) := ⟨rfl, hx⟩
  refine (yields_fields c.here hroot hc₁).bind fun e c₂ h₂ he hc₂ => ?_
  exact .ok he hc₂

mutual

theorem yields_exp {c : Cursor} (hc : c.Scanned) : Yields Exp.Formed (exp c) := by
  rw [exp]
  refine (yields_level .or hc).bind fun left c₁ h₁ hl hc₁ => ?_
  dsimp only
  split
  · exact .ok hl hc₁
  · next _ c₂ h₂ hassign =>
    obtain ⟨-, -, hc₂⟩ := scanned_take? hc₁ hassign
    split
    · next hloc =>
      refine (yields_exp hc₂).bind fun right c₃ h₃ hr hc₃ => ?_
      exact .ok ⟨hloc, hl, hr⟩ hc₃
    · exact .refuse _ _
termination_by (c.size, 14)
decreasing_by
  · exact .right _ (by decide)
  · exact .left _ _ (by omega)

theorem yields_level (l : Level) {c : Cursor} (hc : c.Scanned) :
    Yields Exp.Formed (level l c) := by
  rw [level]
  refine (yields_operand l hc).bind fun left c₁ h₁ hl hc₁ => ?_
  refine (yields_operators l c.here hl hc₁).bind fun e c₂ h₂ he hc₂ => ?_
  exact .ok he hc₂
termination_by (c.size, 2 * l.height + 1)

theorem yields_operand (l : Level) {c : Cursor} (hc : c.Scanned) :
    Yields Exp.Formed (operand l c) := by
  rw [operand]
  split
  · next l' h =>
    have hlt := Level.height_tighter? h
    exact yields_level l' hc
  · exact yields_unary hc
termination_by (c.size, 2 * l.height)
decreasing_by
  · exact .right _ (by omega)
  · exact .right _ (by cases l <;> decide)

theorem yields_operators (l : Level) (start : Position) {left : Exp} (hleft : left.Formed)
    {c : Cursor} (hc : c.Scanned) : Yields Exp.Formed (operators l start left c) := by
  rw [operators]
  split
  · exact .ok hleft hc
  · next op _ c₁ h₁ hop =>
    obtain ⟨hop, hc₁⟩ := scanned_takeIf? hc hop
    refine (yields_operand l hc₁).bind fun right c₂ h₂ hr hc₂ => ?_
    have hformed : (Exp.binary (infoSince c₂ start) op left right).Formed :=
      ⟨mem_all_ofToken hop, hleft, hr⟩
    dsimp only
    split
    · refine (yields_operators l start hformed hc₂).bind fun e c₃ h₃ he hc₃ => ?_
      exact .ok he hc₃
    · split
      · exact .refuse _ _
      · exact .ok hformed hc₂
termination_by (c.size, 0)

theorem yields_unary {c : Cursor} (hc : c.Scanned) : Yields Exp.Formed (unary c) := by
  rw [unary]
  split
  · next op _ c₁ h₁ hop =>
    obtain ⟨hop, hc₁⟩ := scanned_takeIf? hc hop
    refine (yields_unary hc₁).bind fun e c₂ h₂ he hc₂ => ?_
    exact .ok (formed_unaryOp hop _ he) hc₂
  · exact yields_primary hc
termination_by (c.size, 1)

theorem yields_primary {c : Cursor} (hc : c.Scanned) : Yields Exp.Formed (primary c) := by
  rw [primary]
  split
  · next e _ c₁ h₁ hleaf =>
    obtain ⟨hleaf, hc₁⟩ := scanned_takeIf? hc hleaf
    exact .ok (formed_leaf hleaf) hc₁
  · split
    · next _ c₁ h₁ hparen =>
      obtain ⟨-, -, hc₁⟩ := scanned_take? hc hparen
      refine (yields_exp hc₁).bind fun e c₂ h₂ he hc₂ => ?_
      refine (yields_expect hc₂ _).bind fun _ c₃ h₃ _ hc₃ => ?_
      exact .ok he hc₃
    · split
      · exact .refuse _ _
      · next t c₁ h₁ hname =>
        obtain ⟨hk, ht, hc₁⟩ := scanned_take? hc hname
        have hx : (Cursor.identOf t).Named := ht hk
        split
        · have hroot : FormedLocation (.ident (Cursor.identOf t)) := ⟨rfl, hx⟩
          refine (yields_fields c.here hroot hc₁).bind fun e c₂ h₂ he hc₂ => ?_
          exact .ok he.2 hc₂
        · next _ c₂ h₂ hparen =>
          obtain ⟨-, -, hc₂⟩ := scanned_take? hc₁ hparen
          refine (yields_arguments hc₂).bind fun es c₃ h₃ hes hc₃ => ?_
          exact .ok ⟨hx, hes⟩ hc₃
termination_by (c.size, 0)

theorem yields_arguments {c : Cursor} (hc : c.Scanned) :
    Yields Exp.AllFormed (arguments c) := by
  rw [arguments]
  split
  · next _ c₁ h₁ hparen =>
    obtain ⟨-, -, hc₁⟩ := scanned_take? hc hparen
    exact .ok trivial hc₁
  · exact yields_argumentList hc
termination_by (c.size, 16)

theorem yields_argumentList {c : Cursor} (hc : c.Scanned) :
    Yields Exp.AllFormed (argumentList c) := by
  rw [argumentList]
  refine (yields_exp hc).bind fun e c₁ h₁ he hc₁ => ?_
  dsimp only
  split
  · next _ c₂ h₂ hcomma =>
    obtain ⟨-, -, hc₂⟩ := scanned_take? hc₁ hcomma
    refine (yields_argumentList hc₂).bind fun es c₃ h₃ hes hc₃ => ?_
    exact .ok ⟨he, hes⟩ hc₃
  · refine (yields_expect hc₁ _).bind fun _ c₂ h₂ _ hc₂ => ?_
    exact .ok ⟨he, trivial⟩ hc₂
termination_by (c.size, 15)

end

/-! ## Declarations of variables -/

theorem isWordType_wordType {t : Token} {make : Option Span → TypeNode}
    (h : wordType? t = some make) (span : Option Span) : (make span).isWordType = true := by
  unfold wordType? at h
  split at h <;> cases h <;> rfl

theorem yields_wordType {c : Cursor} (hc : c.Scanned) :
    Yields (fun t => t.isWordType = true) (wordType c) := by
  unfold wordType
  split
  · next make _ c₁ h₁ hword =>
    obtain ⟨hword, hc₁⟩ := scanned_takeIf? hc hword
    exact .ok (isWordType_wordType hword _) hc₁
  · exact .refuse _ _

theorem yields_varType {c : Cursor} (hc : c.Scanned) :
    Yields TypeNode.Formed (varType c) := by
  unfold varType
  split
  · next _ c₁ h₁ hstruct =>
    obtain ⟨-, -, hc₁⟩ := scanned_take? hc hstruct
    refine (yields_ident hc₁ rfl).bind fun x c₂ h₂ hx hc₂ => ?_
    exact .ok hx hc₂
  · intro x hx
    obtain ⟨hword, hnext⟩ := yields_wordType hc x hx
    exact ⟨TypeNode.formed_of_isWordType hword, hnext⟩

theorem yields_varDecl {c : Cursor} (hc : c.Scanned) : Yields VarDecl.Formed (varDecl c) := by
  refine (yields_varType hc).bind fun type c₁ h₁ ht hc₁ => ?_
  refine (yields_ident hc₁ rfl).bind fun x c₂ h₂ hx hc₂ => ?_
  refine (yields_expect hc₂ _).bind fun _ c₃ h₃ _ hc₃ => ?_
  exact .ok ⟨rfl, ht, hx⟩ hc₃

theorem yields_varDeclItems {c : Cursor} (hc : c.Scanned) :
    Yields (fun ds => ∀ d ∈ ds, VarDecl.Formed d) (varDeclItems c) := by
  rw [varDeclItems]
  split
  · refine (yields_varDecl hc).bind fun d c₁ h₁ hd hc₁ => ?_
    refine (yields_varDeclItems hc₁).bind fun ds c₂ h₂ hds hc₂ => ?_
    exact .ok (List.forall_mem_cons.mpr ⟨hd, hds⟩) hc₂
  · exact .ok (List.forall_mem_nil _) hc
termination_by c.size

theorem yields_varDecls {c : Cursor} (hc : c.Scanned) :
    Yields (fun ds => ∀ d ∈ ds.items, VarDecl.Formed d) (varDecls c) := by
  refine (yields_varDeclItems hc).bind fun ds c₁ h₁ hds hc₁ => ?_
  exact .ok hds hc₁

theorem yields_formalItems {c : Cursor} (hc : c.Scanned) :
    Yields (fun ds => ∀ d ∈ ds, VarDecl.FormedFormal d) (formalItems c) := by
  rw [formalItems]
  refine (yields_wordType hc).bind fun type c₁ h₁ ht hc₁ => ?_
  refine (yields_ident hc₁ rfl).bind fun x c₂ h₂ hx hc₂ => ?_
  have hd : VarDecl.FormedFormal ⟨.formal, some (c₂.since c.here), type, x⟩ := ⟨rfl, ht, hx⟩
  dsimp only
  split
  · next _ c₃ h₃ hcomma =>
    obtain ⟨-, -, hc₃⟩ := scanned_take? hc₂ hcomma
    refine (yields_formalItems hc₃).bind fun ds c₄ h₄ hds hc₄ => ?_
    exact .ok (List.forall_mem_cons.mpr ⟨hd, hds⟩) hc₄
  · refine (yields_expect hc₂ _).bind fun _ c₃ h₃ _ hc₃ => ?_
    exact .ok (List.forall_mem_singleton.mpr hd) hc₃
termination_by c.size

theorem yields_formals {c : Cursor} (hc : c.Scanned) :
    Yields (fun ds => ∀ d ∈ ds.items, VarDecl.FormedFormal d) (formals c) := by
  refine (yields_expect hc _).bind fun _ c₁ h₁ _ hc₁ => ?_
  dsimp only
  split
  · next _ c₂ h₂ hparen =>
    obtain ⟨-, -, hc₂⟩ := scanned_take? hc₁ hparen
    exact .ok (List.forall_mem_nil _) hc₂
  · refine (yields_formalItems hc₁).bind fun ds c₂ h₂ hds hc₂ => ?_
    exact .ok hds hc₂

/-! ## Statements -/

theorem formed_stepOp {t : Token} {op : Option Span → Exp → Stmt} (h : stepOp? t = some op)
    (span : Option Span) {e : Exp} (he : FormedLocation e) : (op span e).Formed := by
  unfold stepOp? at h
  split at h <;> cases h <;> exact he

theorem formed_stmtOfExp {span : Span} {e : Exp} {s : Stmt} (h : stmtOfExp? span e = some s)
    (he : e.Formed) : s.Formed := by
  unfold stmtOfExp? at h
  split at h <;> cases h <;> exact ⟨rfl, he⟩

theorem yields_expStmt {c : Cursor} (hc : c.Scanned) : Yields Stmt.Formed (expStmt c) := by
  refine (yields_exp hc).bind fun e c₁ h₁ he hc₁ => ?_
  dsimp only
  split
  · next op _ c₂ h₂ hop =>
    obtain ⟨hop, hc₂⟩ := scanned_takeIf? hc₁ hop
    split
    · next hloc =>
      refine (yields_expect hc₂ _).bind fun _ c₃ h₃ _ hc₃ => ?_
      exact .ok (formed_stepOp hop _ ⟨hloc, he⟩) hc₃
    · exact .refuse _ _
  · refine (yields_expect hc₁ _).bind fun semi c₂ h₂ _ hc₂ => ?_
    dsimp only
    split
    · next s hs => exact .ok (formed_stmtOfExp hs he) hc₂
    · exact .error _

theorem yields_readStmt (start : Position) {c : Cursor} (hc : c.Scanned) :
    Yields Stmt.Formed (readStmt start c) := by
  refine (yields_expect hc _).bind fun _ c₁ h₁ _ hc₁ => ?_
  refine (yields_location hc₁).bind fun loc c₂ h₂ hloc hc₂ => ?_
  refine (yields_expect hc₂ _).bind fun _ c₃ h₃ _ hc₃ => ?_
  exact .ok hloc hc₃

theorem yields_writeStmt (start : Position) {c : Cursor} (hc : c.Scanned) :
    Yields Stmt.Formed (writeStmt start c) := by
  refine (yields_expect hc _).bind fun _ c₁ h₁ _ hc₁ => ?_
  refine (yields_exp hc₁).bind fun e c₂ h₂ he hc₂ => ?_
  refine (yields_expect hc₂ _).bind fun _ c₃ h₃ _ hc₃ => ?_
  exact .ok he hc₃

theorem yields_returnStmt (start : Position) {c : Cursor} (hc : c.Scanned) :
    Yields Stmt.Formed (returnStmt start c) := by
  unfold returnStmt
  split
  · next _ c₁ h₁ hsemi =>
    obtain ⟨-, -, hc₁⟩ := scanned_take? hc hsemi
    exact .ok trivial hc₁
  · refine (yields_exp hc).bind fun e c₁ h₁ he hc₁ => ?_
    refine (yields_expect hc₁ _).bind fun _ c₂ h₂ _ hc₂ => ?_
    exact .ok he hc₂

theorem yields_condition (keyword : Keyword) {c : Cursor} (hc : c.Scanned) :
    Yields Exp.Formed (condition keyword c) := by
  refine (yields_expect hc _).bind fun _ c₁ h₁ _ hc₁ => ?_
  refine (yields_exp hc₁).bind fun e c₂ h₂ he hc₂ => ?_
  refine (yields_expect hc₂ _).bind fun _ c₃ h₃ _ hc₃ => ?_
  exact .ok he hc₃

mutual

theorem yields_stmt {c : Cursor} (hc : c.Scanned) : Yields Stmt.Formed (stmt c) := by
  rw [stmt]
  split
  · next _ c₁ h₁ hcin =>
    obtain ⟨-, -, hc₁⟩ := scanned_take? hc hcin
    refine (yields_readStmt _ hc₁).bind fun s c₂ h₂ hs hc₂ => ?_
    exact .ok hs hc₂
  split
  · next _ c₁ h₁ hcout =>
    obtain ⟨-, -, hc₁⟩ := scanned_take? hc hcout
    refine (yields_writeStmt _ hc₁).bind fun s c₂ h₂ hs hc₂ => ?_
    exact .ok hs hc₂
  split
  · next _ c₁ h₁ hif =>
    obtain ⟨-, -, hc₁⟩ := scanned_take? hc hif
    refine (yields_ifStmt _ hc₁).bind fun s c₂ h₂ hs hc₂ => ?_
    exact .ok hs hc₂
  split
  · next _ c₁ h₁ hwhile =>
    obtain ⟨-, -, hc₁⟩ := scanned_take? hc hwhile
    refine (yields_condition _ hc₁).bind fun e c₂ h₂ he hc₂ => ?_
    refine (yields_block _ hc₂).bind fun b c₃ h₃ hb hc₃ => ?_
    exact .ok ⟨he, hb⟩ hc₃
  split
  · next _ c₁ h₁ hreturn =>
    obtain ⟨-, -, hc₁⟩ := scanned_take? hc hreturn
    refine (yields_returnStmt _ hc₁).bind fun s c₂ h₂ hs hc₂ => ?_
    exact .ok hs hc₂
  · exact yields_expStmt hc
termination_by (c.size, 0)

theorem yields_ifStmt (start : Position) {c : Cursor} (hc : c.Scanned) :
    Yields Stmt.Formed (ifStmt start c) := by
  rw [ifStmt]
  refine (yields_condition _ hc).bind fun e c₁ h₁ he hc₁ => ?_
  refine (yields_block _ hc₁).bind fun yes c₂ h₂ hyes hc₂ => ?_
  dsimp only
  split
  · next _ c₃ h₃ helse =>
    obtain ⟨-, -, hc₃⟩ := scanned_take? hc₂ helse
    refine (yields_block _ hc₃).bind fun no c₄ h₄ hno hc₄ => ?_
    exact .ok ⟨he, hyes, hno⟩ hc₄
  · exact .ok ⟨he, hyes⟩ hc₂
termination_by (c.size, 0)

theorem yields_block (wanted : Wanted) {c : Cursor} (hc : c.Scanned) :
    Yields Stmt.BlockFormed (block wanted c) := by
  rw [block]
  refine (yields_expect hc _).bind fun _ c₁ h₁ _ hc₁ => ?_
  refine (yields_varDecls hc₁).bind fun ds c₂ h₂ hds hc₂ => ?_
  refine (yields_stmts _ hc₂).bind fun ss c₃ h₃ hss hc₃ => ?_
  exact .ok ⟨hds, hss⟩ hc₃
termination_by (c.size, 0)

theorem yields_stmts (start : Position) {c : Cursor} (hc : c.Scanned) :
    Yields (fun ss => Stmt.AllFormed ss.1) (stmts start c) := by
  rw [stmts]
  split
  · next _ c₁ h₁ hcurly =>
    obtain ⟨-, -, hc₁⟩ := scanned_take? hc hcurly
    exact .ok trivial hc₁
  split
  · exact .refuse _ _
  split
  · exact .refuse _ _
  · refine (yields_stmt hc).bind fun s c₁ h₁ hs hc₁ => ?_
    refine (yields_stmts start hc₁).bind fun ss c₂ h₂ hss hc₂ => ?_
    exact .ok ⟨hs, hss⟩ hc₂
termination_by (c.size, 1)

end

/-! ## Programs -/

theorem yields_structDecl {c : Cursor} (hc : c.Scanned) :
    Yields StructDecl.Formed (structDecl c) := by
  unfold structDecl
  split
  · exact .refuse _ _
  · next _ c₁ h₁ hstruct =>
    obtain ⟨-, -, hc₁⟩ := scanned_take? hc hstruct
    refine (yields_ident hc₁ rfl).bind fun x c₂ h₂ hx hc₂ => ?_
    refine (yields_expect hc₂ _).bind fun _ c₃ h₃ _ hc₃ => ?_
    refine (yields_varDecls hc₃).bind fun ds c₄ h₄ hds hc₄ => ?_
    dsimp only
    split
    · exact .refuse _ _
    · next hne =>
      refine (yields_expect hc₄ _).bind fun _ c₅ h₅ _ hc₅ => ?_
      refine (yields_expect hc₅ _).bind fun _ c₆ h₆ _ hc₆ => ?_
      exact .ok ⟨hx, fun h => hne (List.isEmpty_iff.mpr h), hds⟩ hc₆

theorem yields_fnDecl {c : Cursor} (hc : c.Scanned) : Yields FnDecl.Formed (fnDecl c) := by
  refine (yields_wordType hc).bind fun returns c₁ h₁ hr hc₁ => ?_
  refine (yields_ident hc₁ rfl).bind fun x c₂ h₂ hx hc₂ => ?_
  refine (yields_formals hc₂).bind fun ds c₃ h₃ hds hc₃ => ?_
  refine (yields_block _ hc₃).bind fun body c₄ h₄ hbody hc₄ => ?_
  exact .ok ⟨hr, hx, hds, hbody⟩ hc₄

theorem yields_decl {c : Cursor} (hc : c.Scanned) : Yields Decl.Formed (decl c) := by
  unfold decl
  split
  · refine (yields_structDecl hc).bind fun d c₁ h₁ hd hc₁ => ?_
    exact .ok hd hc₁
  split
  · refine (yields_fnDecl hc).bind fun d c₁ h₁ hd hc₁ => ?_
    exact .ok hd hc₁
  split
  · refine (yields_varDecl hc).bind fun d c₁ h₁ hd hc₁ => ?_
    exact .ok hd hc₁
  · exact .refuse _ _

theorem yields_decls {c : Cursor} (hc : c.Scanned) :
    Yields (fun ds => ∀ d ∈ ds, Decl.Formed d) (decls c) := by
  rw [decls]
  split
  · exact .ok (List.forall_mem_nil _) hc
  · refine (yields_decl hc).bind fun d c₁ h₁ hd hc₁ => ?_
    refine (yields_decls hc₁).bind fun ds c₂ h₂ hds hc₂ => ?_
    exact .ok (List.forall_mem_cons.mpr ⟨hd, hds⟩) hc₂
termination_by c.size

theorem formed_program {ts : List Token} {eof : Token} (hts : ∀ t ∈ ts, t.Scanned) {p : Program}
    (h : program ts eof = .ok p) : p.Formed := by
  obtain ⟨x, hx, h⟩ := bind_eq_ok.mp h
  cases h
  exact (yields_decls (c := .ofTokens ts eof) hts x hx).1

end Parse

/-- What is read of a text is read of its tokens. -/
theorem Program.exists_ofTokens_of_parse {file : Option String} {source : String} {p : Program}
    (h : Program.parse file source = .ok p) : ∃ tokens q, Token.scan source = .ok tokens ∧
      Program.ofTokens tokens = .ok q ∧ p = { q with filename := file } := by
  unfold Program.parse at h
  split at h
  · cases h
  · next tokens hscan =>
    split at h
    · cases h
    · next q hq =>
      cases h
      exact ⟨tokens, q, hscan, hq, rfl⟩

theorem Program.ofTokens_append (ts : List Token) (eof : Token) :
    Program.ofTokens (ts ++ [eof]) = Parse.program ts eof := by
  rw [ofTokens, List.getLast?_concat, List.dropLast_concat]

/-- Every program that is read is formed. -/
theorem Program.parse_formed {file : Option String} {source : String} {p : Program}
    (h : Program.parse file source = .ok p) : p.Formed := by
  obtain ⟨tokens, q, hscan, hq, rfl⟩ := exists_ofTokens_of_parse h
  have hts := Token.scanned_of_scanFrom hscan
  have hformed : q.Formed := by
    unfold Program.ofTokens at hq
    split at hq
    · exact Parse.formed_program (fun t ht => hts t (List.dropLast_subset _ ht)) hq
    · exact Parse.formed_program (List.forall_mem_nil _) hq
  exact hformed

/-! ## Reading by evaluation -/

/-- The program of a text that is given by its characters, if there is one. -/
def Program.ofChars? (file : Option String) (cs : List Char) : Option Program :=
  match Token.scanFrom cs .start with
  | .error _ => none
  | .ok tokens => (Program.ofTokens tokens).toOption.map ({ · with filename := file })

/-- A text is read as a program with some property if the evaluation of its characters says so.
(The characters of a text that is given in quotes are not evaluated fast.) -/
theorem Program.exists_parse {P : Program → Prop} [DecidablePred P] {file : Option String}
    {source : String} {cs : List Char} (hsource : source = String.ofList cs)
    (h : (ofChars? file cs).any (fun p => decide (P p)) = true) :
    ∃ p, Program.parse file source = .ok p ∧ P p := by
  obtain ⟨p, hp, hP⟩ := (Option.any_eq_true _ _).mp h
  refine ⟨p, ?_, of_decide_eq_true hP⟩
  rw [ofChars?] at hp
  rw [Program.parse, hsource, Token.scan, String.toList_ofList]
  cases hscan : Token.scanFrom cs .start with
  | error e =>
    rw [hscan] at hp
    cases hp
  | ok tokens =>
    rw [hscan] at hp
    dsimp only at hp ⊢
    cases hq : Program.ofTokens tokens with
    | error e =>
      rw [hq] at hp
      cases hp
    | ok q =>
      rw [hq] at hp
      exact congrArg Except.ok (Option.some.inj hp)

end CMinusMinus
