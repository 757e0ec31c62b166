import CMinusMinus.Proofs.Places.Pieces

/-!
# Places in the text

Where a name or a literal of a tree stands, a token of the text does, and a return statement without
a value begins with one.  A declaration of a variable is read from tokens of its own.  So the pieces
of a declaration are among the tokens that it was read from (`Parse.covers_decl`).
-/

namespace CMinusMinus

open Token (Covers Declares)

namespace Parse

open Cursor

theorem leaves_identOf {t : Token} (h : t.kind = .name) :
    Token.Leaves [t] [(identOf t).info.span] := by
  have hextent : t.extent = t.span := by
    rw [Token.extent, h]
    rfl
  have hleaf := Token.Leaves.leaf (t := t) (by rw [h]; rfl)
  rw [hextent] at hleaf
  exact hleaf

theorem leaves_ident (c : Cursor) {wanted : Wanted} (hw : wanted.kind = .name) :
    Takes c (fun ts x => Token.Leaves ts [x.info.span]) (c.ident wanted) := by
  refine (takes_expect c wanted).bind ?_
  rintro t c₁ h₁ ts ⟨rfl, hkind⟩
  exact .ok (leaves_identOf (hkind.trans hw))

theorem leaves_leaf? {t : Token} {e : Exp} (h : leaf? t = some e) : Token.Leaves [t] e.leaves := by
  have hleaf : t.kind.isLeaf = true → Token.Leaves [t] [some t.extent] := Token.Leaves.leaf
  unfold Token.extent at hleaf
  unfold leaf? at h
  split at h
  · next hkind =>
    cases h
    rw [hkind] at hleaf
    exact hleaf rfl
  · next hkind =>
    cases h
    rw [hkind] at hleaf
    exact hleaf rfl
  · next hkind =>
    cases h
    rw [hkind] at hleaf
    exact hleaf rfl
  · next hkind =>
    cases h
    rw [hkind] at hleaf
    exact hleaf rfl
  · cases h

theorem leaves_unaryOp? {t : Token} {op : Info → Exp → Exp} (h : unaryOp? t = some op) (i : Info)
    (e : Exp) : (op i e).leaves = e.leaves := by
  unfold unaryOp? at h
  split at h <;> cases h <;> rfl

/-! ## Expressions -/

theorem leaves_fields (start : Position) (loc : Exp) (c : Cursor) :
    Takes c (fun ts e => ∀ us, Token.Leaves us loc.leaves → Token.Leaves (us ++ ts) e.leaves)
      (fields start loc c) := by
  rw [fields]
  split
  · exact .ok fun us h => h.before []
  · next t c₁ h₁ hdot =>
    refine .cons (rest_of_take? hdot).1 fun _ => (leaves_ident c₁ rfl).bind fun f c₂ h₂ ts hf => ?_
    refine (leaves_fields start _ c₂).bind fun e c₃ h₃ vs he => .ok fun us h => ?_
    have hall := he (us ++ t :: ts) (h.append (hf.cons t))
    rw [List.append_assoc, List.cons_append, ← List.append_nil vs] at hall
    exact hall
termination_by c.size

theorem leaves_location (c : Cursor) :
    Takes c (fun ts e => Token.Leaves ts e.leaves) (location c) := by
  refine (leaves_ident c rfl).bind fun x c₁ h₁ ts hx => ?_
  refine (leaves_fields c.here _ c₁).bind fun e c₂ h₂ us he => .ok ?_
  rw [List.append_nil]
  exact he ts hx

mutual

theorem leaves_exp (c : Cursor) : Takes c (fun ts e => Token.Leaves ts e.leaves) (exp c) := by
  rw [exp]
  refine (leaves_level .or c).bind fun e c₁ h₁ ts he => ?_
  dsimp only
  split
  · exact .ok (he.before [])
  · next t c₂ h₂ hassign =>
    refine .cons (rest_of_take? hassign).1 fun _ => ?_
    split
    · refine (leaves_exp c₂).bind fun r c₃ h₃ us hr => .ok ?_
      rw [List.append_nil]
      exact he.append (hr.cons t)
    · exact .refuse _ _
termination_by (c.size, 14)
decreasing_by
  · exact .right _ (by decide)
  · exact .left _ _ (by omega)

theorem leaves_level (l : Level) (c : Cursor) :
    Takes c (fun ts e => Token.Leaves ts e.leaves) (level l c) := by
  rw [level]
  refine (leaves_operand l c).bind fun e c₁ h₁ ts he => ?_
  refine (leaves_operators l c.here e c₁).bind fun r c₂ h₂ us hr => .ok ?_
  rw [List.append_nil]
  exact hr ts he
termination_by (c.size, 2 * l.height + 1)

theorem leaves_operand (l : Level) (c : Cursor) :
    Takes c (fun ts e => Token.Leaves ts e.leaves) (operand l c) := by
  rw [operand]
  split
  · next l' hl =>
    have := Level.height_tighter? hl
    exact leaves_level l' c
  · exact leaves_unary c
termination_by (c.size, 2 * l.height)
decreasing_by
  · exact .right _ (by omega)
  · exact .right _ (by cases l <;> decide)

theorem leaves_operators (l : Level) (start : Position) (left : Exp) (c : Cursor) :
    Takes c (fun ts e => ∀ us, Token.Leaves us left.leaves → Token.Leaves (us ++ ts) e.leaves)
      (operators l start left c) := by
  rw [operators]
  split
  · exact .ok fun us h => h.before []
  · next op t c₁ h₁ hop =>
    refine .cons (rest_of_takeIf? hop).1 fun _ => ?_
    refine (leaves_operand l c₁).bind fun r c₂ h₂ ts hr => ?_
    dsimp only
    split
    · refine (leaves_operators l start _ c₂).bind fun e c₃ h₃ vs he => .ok fun us h => ?_
      have hall := he (us ++ t :: ts) (h.append (hr.cons t))
      rw [List.append_assoc, List.cons_append, ← List.append_nil vs] at hall
      exact hall
    · split
      · exact .refuse _ _
      · refine .ok fun us h => ?_
        rw [List.append_nil]
        exact h.append (hr.cons t)
termination_by (c.size, 0)

theorem leaves_unary (c : Cursor) : Takes c (fun ts e => Token.Leaves ts e.leaves) (unary c) := by
  rw [unary]
  split
  · next op t c₁ h₁ hop =>
    obtain ⟨hrest, hop⟩ := rest_of_takeIf? hop
    refine .cons hrest fun _ => (leaves_unary c₁).bind fun e c₂ h₂ ts he => .ok ?_
    rw [leaves_unaryOp? hop, List.append_nil]
    exact he.cons t
  · exact leaves_primary c
termination_by (c.size, 1)

theorem leaves_primary (c : Cursor) :
    Takes c (fun ts e => Token.Leaves ts e.leaves) (primary c) := by
  rw [primary]
  split
  · next e t c₁ h₁ hleaf =>
    obtain ⟨hrest, hleaf⟩ := rest_of_takeIf? hleaf
    exact .cons hrest fun _ => .ok (leaves_leaf? hleaf)
  split
  · next t c₁ h₁ hparen =>
    refine .cons (rest_of_take? hparen).1 fun _ => (leaves_exp c₁).bind fun e c₂ h₂ ts he => ?_
    refine (takes_expect c₂ _).bind fun u c₃ h₃ us _ => .ok ?_
    exact (he.before _).cons t
  split
  · exact .refuse _ _
  · next t c₁ h₁ hname =>
    obtain ⟨hrest, hkind⟩ := rest_of_take? hname
    refine .cons hrest fun _ => ?_
    split
    · refine (leaves_fields c.here _ c₁).bind fun e c₂ h₂ us he => .ok ?_
      rw [List.append_nil]
      exact he [t] (leaves_identOf hkind)
    · next u c₂ h₂ hparen =>
      refine .cons (rest_of_take? hparen).1 fun _ => ?_
      refine (leaves_arguments c₂).bind fun es c₃ h₃ us hes => .ok ?_
      rw [List.append_nil]
      exact (leaves_identOf hkind).append (hes.cons u)
termination_by (c.size, 0)

theorem leaves_arguments (c : Cursor) :
    Takes c (fun ts es => Token.Leaves ts (Exp.listLeaves es)) (arguments c) := by
  rw [arguments]
  split
  · next t c₁ h₁ hparen => exact .cons (rest_of_take? hparen).1 fun _ => .ok (.nil _)
  · exact leaves_argumentList c
termination_by (c.size, 16)

theorem leaves_argumentList (c : Cursor) :
    Takes c (fun ts es => Token.Leaves ts (Exp.listLeaves es)) (argumentList c) := by
  rw [argumentList]
  refine (leaves_exp c).bind fun e c₁ h₁ ts he => ?_
  dsimp only
  split
  · next t c₂ h₂ hcomma =>
    refine .cons (rest_of_take? hcomma).1 fun _ => ?_
    refine (leaves_argumentList c₂).bind fun es c₃ h₃ us hes => .ok ?_
    rw [List.append_nil]
    exact he.append (hes.cons t)
  · refine (takes_expect c₁ _).bind fun u c₂ h₂ us _ => .ok ?_
    exact he.append (.nil _)
termination_by (c.size, 15)

end

/-! ## Declarations of variables -/

theorem leaves_wordType? {t : Token} {node : Option Span → TypeNode} (h : wordType? t = some node)
    (s : Option Span) : (node s).leaves = [] := by
  unfold wordType? at h
  split at h <;> cases h <;> rfl

theorem leaves_wordType (c : Cursor) :
    Takes c (fun ts t => Token.Leaves ts t.leaves) (wordType c) := by
  unfold wordType
  split
  · next node t c₁ h₁ hword =>
    obtain ⟨hrest, hword⟩ := rest_of_takeIf? hword
    refine .cons hrest fun _ => .ok ?_
    rw [leaves_wordType? hword]
    exact .nil _
  · exact .refuse _ _

theorem leaves_varType (c : Cursor) :
    Takes c (fun ts t => Token.Leaves ts t.leaves) (varType c) := by
  unfold varType
  split
  · next t c₁ h₁ hstruct =>
    refine .cons (rest_of_take? hstruct).1 fun _ => ?_
    exact (leaves_ident c₁ rfl).bind fun x c₂ h₂ ts hx => .ok ((hx.before []).cons t)
  · exact leaves_wordType c

theorem leaves_varDecl (c : Cursor) :
    Takes c (fun ts d => Token.Leaves ts d.leaves) (varDecl c) := by
  refine (leaves_varType c).bind fun type c₁ h₁ ts htype => ?_
  refine (leaves_ident c₁ rfl).bind fun x c₂ h₂ us hx => ?_
  refine (takes_expect c₂ _).bind fun _ c₃ h₃ vs _ => .ok ?_
  exact htype.append (hx.before _)

theorem ends_varDecl (c : Cursor) (hc : ∀ t ∈ c.rest, t.Spelled) {x : Read VarDecl c.size}
    (h : varDecl c = .ok x) : Ends c x.next ∧ x.value.span = some (x.next.since c.here) := by
  obtain ⟨⟨type, c₁, h₁⟩, htype, h⟩ := bind_eq_ok.mp h
  obtain ⟨⟨name, c₂, h₂⟩, hname, h⟩ := bind_eq_ok.mp h
  obtain ⟨⟨t, c₃, h₃⟩, ht, h⟩ := bind_eq_ok.mp h
  cases h
  obtain ⟨ts, hts, hc₁⟩ := rest_of_takes (takes_varType c) hc htype
  obtain ⟨us, hus, -⟩ := rest_of_takes (takes_ident c₁ rfl) hc₁ hname
  exact ⟨((ends_expect rfl ht).after hus).after hts, rfl⟩

/-- A declaration of a variable is read from tokens of its own. -/
theorem declares_varDecl (c : Cursor) : Takes c Declares (varDecl c) := by
  intro hc x hx
  obtain ⟨ts, hts, hleaves⟩ := leaves_varDecl c hc x hx
  obtain ⟨hends, hspan⟩ := ends_varDecl c hc hx
  refine ⟨ts, hts, hleaves, fun hordered => ?_⟩
  obtain ⟨t, u, m, hhead, hlast, hkind, hstart, hstop⟩ := hends.stretch hts hordered
  exact ⟨t, u, m, _, hhead, hlast, hkind, hspan, hstart, hstop⟩

theorem covers_varDeclItems (c : Cursor) :
    Takes c (fun ts ds => Covers ts (ds.map .var)) (varDeclItems c) := by
  rw [varDeclItems]
  split
  · refine (declares_varDecl c).bind fun d c₁ h₁ ts hd => ?_
    refine (covers_varDeclItems c₁).bind fun ds c₂ h₂ us hds => .ok ?_
    rw [List.append_nil]
    exact (Covers.of_declares hd).append hds
  · exact .ok .nil
termination_by c.size

theorem covers_varDecls (c : Cursor) :
    Takes c (fun ts ds => Covers ts (ds.items.map .var)) (varDecls c) :=
  (covers_varDeclItems c).bind fun _ _ _ _ hds => .ok (hds.before [])

theorem leaves_formalItems (c : Cursor) :
    Takes c (fun ts ds => Token.Leaves ts (VarDecl.listLeaves ds)) (formalItems c) := by
  rw [formalItems]
  refine (leaves_wordType c).bind fun type c₁ h₁ ts htype => ?_
  refine (leaves_ident c₁ rfl).bind fun x c₂ h₂ us hx => ?_
  have hd := htype.append hx
  dsimp only
  split
  · next t c₃ h₃ hcomma =>
    refine .cons (rest_of_take? hcomma).1 fun _ => ?_
    refine (leaves_formalItems c₃).bind fun ds c₄ h₄ vs hds => .ok ?_
    rw [List.append_nil, ← List.append_assoc]
    exact hd.append (hds.cons t)
  · refine (takes_expect c₂ _).bind fun q c₃ h₃ vs _ => .ok ?_
    rw [← List.append_assoc]
    exact hd.append (.nil _)
termination_by c.size

theorem leaves_formals (c : Cursor) :
    Takes c (fun ts ds => Token.Leaves ts (VarDecl.listLeaves ds.items)) (formals c) := by
  refine (takes_expect c _).bind fun p c₁ h₁ ts _ => ?_
  dsimp only
  split
  · next q c₂ h₂ hparen => exact .cons (rest_of_take? hparen).1 fun _ => .ok (.nil _)
  · exact (leaves_formalItems c₁).bind fun ds c₂ h₂ us hds => .ok ((hds.before []).after ts)

/-! ## Statements -/

theorem pieces_stepOp? {t : Token} {op : Option Span → Exp → Stmt} (h : stepOp? t = some op)
    (s : Option Span) (e : Exp) : (op s e).pieces = e.leaves.map .leaf := by
  unfold stepOp? at h
  split at h <;> cases h <;> rfl

theorem pieces_stmtOfExp? {span : Span} {e : Exp} {s : Stmt} (h : stmtOfExp? span e = some s) :
    s.pieces = e.leaves.map .leaf := by
  unfold stmtOfExp? at h
  split at h <;> cases h <;> rfl

/-- The pieces of the statement are among the tokens. -/
abbrev CoversStmt (ts : List Token) (s : Stmt) : Prop := Covers ts s.pieces

theorem covers_expStmt (c : Cursor) : Takes c CoversStmt (expStmt c) := by
  refine (leaves_exp c).bind fun e c₁ h₁ ts he => ?_
  dsimp only
  split
  · next op o c₂ h₂ hop =>
    obtain ⟨hrest, hop⟩ := rest_of_takeIf? hop
    refine .cons hrest fun _ => ?_
    split
    · refine (takes_expect c₂ _).bind fun _ c₃ h₃ us _ => .ok ?_
      unfold CoversStmt
      rw [pieces_stepOp? hop]
      exact (Covers.of_leaves he).before _
    · exact .refuse _ _
  · refine (takes_expect c₁ _).bind fun _ c₂ h₂ us _ => ?_
    dsimp only
    split
    · next s hs =>
      refine .ok ?_
      unfold CoversStmt
      rw [pieces_stmtOfExp? hs]
      exact (Covers.of_leaves he).before _
    · exact .error _

theorem covers_readStmt (start : Position) (c : Cursor) :
    Takes c CoversStmt (readStmt start c) := by
  refine (takes_expect c _).bind fun _ c₁ h₁ ts _ => ?_
  refine (leaves_location c₁).bind fun e c₂ h₂ us he => ?_
  exact (takes_expect c₂ _).bind fun _ c₃ h₃ vs _ =>
    .ok (((Covers.of_leaves he).before _).after ts)

theorem covers_writeStmt (start : Position) (c : Cursor) :
    Takes c CoversStmt (writeStmt start c) := by
  refine (takes_expect c _).bind fun _ c₁ h₁ ts _ => ?_
  refine (leaves_exp c₁).bind fun e c₂ h₂ us he => ?_
  exact (takes_expect c₂ _).bind fun _ c₃ h₃ vs _ =>
    .ok (((Covers.of_leaves he).before _).after ts)

/-- A return statement without a value begins where `return` stands. -/
theorem covers_returnStmt (t : Token) (c : Cursor) :
    Takes c (fun ts s => CoversStmt (t :: ts) s) (returnStmt t.position c) := by
  unfold returnStmt
  split
  · next u c₁ h₁ hsemi =>
    refine .cons (rest_of_take? hsemi).1 fun _ => .ok ?_
    exact .bareReturn (congrArg some (start_since c₁ t.position)) (.none _)
  · refine (leaves_exp c).bind fun e c₁ h₁ ts he => ?_
    exact (takes_expect c₁ _).bind fun _ c₂ h₂ us _ =>
      .ok (.skip t ((Covers.of_leaves he).before _))

theorem leaves_condition (keyword : Keyword) (c : Cursor) :
    Takes c (fun ts e => Token.Leaves ts e.leaves) (condition keyword c) := by
  refine (takes_expect c _).bind fun _ c₁ h₁ ts _ => ?_
  refine (leaves_exp c₁).bind fun e c₂ h₂ us he => ?_
  exact (takes_expect c₂ _).bind fun _ c₃ h₃ vs _ => .ok ((he.before _).after ts)

/-- The pieces of the block are among the tokens. -/
abbrev CoversBlock (ts : List Token) (b : Block Stmt) : Prop :=
  Covers ts (Stmt.blockPieces b)

theorem here_of_rest {c : Cursor} {t : Token} {ts : List Token} (h : c.rest = t :: ts) :
    c.here = t.position := by
  rw [here, peek, h]
  rfl

mutual

theorem covers_stmt (c : Cursor) : Takes c CoversStmt (stmt c) := by
  rw [stmt]
  split
  · next t c₁ h₁ hcin =>
    refine .cons (rest_of_take? hcin).1 fun _ => ?_
    exact (covers_readStmt c.here c₁).bind fun s c₂ h₂ ts hs => .ok (.skip t (hs.before []))
  split
  · next t c₁ h₁ hcout =>
    refine .cons (rest_of_take? hcout).1 fun _ => ?_
    exact (covers_writeStmt c.here c₁).bind fun s c₂ h₂ ts hs => .ok (.skip t (hs.before []))
  split
  · next t c₁ h₁ hif =>
    refine .cons (rest_of_take? hif).1 fun _ => ?_
    exact (covers_ifStmt c.here c₁).bind fun s c₂ h₂ ts hs => .ok (.skip t (hs.before []))
  split
  · next t c₁ h₁ hwhile =>
    refine .cons (rest_of_take? hwhile).1 fun _ => ?_
    refine (leaves_condition .while c₁).bind fun e c₂ h₂ ts he => ?_
    refine (covers_block .loopStart c₂).bind fun b c₃ h₃ us hb => .ok ?_
    rw [List.append_nil]
    exact .skip t ((Covers.of_leaves he).append hb)
  split
  · next t c₁ h₁ hreturn =>
    obtain ⟨hrest, -⟩ := rest_of_take? hreturn
    rw [here_of_rest hrest]
    refine .cons hrest fun _ => (covers_returnStmt t c₁).bind fun s c₂ h₂ ts hs => .ok ?_
    rw [List.append_nil]
    exact hs
  · exact covers_expStmt c
termination_by (c.size, 0)

theorem covers_ifStmt (start : Position) (c : Cursor) :
    Takes c CoversStmt (ifStmt start c) := by
  rw [ifStmt]
  refine (leaves_condition .if c).bind fun e c₁ h₁ ts he => ?_
  refine (covers_block .thenStart c₁).bind fun yes c₂ h₂ us hyes => ?_
  dsimp only
  split
  · next t c₃ h₃ helse =>
    refine .cons (rest_of_take? helse).1 fun _ => ?_
    refine (covers_block .elseStart c₃).bind fun no c₄ h₄ vs hno => .ok ?_
    rw [List.append_nil]
    exact (Covers.of_leaves he).append (hyes.append (.skip t hno))
  · exact .ok ((Covers.of_leaves he).append (hyes.before []))
termination_by (c.size, 0)

theorem covers_block (wanted : Wanted) (c : Cursor) :
    Takes c CoversBlock (block wanted c) := by
  rw [block]
  refine (takes_expect c wanted).bind fun _ c₁ h₁ ts _ => ?_
  refine (covers_varDecls c₁).bind fun ds c₂ h₂ us hds => ?_
  refine (covers_stmts c₂.here c₂).bind fun ss c₃ h₃ vs hss => .ok ?_
  rw [List.append_nil]
  exact (hds.append hss).after ts
termination_by (c.size, 0)

theorem covers_stmts (start : Position) (c : Cursor) :
    Takes c (fun ts ss => Covers ts (Stmt.listPieces ss.1))
      (stmts start c) := by
  rw [stmts]
  split
  · next t c₁ h₁ hcurly => exact .cons (rest_of_take? hcurly).1 fun _ => .ok (.none _)
  split
  · exact .refuse _ _
  split
  · exact .refuse _ _
  · refine (covers_stmt c).bind fun s c₁ h₁ ts hs => ?_
    refine (covers_stmts start c₁).bind fun ss c₂ h₂ us hss => .ok ?_
    rw [List.append_nil]
    exact hs.append hss
termination_by (c.size, 1)

end

/-! ## Declarations at the top -/

/-- The pieces of the declaration are among the tokens. -/
abbrev CoversDecl (ts : List Token) (d : Decl) : Prop := Covers ts d.pieces

theorem covers_structDecl (c : Cursor) :
    Takes c (fun ts d => CoversDecl ts (.struct d)) (structDecl c) := by
  unfold structDecl
  split
  · exact .refuse _ _
  · next t c₁ h₁ hstruct =>
    refine .cons (rest_of_take? hstruct).1 fun _ => ?_
    refine (leaves_ident c₁ rfl).bind fun x c₂ h₂ ts hx => ?_
    refine (takes_expect c₂ _).bind fun _ c₃ h₃ us _ => ?_
    refine (covers_varDecls c₃).bind fun ds c₄ h₄ vs hds => ?_
    dsimp only
    split
    · exact .refuse _ _
    · refine (takes_expect c₄ _).bind fun _ c₅ h₅ ws _ => ?_
      refine (takes_expect c₅ _).bind fun _ c₆ h₆ xs _ => .ok ?_
      exact .skip t ((Covers.of_leaves hx).append ((hds.before _).after us))

theorem covers_fnDecl (c : Cursor) :
    Takes c (fun ts d => CoversDecl ts (.fn d)) (fnDecl c) := by
  refine (takes_wordType c).bind fun type c₁ h₁ ts _ => ?_
  refine (leaves_ident c₁ rfl).bind fun x c₂ h₂ us hx => ?_
  refine (leaves_formals c₂).bind fun fs c₃ h₃ vs hfs => ?_
  refine (covers_block .bodyStart c₃).bind fun b c₄ h₄ ws hb => .ok ?_
  rw [List.append_nil]
  exact ((Covers.of_leaves hx).append ((Covers.of_leaves hfs).append hb)).after ts

/-- The pieces of a declaration are among the tokens it is read from. -/
theorem covers_decl (c : Cursor) : Takes c CoversDecl (decl c) := by
  unfold decl
  split
  · exact (covers_structDecl c).bind fun d c₁ h₁ ts hd => .ok (hd.before [])
  split
  · exact (covers_fnDecl c).bind fun d c₁ h₁ ts hd => .ok (hd.before [])
  split
  · exact (declares_varDecl c).bind fun d c₁ h₁ ts hd => .ok ((Covers.of_declares hd).before [])
  · exact .refuse _ _

/-- The names and literals of a declaration are among the tokens it is read from. -/
theorem CoversDecl.leaves {ts : List Token} {d : Decl} (h : CoversDecl ts d) :
    Token.Leaves ts d.leaves := by
  rw [← d.places_pieces.1]
  exact Covers.leaves h

/-- The return statements without a value in a declaration begin with tokens it is read from. -/
theorem CoversDecl.returns {ts : List Token} {d : Decl} (h : CoversDecl ts d) :
    Token.Begin ts d.bareReturns := by
  rw [← d.places_pieces.2]
  exact Covers.returns h

end Parse

end CMinusMinus
