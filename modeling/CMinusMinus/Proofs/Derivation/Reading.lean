import CMinusMinus.Parse.Program
import CMinusMinus.Proofs.Derivation
import CMinusMinus.Proofs.Form

/-!
# What is read is derived

A reader takes the first of the tokens to come, and these derive the form of its answer, by the
production that the reader is named for.

The operators of a level are read with what stands to their left already read, so what is said of
them is of the tokens from there on.  Where operators of a level group, what stands to their left
is of the level itself, and where they do not, it is an operand of the level (`Level.left`).
-/

namespace CMinusMinus

open Grammar

/-! ## Taking tokens -/

/-- Whatever the reader answers, it took some tokens from the cursor on, and these and the answer
are as stated. -/
def Parse.Takes {α : Type} {n : Nat} (c : Cursor) (P : List Token → α → Prop)
    (r : Reading α n) : Prop :=
  (∀ t ∈ c.rest, t.Spelled) → ∀ x, r = .ok x →
    ∃ ts, c.rest = ts ++ x.next.rest ∧ P ts x.value

theorem Cursor.rest_of_take? {c c' : Cursor} {kind : TokenKind} {t : Token}
    {h : c'.size < c.size} (ht : c.take? kind = some ⟨t, c', h⟩) :
    c.rest = t :: c'.rest ∧ t.kind = kind := by
  unfold Cursor.take? at ht
  split at ht
  · cases ht
  · next hrest =>
    split at ht
    · next hkind =>
      cases ht
      exact ⟨hrest, hkind⟩
    · cases ht

theorem Cursor.rest_of_takeIf? {α : Type} {c c' : Cursor} {test : Token → Option α} {a : α}
    {t : Token} {h : c'.size < c.size} (ht : c.takeIf? test = some ⟨(a, t), c', h⟩) :
    c.rest = t :: c'.rest ∧ test t = some a := by
  unfold Cursor.takeIf? at ht
  split at ht
  · cases ht
  · next hrest =>
    obtain ⟨a', ha, heq⟩ := Option.map_eq_some_iff.mp ht
    cases heq
    exact ⟨hrest, ha⟩

namespace Parse

namespace Takes

variable {α β : Type} {n m : Nat} {c c' : Cursor} {P : List Token → α → Prop}
  {Q : List Token → β → Prop}

theorem ok {a : α} {h : c.size < n} (ha : P [] a) : Takes c P (.ok ⟨a, c, h⟩ : Reading α n) := by
  rintro - x hx
  cases hx
  exact ⟨[], rfl, ha⟩

theorem error (e : SyntaxError) : Takes c P (.error e : Reading α n) := by
  rintro - x hx
  cases hx

theorem refuse (c₁ : Cursor) (cause : SyntaxCause) :
    Takes c P (c₁.refuse cause : Reading α n) :=
  error _

theorem bind {r : Reading α n} {next : Read α n → Reading β m} (hr : Takes c P r)
    (hn : ∀ a c₁ h ts, P ts a → Takes c₁ (fun us => Q (ts ++ us)) (next ⟨a, c₁, h⟩)) :
    Takes c Q (r >>= next) := by
  intro hc y hy
  obtain ⟨⟨a, c₁, h⟩, hx, hy⟩ := bind_eq_ok.mp hy
  obtain ⟨ts, hts, ha⟩ := hr hc _ hx
  have hc₁ : ∀ t ∈ c₁.rest, t.Spelled := fun t ht =>
    hc t (hts ▸ List.mem_append_right ts ht)
  obtain ⟨us, hus, hb⟩ := hn a c₁ h ts ha hc₁ y hy
  exact ⟨ts ++ us, by rw [hts, hus, List.append_assoc], hb⟩

/-- What comes after a token that was taken. -/
theorem cons {t : Token} {r : Reading α n} (hrest : c.rest = t :: c'.rest)
    (hr : t.Spelled → Takes c' (fun us => P (t :: us)) r) : Takes c P r := by
  intro hc x hx
  rw [hrest] at hc
  obtain ⟨ht, hc'⟩ := List.forall_mem_cons.mp hc
  obtain ⟨us, hus, ha⟩ := hr ht hc' x hx
  exact ⟨t :: us, by rw [hrest, hus, List.cons_append], ha⟩

theorem mono {P' : List Token → α → Prop} {r : Reading α n} (hr : Takes c P r)
    (h : ∀ ts a, P ts a → P' ts a) : Takes c P' r := by
  intro hc x hx
  obtain ⟨ts, hts, ha⟩ := hr hc x hx
  exact ⟨ts, hts, h _ _ ha⟩

end Takes

/-! ## Tokens -/

theorem takes_expect (c : Cursor) (wanted : Wanted) :
    Takes c (fun ts t => ts = [t] ∧ t.kind = wanted.kind) (c.expect wanted) := by
  unfold Cursor.expect
  split
  · next ht =>
    obtain ⟨hrest, hkind⟩ := Cursor.rest_of_take? ht
    exact .cons hrest fun _ => .ok ⟨rfl, hkind⟩
  · exact .refuse _ _

/-- The one token is a name, and the identifier is of it. -/
def Names (ts : List Token) (x : Ident) : Prop :=
  ∃ t, ts = [t] ∧ t.kind = .name ∧ x.form = identOf t

theorem takes_ident (c : Cursor) {wanted : Wanted} (hw : wanted.kind = .name) :
    Takes c Names (c.ident wanted) := by
  refine (takes_expect c wanted).bind ?_
  rintro t c₁ h₁ ts ⟨rfl, hkind⟩
  exact .ok ⟨t, rfl, hkind.trans hw, rfl⟩

/-! ## Levels -/

end Parse

namespace Level

/-- The nonterminal of a level. -/
def symbol : Level → Nonterminal
  | .or => .or
  | .and => .and
  | .equality => .eq
  | .relational => .rel
  | .additive => .add
  | .multiplicative => .mul

/-- The nonterminal of the operands of a level. -/
def operand : Level → Nonterminal
  | .or => .and
  | .and => .eq
  | .equality => .rel
  | .relational => .add
  | .additive => .mul
  | .multiplicative => .unary

/-- The nonterminal of what stands to the left of an operator of a level. -/
def left (l : Level) : Nonterminal :=
  match l.chainError? with
  | none => l.symbol
  | some _ => l.operand

theorem passes (l : Level) : Passes l.symbol l.operand := by cases l <;> constructor

theorem symbol_tighter {l l' : Level} (h : l.tighter? = some l') : l'.symbol = l.operand := by
  cases l <;> cases h <;> rfl

theorem operand_tightest {l : Level} (h : l.tighter? = none) : l.operand = .unary := by
  cases l <;> cases h
  rfl

variable {l : Level} {m : Mark} {op : BinOp}

/-- The operators of a level group or stand alone. -/
theorem rule (h : l.op? m = some op) :
    (l.chainError? = none ∧ Groups l.symbol l.operand m op) ∨
      (l.chainError? ≠ none ∧ Alone l.symbol l.operand m op) := by
  cases l <;> cases m <;> cases h <;>
    first
      | exact .inl ⟨rfl, by constructor⟩
      | exact .inr ⟨nofun, by constructor⟩

variable {ts us : List Token} {t : Token} {e r : Exp}

/-- What may stand to the left of an operator of a level is of the level. -/
theorem derives_left (h : Derives l.left ts e) : Derives l.symbol ts e := by
  unfold left at h
  split at h
  · exact h
  · exact .pass l.passes h

/-- An operand may stand to the left of an operator. -/
theorem left_of_operand (h : Derives l.operand ts e) : Derives l.left ts e := by
  unfold left
  split
  · exact .pass l.passes h
  · exact h

theorem derives_binary (hop : l.ofToken? t = some op) (hl : Derives l.left ts e)
    (hr : Derives l.operand us r) : Derives l.symbol (ts ++ t :: us) (.binary {} op e r) := by
  unfold ofToken? at hop
  split at hop
  · next m hkind =>
    unfold left at hl
    rcases rule hop with ⟨hchain, hgroups⟩ | ⟨hchain, halone⟩
    · rw [hchain] at hl
      exact .groups hgroups hl hkind hr
    · split at hl
      · next hnone => exact absurd hnone hchain
      · exact .alone halone hl hkind hr
  · cases hop

end Level

namespace Parse

/-! ## Expressions -/

/-- Read as an expression of a nonterminal. -/
def Derived (x : Nonterminal) (ts : List Token) (e : Exp) : Prop := Derives x ts e.form

theorem derived_leaf {t : Token} (ht : t.Spelled) {e : Exp} (h : leaf? t = some e) :
    Derived .primary [t] e := by
  unfold leaf? at h
  split at h
  · next hkind =>
    cases h
    rw [Token.Spelled, hkind] at ht
    obtain ⟨-, -, -, v, hv, -⟩ := ht
    rw [Derived, Exp.form, hv]
    exact .int hkind hv
  · next hkind =>
    cases h
    exact .string hkind
  · next hkind =>
    cases h
    exact .true hkind
  · next hkind =>
    cases h
    exact .false hkind
  · cases h

theorem derived_unaryOp {t : Token} {op : Info → Exp → Exp} (h : unaryOp? t = some op) (i : Info)
    {ts : List Token} {e : Exp} (he : Derived .unary ts e) : Derived .unary (t :: ts) (op i e) := by
  unfold unaryOp? at h
  split at h
  · next hkind =>
    cases h
    exact .not hkind he
  · next hkind =>
    cases h
    exact .neg hkind he
  · cases h

theorem isLocation_form (e : Exp) : e.form.isLocation = e.isLocation := by
  cases e <;> rfl

theorem takes_fields (start : Position) {loc : Exp} {ts : List Token} (hloc : Derived .loc ts loc)
    (c : Cursor) : Takes c (fun us => Derived .loc (ts ++ us)) (fields start loc c) := by
  rw [fields]
  split
  · refine .ok ?_
    rw [List.append_nil]
    exact hloc
  · next t c₁ h₁ hdot =>
    obtain ⟨hrest, hkind⟩ := Cursor.rest_of_take? hdot
    refine .cons hrest fun _ => (takes_ident c₁ rfl).bind ?_
    rintro f c₂ h₂ _ ⟨u, rfl, hu, hf⟩
    have hloc' : Derived .loc (ts ++ [t, u]) (.access (infoSince c₂ start) {} loc f) := by
      rw [Derived, Exp.form, hf]
      exact .field hloc hkind hu
    refine (takes_fields start hloc' c₂).bind fun e c₃ h₃ us he => .ok ?_
    rw [List.append_assoc] at he
    rw [List.append_nil]
    exact he
termination_by c.size

theorem takes_location (c : Cursor) : Takes c (Derived .loc) (location c) := by
  refine (takes_ident c rfl).bind ?_
  rintro x c₁ h₁ _ ⟨t, rfl, ht, hx⟩
  have hroot : Derived .loc [t] (.ident x) := by
    rw [Derived, Exp.form, hx]
    exact .name ht
  refine (takes_fields c.here hroot c₁).bind fun e c₂ h₂ us he => .ok ?_
  rw [List.append_nil]
  exact he

mutual

theorem takes_exp (c : Cursor) : Takes c (Derived .exp) (exp c) := by
  rw [exp]
  refine (takes_level .or c).bind fun left c₁ h₁ ts hl => ?_
  dsimp only
  split
  · refine .ok ?_
    rw [List.append_nil]
    exact .pass .exp hl
  · next t c₂ h₂ hassign =>
    obtain ⟨hrest, hkind⟩ := Cursor.rest_of_take? hassign
    refine .cons hrest fun _ => ?_
    split
    · next hloc =>
      refine (takes_exp c₂).bind fun right c₃ h₃ us hr => .ok ?_
      rw [List.append_nil]
      exact .assign hl ((isLocation_form left).trans hloc) hkind hr
    · exact .refuse _ _
termination_by (c.size, 14)
decreasing_by
  · exact .right _ (by decide)
  · exact .left _ _ (by omega)

theorem takes_level (l : Level) (c : Cursor) : Takes c (Derived l.symbol) (level l c) := by
  rw [level]
  refine (takes_operand l c).bind fun left c₁ h₁ ts hl => ?_
  refine (takes_operators l c.here (Level.left_of_operand hl) c₁).bind fun e c₂ h₂ us he => .ok ?_
  rw [List.append_nil]
  exact he
termination_by (c.size, 2 * l.height + 1)

theorem takes_operand (l : Level) (c : Cursor) : Takes c (Derived l.operand) (operand l c) := by
  rw [operand]
  split
  · next l' h =>
    have hlt := Level.height_tighter? h
    rw [← Level.symbol_tighter h]
    exact takes_level l' c
  · next h =>
    rw [Level.operand_tightest h]
    exact takes_unary c
termination_by (c.size, 2 * l.height)
decreasing_by
  · exact .right _ (by omega)
  · exact .right _ (by cases l <;> decide)

theorem takes_operators (l : Level) (start : Position) {left : Exp} {ts : List Token}
    (hleft : Derived l.left ts left) (c : Cursor) :
    Takes c (fun us => Derived l.symbol (ts ++ us)) (operators l start left c) := by
  rw [operators]
  split
  · refine .ok ?_
    rw [List.append_nil]
    exact Level.derives_left hleft
  · next op t c₁ h₁ hop =>
    obtain ⟨hrest, hop⟩ := Cursor.rest_of_takeIf? hop
    refine .cons hrest fun _ => (takes_operand l c₁).bind fun right c₂ h₂ us hr => ?_
    have hbinary : Derived l.symbol (ts ++ t :: us) (.binary (infoSince c₂ start) op left right) :=
      Level.derives_binary hop hleft hr
    dsimp only
    split
    · next hchain =>
      have hgroups : Derived l.left (ts ++ t :: us)
          (.binary (infoSince c₂ start) op left right) := by
        rw [Level.left, hchain]
        exact hbinary
      refine (takes_operators l start hgroups c₂).bind fun e c₃ h₃ vs he => .ok ?_
      rw [List.append_nil]
      rw [List.append_assoc] at he
      exact he
    · split
      · exact .refuse _ _
      · refine .ok ?_
        rw [List.append_nil]
        exact hbinary
termination_by (c.size, 0)

theorem takes_unary (c : Cursor) : Takes c (Derived .unary) (unary c) := by
  rw [unary]
  split
  · next op t c₁ h₁ hop =>
    obtain ⟨hrest, hop⟩ := Cursor.rest_of_takeIf? hop
    refine .cons hrest fun _ => (takes_unary c₁).bind fun e c₂ h₂ ts he => .ok ?_
    rw [List.append_nil]
    exact derived_unaryOp hop _ he
  · exact (takes_primary c).mono fun _ _ h => .pass .unary h
termination_by (c.size, 1)

theorem takes_primary (c : Cursor) : Takes c (Derived .primary) (primary c) := by
  rw [primary]
  split
  · next e t c₁ h₁ hleaf =>
    obtain ⟨hrest, hleaf⟩ := Cursor.rest_of_takeIf? hleaf
    exact .cons hrest fun ht => .ok (derived_leaf ht hleaf)
  split
  · next t c₁ h₁ hparen =>
    obtain ⟨hrest, ht⟩ := Cursor.rest_of_take? hparen
    refine .cons hrest fun _ => (takes_exp c₁).bind fun e c₂ h₂ ts he => ?_
    refine (takes_expect c₂ _).bind ?_
    rintro u c₃ h₃ _ ⟨rfl, hu⟩
    exact .ok (.group ht he hu)
  split
  · exact .refuse _ _
  · next t c₁ h₁ hname =>
    obtain ⟨hrest, ht⟩ := Cursor.rest_of_take? hname
    refine .cons hrest fun _ => ?_
    split
    · have hroot : Derived .loc [t] (.ident (Cursor.identOf t)) := .name ht
      refine (takes_fields c.here hroot c₁).bind fun e c₂ h₂ us he => .ok ?_
      rw [List.append_nil]
      exact .pass .primary he
    · next p c₂ h₂ hparen =>
      obtain ⟨hrest', hp⟩ := Cursor.rest_of_take? hparen
      refine .cons hrest' fun _ => (takes_arguments c₂).bind ?_
      rintro es c₃ h₃ _ ⟨ts, q, rfl, hes, hq⟩
      refine .ok ?_
      rw [List.append_nil]
      exact .call ht hp hes hq
termination_by (c.size, 0)

theorem takes_arguments (c : Cursor) :
    Takes c (fun us es => ∃ ts q, us = ts ++ [q] ∧ Arguments ts (Exp.listForm es) ∧
      q.kind = .mark .rightParen) (arguments c) := by
  rw [arguments]
  split
  · next q c₁ h₁ hparen =>
    obtain ⟨hrest, hq⟩ := Cursor.rest_of_take? hparen
    exact .cons hrest fun _ => .ok ⟨[], q, rfl, .none, hq⟩
  · refine (takes_argumentList c).mono ?_
    rintro _ es ⟨ts, q, rfl, hes, hq⟩
    exact ⟨ts, q, rfl, .some hes, hq⟩
termination_by (c.size, 16)

theorem takes_argumentList (c : Cursor) :
    Takes c (fun us es => ∃ ts q, us = ts ++ [q] ∧ ArgumentList ts (Exp.listForm es) ∧
      q.kind = .mark .rightParen) (argumentList c) := by
  rw [argumentList]
  refine (takes_exp c).bind fun e c₁ h₁ ts he => ?_
  dsimp only
  split
  · next t c₂ h₂ hcomma =>
    obtain ⟨hrest, ht⟩ := Cursor.rest_of_take? hcomma
    refine .cons hrest fun _ => (takes_argumentList c₂).bind ?_
    rintro es c₃ h₃ _ ⟨us, q, rfl, hes, hq⟩
    refine .ok ⟨ts ++ t :: us, q, ?_, .cons he ht hes, hq⟩
    simp only [List.append_assoc, List.append_nil, List.cons_append]
  · refine (takes_expect c₁ _).bind ?_
    rintro q c₂ h₂ _ ⟨rfl, hq⟩
    exact .ok ⟨ts, q, rfl, .last he, hq⟩
termination_by (c.size, 15)

end

/-! ## Declarations of variables -/

theorem wordType_wordType {t : Token} {make : Option Span → TypeNode} (h : wordType? t = some make)
    (span : Option Span) : WordType t (make span).form := by
  unfold wordType? at h
  split at h
  · next hkind =>
    cases h
    exact .int hkind
  · next hkind =>
    cases h
    exact .bool hkind
  · next hkind =>
    cases h
    exact .void hkind
  · cases h

theorem takes_wordType (c : Cursor) :
    Takes c (fun ts type => ∃ t, ts = [t] ∧ WordType t type.form) (wordType c) := by
  unfold wordType
  split
  · next make t c₁ h₁ hword =>
    obtain ⟨hrest, hword⟩ := Cursor.rest_of_takeIf? hword
    exact .cons hrest fun _ => .ok ⟨t, rfl, wordType_wordType hword _⟩
  · exact .refuse _ _

/-- Read as the type of a variable. -/
inductive VarType : List Token → TypeNode → Prop where
  | word {t : Token} {type : TypeNode} : WordType t type → VarType [t] type
  | struct {t s : Token} :
    t.kind = .keyword .struct → s.kind = .name → VarType [t, s] (.struct none (identOf s))

theorem takes_varType (c : Cursor) :
    Takes c (fun ts type => VarType ts type.form) (varType c) := by
  unfold varType
  split
  · next t c₁ h₁ hstruct =>
    obtain ⟨hrest, ht⟩ := Cursor.rest_of_take? hstruct
    refine .cons hrest fun _ => (takes_ident c₁ rfl).bind ?_
    rintro x c₂ h₂ _ ⟨s, rfl, hs, hx⟩
    refine .ok ?_
    rw [TypeNode.form, hx]
    exact .struct ht hs
  · refine (takes_wordType c).mono ?_
    rintro _ type ⟨t, rfl, ht⟩
    exact .word ht

theorem takes_varDecl (c : Cursor) :
    Takes c (fun ts d => Variable ts d.form) (varDecl c) := by
  refine (takes_varType c).bind fun type c₁ h₁ ts htype => (takes_ident c₁ rfl).bind ?_
  rintro x c₂ h₂ _ ⟨y, rfl, hy, hx⟩
  refine (takes_expect c₂ _).bind ?_
  rintro u c₃ h₃ _ ⟨rfl, hu⟩
  refine .ok ?_
  rw [VarDecl.form, hx]
  generalize type.form = typeForm at htype
  cases htype with
  | word ht => exact .word ht hy hu
  | struct ht hs => exact .struct ht hs hy hu

theorem takes_varDeclItems (c : Cursor) :
    Takes c (fun ts ds => Variables ts (ds.map VarDecl.form)) (varDeclItems c) := by
  rw [varDeclItems]
  split
  · refine (takes_varDecl c).bind fun d c₁ h₁ ts hd => ?_
    refine (takes_varDeclItems c₁).bind fun ds c₂ h₂ us hds => .ok ?_
    rw [List.append_nil]
    exact .cons hd hds
  · exact .ok .nil
termination_by c.size

theorem takes_varDecls (c : Cursor) :
    Takes c (fun ts ds => Variables ts (ds.items.map VarDecl.form)) (varDecls c) := by
  refine (takes_varDeclItems c).bind fun ds c₁ h₁ ts hds => .ok ?_
  rw [List.append_nil]
  exact hds

theorem takes_formalItems (c : Cursor) :
    Takes c (fun us ds => ∃ ts q, us = ts ++ [q] ∧ FormalList ts (ds.map VarDecl.form) ∧
      q.kind = .mark .rightParen) (formalItems c) := by
  rw [formalItems]
  refine (takes_wordType c).bind ?_
  rintro type c₁ h₁ _ ⟨t, rfl, ht⟩
  refine (takes_ident c₁ rfl).bind ?_
  rintro x c₂ h₂ _ ⟨y, rfl, hy, hx⟩
  dsimp only
  have hd : VarDecl.form ⟨.formal, some (c₂.since c.here), type, x⟩ =
      ⟨.formal, none, type.form, identOf y⟩ := by rw [VarDecl.form, hx]
  split
  · next u c₃ h₃ hcomma =>
    obtain ⟨hrest, hu⟩ := Cursor.rest_of_take? hcomma
    refine .cons hrest fun _ => (takes_formalItems c₃).bind ?_
    rintro ds c₄ h₄ _ ⟨ts, q, rfl, hds, hq⟩
    refine .ok ⟨t :: y :: u :: ts, q, ?_, ?_, hq⟩
    · simp only [List.cons_append, List.nil_append, List.append_nil]
    · rw [List.map_cons, hd]
      exact .cons ht hy hu hds
  · refine (takes_expect c₂ _).bind ?_
    rintro q c₃ h₃ _ ⟨rfl, hq⟩
    refine .ok ⟨[t, y], q, rfl, ?_, hq⟩
    rw [List.map_singleton, hd]
    exact .last ht hy
termination_by c.size

theorem takes_formals (c : Cursor) :
    Takes c (fun us ds => ∃ p ts q, us = p :: ts ++ [q] ∧ p.kind = .mark .leftParen ∧
      Formals ts (ds.items.map VarDecl.form) ∧ q.kind = .mark .rightParen) (formals c) := by
  refine (takes_expect c _).bind ?_
  rintro p c₁ h₁ _ ⟨rfl, hp⟩
  dsimp only
  split
  · next q c₂ h₂ hparen =>
    obtain ⟨hrest, hq⟩ := Cursor.rest_of_take? hparen
    exact .cons hrest fun _ => .ok ⟨p, [], q, rfl, hp, .none, hq⟩
  · refine (takes_formalItems c₁).bind ?_
    rintro ds c₂ h₂ _ ⟨ts, q, rfl, hds, hq⟩
    refine .ok ⟨p, ts, q, ?_, hp, .some hds, hq⟩
    rw [List.append_nil]
    rfl

/-! ## Statements -/

theorem statement_stepOp {o u : Token} {op : Option Span → Exp → Stmt} (h : stepOp? o = some op)
    (span : Option Span) {ts : List Token} {e : Exp} (he : Derived .exp ts e)
    (hloc : e.isLocation = true) (hu : u.kind = .mark .semi) :
    Statement (ts ++ [o, u]) (op span e).form := by
  have hform := (isLocation_form e).trans hloc
  unfold stepOp? at h
  split at h
  · next ho =>
    cases h
    exact .increment he hform ho hu
  · next ho =>
    cases h
    exact .decrement he hform ho hu
  · cases h

theorem acts_stmtOfExp {span : Span} {e : Exp} {s : Stmt} (h : stmtOfExp? span e = some s) :
    Acts e.form s.form := by
  unfold stmtOfExp? at h
  split at h
  · cases h
    exact .assign
  · cases h
    exact .call
  · cases h

theorem takes_expStmt (c : Cursor) : Takes c (fun ts s => Statement ts s.form) (expStmt c) := by
  refine (takes_exp c).bind fun e c₁ h₁ ts he => ?_
  dsimp only
  split
  · next op o c₂ h₂ hop =>
    obtain ⟨hrest, hop⟩ := Cursor.rest_of_takeIf? hop
    refine .cons hrest fun _ => ?_
    split
    · next hloc =>
      refine (takes_expect c₂ _).bind ?_
      rintro u c₃ h₃ _ ⟨rfl, hu⟩
      exact .ok (statement_stepOp hop _ he hloc hu)
    · exact .refuse _ _
  · refine (takes_expect c₁ _).bind ?_
    rintro u c₂ h₂ _ ⟨rfl, hu⟩
    dsimp only
    split
    · next s hs => exact .ok (.act he (acts_stmtOfExp hs) hu)
    · exact .error _

theorem takes_readStmt (start : Position) {t : Token} (ht : t.kind = .keyword .cin) (c : Cursor) :
    Takes c (fun ts s => Statement (t :: ts) s.form) (readStmt start c) := by
  refine (takes_expect c _).bind ?_
  rintro a c₁ h₁ _ ⟨rfl, ha⟩
  refine (takes_location c₁).bind fun loc c₂ h₂ ts hloc => (takes_expect c₂ _).bind ?_
  rintro u c₃ h₃ _ ⟨rfl, hu⟩
  exact .ok (.read ht ha hloc hu)

theorem takes_writeStmt (start : Position) {t : Token} (ht : t.kind = .keyword .cout)
    (c : Cursor) : Takes c (fun ts s => Statement (t :: ts) s.form) (writeStmt start c) := by
  refine (takes_expect c _).bind ?_
  rintro a c₁ h₁ _ ⟨rfl, ha⟩
  refine (takes_exp c₁).bind fun e c₂ h₂ ts he => (takes_expect c₂ _).bind ?_
  rintro u c₃ h₃ _ ⟨rfl, hu⟩
  exact .ok (.write ht ha he hu)

theorem takes_returnStmt (start : Position) {t : Token} (ht : t.kind = .keyword .return)
    (c : Cursor) : Takes c (fun ts s => Statement (t :: ts) s.form) (returnStmt start c) := by
  unfold returnStmt
  split
  · next u c₁ h₁ hsemi =>
    obtain ⟨hrest, hu⟩ := Cursor.rest_of_take? hsemi
    exact .cons hrest fun _ => .ok (.exit ht hu)
  · refine (takes_exp c).bind fun e c₁ h₁ ts he => (takes_expect c₁ _).bind ?_
    rintro u c₂ h₂ _ ⟨rfl, hu⟩
    exact .ok (.return ht he hu)

theorem takes_condition (keyword : Keyword) (c : Cursor) :
    Takes c (fun us e => ∃ p ts q, us = p :: ts ++ [q] ∧ p.kind = .mark .leftParen ∧
      Derived .exp ts e ∧ q.kind = .mark .rightParen) (condition keyword c) := by
  refine (takes_expect c _).bind ?_
  rintro p c₁ h₁ _ ⟨rfl, hp⟩
  refine (takes_exp c₁).bind fun e c₂ h₂ ts he => (takes_expect c₂ _).bind ?_
  rintro q c₃ h₃ _ ⟨rfl, hq⟩
  exact .ok ⟨p, ts, q, rfl, hp, he, hq⟩

mutual

theorem takes_stmt (c : Cursor) : Takes c (fun ts s => Statement ts s.form) (stmt c) := by
  rw [stmt]
  split
  · next t c₁ h₁ hcin =>
    obtain ⟨hrest, ht⟩ := Cursor.rest_of_take? hcin
    refine .cons hrest fun _ => (takes_readStmt c.here ht c₁).bind fun s c₂ h₂ ts hs => .ok ?_
    rw [List.append_nil]
    exact hs
  split
  · next t c₁ h₁ hcout =>
    obtain ⟨hrest, ht⟩ := Cursor.rest_of_take? hcout
    refine .cons hrest fun _ => (takes_writeStmt c.here ht c₁).bind fun s c₂ h₂ ts hs => .ok ?_
    rw [List.append_nil]
    exact hs
  split
  · next t c₁ h₁ hif =>
    obtain ⟨hrest, ht⟩ := Cursor.rest_of_take? hif
    refine .cons hrest fun _ => (takes_ifStmt c.here ht c₁).bind fun s c₂ h₂ ts hs => .ok ?_
    rw [List.append_nil]
    exact hs
  split
  · next t c₁ h₁ hwhile =>
    obtain ⟨hrest, ht⟩ := Cursor.rest_of_take? hwhile
    refine .cons hrest fun _ => (takes_condition .while c₁).bind ?_
    rintro e c₂ h₂ _ ⟨p, ts, q, rfl, hp, he, hq⟩
    refine (takes_block _ rfl c₂).bind fun b c₃ h₃ us hb => .ok ?_
    simp only [List.cons_append, List.append_assoc, List.nil_append, List.append_nil]
    exact .while ht hp he hq hb
  split
  · next t c₁ h₁ hreturn =>
    obtain ⟨hrest, ht⟩ := Cursor.rest_of_take? hreturn
    refine .cons hrest fun _ => (takes_returnStmt c.here ht c₁).bind fun s c₂ h₂ ts hs => .ok ?_
    rw [List.append_nil]
    exact hs
  · exact takes_expStmt c
termination_by (c.size, 0)

theorem takes_ifStmt (start : Position) {t : Token} (ht : t.kind = .keyword .if) (c : Cursor) :
    Takes c (fun ts s => Statement (t :: ts) s.form) (ifStmt start c) := by
  rw [ifStmt]
  refine (takes_condition .if c).bind ?_
  rintro e c₁ h₁ _ ⟨p, ts, q, rfl, hp, he, hq⟩
  refine (takes_block _ rfl c₁).bind fun yes c₂ h₂ us hyes => ?_
  dsimp only
  split
  · next v c₃ h₃ helse =>
    obtain ⟨hrest, hv⟩ := Cursor.rest_of_take? helse
    refine .cons hrest fun _ => (takes_block _ rfl c₃).bind fun no c₄ h₄ vs hno => .ok ?_
    have h := Statement.ifElse ht hp he hq hyes hv hno
    simp only [List.cons_append, List.append_assoc, List.nil_append, List.append_nil] at h ⊢
    exact h
  · refine .ok ?_
    simp only [List.cons_append, List.append_assoc, List.nil_append, List.append_nil]
    exact .ifThen ht hp he hq hyes
termination_by (c.size, 0)

theorem takes_block (wanted : Wanted) (hw : wanted.kind = .mark .leftCurly) (c : Cursor) :
    Takes c (fun ts b => Braces ts (Stmt.blockForm b)) (block wanted c) := by
  rw [block]
  refine (takes_expect c _).bind ?_
  rintro p c₁ h₁ _ ⟨rfl, hp⟩
  refine (takes_varDecls c₁).bind fun ds c₂ h₂ ts hds => (takes_stmts c₂.here c₂).bind ?_
  rintro ⟨ss, span⟩ c₃ h₃ _ ⟨us, q, rfl, hss, hq⟩
  refine .ok ?_
  have h := Braces.intro (hp.trans hw) hds hss hq
  simp only [List.cons_append, List.append_assoc, List.nil_append, List.append_nil] at h ⊢
  exact h
termination_by (c.size, 0)

theorem takes_stmts (start : Position) (c : Cursor) :
    Takes c (fun us ss => ∃ ts q, us = ts ++ [q] ∧ Statements ts (Stmt.listForm ss.1) ∧
      q.kind = .mark .rightCurly) (stmts start c) := by
  rw [stmts]
  split
  · next q c₁ h₁ hcurly =>
    obtain ⟨hrest, hq⟩ := Cursor.rest_of_take? hcurly
    exact .cons hrest fun _ => .ok ⟨[], q, rfl, .nil, hq⟩
  split
  · exact .refuse _ _
  split
  · exact .refuse _ _
  · refine (takes_stmt c).bind fun s c₁ h₁ ts hs => (takes_stmts start c₁).bind ?_
    rintro ⟨ss, span⟩ c₂ h₂ _ ⟨us, q, rfl, hss, hq⟩
    refine .ok ⟨ts ++ us, q, ?_, .cons hs hss, hq⟩
    simp only [List.append_assoc, List.append_nil]
termination_by (c.size, 1)

end

/-! ## Programs -/

theorem takes_structDecl (c : Cursor) :
    Takes c (fun ts d => Declaration ts (.struct d.form)) (structDecl c) := by
  unfold structDecl
  split
  · exact .refuse _ _
  · next t c₁ h₁ hstruct =>
    obtain ⟨hrest, ht⟩ := Cursor.rest_of_take? hstruct
    refine .cons hrest fun _ => (takes_ident c₁ rfl).bind ?_
    rintro x c₂ h₂ _ ⟨y, rfl, hy, hx⟩
    refine (takes_expect c₂ _).bind ?_
    rintro p c₃ h₃ _ ⟨rfl, hp⟩
    refine (takes_varDecls c₃).bind fun ds c₄ h₄ ts hds => ?_
    dsimp only
    split
    · exact .refuse _ _
    · next hne =>
      refine (takes_expect c₄ _).bind ?_
      rintro q c₅ h₅ _ ⟨rfl, hq⟩
      refine (takes_expect c₅ _).bind ?_
      rintro u c₆ h₆ _ ⟨rfl, hu⟩
      refine .ok ?_
      have hfields : ds.items.map VarDecl.form ≠ [] := fun h =>
        hne (List.isEmpty_iff.mpr (List.map_eq_nil_iff.mp h))
      rw [StructDecl.form, hx]
      exact .struct ht hy hp hds hfields hq hu

theorem takes_fnDecl (c : Cursor) :
    Takes c (fun ts d => Declaration ts (.fn d.form)) (fnDecl c) := by
  refine (takes_wordType c).bind ?_
  rintro returns c₁ h₁ _ ⟨t, rfl, ht⟩
  refine (takes_ident c₁ rfl).bind ?_
  rintro x c₂ h₂ _ ⟨y, rfl, hy, hx⟩
  refine (takes_formals c₂).bind ?_
  rintro ds c₃ h₃ _ ⟨p, ts, q, rfl, hp, hds, hq⟩
  refine (takes_block _ rfl c₃).bind fun b c₄ h₄ us hb => .ok ?_
  have h := Declaration.fn ht hy hp hds hq hb
  rw [FnDecl.form, hx]
  simp only [List.cons_append, List.append_assoc, List.nil_append, List.append_nil] at h ⊢
  exact h

theorem takes_decl (c : Cursor) : Takes c (fun ts d => Declaration ts d.form) (decl c) := by
  unfold decl
  split
  · refine (takes_structDecl c).bind fun d c₁ h₁ ts hd => .ok ?_
    rw [List.append_nil]
    exact hd
  split
  · refine (takes_fnDecl c).bind fun d c₁ h₁ ts hd => .ok ?_
    rw [List.append_nil]
    exact hd
  split
  · refine (takes_varDecl c).bind fun d c₁ h₁ ts hd => .ok ?_
    rw [List.append_nil]
    exact .var hd
  · exact .refuse _ _

theorem takes_decls (c : Cursor) :
    Takes c (fun ts ds => Declarations ts (ds.map Decl.form)) (decls c) := by
  rw [decls]
  split
  · exact .ok .nil
  · refine (takes_decl c).bind fun d c₁ h₁ ts hd => ?_
    refine (takes_decls c₁).bind fun ds c₂ h₂ us hds => .ok ?_
    rw [List.append_nil]
    exact .cons hd hds
termination_by c.size

/-- Declarations are read to the end. -/
theorem rest_decls (c : Cursor) {x : Read (List Decl) (c.size + 1)} (h : decls c = .ok x) :
    x.next.rest = [] := by
  rw [decls] at h
  split at h
  · next hempty =>
    cases h
    exact List.isEmpty_iff.mp hempty
  · obtain ⟨⟨d, c₁, h₁⟩, -, h⟩ := bind_eq_ok.mp h
    obtain ⟨⟨ds, c₂, h₂⟩, hds, h⟩ := bind_eq_ok.mp h
    cases h
    exact rest_decls c₁ hds
termination_by c.size

/-- The tokens of a program that is read derive its form. -/
theorem derived_program {ts : List Token} (hts : ∀ t ∈ ts, t.Spelled) {eof : Token} {p : Program}
    (h : program ts eof = .ok p) : ∃ ds, p.form = { decls := ds } ∧ Declarations ts ds := by
  obtain ⟨⟨ds, c₁, h₁⟩, hds, h⟩ := bind_eq_ok.mp h
  cases h
  obtain ⟨us, hus, hderived⟩ := takes_decls (.ofTokens ts eof) hts _ hds
  have hrest := rest_decls _ hds
  dsimp only at hus hrest
  rw [hrest, List.append_nil] at hus
  have hts : ts = us := hus
  exact ⟨_, rfl, hts ▸ hderived⟩

end Parse

end CMinusMinus
