import CMinusMinus.Proofs.Derivation.Reading

/-!
# What is derived is read

A reader of expressions goes on as long as the next token lets it.  So what a nonterminal derives
is read as a whole only if the token after it *stops* its reader: it is no operator of the
nonterminal, nor one that binds tighter.  In a derivation the tokens after each part do.

What stands to the left of an operator that groups is the exception: it is followed by an operator
of its own nonterminal, and the reader goes on.  Of such nonterminals, and of locations, the
induction shows that reading a derived beginning leads to where the reader goes on after it
(`Level.Continues`, `Grammar.FieldsContinue`).
-/

namespace CMinusMinus

open Grammar

/-! ## The next token -/

/-- The kind of the next token. -/
def Token.nextKind : List Token → TokenKind
  | [] => .eof
  | t :: _ => t.kind

open Token (nextKind)

/-- The cursor stands before the tokens, up to the end of the text. -/
structure Cursor.At (c : Cursor) (ts : List Token) : Prop where
  rest : c.rest = ts
  eof : c.eof.kind = .eof

namespace Cursor.At

variable {α : Type} {c : Cursor} {ts : List Token} {t : Token}

theorem peek (h : c.At ts) : c.peek.kind = nextKind ts := by
  obtain ⟨rfl, heof⟩ := h
  rw [Cursor.peek]
  cases c.rest with
  | nil => exact heof
  | cons => rfl

theorem take (h : c.At (t :: ts)) :
    ∃ c₁ h₁, c.take? t.kind = some ⟨t, c₁, h₁⟩ ∧ c₁.At ts := by
  obtain ⟨last, rest, eof⟩ := c
  obtain ⟨rfl, heof⟩ := h
  refine ⟨⟨t, ts, eof⟩, Nat.lt_succ_self _, ?_, rfl, heof⟩
  simp only [Cursor.take?, if_true]

theorem take_none (h : c.At ts) {kind : TokenKind} (hk : nextKind ts ≠ kind) :
    c.take? kind = none := by
  obtain ⟨last, rest, eof⟩ := c
  obtain ⟨rfl, -⟩ := h
  cases rest with
  | nil => rfl
  | cons t ts =>
    have hk : t.kind ≠ kind := hk
    simp only [Cursor.take?, if_neg hk]

theorem take_none_of_kind (h : c.At (t :: ts)) {k k' : TokenKind} (ht : t.kind = k)
    (hk : k ≠ k') : c.take? k' = none :=
  h.take_none fun hkind => hk (ht.symm.trans hkind)

theorem takeIf (h : c.At (t :: ts)) {test : Token → Option α} {a : α} (ha : test t = some a) :
    ∃ c₁ h₁, c.takeIf? test = some ⟨(a, t), c₁, h₁⟩ ∧ c₁.At ts := by
  obtain ⟨last, rest, eof⟩ := c
  obtain ⟨rfl, heof⟩ := h
  refine ⟨⟨t, ts, eof⟩, Nat.lt_succ_self _, ?_, rfl, heof⟩
  simp only [Cursor.takeIf?, ha, Option.map_some]

theorem takeIf_none (h : c.At ts) {test : Token → Option α}
    (ha : ∀ t, t.kind = nextKind ts → test t = none) : c.takeIf? test = none := by
  obtain ⟨last, rest, eof⟩ := c
  obtain ⟨rfl, -⟩ := h
  cases rest with
  | nil => rfl
  | cons t ts => simp only [Cursor.takeIf?, ha t rfl, Option.map_none]

end Cursor.At

/-! ## Answers -/

namespace Parse

/-- The reader answers with what is seen as given, and leaves the rest. -/
def Answers {α β : Type} {n : Nat} (view : α → β) (rest : List Token) (b : β)
    (r : Reading α n) : Prop :=
  ∃ x, r = .ok x ∧ view x.value = b ∧ x.next.At rest

namespace Answers

variable {α α' β β' : Type} {n m : Nat} {view : α → β} {view' : α' → β'} {rest rest' : List Token}
  {b : β} {b' : β'}

theorem ok {a : α} {c : Cursor} {h : c.size < n} (ha : view a = b) (hc : c.At rest) :
    Answers view rest b (.ok ⟨a, c, h⟩ : Reading α n) :=
  ⟨_, rfl, ha, hc⟩

theorem bind {r : Reading α n} {next : Read α n → Reading α' m} (hr : Answers view rest b r)
    (hn : ∀ a c₁ h, view a = b → c₁.At rest → Answers view' rest' b' (next ⟨a, c₁, h⟩)) :
    Answers view' rest' b' (r >>= next) := by
  obtain ⟨⟨a, c₁, h⟩, rfl, ha, hc⟩ := hr
  exact hn a c₁ h ha hc

end Answers

theorem answers_expect {c : Cursor} {t : Token} {rest : List Token} (hc : c.At (t :: rest))
    (wanted : Wanted) (ht : t.kind = wanted.kind) : Answers id rest t (c.expect wanted) := by
  obtain ⟨c₁, h₁, htake, hc₁⟩ := hc.take
  unfold Cursor.expect
  rw [← ht, htake]
  exact .ok rfl hc₁

theorem answers_ident {c : Cursor} {t : Token} {rest : List Token} (hc : c.At (t :: rest))
    (ht : t.kind = .name) (wanted : Wanted) (hw : wanted.kind = .name) :
    Answers Ident.form rest (identOf t) (c.ident wanted) := by
  refine (answers_expect hc wanted (ht.trans hw.symm)).bind fun t' c₁ h₁ heq hc₁ => ?_
  cases heq
  exact .ok rfl hc₁

end Parse

/-! ## What stops a reader -/

/-- How tight a mark binds what stands before it; marks that end expressions bind last. -/
def Mark.rank : Mark → Nat
  | .dot | .leftParen => 0
  | .times | .divide => 1
  | .plus | .minus => 2
  | .less | .greater | .lessEq | .greaterEq => 3
  | .equals | .notEquals => 4
  | .and => 5
  | .or => 6
  | .assign => 7
  | _ => 8

/-- The last rank of the marks that expressions of a nonterminal go on with. -/
def Grammar.Nonterminal.rank : Nonterminal → Nat
  | .exp => 7
  | .or => 6
  | .and => 5
  | .eq => 4
  | .rel => 3
  | .add => 2
  | .mul => 1
  | .unary | .primary | .loc => 0

/-- The next token binds what stands before it looser than marks of a rank do. -/
def Token.Stops (n : Nat) (rest : List Token) : Prop :=
  ∀ m, nextKind rest = .mark m → n < m.rank

open Token (Stops)

theorem Token.Stops.mono {n n' : Nat} {rest : List Token} (h : Stops n rest) (hn : n' ≤ n) :
    Stops n' rest :=
  fun m hm => Nat.lt_of_le_of_lt hn (h m hm)

theorem Token.Stops.ne {n : Nat} {rest : List Token} (h : Stops n rest) {m : Mark}
    (hm : m.rank ≤ n) : nextKind rest ≠ .mark m :=
  fun hkind => Nat.not_lt.mpr hm (h m hkind)

theorem Token.stops_mark {t : Token} {m : Mark} (ht : t.kind = .mark m) {n : Nat}
    (hn : n < m.rank) (ts : List Token) : Stops n (t :: ts) := by
  intro m' hm'
  have : m = m' := TokenKind.mark.inj (ht.symm.trans hm')
  exact this ▸ hn

/-! ## The first token -/

/-- The kinds of token that a primary expression begins with. -/
def TokenKind.beginsPrimary : TokenKind → Bool
  | .numeral | .string | .keyword .true | .keyword .false | .mark .leftParen | .name => true
  | _ => false

theorem TokenKind.ne_of_test {test : TokenKind → Bool} {k k' : TokenKind} (h : test k = true)
    (h' : test k' = false) : k ≠ k' := by
  rintro rfl
  rw [h] at h'
  cases h'

/-- The kinds of token that an expression of a nonterminal begins with. -/
def Grammar.Nonterminal.begins : Nonterminal → TokenKind → Bool
  | .loc, k => k = .name
  | .primary, k => k.beginsPrimary
  | _, k => k.beginsPrimary || k = .mark .not || k = .mark .minus

namespace Grammar

theorem Passes.begins {x y : Nonterminal} (h : Passes x y) {k : TokenKind}
    (hk : y.begins k = true) : x.begins k = true := by
  cases h
  case unary =>
    have hk : k.beginsPrimary = true := hk
    simp only [Nonterminal.begins, hk, Bool.true_or]
  case primary =>
    have hk : k = .name := of_decide_eq_true hk
    rw [hk]
    rfl
  all_goals exact hk

theorem Derives.head {x : Nonterminal} {ts : List Token} {e : Exp} :
    Derives x ts e → ∃ t us, ts = t :: us ∧ x.begins t.kind = Bool.true
  | .pass h he => by
    obtain ⟨t, us, rfl, ht⟩ := he.head
    exact ⟨t, us, rfl, h.begins ht⟩
  | .groups _ hl _ _ => by
    obtain ⟨t, us, rfl, ht⟩ := hl.head
    exact ⟨t, _, List.cons_append, ht⟩
  | .alone h hl _ _ => by
    obtain ⟨t, us, rfl, ht⟩ := hl.head
    refine ⟨t, _, List.cons_append, ?_⟩
    cases h <;> exact ht
  | .assign hl _ _ _ => by
    obtain ⟨t, us, rfl, ht⟩ := hl.head
    exact ⟨t, _, List.cons_append, ht⟩
  | .not ht _ => ⟨_, _, rfl, by rw [ht]; rfl⟩
  | .neg ht _ => ⟨_, _, rfl, by rw [ht]; rfl⟩
  | .int ht _ => ⟨_, _, rfl, by rw [ht]; rfl⟩
  | .string ht => ⟨_, _, rfl, by rw [ht]; rfl⟩
  | .true ht => ⟨_, _, rfl, by rw [ht]; rfl⟩
  | .false ht => ⟨_, _, rfl, by rw [ht]; rfl⟩
  | .group ht _ _ => ⟨_, _, rfl, by rw [ht]; rfl⟩
  | .call ht _ _ _ => ⟨_, _, rfl, by rw [ht]; rfl⟩
  | .name ht => ⟨_, _, rfl, by rw [ht]; rfl⟩
  | .field he _ _ => by
    obtain ⟨t, us, rfl, ht⟩ := he.head
    exact ⟨t, _, List.cons_append, ht⟩

end Grammar

/-! ## Levels -/

namespace Level

theorem of_groups {x y : Nonterminal} {m : Mark} {op : BinOp} (h : Groups x y m op) :
    ∃ l : Level, x = l.symbol ∧ y = l.operand ∧ l.op? m = some op ∧ l.chainError? = none := by
  cases h
  case or => exact ⟨.or, rfl, rfl, rfl, rfl⟩
  case and => exact ⟨.and, rfl, rfl, rfl, rfl⟩
  case plus => exact ⟨.additive, rfl, rfl, rfl, rfl⟩
  case minus => exact ⟨.additive, rfl, rfl, rfl, rfl⟩
  case times => exact ⟨.multiplicative, rfl, rfl, rfl, rfl⟩
  case divide => exact ⟨.multiplicative, rfl, rfl, rfl, rfl⟩

theorem of_alone {x y : Nonterminal} {m : Mark} {op : BinOp} (h : Alone x y m op) :
    ∃ l : Level, ∃ cause, x = l.symbol ∧ y = l.operand ∧ l.op? m = some op ∧
      l.chainError? = some cause := by
  cases h
  case equals => exact ⟨.equality, _, rfl, rfl, rfl, rfl⟩
  case notEquals => exact ⟨.equality, _, rfl, rfl, rfl, rfl⟩
  case less => exact ⟨.relational, _, rfl, rfl, rfl, rfl⟩
  case greater => exact ⟨.relational, _, rfl, rfl, rfl, rfl⟩
  case lessEq => exact ⟨.relational, _, rfl, rfl, rfl, rfl⟩
  case greaterEq => exact ⟨.relational, _, rfl, rfl, rfl, rfl⟩

theorem rank_symbol (l : Level) : l.symbol.rank = l.height := by cases l <;> rfl

theorem rank_operand (l : Level) : l.operand.rank + 1 = l.height := by cases l <;> rfl

theorem rank_of_op? {l : Level} {m : Mark} {op : BinOp} (h : l.op? m = some op) :
    m.rank = l.height := by
  cases l <;> cases m <;> cases h <;> rfl

theorem ofToken?_of_kind {l : Level} {t : Token} {m : Mark} (ht : t.kind = .mark m) :
    l.ofToken? t = l.op? m := by
  unfold ofToken?
  rw [ht]

/-- No operator of a level comes after what stops it. -/
theorem ofToken?_eq_none {l : Level} {rest : List Token} (h : Stops l.height rest) {t : Token}
    (ht : t.kind = nextKind rest) : l.ofToken? t = none := by
  unfold ofToken?
  split
  · next m hm =>
    have hlt := h m (ht ▸ hm)
    cases hop : l.op? m with
    | none => rfl
    | some op => exact absurd (rank_of_op? hop) (Nat.ne_of_gt hlt)
  · rfl

end Level

/-! ## Expressions -/

open Parse

/-- The reader of a nonterminal. -/
def Grammar.Nonterminal.reader : Nonterminal → (c : Cursor) → Reading Exp c.size
  | .exp => Parse.exp
  | .or => level .or
  | .and => level .and
  | .eq => level .equality
  | .rel => level .relational
  | .add => level .additive
  | .mul => level .multiplicative
  | .unary => Parse.unary
  | .primary => Parse.primary
  | .loc => location

/-- What is derived is read, before what stops the reader. -/
def Grammar.Reads (x : Nonterminal) (ts : List Token) (e : Exp) : Prop :=
  ∀ c rest, c.At (ts ++ rest) → Stops x.rank rest → Answers Exp.form rest e (x.reader c)

namespace Level

variable {l : Level} {ts us : List Token} {e r : Exp}

theorem reader_symbol (l : Level) : l.symbol.reader = level l := by cases l <;> rfl

theorem reader_operand (l : Level) (c : Cursor) : l.operand.reader c = Parse.operand l c := by
  rw [Parse.operand]
  cases l <;> rfl

/-- Reading a level leads to reading its operators after what is derived, before what stops the
reader of its operands. -/
def Continues (l : Level) (ts : List Token) (e : Exp) : Prop :=
  ∀ c rest, c.At (ts ++ rest) → Stops l.operand.rank rest →
    ∃ left c', left.form = e ∧ c'.At rest ∧ ∀ rest' b,
      Answers Exp.form rest' b (operators l c.here left c') → Answers Exp.form rest' b (level l c)

theorem answers_operand (h : Reads l.operand ts e) {c : Cursor} {rest : List Token}
    (hc : c.At (ts ++ rest)) (hrest : Stops l.operand.rank rest) :
    Answers Exp.form rest e (Parse.operand l c) := by
  rw [← reader_operand]
  exact h c rest hc hrest

/-- An operand comes before the operators of its level. -/
theorem continues_of_operand (h : Reads l.operand ts e) : l.Continues ts e := by
  intro c rest hc hrest
  obtain ⟨⟨left, c', h'⟩, hread, hform, hc'⟩ := answers_operand h hc hrest
  refine ⟨left, c', hform, hc', fun rest' b hops => ?_⟩
  rw [level, hread]
  exact hops.bind fun e c₂ h₂ he hc₂ => .ok he hc₂

/-- Before what stops a level its operators are none. -/
theorem reads_of_continues (h : l.Continues ts e) : Reads l.symbol ts e := by
  intro c rest hc hrest
  rw [rank_symbol] at hrest
  have hstops := hrest.mono (Nat.le_of_succ_le (Nat.le_of_eq (rank_operand l)))
  obtain ⟨left, c', hform, hc', hlevel⟩ := h c rest hc hstops
  rw [reader_symbol]
  refine hlevel rest e ?_
  rw [operators, hc'.takeIf_none fun t ht => ofToken?_eq_none hrest ht]
  exact .ok hform hc'

variable {m : Mark} {op : BinOp} {t : Token}

include t in
/-- An operator of a level stops the readers of its operands. -/
theorem stops_operand (hop : l.op? m = some op) (ht : t.kind = .mark m) (rest : List Token) :
    Stops l.operand.rank (t :: rest) := by
  refine Token.stops_mark ht ?_ rest
  rw [rank_of_op? hop, ← rank_operand]
  exact Nat.lt_succ_self _

theorem continues_of_groups (hop : l.op? m = some op) (hchain : l.chainError? = none)
    (hl : l.Continues ts e) (ht : t.kind = .mark m) (hr : Reads l.operand us r) :
    l.Continues (ts ++ t :: us) (.binary {} op e r) := by
  intro c rest hc hrest
  rw [List.append_assoc] at hc
  obtain ⟨left, c', rfl, hc', hlevel⟩ := hl c _ hc (stops_operand hop ht _)
  obtain ⟨c₁, h₁, htake, hc₁⟩ := hc'.takeIf ((ofToken?_of_kind ht).trans hop)
  obtain ⟨⟨right, c₂, h₂⟩, hread, rfl, hc₂⟩ := answers_operand hr hc₁ hrest
  refine ⟨.binary (infoSince c₂ c.here) op left right, c₂, rfl, hc₂, fun rest' b hops =>
    hlevel rest' b ?_⟩
  rw [operators, htake]
  dsimp only
  rw [hread, hchain]
  exact hops.bind fun e c₃ h₃ he hc₃ => .ok he hc₃

theorem reads_of_alone (hop : l.op? m = some op) {cause : SyntaxCause}
    (hchain : l.chainError? = some cause) (hl : Reads l.operand ts e) (ht : t.kind = .mark m)
    (hr : Reads l.operand us r) : Reads l.symbol (ts ++ t :: us) (.binary {} op e r) := by
  intro c rest hc hrest
  rw [rank_symbol] at hrest
  have hstops := hrest.mono (Nat.le_of_succ_le (Nat.le_of_eq (rank_operand l)))
  rw [List.append_assoc] at hc
  obtain ⟨left, c', rfl, hc', hlevel⟩ := continues_of_operand hl c _ hc (stops_operand hop ht _)
  obtain ⟨c₁, h₁, htake, hc₁⟩ := hc'.takeIf ((ofToken?_of_kind ht).trans hop)
  rw [reader_symbol]
  refine hlevel rest _ ?_
  rw [operators, htake]
  refine (answers_operand hr hc₁ hstops).bind fun right c₂ h₂ hright hc₂ => ?_
  have hpeek : ¬ (l.ofToken? c₂.peek).isSome = true := by
    rw [ofToken?_eq_none hrest hc₂.peek]
    nofun
  dsimp only
  rw [hchain]
  dsimp only
  rw [if_neg hpeek]
  exact .ok (by rw [Exp.form, hright]) hc₂

end Level

/-! ## Locations -/

/-- Reading a location leads to reading fields after what is derived. -/
def Grammar.FieldsContinue (ts : List Token) (e : Exp) : Prop :=
  ∀ c rest, c.At (ts ++ rest) →
    ∃ loc c', loc.form = e ∧ c'.At rest ∧ ∀ rest' b,
      Answers Exp.form rest' b (fields c.here loc c') → Answers Exp.form rest' b (location c)

namespace Grammar

variable {ts : List Token} {e : Exp} {t f : Token}

theorem fieldsContinue_name (ht : t.kind = .name) :
    FieldsContinue [t] (.ident (Grammar.identOf t)) := by
  intro c rest hc
  obtain ⟨⟨x, c₁, h₁⟩, hread, hform, hc₁⟩ := answers_ident hc ht .locationName rfl
  refine ⟨.ident x, c₁, by rw [Exp.form, hform], hc₁, fun rest' b hfields => ?_⟩
  rw [location, hread]
  exact hfields.bind fun e c₂ h₂ he hc₂ => .ok he hc₂

theorem fieldsContinue_field (h : FieldsContinue ts e) (ht : t.kind = .mark .dot)
    (hf : f.kind = .name) :
    FieldsContinue (ts ++ [t, f]) (.access {} {} e (Grammar.identOf f)) := by
  intro c rest hc
  rw [List.append_assoc] at hc
  obtain ⟨loc, c', rfl, hc', hlocation⟩ := h c _ hc
  obtain ⟨c₁, h₁, htake, hc₁⟩ := hc'.take
  obtain ⟨⟨x, c₂, h₂⟩, hread, hform, hc₂⟩ := answers_ident hc₁ hf .accessName rfl
  refine ⟨.access (infoSince c₂ c.here) {} loc x, c₂, by rw [Exp.form, hform], hc₂,
    fun rest' b hfields => hlocation rest' b ?_⟩
  rw [fields, ← ht, htake]
  dsimp only
  rw [hread]
  exact hfields.bind fun e c₃ h₃ he hc₃ => .ok he hc₃

theorem reads_of_fieldsContinue (h : FieldsContinue ts e) : Reads .loc ts e := by
  intro c rest hc hrest
  obtain ⟨loc, c', hform, hc', hlocation⟩ := h c rest hc
  refine hlocation rest e ?_
  rw [fields, hc'.take_none (hrest.ne (Nat.le_refl _))]
  exact .ok hform hc'

/-- A location is a name, and a dot comes next if there is more of it. -/
theorem Derives.split_loc : {ts : List Token} → {e : Exp} → Derives .loc ts e →
    ∃ t us, ts = t :: us ∧ t.kind = .name ∧ (us = [] ∨ nextKind us = .mark .dot)
  | _, _, .pass h _ => by cases h
  | _, _, .groups h _ _ _ => by cases h
  | _, _, .alone h _ _ _ => by cases h
  | _, _, .name ht => ⟨_, [], rfl, ht, .inl rfl⟩
  | _, _, .field he hdot _ => by
    obtain ⟨t, us, rfl, ht, hus⟩ := he.split_loc
    refine ⟨t, _, List.cons_append, ht, .inr ?_⟩
    cases us with
    | nil => exact hdot
    | cons u us => exact hus.resolve_left nofun

/-- A name that no parenthesis follows begins a location. -/
theorem reads_primary_of_loc (h : Derives .loc ts e) (hreads : Reads .loc ts e) :
    Reads .primary ts e := by
  intro c rest hc hrest
  have hloc : Answers Exp.form rest e (location c) := hreads c rest hc hrest
  obtain ⟨t, us, rfl, ht, hus⟩ := h.split_loc
  obtain ⟨c₁, h₁, htake, hc₁⟩ := hc.take
  have hleaf : c.takeIf? leaf? = none := hc.takeIf_none fun u hu => by
    have hu : u.kind = .name := hu.trans ht
    rw [leaf?, hu]
  have hname : nextKind ((t :: us) ++ rest) = .name := ht
  have hparen : nextKind (us ++ rest) ≠ .mark .leftParen := by
    rcases hus with rfl | hdot
    · exact hrest.ne (Nat.le_refl _)
    · cases us with
      | nil => cases hdot
      | cons u us =>
        intro hkind
        cases hdot.symm.trans hkind
  show Answers Exp.form rest e (primary c)
  rw [primary, hleaf]
  dsimp only
  rw [hc.take_none (by rw [hname]; nofun)]
  dsimp only
  rw [← ht, htake]
  dsimp only
  rw [hc₁.take_none hparen]
  have hkind : Wanted.locationName.kind = t.kind := ht.symm
  rw [location, Cursor.ident, Cursor.expect, hkind, htake] at hloc
  exact hloc

/-! ## Derivations -/

/-- What the induction on derivations shows. -/
def Leads : Nonterminal → List Token → Exp → Prop
  | .or => Level.or.Continues
  | .and => Level.and.Continues
  | .add => Level.additive.Continues
  | .mul => Level.multiplicative.Continues
  | .loc => FieldsContinue
  | .eq => Reads .eq
  | .rel => Reads .rel
  | .exp => Reads .exp
  | .unary => Reads .unary
  | .primary => Reads .primary

theorem Leads.reads {x : Nonterminal} (h : Leads x ts e) : Reads x ts e := by
  cases x
  case or => exact Level.reads_of_continues (l := .or) h
  case and => exact Level.reads_of_continues (l := .and) h
  case add => exact Level.reads_of_continues (l := .additive) h
  case mul => exact Level.reads_of_continues (l := .multiplicative) h
  case loc => exact reads_of_fieldsContinue h
  all_goals exact h

theorem leads_of_continues {l : Level} (h : l.Continues ts e) : Leads l.symbol ts e := by
  cases l
  case equality => exact Level.reads_of_continues h
  case relational => exact Level.reads_of_continues h
  all_goals exact h

theorem continues_of_leads {l : Level} (hchain : l.chainError? = none)
    (h : Leads l.symbol ts e) : l.Continues ts e := by
  cases l
  case equality => cases hchain
  case relational => cases hchain
  all_goals exact h

theorem leads_of_alone {l : Level} {cause : SyntaxCause} (hchain : l.chainError? = some cause)
    (h : Reads l.symbol ts e) : Leads l.symbol ts e := by
  cases l
  case equality => exact h
  case relational => exact h
  all_goals cases hchain

theorem reads_exp_of_or (h : Reads .or ts e) : Reads .exp ts e := by
  intro c rest hc hrest
  show Answers Exp.form rest e (exp c)
  rw [Parse.exp]
  refine (h c rest hc (hrest.mono (by decide))).bind fun left c₁ h₁ hl hc₁ => ?_
  dsimp only
  rw [hc₁.take_none (hrest.ne (Nat.le_refl _))]
  exact .ok hl hc₁

theorem reads_assign {us : List Token} {l r : Exp} (hl : Reads .or ts l)
    (hloc : l.isLocation = true) (ht : t.kind = .mark .assign) (hr : Reads .exp us r) :
    Reads .exp (ts ++ t :: us) (.assign {} l r) := by
  intro c rest hc hrest
  rw [List.append_assoc] at hc
  show Answers Exp.form rest _ (exp c)
  rw [Parse.exp]
  refine (hl c _ hc (Token.stops_mark ht (by decide) _)).bind fun left c₁ h₁ hleft hc₁ => ?_
  obtain ⟨c₂, h₂, htake, hc₂⟩ := hc₁.take
  have hlocation : left.isLocation = true := by rw [← isLocation_form, hleft, hloc]
  dsimp only
  rw [← ht, htake]
  dsimp only
  rw [if_pos hlocation]
  refine (hr c₂ rest hc₂ hrest).bind fun right c₃ h₃ hright hc₃ => ?_
  exact .ok (by rw [Exp.form, hleft, hright]) hc₃

theorem reads_unary_of_primary (h : Derives .primary ts e) (hreads : Reads .primary ts e) :
    Reads .unary ts e := by
  intro c rest hc hrest
  have hprimary := hreads c rest hc hrest
  obtain ⟨t, us, rfl, ht⟩ := h.head
  have hnone : c.takeIf? unaryOp? = none := hc.takeIf_none fun u hu => by
    have hu : u.kind.beginsPrimary = true := (congrArg _ hu).trans ht
    unfold unaryOp?
    split
    · next hkind =>
      rw [hkind] at hu
      cases hu
    · next hkind =>
      rw [hkind] at hu
      cases hu
    · rfl
  show Answers Exp.form rest e (unary c)
  rw [Parse.unary, hnone]
  exact hprimary

theorem reads_unaryOp {op : Info → Exp → Exp} (ht : unaryOp? t = some op)
    (hform : ∀ i e, (op i e).form = op {} e.form) (h : Reads .unary ts e) :
    Reads .unary (t :: ts) (op {} e) := by
  intro c rest hc hrest
  obtain ⟨c₁, h₁, htake, hc₁⟩ := hc.takeIf ht
  show Answers Exp.form rest _ (unary c)
  rw [Parse.unary, htake]
  refine (h c₁ rest hc₁ hrest).bind fun e' c₂ h₂ he hc₂ => ?_
  exact .ok (by rw [hform, he]) hc₂

theorem reads_leaf (h : leaf? t = some e) : Reads .primary [t] e.form := by
  intro c rest hc hrest
  obtain ⟨c₁, h₁, htake, hc₁⟩ := hc.takeIf h
  show Answers Exp.form rest _ (primary c)
  rw [Parse.primary, htake]
  exact .ok rfl hc₁

theorem reads_group {u : Token} (ht : t.kind = .mark .leftParen) (he : Reads .exp ts e)
    (hu : u.kind = .mark .rightParen) : Reads .primary (t :: ts ++ [u]) e := by
  intro c rest hc hrest
  rw [List.append_assoc] at hc
  obtain ⟨c₁, h₁, htake, hc₁⟩ := hc.take
  have hleaf : c.takeIf? leaf? = none := hc.takeIf_none fun u hu => by
    have hu : u.kind = .mark .leftParen := hu.trans ht
    rw [leaf?, hu]
  show Answers Exp.form rest _ (primary c)
  rw [Parse.primary, hleaf, ← ht, htake]
  refine (he c₁ _ hc₁ (Token.stops_mark hu (by decide) _)).bind fun e' c₂ h₂ he' hc₂ => ?_
  refine (answers_expect hc₂ .groupEnd hu).bind fun _ c₃ h₃ _ hc₃ => ?_
  exact .ok he' hc₃

/-- Arguments are read, and the parenthesis after them. -/
def ReadsArguments (reader : (c : Cursor) → Reading (List Exp) c.size) (ts : List Token)
    (es : List Exp) : Prop :=
  ∀ q c rest, q.kind = .mark .rightParen → c.At (ts ++ q :: rest) →
    Answers Exp.listForm rest es (reader c)

theorem ArgumentList.head {es : List Exp} : ArgumentList ts es →
    ∃ t us, ts = t :: us ∧ Nonterminal.exp.begins t.kind = true
  | .last he => he.head
  | .cons he _ _ => by
    obtain ⟨t, us, rfl, ht⟩ := he.head
    exact ⟨t, _, List.cons_append, ht⟩

theorem reads_call {u : Token} (hf : f.kind = .name) (ht : t.kind = .mark .leftParen)
    {es : List Exp} (hes : ReadsArguments arguments ts es) (hu : u.kind = .mark .rightParen) :
    Reads .primary (f :: t :: ts ++ [u]) (.call {} (Grammar.identOf f) none es) := by
  intro c rest hc hrest
  rw [List.append_assoc] at hc
  obtain ⟨c₁, h₁, htake, hc₁⟩ := hc.take
  obtain ⟨c₂, h₂, htake', hc₂⟩ := hc₁.take
  have hleaf : c.takeIf? leaf? = none := hc.takeIf_none fun u hu => by
    have hu : u.kind = .name := hu.trans hf
    rw [leaf?, hu]
  have hparen : c.take? (.mark .leftParen) = none := hc.take_none (by
    have hkind : nextKind ((f :: t :: ts) ++ ([u] ++ rest)) = .name := hf
    rw [hkind]
    nofun)
  show Answers Exp.form rest _ (primary c)
  rw [Parse.primary, hleaf, hparen, ← hf, htake]
  dsimp only
  rw [← ht, htake']
  refine (hes u c₂ rest hu hc₂).bind fun args c₃ h₃ hargs hc₃ => ?_
  exact .ok (by rw [Exp.form, hargs]; rfl) hc₃

mutual

/-- What is derived is read, by induction on derivations. -/
theorem Derives.leads : {x : Nonterminal} → {ts : List Token} → {e : Exp} → Derives x ts e →
    Leads x ts e
  | _, _, _, .pass h he => by
    have hy := he.leads
    cases h
    case exp => exact reads_exp_of_or hy.reads
    case or => exact leads_of_continues (l := .or) (Level.continues_of_operand hy.reads)
    case and => exact leads_of_continues (l := .and) (Level.continues_of_operand hy.reads)
    case eq => exact leads_of_continues (l := .equality) (Level.continues_of_operand hy.reads)
    case rel => exact leads_of_continues (l := .relational) (Level.continues_of_operand hy.reads)
    case add => exact leads_of_continues (l := .additive) (Level.continues_of_operand hy.reads)
    case mul =>
      exact leads_of_continues (l := .multiplicative) (Level.continues_of_operand hy.reads)
    case unary => exact reads_unary_of_primary he hy.reads
    case primary => exact reads_primary_of_loc he hy.reads
  | _, _, _, .groups h hl ht hr => by
    have hleft := hl.leads
    have hright := hr.leads.reads
    obtain ⟨l, rfl, rfl, hop, hchain⟩ := Level.of_groups h
    have hcontinues := continues_of_leads hchain hleft
    exact leads_of_continues (Level.continues_of_groups hop hchain hcontinues ht hright)
  | _, _, _, .alone h hl ht hr => by
    have hleft := hl.leads.reads
    have hright := hr.leads.reads
    obtain ⟨l, cause, rfl, rfl, hop, hchain⟩ := Level.of_alone h
    exact leads_of_alone hchain (Level.reads_of_alone hop hchain hleft ht hright)
  | _, _, _, .assign hl hloc ht hr => reads_assign hl.leads.reads hloc ht hr.leads.reads
  | _, _, _, .not ht he => reads_unaryOp (by rw [unaryOp?, ht]) (fun _ _ => rfl) he.leads.reads
  | _, _, _, .neg ht he => reads_unaryOp (by rw [unaryOp?, ht]) (fun _ _ => rfl) he.leads.reads
  | _, _, _, .int (t := t) ht hv => by
    have hleaf : leaf? t = some (.int (infoOf t) ((Text.decimal? t.text.toList).getD 0 : Nat)) := by
      rw [leaf?, ht]
    rw [hv] at hleaf
    exact reads_leaf hleaf
  | _, _, _, .string ht => reads_leaf (e := .string _ _) (by rw [leaf?, ht])
  | _, _, _, .true ht => reads_leaf (e := .bool _ _) (by rw [leaf?, ht])
  | _, _, _, .false ht => reads_leaf (e := .bool _ _) (by rw [leaf?, ht])
  | _, _, _, .group ht he hu => reads_group ht he.leads.reads hu
  | _, _, _, .call hf ht hes hu => reads_call hf ht hes.reads hu
  | _, _, _, .name ht => fieldsContinue_name ht
  | _, _, _, .field he ht hf => fieldsContinue_field he.leads ht hf

theorem Arguments.reads : {ts : List Token} → {es : List Exp} → Arguments ts es →
    ReadsArguments arguments ts es
  | _, _, .none => by
    intro q c rest hq hc
    obtain ⟨c₁, h₁, htake, hc₁⟩ := hc.take
    rw [arguments, ← hq, htake]
    exact .ok rfl hc₁
  | _, _, .some hes => by
    intro q c rest hq hc
    have hread := hes.reads q c rest hq hc
    obtain ⟨t, us, rfl, ht⟩ := hes.head
    rw [arguments, hc.take_none (TokenKind.ne_of_test ht rfl)]
    exact hread

theorem ArgumentList.reads : {ts : List Token} → {es : List Exp} → ArgumentList ts es →
    ReadsArguments argumentList ts es
  | _, _, .last he => by
    intro q c rest hq hc
    rw [argumentList]
    refine (he.leads.reads c _ hc (Token.stops_mark hq (by decide) _)).bind
      fun e' c₁ h₁ he' hc₁ => ?_
    have hcomma : nextKind (q :: rest) ≠ .mark .comma := by
      rw [nextKind, hq]
      nofun
    dsimp only
    rw [hc₁.take_none hcomma]
    refine (answers_expect hc₁ .argsEnd hq).bind fun _ c₂ h₂ _ hc₂ => ?_
    exact .ok (by rw [Exp.listForm, he']; rfl) hc₂
  | _, _, .cons he ht hes => by
    intro q c rest hq hc
    rw [List.append_assoc] at hc
    rw [argumentList]
    refine (he.leads.reads c _ hc (Token.stops_mark ht (by decide) _)).bind
      fun e' c₁ h₁ he' hc₁ => ?_
    obtain ⟨c₂, h₂, htake, hc₂⟩ := hc₁.take
    dsimp only
    rw [← ht, htake]
    refine (hes.reads q c₂ rest hq hc₂).bind fun es' c₃ h₃ hes' hc₃ => ?_
    exact .ok (by rw [Exp.listForm, he', hes']) hc₃

end

end Grammar

end CMinusMinus
