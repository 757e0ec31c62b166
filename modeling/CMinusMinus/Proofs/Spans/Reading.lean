import CMinusMinus.Proofs.Derivation.Reading
import CMinusMinus.Proofs.Spans
import Mathlib.Logic.Basic

/-!
# Reading the same words

Readers look at the kinds and texts of tokens and not at their positions.  Where two lists of tokens
have the same words, they read trees that differ in spans only, or refuse tokens at the same place
for the same cause (`Program.ofTokens_agree`).
-/

namespace CMinusMinus

/-- Forgets spans. -/
def Span.forget (_ : Option Span) : Option Span := none

/-- What a token is and how it is spelled, wherever it stands. -/
def Token.word (t : Token) : TokenKind × String := (t.kind, t.text)

/-! ## Cursors at the same place -/

/-- The cursors stand at the same place of two lists of the same words: what is to come are pairs
of tokens among `ps`. -/
structure Cursor.Twin (ps : List (Token × Token)) (c c' : Cursor) : Prop where
  words : ∀ p ∈ ps, p.1.word = p.2.word
  rest : ∃ qs, qs ⊆ ps ∧ c.rest = qs.map Prod.fst ∧ c'.rest = qs.map Prod.snd
  eof : (c.eof, c'.eof) ∈ ps

namespace Cursor

variable {ps : List (Token × Token)} {c c' : Cursor}

namespace Twin

theorem kind_eq (h : Twin ps c c') {t t' : Token} (ht : (t, t') ∈ ps) : t.kind = t'.kind :=
  congrArg Prod.fst (h.words _ ht)

theorem peekAt (h : Twin ps c c') (n : Nat) : (c.peekAt n, c'.peekAt n) ∈ ps := by
  obtain ⟨qs, hqs, hrest, hrest'⟩ := h.rest
  rw [Cursor.peekAt, Cursor.peekAt, hrest, hrest', ← List.map_drop, ← List.map_drop]
  cases hdrop : qs.drop n with
  | nil => exact h.eof
  | cons q rest => exact hqs (List.mem_of_mem_drop (hdrop ▸ List.mem_cons_self))

theorem peek (h : Twin ps c c') : (c.peek, c'.peek) ∈ ps := h.peekAt 0

theorem isEmpty_rest (h : Twin ps c c') : c.rest.isEmpty = c'.rest.isEmpty := by
  obtain ⟨qs, -, hrest, hrest'⟩ := h.rest
  rw [hrest, hrest', List.isEmpty_map, List.isEmpty_map]

theorem takeIf?_cons {α : Type} (test : Token → Option α) (last t : Token) (ts : List Token)
    (eof : Token) : (⟨last, t :: ts, eof⟩ : Cursor).takeIf? test =
      (test t).map fun a => ⟨(a, t), ⟨t, ts, eof⟩, Nat.lt_add_one _⟩ := rfl

/-- Both cursors have a token next that passes the test, or neither has. -/
theorem takeIf? {α β : Type} (h : Twin ps c c') (test : Token → Option α) (view : α → β)
    (htest : ∀ t t' : Token, t.word = t'.word → (test t).map view = (test t').map view) :
    (c.takeIf? test = none ∧ c'.takeIf? test = none) ∨
      ∃ a a' t t' c₁ c₁' h₁ h₁', c.takeIf? test = some ⟨(a, t), c₁, h₁⟩ ∧
        c'.takeIf? test = some ⟨(a', t'), c₁', h₁'⟩ ∧ view a = view a' ∧ c₁.Twin ps c₁' := by
  obtain ⟨words, ⟨qs, hqs, hrest, hrest'⟩, heof⟩ := h
  obtain ⟨last, rest, eof⟩ := c
  obtain ⟨last', rest', eof'⟩ := c'
  cases hrest
  cases hrest'
  cases qs with
  | nil => exact .inl ⟨rfl, rfl⟩
  | cons q qs =>
    obtain ⟨hq, hqs⟩ := List.cons_subset.mp hqs
    have hview := htest _ _ (words _ hq)
    cases ha : test q.1 with
    | none =>
      rw [ha] at hview
      have hnone : test q.2 = none := Option.map_eq_none_iff.mp hview.symm
      exact .inl ⟨by rw [List.map_cons, takeIf?_cons, ha]; rfl,
        by rw [List.map_cons, takeIf?_cons, hnone]; rfl⟩
    | some a =>
      rw [ha] at hview
      obtain ⟨a', ha', heq⟩ := Option.map_eq_some_iff.mp hview.symm
      refine .inr ⟨a, a', q.1, q.2, ⟨q.1, qs.map Prod.fst, eof⟩, ⟨q.2, qs.map Prod.snd, eof'⟩,
        by simp [size], by simp [size], ?_, ?_, heq.symm, words, ⟨qs, hqs, rfl, rfl⟩, heof⟩
      · exact (takeIf?_cons test last q.1 _ eof).trans (by rw [ha]; rfl)
      · exact (takeIf?_cons test last' q.2 _ eof').trans (by rw [ha']; rfl)

/-- Both cursors have a token of the kind next, or neither has. -/
theorem take? (h : Twin ps c c') (kind : TokenKind) :
    (c.take? kind = none ∧ c'.take? kind = none) ∨
      ∃ t t' c₁ c₁' h₁ h₁', c.take? kind = some ⟨t, c₁, h₁⟩ ∧
        c'.take? kind = some ⟨t', c₁', h₁'⟩ ∧ (t, t') ∈ ps ∧ c₁.Twin ps c₁' := by
  obtain ⟨words, ⟨qs, hqs, hrest, hrest'⟩, heof⟩ := h
  obtain ⟨last, rest, eof⟩ := c
  obtain ⟨last', rest', eof'⟩ := c'
  cases hrest
  cases hrest'
  cases qs with
  | nil => exact .inl ⟨rfl, rfl⟩
  | cons q qs =>
    obtain ⟨hq, hqs⟩ := List.cons_subset.mp hqs
    have hkind : q.1.kind = q.2.kind := congrArg Prod.fst (words _ hq)
    by_cases hk : q.1.kind = kind
    · refine .inr ⟨q.1, q.2, ⟨q.1, qs.map Prod.fst, eof⟩, ⟨q.2, qs.map Prod.snd, eof'⟩, ?_, ?_,
        if_pos hk, if_pos (hkind ▸ hk), hq, words, ⟨qs, hqs, rfl, rfl⟩, heof⟩
      · simp [size]
      · simp [size]
    · exact .inl ⟨if_neg hk, if_neg (hkind ▸ hk)⟩

end Twin

end Cursor

namespace Parse

open Cursor

variable {ps : List (Token × Token)}

/-- Both readers read the same but for what `view` forgets, or refuse a token at the same place for
the same cause. -/
inductive Agree {α β : Type} (ps : List (Token × Token)) (view : α → β) {n n' : Nat} :
    Reading α n → Reading α n' → Prop where
  | ok {a a' : α} {c c' : Cursor} {h : c.size < n} {h' : c'.size < n'} :
    view a = view a' → c.Twin ps c' → Agree ps view (.ok ⟨a, c, h⟩) (.ok ⟨a', c', h'⟩)
  | error {cause : SyntaxCause} {t t' : Token} :
    (t, t') ∈ ps → Agree ps view (.error ⟨cause, t⟩) (.error ⟨cause, t'⟩)

namespace Agree

variable {α α' β β' : Type} {view : α → β} {view' : α' → β'} {n n' m m' : Nat} {c c' : Cursor}

theorem refuse (h : c.Twin ps c') (cause : SyntaxCause) :
    Agree ps view (c.refuse cause : Reading α n) (c'.refuse cause : Reading α n') :=
  .error h.peek

theorem bind {x : Reading α n} {x' : Reading α n'} {f : Read α n → Reading α' m}
    {f' : Read α n' → Reading α' m'} (hx : Agree ps view x x')
    (hf : ∀ a a' c c' h h', view a = view a' → c.Twin ps c' →
      Agree ps view' (f ⟨a, c, h⟩) (f' ⟨a', c', h'⟩)) :
    Agree ps view' (x >>= f) (x' >>= f') := by
  cases hx with
  | error ht => exact .error ht
  | ok ha hc => exact hf _ _ _ _ _ _ ha hc

end Agree

variable {c c' : Cursor}

/-! ## Tokens -/

theorem agree_expect (h : c.Twin ps c') (wanted : Wanted) :
    Agree ps Token.word (c.expect wanted) (c'.expect wanted) := by
  rw [expect, expect]
  rcases h.take? wanted.kind with ⟨hn, hn'⟩ | ⟨t, t', c₁, c₁', h₁, h₁', hs, hs', ht, htwin⟩
  · rw [hn, hn']
    exact .refuse h _
  · rw [hs, hs']
    exact .ok (h.words _ ht) htwin

/-- Forgets the spans of an identifier. -/
abbrev bareIdent : Ident → Ident := Ident.respan Span.forget

/-- Forgets the spans of an expression. -/
abbrev bareExp : Exp → Exp := Exp.respan Span.forget

theorem bareIdent_identOf {t t' : Token} (h : t.word = t'.word) :
    bareIdent (identOf t) = bareIdent (identOf t') :=
  congrArg (fun text => bareIdent { name := text }) (congrArg Prod.snd h)

theorem agree_ident (h : c.Twin ps c') (wanted : Wanted) :
    Agree ps bareIdent (c.ident wanted) (c'.ident wanted) := by
  refine (agree_expect h wanted).bind fun t t' c₁ c₁' h₁ h₁' ht htwin => ?_
  exact .ok (bareIdent_identOf ht) htwin

theorem bareExp_leaf? {t t' : Token} (h : t.word = t'.word) :
    (leaf? t).map bareExp = (leaf? t').map bareExp := by
  have hkind : t.kind = t'.kind := congrArg Prod.fst h
  have htext : t.text = t'.text := congrArg Prod.snd h
  unfold leaf?
  rw [hkind, htext]
  split <;> rfl

theorem unaryOp?_of_word {t t' : Token} (h : t.word = t'.word) : unaryOp? t = unaryOp? t' := by
  have hkind : t.kind = t'.kind := congrArg Prod.fst h
  unfold unaryOp?
  rw [hkind]

theorem bareExp_unaryOp {t : Token} {op : Info → Exp → Exp} (h : unaryOp? t = some op) (i i' : Info)
    (hi : i.respan Span.forget = i'.respan Span.forget) {e e' : Exp} (he : bareExp e = bareExp e') :
    bareExp (op i e) = bareExp (op i' e') := by
  unfold unaryOp? at h
  split at h
  · cases h
    exact congrArg₂ Exp.not hi he
  · cases h
    exact congrArg₂ Exp.neg hi he
  · cases h

theorem ofToken?_of_word {t t' : Token} (h : t.word = t'.word) (l : Level) :
    l.ofToken? t = l.ofToken? t' := by
  have hkind : t.kind = t'.kind := congrArg Prod.fst h
  unfold Level.ofToken?
  rw [hkind]

/-! ## Expressions -/

theorem isLocation_bareExp {e e' : Exp} (h : bareExp e = bareExp e') :
    e.isLocation = e'.isLocation := by
  have hself : ∀ e : Exp, (bareExp e).isLocation = e.isLocation := fun e => by cases e <;> rfl
  rw [← hself e, h, hself]

theorem agree_fields {c c' : Cursor} (h : c.Twin ps c') (start start' : Position) {loc loc' : Exp}
    (hloc : bareExp loc = bareExp loc') :
    Agree ps bareExp (fields start loc c) (fields start' loc' c') := by
  rw [fields.eq_def start loc c, fields.eq_def start' loc' c']
  rcases h.take? (.mark .dot) with ⟨hn, hn'⟩ | ⟨t, t', c₁, c₁', h₁, h₁', hs, hs', -, htwin⟩
  · rw [hn, hn']
    exact .ok hloc h
  · rw [hs, hs']
    refine (agree_ident htwin _).bind fun f f' c₂ c₂' h₂ h₂' hf htwin₂ => ?_
    have haccess : bareExp (.access (infoSince c₂ start) {} loc f) =
        bareExp (.access (infoSince c₂' start') {} loc' f') :=
      congrArg₂ (Exp.access {} {} · ·) hloc hf
    refine (agree_fields htwin₂ start start' haccess).bind fun e e' c₃ c₃' _ _ he htwin₃ => ?_
    exact .ok he htwin₃
termination_by c.size
decreasing_by omega

theorem agree_location (h : c.Twin ps c') : Agree ps bareExp (location c) (location c') := by
  refine (agree_ident h _).bind fun x x' c₁ c₁' _ _ hx htwin => ?_
  have hloc : bareExp (.ident x) = bareExp (.ident x') := congrArg Exp.ident hx
  refine (agree_fields htwin c.here c'.here hloc).bind fun e e' c₂ c₂' _ _ he htwin₂ => ?_
  exact .ok he htwin₂

mutual

theorem agree_exp {c c' : Cursor} (h : c.Twin ps c') : Agree ps bareExp (exp c) (exp c') := by
  rw [exp.eq_def c, exp.eq_def c']
  refine (agree_level .or h).bind fun e e' c₁ c₁' h₁ h₁' he htwin => ?_
  dsimp only
  rcases htwin.take? (.mark .assign) with
    ⟨hn, hn'⟩ | ⟨t, t', c₂, c₂', h₂, h₂', hs, hs', -, htwin₂⟩
  · rw [hn, hn']
    exact .ok he htwin
  · rw [hs, hs']
    dsimp only
    rw [isLocation_bareExp he]
    split
    · refine (agree_exp htwin₂).bind fun u u' c₃ c₃' _ _ hu htwin₃ => ?_
      exact .ok (congrArg₂ (Exp.assign {} · ·) he hu) htwin₃
    · exact .refuse htwin _
termination_by (c.size, 14)
decreasing_by
  · exact .right _ (by decide)
  · exact .left _ _ (by omega)

theorem agree_level (l : Level) {c c' : Cursor} (h : c.Twin ps c') :
    Agree ps bareExp (level l c) (level l c') := by
  rw [level.eq_def l c, level.eq_def l c']
  refine (agree_operand l h).bind fun e e' c₁ c₁' h₁ h₁' he htwin => ?_
  refine (agree_operators l c.here c'.here he htwin).bind fun u u' c₂ c₂' _ _ hu htwin₂ => ?_
  exact .ok hu htwin₂
termination_by (c.size, 2 * l.height + 1)

theorem agree_operand (l : Level) {c c' : Cursor} (h : c.Twin ps c') :
    Agree ps bareExp (operand l c) (operand l c') := by
  rw [operand.eq_def l c, operand.eq_def l c']
  cases hl : l.tighter? with
  | some l' =>
    have := Level.height_tighter? hl
    exact agree_level l' h
  | none => exact agree_unary h
termination_by (c.size, 2 * l.height)
decreasing_by
  · exact .right _ (by cases l <;> decide)
  · exact .right _ (by omega)

theorem agree_operators (l : Level) (start start' : Position) {e e' : Exp}
    (he : bareExp e = bareExp e') {c c' : Cursor} (h : c.Twin ps c') :
    Agree ps bareExp (operators l start e c) (operators l start' e' c') := by
  rw [operators.eq_def l start e c, operators.eq_def l start' e' c']
  rcases h.takeIf? l.ofToken? id
      fun t t' ht => congrArg (Option.map id) (ofToken?_of_word ht l) with
    ⟨hn, hn'⟩ | ⟨op, _, t, t', c₁, c₁', h₁, h₁', hs, hs', hop, htwin⟩
  · rw [hn, hn']
    exact .ok he h
  · cases hop
    rw [hs, hs']
    refine (agree_operand l htwin).bind fun u u' c₂ c₂' h₂ h₂' hu htwin₂ => ?_
    have hbinary : bareExp (.binary (infoSince c₂ start) op e u) =
        bareExp (.binary (infoSince c₂' start') op e' u') :=
      congrArg₂ (Exp.binary {} op · ·) he hu
    dsimp only
    cases l.chainError? with
    | none =>
      refine (agree_operators l start start' hbinary htwin₂).bind fun v v' _ _ _ _ hv htwin₃ => ?_
      exact .ok hv htwin₃
    | some cause =>
      dsimp only
      rw [ofToken?_of_word (htwin₂.words _ htwin₂.peek) l]
      split
      · exact .refuse htwin₂ _
      · exact .ok hbinary htwin₂
termination_by (c.size, 0)

theorem agree_unary {c c' : Cursor} (h : c.Twin ps c') :
    Agree ps bareExp (unary c) (unary c') := by
  rw [unary.eq_def c, unary.eq_def c']
  rcases h.takeIf? unaryOp? id fun t t' ht => congrArg (Option.map id) (unaryOp?_of_word ht) with
    ⟨hn, hn'⟩ | ⟨op, _, t, t', c₁, c₁', h₁, h₁', hs, hs', hop, htwin⟩
  · rw [hn, hn']
    exact agree_primary h
  · obtain rfl : _ = _ := hop
    rw [hs, hs']
    refine (agree_unary htwin).bind fun e e' c₂ c₂' _ _ he htwin₂ => ?_
    have hunary : bareExp (op (infoSince c₂ c.here) e) = bareExp (op (infoSince c₂' c'.here) e') :=
      bareExp_unaryOp (rest_of_takeIf? hs).2 (infoSince c₂ c.here) (infoSince c₂' c'.here) rfl he
    exact .ok hunary htwin₂
termination_by (c.size, 1)

theorem agree_primary {c c' : Cursor} (h : c.Twin ps c') :
    Agree ps bareExp (primary c) (primary c') := by
  rw [primary.eq_def c, primary.eq_def c']
  rcases h.takeIf? leaf? bareExp fun t t' ht => bareExp_leaf? ht with
    ⟨hn, hn'⟩ | ⟨e, e', t, t', c₁, c₁', h₁, h₁', hs, hs', he, htwin⟩
  · rw [hn, hn']
    dsimp only
    rcases h.take? (.mark .leftParen) with ⟨hn, hn'⟩ | ⟨t, t', c₁, c₁', h₁, h₁', hs, hs', -, htwin⟩
    · rw [hn, hn']
      dsimp only
      rcases h.take? .name with ⟨hn, hn'⟩ | ⟨t, t', c₁, c₁', h₁, h₁', hs, hs', ht, htwin⟩
      · rw [hn, hn']
        exact .refuse h _
      · rw [hs, hs']
        dsimp only
        have hname := bareIdent_identOf (h.words _ ht)
        rcases htwin.take? (.mark .leftParen) with
          ⟨hn, hn'⟩ | ⟨u, u', c₂, c₂', h₂, h₂', hs, hs', -, htwin₂⟩
        · rw [hn, hn']
          have hloc : bareExp (.ident (identOf t)) = bareExp (.ident (identOf t')) :=
            congrArg Exp.ident hname
          refine (agree_fields htwin _ _ hloc).bind fun e e' _ _ _ _ he htwin₂ => ?_
          exact .ok he htwin₂
        · rw [hs, hs']
          refine (agree_arguments htwin₂).bind fun es es' _ _ _ _ hes htwin₃ => ?_
          exact .ok (congrArg₂ (Exp.call {} · none ·) hname hes) htwin₃
    · rw [hs, hs']
      refine (agree_exp htwin).bind fun e e' c₂ c₂' _ _ he htwin₂ => ?_
      refine (agree_expect htwin₂ _).bind fun _ _ c₃ c₃' _ _ _ htwin₃ => ?_
      exact .ok he htwin₃
  · rw [hs, hs']
    exact .ok he htwin
termination_by (c.size, 0)

theorem agree_arguments {c c' : Cursor} (h : c.Twin ps c') :
    Agree ps (Exp.listRespan Span.forget) (arguments c) (arguments c') := by
  rw [arguments.eq_def c, arguments.eq_def c']
  rcases h.take? (.mark .rightParen) with ⟨hn, hn'⟩ | ⟨t, t', c₁, c₁', h₁, h₁', hs, hs', -, htwin⟩
  · rw [hn, hn']
    exact agree_argumentList h
  · rw [hs, hs']
    exact .ok rfl htwin
termination_by (c.size, 16)

theorem agree_argumentList {c c' : Cursor} (h : c.Twin ps c') :
    Agree ps (Exp.listRespan Span.forget) (argumentList c) (argumentList c') := by
  rw [argumentList.eq_def c, argumentList.eq_def c']
  refine (agree_exp h).bind fun e e' c₁ c₁' h₁ h₁' he htwin => ?_
  dsimp only
  rcases htwin.take? (.mark .comma) with ⟨hn, hn'⟩ | ⟨t, t', c₂, c₂', h₂, h₂', hs, hs', -, htwin₂⟩
  · rw [hn, hn']
    refine (agree_expect htwin _).bind fun _ _ _ _ _ _ _ htwin₂ => ?_
    exact .ok (congrArg ([·]) he) htwin₂
  · rw [hs, hs']
    refine (agree_argumentList htwin₂).bind fun es es' _ _ _ _ hes htwin₃ => ?_
    exact .ok (congrArg₂ List.cons he hes) htwin₃
termination_by (c.size, 15)

end

end Parse

end CMinusMinus
