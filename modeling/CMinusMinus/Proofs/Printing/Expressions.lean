import CMinusMinus.Proofs.Derivation.Reading
import CMinusMinus.Proofs.Form
import CMinusMinus.Proofs.Printing

/-!
# Printed expressions

A printed expression is cut into tokens that derive its form (`Exp.prints`).  Every operator stands
in parentheses, so what is printed inside an expression is a primary expression, or a location if
it has the form of one; only an assignment at the top stands without them.

The operators `-` and `!` stand right before their operands, which begin with none of the characters
that they would go on with (`Exp.head_source`).
-/

namespace CMinusMinus

open Grammar
open Token (Prints WordEnds wordEnds_cons continuesName StringBody)

/-! ## Derivations from primary expressions -/

namespace Grammar

variable {ts us : List Token} {t : Token} {e l r : Exp}

theorem Derives.of_primary (h : Derives .primary ts e) {x : Nonterminal} (hx : x ≠ .loc) :
    Derives x ts e := by
  have hunary : Derives .unary ts e := .pass .unary h
  have hmul : Derives .mul ts e := .pass .mul hunary
  have hadd : Derives .add ts e := .pass .add hmul
  have hrel : Derives .rel ts e := .pass .rel hadd
  have heq : Derives .eq ts e := .pass .eq hrel
  have hand : Derives .and ts e := .pass .and heq
  have hor : Derives .or ts e := .pass .or hand
  have hexp : Derives .exp ts e := .pass .exp hor
  cases x
  case loc => exact absurd rfl hx
  all_goals assumption

/-- What any nonterminal derives is an expression. -/
theorem Derives.toExp {x : Nonterminal} (h : Derives x ts e) : Derives .exp ts e := by
  have hor : Derives .or ts e → Derives .exp ts e := .pass .exp
  have hand : Derives .and ts e → Derives .exp ts e := fun h => hor (.pass .or h)
  have heq : Derives .eq ts e → Derives .exp ts e := fun h => hand (.pass .and h)
  have hrel : Derives .rel ts e → Derives .exp ts e := fun h => heq (.pass .eq h)
  have hadd : Derives .add ts e → Derives .exp ts e := fun h => hrel (.pass .rel h)
  have hmul : Derives .mul ts e → Derives .exp ts e := fun h => hadd (.pass .add h)
  have hprimary : Derives .primary ts e → Derives .exp ts e := fun h => h.of_primary (by decide)
  cases x with
  | exp => exact h
  | or => exact hor h
  | and => exact hand h
  | eq => exact heq h
  | rel => exact hrel h
  | add => exact hadd h
  | mul => exact hmul h
  | unary => exact hmul (.pass .mul h)
  | primary => exact hprimary h
  | loc => exact hprimary (.pass .primary h)

end Grammar

/-- Every operator of the language has a production. -/
theorem BinOp.production {op : BinOp} (h : op ∈ BinOp.all) :
    ∃ x y m, Groups x y m op ∨ Alone x y m op := by
  cases op with
  | add => exact ⟨_, _, _, .inl .plus⟩
  | sub => exact ⟨_, _, _, .inl .minus⟩
  | mul => exact ⟨_, _, _, .inl .times⟩
  | div => exact ⟨_, _, _, .inl .divide⟩
  | and => exact ⟨_, _, _, .inl .and⟩
  | or => exact ⟨_, _, _, .inl .or⟩
  | less => exact ⟨_, _, _, .inr .less⟩
  | greater => exact ⟨_, _, _, .inr .greater⟩
  | lessEq => exact ⟨_, _, _, .inr .lessEq⟩
  | greaterEq => exact ⟨_, _, _, .inr .greaterEq⟩
  | equal => exact ⟨_, _, _, .inr .equals⟩
  | notEqual => exact ⟨_, _, _, .inr .notEquals⟩
  | other => simp [BinOp.all] at h

namespace Grammar

variable {x y : Nonterminal} {m : Mark} {op : BinOp} {ts us : List Token} {t : Token} {l r : Exp}

/-- The mark of a production spells its operator. -/
theorem toList_text (h : Groups x y m op ∨ Alone x y m op) : op.text.toList = m.spelling := by
  rcases h with h | h <;> cases h <;> decide

/-- An operator between primary expressions makes an expression. -/
theorem Derives.binary (h : Groups x y m op ∨ Alone x y m op) (hl : Derives .primary ts l)
    (ht : t.kind = .mark m) (hr : Derives .primary us r) :
    Derives .exp (ts ++ t :: us) (.binary {} op l r) := by
  rcases h with h | h
  · have hne : x ≠ .loc ∧ y ≠ .loc := by
      cases h <;> decide
    exact (Derives.groups h (hl.of_primary hne.1) ht (hr.of_primary hne.2)).toExp
  · have hne : y ≠ .loc := by
      cases h <;> decide
    exact (Derives.alone h (hl.of_primary hne) ht (hr.of_primary hne)).toExp

end Grammar

/-! ## The text of an expression -/

namespace Exp

variable {rest : List Char}

theorem toList_source_int (i : Info) (n : Nat) (top : Bool) :
    (source top (.int i n)).toList = Nat.toDigits 10 n := by
  change (toString n).toList = _
  rw [Nat.toString_eq_ofList_toDigits, String.toList_ofList]

theorem toList_source_string (i : Info) (s : String) (top : Bool) :
    (source top (.string i s)).toList = '"' :: s.toList ++ ['"'] := by
  change ("\"" ++ s ++ "\"").toList = _
  simp

theorem toList_source_bool (i : Info) (b : Bool) (top : Bool) :
    (source top (.bool i b)).toList
      = if b then ['t', 'r', 'u', 'e'] else ['f', 'a', 'l', 's', 'e'] := by
  cases b with
  | true =>
    change "true".toList = _
    decide
  | false =>
    change "false".toList = _
    decide

theorem toList_source_access (i : Info) (k : FieldLink) (loc : Exp) (f : Ident) (top : Bool) :
    (source top (.access i k loc f)).toList
      = (loc.source false).toList ++ '.' :: f.name.toList := by
  change (loc.source false ++ "." ++ f.name).toList = _
  simp

theorem toList_source_assign (i : Info) (l r : Exp) :
    (source true (.assign i l r)).toList
      = (l.source false).toList ++ ' ' :: '=' :: ' ' :: (r.source true).toList := by
  change (l.source false ++ " = " ++ r.source true).toList = _
  simp

theorem toList_source_group (i : Info) (l r : Exp) :
    (source false (.assign i l r)).toList
      = '(' :: ((source true (.assign i l r)).toList ++ [')']) := by
  change ("(" ++ source true (.assign i l r) ++ ")").toList = _
  simp

theorem toList_source_call (i : Info) (f : Ident) (sp : Option Span) (es : List Exp) (top : Bool) :
    (source top (.call i f sp es)).toList
      = f.name.toList ++ '(' ::
          ([',', ' '].intercalate ((sources es).map String.toList) ++ [')']) := by
  change (f.name ++ "(" ++ ", ".intercalate (sources es) ++ ")").toList = _
  simp

theorem toList_source_neg (i : Info) (e : Exp) (top : Bool) :
    (source top (.neg i e)).toList = '(' :: ('-' :: (e.source false).toList ++ [')']) := by
  change ("(-" ++ e.source false ++ ")").toList = _
  simp

theorem toList_source_not (i : Info) (e : Exp) (top : Bool) :
    (source top (.not i e)).toList = '(' :: ('!' :: (e.source false).toList ++ [')']) := by
  change ("(!" ++ e.source false ++ ")").toList = _
  simp

theorem toList_source_binary (i : Info) (op : BinOp) (l r : Exp) (top : Bool) :
    (source top (.binary i op l r)).toList
      = '(' :: ((l.source false).toList ++ (' ' :: (op.text.toList ++
          (' ' :: (r.source false).toList))) ++ [')']) := by
  change ("(" ++ l.source false ++ " " ++ op.text ++ " " ++ r.source false ++ ")").toList = _
  simp

/-- A printed expression begins with a parenthesis, a quote or a character of words or numerals. -/
theorem head_source : (e : Exp) → e.Formed → (∀ x ∈ e.expressions, x.Writable) →
    ∃ c cs, (e.source false).toList = c :: cs ∧ (c = '(' ∨ c = '"' ∨ continuesName c = true)
  | .int i v, _, hwritable => by
    obtain ⟨hv, -⟩ : Writable (.int i v) := hwritable _ (List.mem_singleton.mpr rfl)
    obtain ⟨n, rfl⟩ := Int.eq_ofNat_of_zero_le hv
    rw [toList_source_int]
    obtain ⟨c, cs, hcs⟩ := List.exists_cons_of_ne_nil (Nat.toDigits_ne_nil (n := n) (b := 10))
    refine ⟨c, cs, hcs, .inr (.inr (Token.continuesName_of_isDigit ?_))⟩
    exact Token.isDigit_of_mem_toDigits (hcs ▸ List.mem_cons_self)
  | .string _ s, _, _ => ⟨'"', s.toList ++ ['"'], toList_source_string _ s false, .inr (.inl rfl)⟩
  | .bool _ true, _, _ =>
    ⟨'t', ['r', 'u', 'e'], toList_source_bool _ true false, .inr (.inr (by decide))⟩
  | .bool _ false, _, _ =>
    ⟨'f', ['a', 'l', 's', 'e'], toList_source_bool _ false false, .inr (.inr (by decide))⟩
  | .ident x, h, _ => by
    obtain ⟨c, cs, hx, hc, -⟩ := h.spelled
    exact ⟨c, cs, hx, .inr (.inr (Token.continuesName_of_beginsName hc))⟩
  | .access i k loc f, h, hwritable => by
    obtain ⟨c, cs, hloc, hc⟩ := head_source loc h.2.1
      fun x hx => hwritable x (by simp [expressions, hx])
    rw [toList_source_access, hloc]
    exact ⟨c, _, rfl, hc⟩
  | .assign i l r, _, _ => ⟨'(', _, toList_source_group i l r, .inl rfl⟩
  | .call i f sp es, h, _ => by
    obtain ⟨c, cs, hx, hc, -⟩ := h.1.spelled
    rw [toList_source_call, hx]
    exact ⟨c, _, rfl, .inr (.inr (Token.continuesName_of_beginsName hc))⟩
  | .neg i e, _, _ => ⟨'(', _, toList_source_neg i e false, .inl rfl⟩
  | .not i e, _, _ => ⟨'(', _, toList_source_not i e false, .inl rfl⟩
  | .binary i op l r, _, _ => ⟨'(', _, toList_source_binary i op l r false, .inl rfl⟩
  | .unknown _, h, _ => h.elim
termination_by structural e => e

/-! ## The tokens of an expression -/

/-- What a printed expression is derived from. -/
def symbol (top : Bool) (e : Exp) : Nonterminal :=
  if top then .exp else if e.isLocation then .loc else .primary

/-- The tokens derive the form of the expression that they were printed from. -/
def Printed (top : Bool) (e : Exp) (ts : List Token) : Prop := Derives (symbol top e) ts e.form

variable {e l : Exp} {ts : List Token} {top : Bool}

theorem Printed.loc (h : Printed false e ts) (he : e.isLocation = true) :
    Derives .loc ts e.form := by
  rw [Printed, symbol, he] at h
  exact h

theorem Printed.primary (h : Printed false e ts) : Derives .primary ts e.form := by
  rw [Printed, symbol, if_neg Bool.false_ne_true] at h
  split at h
  · exact .pass .primary h
  · exact h

theorem Printed.exp (h : Printed top e ts) : Derives .exp ts e.form := h.toExp

theorem printed_of_loc (he : e.isLocation = true) (h : Derives .loc ts e.form) :
    Printed top e ts := by
  unfold Printed symbol
  rw [he]
  cases top with
  | true => exact h.toExp
  | false => exact h

theorem printed_of_primary (he : e.isLocation = false) (h : Derives .primary ts e.form) :
    Printed top e ts := by
  unfold Printed symbol
  rw [he]
  cases top with
  | true => exact h.toExp
  | false => exact h

/-- What is printed in parentheses is a primary expression. -/
theorem prints_group {cs : List Char} {P : List Token → Prop} {e : Exp}
    (h : ∀ rest, WordEnds rest → Prints cs rest fun ts => Derives .exp ts e)
    (hP : ∀ ts, Derives .primary ts e → P ts) : Prints ('(' :: (cs ++ [')'])) rest P := by
  refine Prints.mark (m := .leftParen) rfl rfl fun t ht => ?_
  refine (h _ (wordEnds_cons (by decide) rest)).bind fun us hus => ?_
  refine Prints.mark (m := .rightParen) rfl rfl fun u hu => .nil ?_
  exact hP _ (.group ht hus hu)

theorem prints_access (i : Info) (k : FieldLink) {loc : Exp} {f : Ident}
    (hloc : loc.isLocation = true) (hf : f.Named)
    (h : ∀ rest, WordEnds rest → Prints (loc.source false).toList rest (Printed false loc))
    (hrest : WordEnds rest) :
    Prints (source top (.access i k loc f)).toList rest (Printed top (.access i k loc f)) := by
  rw [toList_source_access]
  refine (h _ (wordEnds_cons (by decide) _)).bind fun us hus => ?_
  refine Prints.mark (m := .dot) rfl rfl fun t ht => ?_
  rw [← List.append_nil f.name.toList]
  refine Prints.name hf hrest fun u hu hname => .nil ?_
  have hfield := Derives.field (hus.loc hloc) ht hu
  rw [identOf, hname] at hfield
  exact printed_of_loc rfl hfield

/-- An assignment that stands by itself. -/
theorem prints_assign (i : Info) {l r : Exp} (hloc : l.isLocation = true)
    (hl : ∀ rest, WordEnds rest → Prints (l.source false).toList rest (Printed false l))
    (hr : ∀ rest, WordEnds rest → Prints (r.source true).toList rest (Printed true r))
    (hrest : WordEnds rest) :
    Prints (source true (.assign i l r)).toList rest (Printed true (.assign i l r)) := by
  rw [toList_source_assign]
  refine (hl _ (wordEnds_cons (by decide) _)).bind fun us hus => .space ?_
  rw [← List.singleton_append]
  refine Prints.markBefore (m := .assign) rfl rfl rfl fun t ht => .space ?_
  refine (hr _ hrest).mono fun vs hvs => ?_
  have hlocation := (Parse.isLocation_form l).trans hloc
  exact .assign (hus.primary.of_primary (by decide)) hlocation ht hvs.exp

theorem grows_minus {d : Char} (h : Token.grows .minus d = true) : d = '-' := by
  have hspelling : '-' = d := by
    simpa [Token.grows, Mark.all, Mark.spelling] using h
  exact hspelling.symm

theorem grows_not {d : Char} (h : Token.grows .not d = true) : d = '=' := by
  have hspelling : '=' = d := by
    simpa [Token.grows, Mark.all, Mark.spelling] using h
  exact hspelling.symm

/-- An operator right before its operand, which begins with no character that it goes on with. -/
theorem prints_unary {m : Mark} {c : Char} (hm : [c] = m.spelling)
    (hgrows : ∀ d, Token.grows m d = true → d ≠ '(' ∧ d ≠ '"' ∧ continuesName d = false)
    (he : e.Formed) (hwritable : ∀ x ∈ e.expressions, x.Writable)
    (h : ∀ rest, WordEnds rest → Prints (e.source false).toList rest (Printed false e))
    (hrest : WordEnds rest) :
    Prints (c :: (e.source false).toList) rest fun ts =>
      ∃ t us, ts = t :: us ∧ t.kind = .mark m ∧ Derives .primary us e.form := by
  obtain ⟨d, cs, hcs, hd⟩ := e.head_source he hwritable
  have hstands : Token.grows m d = false := by
    cases hgrow : Token.grows m d with
    | false => rfl
    | true =>
      obtain ⟨hparen, hquote, hname⟩ := hgrows d hgrow
      rcases hd with rfl | rfl | hd
      · exact absurd rfl hparen
      · exact absurd rfl hquote
      · cases hd.symm.trans hname
  rw [← List.singleton_append]
  refine Prints.markBefore hm (by rw [hcs]; rfl) hstands fun t ht => ?_
  exact (h rest hrest).mono fun us hus => ⟨t, us, rfl, ht, hus.primary⟩

theorem prints_call (i : Info) {f : Ident} (sp : Option Span) {es : List Exp} (hf : f.Named)
    (h : ∀ rest, WordEnds rest → Prints ([',', ' '].intercalate ((sources es).map String.toList))
      rest fun ts => Arguments ts (listForm es)) :
    Prints (source top (.call i f sp es)).toList rest (Printed top (.call i f sp es)) := by
  rw [toList_source_call]
  refine Prints.name hf (wordEnds_cons (by decide) _) fun x hx hname => ?_
  refine Prints.mark (m := .leftParen) rfl rfl fun t ht => ?_
  refine (h _ (wordEnds_cons (by decide) rest)).bind fun us hus => ?_
  refine Prints.mark (m := .rightParen) rfl rfl fun u hu => .nil ?_
  have hcall := Derives.call hx ht hus hu
  rw [identOf, hname] at hcall
  exact printed_of_primary rfl hcall

theorem prints_binary (i : Info) {op : BinOp} {l r : Exp} (hop : op ∈ BinOp.all)
    (hl : ∀ rest, WordEnds rest → Prints (l.source false).toList rest (Printed false l))
    (hr : ∀ rest, WordEnds rest → Prints (r.source false).toList rest (Printed false r)) :
    Prints (source top (.binary i op l r)).toList rest (Printed top (.binary i op l r)) := by
  obtain ⟨x, y, m, hproduction⟩ := BinOp.production hop
  have hspace : Token.grows m ' ' = false := by
    cases m <;> rfl
  rw [toList_source_binary]
  refine prints_group (fun rest hrest => ?_) fun ts hts => printed_of_primary rfl hts
  refine (hl _ (wordEnds_cons (by decide) _)).bind fun us hus => .space ?_
  refine Prints.markBefore (toList_text hproduction) rfl hspace fun t ht => .space ?_
  refine (hr _ hrest).mono fun vs hvs => ?_
  exact .binary hproduction hus.primary ht hvs.primary

mutual

/-- A printed expression is cut into tokens that derive its form. -/
theorem prints : (e : Exp) → (top : Bool) → e.Formed → (∀ x ∈ e.expressions, x.Writable) →
    ∀ rest, WordEnds rest → Prints (e.source top).toList rest (Printed top e)
  | .int i v, top, _, hwritable, rest, hrest => by
    obtain ⟨hv, hmax⟩ : Writable (.int i v) := hwritable _ (List.mem_singleton.mpr rfl)
    obtain ⟨n, rfl⟩ := Int.eq_ofNat_of_zero_le hv
    rw [toList_source_int, ← List.append_nil (Nat.toDigits 10 n)]
    refine Prints.token (Token.lexeme_numeral (Int.ofNat_le.mp hmax) hrest)
      fun t ht htext => .nil ?_
    refine printed_of_primary rfl (.int ht ?_)
    rw [Token.lexeme, if_neg (by rw [ht]; decide)] at htext
    rw [htext, Text.decimal?_toDigits]
  | .string i s, top, _, hwritable, rest, _ => by
    have hs : StringBody s.toList := hwritable (.string i s) (List.mem_singleton.mpr rfl)
    rw [toList_source_string, ← List.append_nil ('"' :: s.toList ++ ['"'])]
    refine Prints.token (Token.lexeme_string hs) fun t ht htext => .nil ?_
    rw [Token.lexeme, if_pos ht] at htext
    have hstring := Derives.string ht
    rw [String.toList_inj.mp (List.append_cancel_right (List.cons.inj htext).2)] at hstring
    exact printed_of_primary rfl hstring
  | .bool i true, top, _, _, rest, hrest => by
    have hprints : Prints (Keyword.true.text.toList ++ []) rest (Printed top (.bool i true)) :=
      Prints.keyword .true hrest fun t ht => .nil (printed_of_primary rfl (.true ht))
    simpa [source, Keyword.text] using hprints
  | .bool i false, top, _, _, rest, hrest => by
    have hprints : Prints (Keyword.false.text.toList ++ []) rest (Printed top (.bool i false)) :=
      Prints.keyword .false hrest fun t ht => .nil (printed_of_primary rfl (.false ht))
    simpa [source, Keyword.text] using hprints
  | .ident x, top, h, _, rest, hrest => by
    rw [source, ← List.append_nil x.name.toList]
    refine Prints.name h hrest fun t ht hname => .nil ?_
    have hloc := Derives.name ht
    rw [identOf, hname] at hloc
    exact printed_of_loc rfl hloc
  | .access i k loc f, top, h, hwritable, rest, hrest =>
    prints_access i k h.1 h.2.2
      (prints loc false h.2.1 fun x hx => hwritable x (by simp [expressions, hx])) hrest
  | .assign i l r, top, h, hwritable, rest, hrest => by
    have hl := prints l false h.2.1 fun x hx => hwritable x (by simp [expressions, hx])
    have hr := prints r true h.2.2 fun x hx => hwritable x (by simp [expressions, hx])
    have hassign : ∀ rest, WordEnds rest →
        Prints (source true (.assign i l r)).toList rest (Printed true (.assign i l r)) :=
      fun _ => prints_assign i h.1 hl hr
    cases top with
    | true => exact hassign rest hrest
    | false =>
      rw [toList_source_group]
      exact prints_group hassign fun ts hts => printed_of_primary rfl hts
  | .call i f sp es, top, h, hwritable, rest, hrest =>
    prints_call i sp h.1 (prints_list es h.2 fun x hx => hwritable x (by simp [expressions, hx]))
  | .neg i e, top, h, hwritable, rest, hrest => by
    have hwritable : ∀ x ∈ e.expressions, x.Writable :=
      fun x hx => hwritable x (List.mem_cons_of_mem _ hx)
    have he := prints e false h hwritable
    rw [toList_source_neg]
    refine prints_group (fun rest hrest => ?_) fun ts hts => printed_of_primary rfl hts
    refine (prints_unary (e := e) (m := .minus) rfl (fun d hd => ?_) h hwritable he hrest).mono ?_
    · rw [grows_minus hd]
      decide
    · rintro _ ⟨t, us, rfl, ht, hus⟩
      exact (Derives.neg ht (hus.of_primary (by decide))).toExp
  | .not i e, top, h, hwritable, rest, hrest => by
    have hwritable : ∀ x ∈ e.expressions, x.Writable :=
      fun x hx => hwritable x (List.mem_cons_of_mem _ hx)
    have he := prints e false h hwritable
    rw [toList_source_not]
    refine prints_group (fun rest hrest => ?_) fun ts hts => printed_of_primary rfl hts
    refine (prints_unary (e := e) (m := .not) rfl (fun d hd => ?_) h hwritable he hrest).mono ?_
    · rw [grows_not hd]
      decide
    · rintro _ ⟨t, us, rfl, ht, hus⟩
      exact (Derives.not ht (hus.of_primary (by decide))).toExp
  | .binary i op l r, top, h, hwritable, rest, hrest =>
    prints_binary i h.1
      (prints l false h.2.1 fun x hx => hwritable x (by simp [expressions, hx]))
      (prints r false h.2.2 fun x hx => hwritable x (by simp [expressions, hx]))
  | .unknown _, _, h, _, _, _ => h.elim
termination_by structural e => e

/-- Printed arguments are cut into tokens that derive their forms. -/
theorem prints_list : (es : List Exp) → AllFormed es → (∀ x ∈ listExpressions es, x.Writable) →
    ∀ rest, WordEnds rest →
      Prints ([',', ' '].intercalate ((sources es).map String.toList)) rest fun ts =>
        Arguments ts (listForm es)
  | [], _, _, rest, _ => .nil .none
  | [e], h, hwritable, rest, hrest => by
    rw [sources, sources, List.map_cons, List.map_nil, List.intercalate_singleton]
    refine (prints e true h.1 (fun x hx => hwritable x (by simp [listExpressions, hx]))
      rest hrest).mono fun ts hts => ?_
    exact .some (.last hts.exp)
  | e :: e' :: es, h, hwritable, rest, hrest => by
    have he := prints e true h.1 fun x hx => hwritable x (by simp [listExpressions, hx])
    have hes := prints_list (e' :: es) h.2 fun x hx => hwritable x (by
      rw [listExpressions]
      exact List.mem_append_right _ hx)
    rw [sources, List.map_cons, sources, List.map_cons, List.intercalate_cons_cons,
      List.append_assoc]
    refine (he _ (wordEnds_cons (by decide) _)).bind fun us hus => ?_
    refine Prints.mark (m := .comma) rfl rfl fun t ht => .space ?_
    rw [sources, List.map_cons] at hes
    refine (hes rest hrest).mono fun vs hvs => ?_
    cases hvs with
    | some hvs => exact .some (.cons hus.exp ht hvs)
termination_by structural es => es

end

end Exp

end CMinusMinus
