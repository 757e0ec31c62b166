import CMinusMinus.Proofs.Derivation

/-!
# Tokens of texts

The tokens of every text that can be scanned have their texts, and end with the end of the text
(`Token.text_of_scan`).  Each way to measure a token spells it.  No two tokens have the same
position, since each begins before the next one does (`Token.ordered_of_scan`).
-/

namespace CMinusMinus

theorem map_eq_ok {ε α β : Type} {x : Except ε α} {f : α → β} {b : β} (h : f <$> x = .ok b) :
    ∃ a, x = .ok a ∧ f a = b := by
  cases x with
  | error e => cases h
  | ok a =>
    cases h
    exact ⟨a, rfl, rfl⟩

namespace Token

variable {c : Char} {cs : List Char} {p : Position} {n : Nat}

/-! ## One token -/

theorem spells_word {k : TokenKind} (hc : beginsName c = true)
    (hk : kindOfWord (c :: cs.takeWhile continuesName) = k) :
    k.Spells (String.ofList (c :: cs.takeWhile continuesName)) := by
  unfold kindOfWord at hk
  split at hk
  · next k' hword =>
    cases hk
    have hfound := List.find?_some hword
    exact (eq_of_beq hfound).symm
  · next hword =>
    cases hk
    refine ⟨⟨c, cs.takeWhile continuesName, String.toList_ofList, hc, fun d hd => ?_⟩, hword⟩
    exact List.all_eq_true.mp List.all_takeWhile d hd

theorem spells_numeral {rest : List Char} {q : Position} (hc : Text.isDigit c = true)
    (h : checkNumeral (c :: cs.takeWhile Text.isDigit) rest p q = .ok ()) :
    TokenKind.numeral.Spells (String.ofList (c :: cs.takeWhile Text.isDigit)) := by
  unfold checkNumeral at h
  split at h
  · cases h
  split at h
  · cases h
  next value hvalue =>
  split at h
  · next hmax =>
    split at hvalue
    · next hlength =>
      refine ⟨?_, ?_, ?_, value, ?_, hmax⟩
      · intro hempty
        have htexts := congrArg String.toList hempty
        rw [String.toList_ofList] at htexts
        cases htexts
      · rw [String.toList_ofList]
        rintro d (_ | ⟨_, hd⟩)
        · exact hc
        · exact List.all_eq_true.mp List.all_takeWhile d hd
      · rw [String.length_ofList]
        exact hlength
      · rw [String.toList_ofList]
        exact hvalue
    · cases hvalue
  · cases h

theorem ne_of_isEscapable (h : isEscapable c = true) : c ≠ '\n' ∧ c ≠ nul := by
  constructor <;>
  · rintro rfl
    revert h
    decide

/-- A string literal goes on to its closing quote, before the end of the line. -/
theorem take_closeString {start : Position} (h : closeString start cs p = .ok n) :
    ∃ ds, cs.take n = ds ++ ['"'] ∧ ∀ d ∈ ds, d ≠ '\n' ∧ d ≠ nul := by
  fun_induction closeString start cs p generalizing n with
  | case1 => cases h
  | case2 => cases h
  | case3 c cs p hc ih =>
    obtain ⟨m, hm, rfl⟩ := map_eq_ok h
    obtain ⟨ds, htake, hds⟩ := ih hm
    refine ⟨'\\' :: c :: ds, ?_, ?_⟩
    · rw [List.take_succ_cons, List.take_succ_cons, htake]
      rfl
    · rintro d (_ | ⟨_, _ | ⟨_, hd⟩⟩)
      · decide
      · exact ne_of_isEscapable hc
      · exact hds d hd
  | case4 => cases h
  | case5 =>
    cases h
    exact ⟨[], rfl, List.forall_mem_nil _⟩
  | case6 => cases h
  | case7 c cs p _ _ hquote hend ih =>
    obtain ⟨m, hm, rfl⟩ := map_eq_ok h
    obtain ⟨ds, htake, hds⟩ := ih hm
    refine ⟨c :: ds, ?_, ?_⟩
    · rw [List.take_succ_cons, htake]
      rfl
    · rintro d (_ | ⟨_, hd⟩)
      · simpa using hend
      · exact hds d hd

theorem spells_mark {m : Mark} (h : Mark.first? (c :: cs) = some m) :
    TokenKind.Spells (.mark m) (String.ofList (c :: cs.take (m.spelling.length - 1))) := by
  have hm : m.spelling.isPrefixOf (c :: cs) = true :=
    List.find?_some (p := fun m : Mark => m.spelling.isPrefixOf (c :: cs)) h
  have htake := List.prefix_iff_eq_take.mp (List.isPrefixOf_iff_prefix.mp hm)
  cases hlength : m.spelling.length with
  | zero => exact absurd (List.length_eq_zero_iff.mp hlength) m.spelling_ne_nil
  | succ n =>
    rw [hlength, List.take_succ_cons] at htake
    rw [TokenKind.Spells, Mark.text, htake]
    rfl

/-- Whatever is measured is spelled like tokens of its kind. -/
theorem spells_measure {k : TokenKind} (h : measure c cs p = .ok (k, n)) :
    k.Spells (textOf k (c :: cs.take n)) := by
  have take_takeWhile (test : Char → Bool) :
      cs.take (cs.takeWhile test).length = cs.takeWhile test :=
    (List.prefix_iff_eq_take.mp (List.takeWhile_prefix _)).symm
  unfold measure at h
  split at h
  · next hc =>
    injection h with h
    obtain ⟨hk, rfl⟩ := Prod.mk.inj h
    have hstring : k ≠ .string := by
      rintro rfl
      unfold kindOfWord at hk
      split at hk <;> cases hk
    rw [take_takeWhile, textOf, if_neg hstring]
    exact spells_word hc hk
  split at h
  · next hc =>
    obtain ⟨_, hcheck, h⟩ := bind_eq_ok.mp h
    cases h
    rw [take_takeWhile]
    exact spells_numeral hc hcheck
  split at h
  · split at h
    · next n' hclose =>
      cases h
      obtain ⟨ds, htake, hds⟩ := take_closeString hclose
      rw [TokenKind.Spells, textOf, if_pos rfl, List.tail_cons, htake, List.dropLast_concat,
        String.toList_ofList]
      exact hds
    · cases h
  · split at h
    · next m hm =>
      cases h
      exact spells_mark hm
    · cases h

theorem measure_ne_eof {k : TokenKind} (h : measure c cs p = .ok (k, n)) : k ≠ .eof := by
  rintro rfl
  unfold measure at h
  split at h
  · injection h with h
    have hk := (Prod.mk.inj h).1
    unfold kindOfWord at hk
    split at hk <;> cases hk
  split at h
  · obtain ⟨_, _, h⟩ := bind_eq_ok.mp h
    cases h
  split at h
  · split at h <;> cases h
  · split at h <;> cases h

/-! ## The tokens of a text -/

theorem text_of_scanFrom {ts : List Token} (h : scanFrom cs p = .ok ts) : Token.Text ts := by
  fun_induction scanFrom cs p generalizing ts with
  | case1 cs p q hq =>
    cases h
    refine ⟨?_, [], _, rfl, rfl, List.forall_mem_nil _⟩
    rw [List.forall_mem_singleton]
    rfl
  | case2 cs p c rest q hq ih =>
    obtain ⟨⟨kind, n⟩, hm, h⟩ := bind_eq_ok.mp h
    obtain ⟨tail, htail, h⟩ := bind_eq_ok.mp h
    cases h
    obtain ⟨hspelled, ts, eof, rfl, heof, hts⟩ := ih _ htail
    refine ⟨List.forall_mem_cons.mpr ⟨spells_measure hm, hspelled⟩, _ :: ts, eof, rfl, heof, ?_⟩
    exact List.forall_mem_cons.mpr ⟨measure_ne_eof hm, hts⟩

/-- The tokens of a text have their texts. -/
theorem text_of_scan {source : String} {ts : List Token} (h : scan source = .ok ts) :
    Token.Text ts :=
  text_of_scanFrom h

/-! ## Positions -/

end Token

namespace Position

variable {p q r : Position}

theorem before_iff : p.before q = true ↔
    p.line < q.line ∨ (p.line = q.line ∧ p.column < q.column) := by
  simp only [before, Bool.or_eq_true, Bool.and_eq_true, decide_eq_true_eq, beq_iff_eq]

theorem not_before : p.before q = false ↔
    q.line < p.line ∨ (q.line = p.line ∧ q.column ≤ p.column) := by
  rw [← Bool.not_eq_true, before_iff]
  omega

theorem not_before_trans (hpq : q.before p = false) (hqr : r.before q = false) :
    r.before p = false := by
  rw [not_before] at *
  omega

theorem before_of_before (hpq : p.before q = true) (hqr : r.before q = false) :
    p.before r = true := by
  rw [not_before] at hqr
  rw [before_iff] at *
  omega

theorem not_before_self (p : Position) : p.before p = false := by
  rw [not_before]
  omega

theorem before_advance (p : Position) (c : Char) : p.before (p.advance c) = true := by
  rw [before_iff, advance]
  split
  · exact .inl (Nat.lt_succ_self _)
  · exact .inr ⟨rfl, Nat.lt_succ_self _⟩

theorem not_before_of_before (h : p.before q = true) : q.before p = false := by
  rw [before_iff] at h
  rw [not_before]
  omega

theorem after_not_before (p : Position) (cs : List Char) : (p.after cs).before p = false := by
  induction cs generalizing p with
  | nil => exact not_before_self p
  | cons c cs ih => exact not_before_trans (not_before_of_before (before_advance p c)) (ih _)

end Position

namespace Token

theorem skipGap_not_before (inComment : Bool) (cs : List Char) (p : Position) :
    (skipGap inComment cs p).2.before p = false := by
  induction cs generalizing inComment p with
  | nil => exact Position.not_before_self p
  | cons c cs ih =>
    have hnext : ∀ b, (skipGap b cs (p.advance c)).2.before p = false := fun b =>
      Position.not_before_trans (Position.not_before_of_before (Position.before_advance p c))
        (ih b _)
    unfold skipGap
    split
    · split
      · exact Position.not_before_self p
      · exact hnext _
    · split
      · exact hnext _
      · split
        · exact hnext _
        · exact Position.not_before_self p

/-- Each token begins before the next one. -/
def Ordered (ts : List Token) : Prop := ts.Pairwise fun t u => t.position.before u.position = true

theorem ordered_of_scanFrom {ts : List Token} (h : scanFrom cs p = .ok ts) :
    (∀ t ∈ ts, t.position.before p = false) ∧ Ordered ts := by
  fun_induction scanFrom cs p generalizing ts with
  | case1 cs p q hq =>
    cases h
    have hgap := skipGap_not_before false cs p
    rw [hq] at hgap
    exact ⟨List.forall_mem_singleton.mpr hgap, List.pairwise_singleton _ _⟩
  | case2 cs p c rest q hq ih =>
    obtain ⟨⟨kind, n⟩, hm, h⟩ := bind_eq_ok.mp h
    obtain ⟨tail, htail, h⟩ := bind_eq_ok.mp h
    cases h
    have hgap := skipGap_not_before false cs p
    rw [hq] at hgap
    obtain ⟨hafter, hordered⟩ := ih _ htail
    have hbefore : ∀ t ∈ tail, q.before t.position = true := fun t ht =>
      Position.before_of_before (Position.before_advance q c)
        (Position.not_before_trans (Position.after_not_before _ (rest.take n)) (hafter t ht))
    refine ⟨List.forall_mem_cons.mpr ⟨hgap, fun t ht => ?_⟩,
      List.pairwise_cons.mpr ⟨hbefore, hordered⟩⟩
    exact Position.not_before_trans hgap (Position.not_before_of_before (hbefore t ht))

theorem ordered_of_scan {source : String} {ts : List Token} (h : scan source = .ok ts) :
    Ordered ts :=
  (ordered_of_scanFrom h).2

/-- Tokens in order have positions of their own. -/
theorem Ordered.nodup {ts : List Token} (h : Ordered ts) : (ts.map Token.position).Nodup := by
  rw [List.Nodup, List.pairwise_map]
  refine h.imp fun hbefore heq => ?_
  rw [heq, Position.not_before_self] at hbefore
  cases hbefore

end Token

end CMinusMinus
