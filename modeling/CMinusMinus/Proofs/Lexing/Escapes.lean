import CMinusMinus.Proofs.Lexing.Scanning

/-!
# Unknown escapes

The scanner refuses a text for the character after a backslash exactly if lexemes with gaps between
them lead to a string literal that a backslash stands in before a character that it does not escape
(`Token.scan_eq_unknownEscape_iff`).  This may be any character, and at the end of the text NUL
stands for the one that is missing.

What the other refusals name is a run of digits or a letter (`Token.sound_of_refused`), and the text
of a token has neither line ends nor NUL (`Token.unbroken_of_scan`).
-/

namespace CMinusMinus

/-- Neither a line end nor NUL. -/
def Text.Unbroken (cs : List Char) : Prop := ∀ c ∈ cs, c ≠ '\n' ∧ c ≠ Token.nul

theorem Text.unbroken_ofList {cs : List Char}
    (h : (cs.all fun c => c != '\n' && c != Token.nul) = true) :
    Unbroken (String.ofList cs).toList := by
  rw [String.toList_ofList]
  intro c hc
  simpa using List.all_eq_true.mp h c hc

theorem Text.Unbroken.no_lineEnd {cs : List Char} (h : Unbroken cs) : '\n' ∉ cs :=
  fun hmem => (h _ hmem).1 rfl

theorem Text.Unbroken.append {cs ds : List Char} (hcs : Unbroken cs) (hds : Unbroken ds) :
    Unbroken (cs ++ ds) :=
  List.forall_mem_append.mpr ⟨hcs, hds⟩

/-- What a refusal names is of its sort: digits of a numeral, a letter or an underscore after one, a
character that is not escaped. -/
def LexCause.Sound : LexCause → Prop
  | .numeralRange digits => ∀ c ∈ digits.toList, Text.isDigit c = true
  | .nameAfterNumeral c => Token.beginsName c = true
  | .unknownEscape c => Token.isEscapable c = false
  | .unterminatedString | .unexpected _ => True

theorem map_eq_error {ε α β : Type} {x : Except ε α} {f : α → β} {e : ε}
    (h : f <$> x = .error e) : x = .error e := by
  cases x with
  | error => exact congrArg _ (Except.error.inj h)
  | ok => cases h

namespace Token

variable {c d : Char} {cs gap rest : List Char} {p q : Position} {e : LexError}

/-! ## String literals -/

/-- A string literal is given up at the first backslash before what it does not escape. -/
theorem closeString_eq_unknownEscape_iff {start : Position} :
    closeString start cs p = .error ⟨.unknownEscape c, q⟩ ↔
      ∃ body rest, StringBody body ∧ cs = body ++ '\\' :: rest ∧ rest.headD nul = c ∧
        isEscapable c = false ∧ q = p.after (body ++ ['\\']) := by
  constructor
  · intro h
    fun_induction closeString start cs p with
    | case1 => cases h
    | case2 p =>
      cases h
      exact ⟨[], [], .nil, rfl, rfl, rfl, rfl⟩
    | case3 d cs p hd ih =>
      obtain ⟨body, rest, hbody, rfl, hc, hescapable, rfl⟩ := ih (map_eq_error h)
      exact ⟨'\\' :: d :: body, rest, .escape (by simpa [isEscapable] using hd) hbody, rfl, hc,
        hescapable, rfl⟩
    | case4 _ cs p hd =>
      cases h
      exact ⟨[], _ :: cs, .nil, rfl, rfl, by simpa using hd, rfl⟩
    | case5 => cases h
    | case6 => cases h
    | case7 d cs p hlast hescape hquote hend ih =>
      obtain ⟨body, rest, hbody, rfl, hc, hescapable, rfl⟩ := ih (map_eq_error h)
      have hend : d ≠ '\n' ∧ d ≠ nul := by
        simpa using hend
      have hbackslash : d ≠ '\\' := by
        rintro rfl
        cases body with
        | nil => exact hescape _ _ rfl rfl
        | cons d body => exact hescape _ _ rfl rfl
      exact ⟨d :: body, rest, .plain hquote hbackslash hend.1 hend.2 hbody, rfl, hc, hescapable,
        rfl⟩
  · rintro ⟨body, rest, hbody, rfl, hc, hescapable, rfl⟩
    induction hbody generalizing p with
    | nil =>
      cases rest with
      | nil =>
        cases hc
        rfl
      | cons d rest =>
        obtain rfl : d = c := hc
        rw [List.nil_append, closeString, if_neg (by rw [hescapable]; exact Bool.false_ne_true)]
        rfl
    | @plain d cs hquote hbackslash hline hnul _ ih =>
      rw [List.cons_append, closeString, if_neg hquote, if_neg (by simpa using ⟨hline, hnul⟩), ih]
      · rfl
      · exact fun h => absurd h hbackslash
      · exact fun _ _ h => absurd h hbackslash
    | @escape d cs hd _ ih =>
      have hd : isEscapable d = true := by
        simpa [isEscapable] using hd
      rw [List.cons_append, List.cons_append, closeString, if_pos hd, ih]
      rfl

/-- A string literal is given up where it does not end or at what is not escaped. -/
theorem closeString_error {start : Position} (h : closeString start cs p = .error e) :
    e.cause = .unterminatedString ∨ ∃ c, e.cause = .unknownEscape c ∧ isEscapable c = false := by
  obtain ⟨cause, q⟩ := e
  fun_induction closeString start cs p with
  | case1 =>
    cases h
    exact .inl rfl
  | case2 =>
    cases h
    exact .inr ⟨nul, rfl, rfl⟩
  | case3 _ _ _ _ ih => exact ih (map_eq_error h)
  | case4 c cs p hc =>
    cases h
    exact .inr ⟨c, rfl, by simpa using hc⟩
  | case5 => cases h
  | case6 =>
    cases h
    exact .inl rfl
  | case7 _ _ _ _ _ _ _ ih => exact ih (map_eq_error h)

theorem measure_eq_unknownEscape_iff :
    measure d cs p = .error (.refused ⟨.unknownEscape c, q⟩) ↔
      d = '"' ∧ closeString p cs (p.advance '"') = .error ⟨.unknownEscape c, q⟩ := by
  unfold measure
  split
  · next h => exact ⟨fun h => (by cases h), by rintro ⟨rfl, -⟩; exact absurd h (by decide)⟩
  split
  · next h =>
    refine ⟨fun h => ?_, by rintro ⟨rfl, -⟩; exact absurd h (by decide)⟩
    dsimp only at h
    unfold checkNumeral at h
    split at h
    · cases h
    · split at h
      · cases h
      · split at h <;> cases h
  split
  · next hquote =>
    subst hquote
    split
    · next hclose => simp [hclose]
    · next e hclose => simp [hclose]
  · next hquote =>
    refine ⟨fun h => ?_, fun h => absurd h.1 hquote⟩
    split at h <;> cases h

/-- After lexemes with gaps between them the text goes on with a string literal, in which a
backslash stands before a character that it does not escape.  At the end of the text this is NUL. -/
def Misescapes (source : String) (c : Char) : Prop :=
  ∃ ts gap body rest, Lexed [] source.toList ts (gap ++ '"' :: (body ++ '\\' :: rest)) ∧
    Gap gap ('"' :: (body ++ '\\' :: rest)) ∧ StringBody body ∧ rest.headD nul = c ∧
    isEscapable c = false

/-- A text is refused for an unknown escape exactly if it has one after lexemes. -/
theorem scan_eq_unknownEscape_iff {source : String} :
    (∃ p, scan source = .error (.refused ⟨.unknownEscape c, p⟩)) ↔ Misescapes source c := by
  constructor
  · rintro ⟨p, hscan⟩
    obtain ⟨ts, read, cs, hread, hlexed, hgap | ⟨e, gap, d, rest, hrefused⟩⟩ :=
      exists_lexed [] source.toList
    · rw [scan_of_lexed hlexed hgap] at hscan
      cases hscan
    · rw [scan_of_refused hread hlexed hrefused] at hscan
      cases hscan
      obtain ⟨rfl, hclose⟩ := measure_eq_unknownEscape_iff.mp hrefused.measure
      obtain ⟨body, rest, hbody, rfl, hc, hescapable, -⟩ :=
        closeString_eq_unknownEscape_iff.mp hclose
      rw [hrefused.text] at hlexed
      exact ⟨ts, gap, body, rest, hlexed, hrefused.separated (by decide), hbody, hc, hescapable⟩
  · rintro ⟨ts, gap, body, rest, hlexed, hgap, hbody, hc, hescapable⟩
    obtain ⟨read, hread, -⟩ := scanFrom_of_lexed hlexed
    have hends : EndsGap ('"' :: (body ++ '\\' :: rest)) := by
      rintro _ _ ⟨⟩
      exact ⟨by decide, by rw [opensComment]; rfl⟩
    have hclose : closeString (.following (read ++ gap)) (body ++ '\\' :: rest)
        ((Position.following (read ++ gap)).advance '"') = .error ⟨.unknownEscape c, _⟩ :=
      closeString_eq_unknownEscape_iff.mpr ⟨body, rest, hbody, rfl, hc, hescapable, rfl⟩
    refine ⟨_, scan_of_refused hread hlexed ⟨rfl, fun _ => hgap, ?_,
      measure_eq_unknownEscape_iff.mpr ⟨rfl, hclose⟩⟩⟩
    rw [Position.following_append]
    exact hgap.skip hends _

/-! ## Other refusals -/

theorem sound_of_measure (h : measure c cs p = .error (.refused e)) : e.cause.Sound := by
  unfold measure at h
  split at h
  · cases h
  split at h
  · next hc =>
    dsimp only at h
    unfold checkNumeral at h
    split at h
    · next d hd =>
      cases h
      exact (Option.filter_eq_some_iff.mp hd).2
    · split at h
      · cases h
      · split at h
        · cases h
        · cases h
          rw [LexCause.Sound, String.toList_ofList]
          exact List.forall_mem_cons.mpr ⟨hc, List.all_eq_true.mp List.all_takeWhile⟩
  split at h
  · split at h
    · cases h
    · next hclose =>
      cases h
      rcases closeString_error hclose with hcause | ⟨d, hcause, hd⟩
      · rw [hcause]
        trivial
      · rw [hcause]
        exact hd
  · split at h
    · cases h
    · cases h
      trivial

/-- What the scanner refuses a text for is of its sort. -/
theorem sound_of_refused {source : String} (h : scan source = .error (.refused e)) :
    e.cause.Sound := by
  obtain ⟨ts, read, cs, hread, hlexed, hgap | ⟨e', gap, d, rest, hrefused⟩⟩ :=
    exists_lexed [] source.toList
  · rw [scan_of_lexed hlexed hgap] at h
    cases h
  · rw [scan_of_refused hread hlexed hrefused] at h
    cases h
    exact sound_of_measure hrefused.measure

/-! ## Texts of tokens -/

theorem unbroken_of_test {test : Char → Bool} (hline : test '\n' = false) (hnul : test nul = false)
    (h : ∀ c ∈ cs, test c = true) : Text.Unbroken cs :=
  fun c hc => ⟨ne_of_test (h c hc) hline, ne_of_test (h c hc) hnul⟩

theorem IsWord.unbroken (h : IsWord cs) : Text.Unbroken cs := by
  obtain ⟨c, ds, rfl, hc, hds⟩ := h
  exact List.forall_mem_cons.mpr ⟨⟨ne_of_test hc (by decide), ne_of_test hc (by decide)⟩,
    unbroken_of_test (by decide) (by decide) hds⟩

theorem IsDigits.unbroken (h : IsDigits cs) : Text.Unbroken cs :=
  unbroken_of_test (by decide) (by decide) h.2

theorem StringBody.unbroken (h : StringBody cs) : Text.Unbroken cs := by
  induction h with
  | nil => exact List.forall_mem_nil _
  | plain _ _ hline hnul _ ih => exact List.forall_mem_cons.mpr ⟨⟨hline, hnul⟩, ih⟩
  | @escape c cs hc _ ih =>
    have hescapable : isEscapable c = true := by
      simpa [isEscapable] using hc
    exact List.forall_mem_cons.mpr ⟨by decide, List.forall_mem_cons.mpr
      ⟨⟨ne_of_test hescapable (by decide), ne_of_test hescapable (by decide)⟩, ih⟩⟩

theorem Lexeme.unbroken {kind : TokenKind} {lexeme : List Char} (h : Lexeme kind lexeme rest) :
    Text.Unbroken lexeme := by
  cases h with
  | keyword hlongest | name hlongest => exact hlongest.is.unbroken
  | numeral hlongest => exact hlongest.is.unbroken
  | string hlongest =>
    obtain ⟨body, hbody, rfl⟩ := hlongest.is
    exact List.forall_mem_cons.mpr
      ⟨by decide, hbody.unbroken.append (List.forall_mem_singleton.mpr (by decide))⟩
  | @mark m =>
    have hmarks : '\n' ∉ m.spelling ∧ nul ∉ m.spelling := by
      cases m <;> decide
    exact fun c hc => ⟨fun h => hmarks.1 (h ▸ hc), fun h => hmarks.2 (h ▸ hc)⟩

/-- The text of a token has neither line ends nor NUL. -/
theorem unbroken_of_scan {source : String} {tokens : List Token} (h : scan source = .ok tokens) :
    ∀ t ∈ tokens, Text.Unbroken t.text.toList := by
  obtain ⟨ts, gap, hlexed, -, rfl⟩ := lexed_of_scan h
  intro t ht
  rcases List.mem_append.mp ht with ht | ht
  · obtain ⟨rest, hlexeme⟩ := hlexed.lexeme_of_mem t ht
    have hunbroken := hlexeme.unbroken
    rw [Token.lexeme] at hunbroken
    split at hunbroken
    · exact fun c hc =>
        hunbroken c (List.mem_append_left _ (List.mem_cons_of_mem _ hc))
    · exact hunbroken
  · rw [List.mem_singleton.mp ht]
    exact List.forall_mem_nil _

end Token

end CMinusMinus
