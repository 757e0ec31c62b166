import CMinusMinus.Proofs.Printing
import CMinusMinus.Proofs.Spans.Reading
import Mathlib

/-!
# Lexemes with other gaps between them

The words of a text do not depend on the gaps between its lexemes, as long as every gap begins with
a blank (`Token.scan_joined`).  A lexeme that stands somewhere in a text also stands before any
blank: a blank goes on with no word, numeral or mark, and a string literal ends at its quote
(`Token.Lexeme.beforeBlank`).  What comes after the blank may be blanks and comments, because these
are a gap whatever follows them (`Token.Filler.isGap`).
-/

namespace CMinusMinus

namespace Token

variable {before cs gap lexeme rest rest' : List Char} {kind : TokenKind} {c : Char}

/-! ## Before a blank -/

/-- The text is at its end or goes on with a blank. -/
def BlankNext (rest : List Char) : Prop := ∀ c, rest.head? = some c → c ∈ [' ', '\t', '\r', '\n']

theorem blankNext_nil : BlankNext [] := by
  rintro c ⟨⟩

theorem blankNext_cons (hc : c ∈ [' ', '\t', '\r', '\n']) (cs : List Char) :
    BlankNext (c :: cs) := by
  rintro _ ⟨⟩
  exact hc

theorem forall_blank {p : Char → Prop} (h : p ' ' ∧ p '\t' ∧ p '\r' ∧ p '\n') :
    ∀ c ∈ [' ', '\t', '\r', '\n'], p c :=
  List.forall_mem_cons.mpr ⟨h.1, List.forall_mem_cons.mpr ⟨h.2.1, List.forall_mem_cons.mpr
    ⟨h.2.2.1, List.forall_mem_singleton.mpr h.2.2.2⟩⟩⟩

theorem BlankNext.wordEnds (h : BlankNext rest) : WordEnds rest :=
  fun c hc => forall_blank (p := (continuesName · = false)) ⟨rfl, rfl, rfl, rfl⟩ c (h c hc)

/-- No mark goes on with a blank. -/
theorem BlankNext.grows (h : BlankNext rest) (m : Mark) :
    ∀ c, rest.head? = some c → Token.grows m c = false := by
  have hblanks : Token.grows m ' ' = false ∧ Token.grows m '\t' = false ∧
      Token.grows m '\r' = false ∧ Token.grows m '\n' = false := by
    cases m <;> exact ⟨rfl, rfl, rfl, rfl⟩
  exact fun c hc => forall_blank (p := (Token.grows m · = false)) hblanks c (h c hc)

/-- What is a lexeme before some text is one before a blank and at the end of a text. -/
theorem Lexeme.beforeBlank (h : Lexeme kind lexeme rest) (hrest : BlankNext rest') :
    Lexeme kind lexeme rest' := by
  have hends : WordEnds rest' := hrest.wordEnds
  cases h with
  | keyword hlongest => exact lexeme_keyword _ hends
  | name hlongest hkeyword => exact .name ((longest_isWord_iff hlongest.is).mpr hends) hkeyword
  | numeral hlongest _ hlength hvalue hmax =>
    exact .numeral
      ((longest_isDigits_iff hlongest.is).mpr (hends.of_test continuesName_of_isDigit))
      (hends.of_test continuesName_of_beginsName) hlength hvalue hmax
  | string hlongest => exact .string (longest_isQuoted hlongest.is rest')
  | mark => exact lexeme_mark (hrest.grows _)

/-! ## Separators -/

/-- Blanks and complete comments: a comment comes with the line end that closes it. -/
inductive Filler : List Char → Prop where
  | nil : Filler []
  | blank {c : Char} {cs : List Char} : c ∈ [' ', '\t', '\r', '\n'] → Filler cs → Filler (c :: cs)
  | comment {opening body cs : List Char} :
    opening ∈ [['#'], ['/', '/']] → (∀ c ∈ body, c ≠ '\n' ∧ c ≠ nul) → Filler cs →
    Filler (opening ++ body ++ '\n' :: cs)

/-- A blank, and then blanks and complete comments. -/
inductive Separator : List Char → Prop where
  | mk {c : Char} {cs : List Char} : c ∈ [' ', '\t', '\r', '\n'] → Filler cs → Separator (c :: cs)

theorem Filler.isGap (h : Filler gap) (rest : List Char) : Gap gap rest := by
  induction h with
  | nil => exact .nil
  | blank hc _ ih => exact .blank hc ih
  | comment hopening hbody _ ih =>
    refine .comment hopening hbody ?_ (.blank (by decide) ih)
    rintro _ ⟨⟩
    rfl

theorem Separator.filler (h : Separator gap) : Filler gap := by
  cases h with
  | mk hc hfiller => exact .blank hc hfiller

theorem Separator.blankNext (h : Separator gap) (rest : List Char) : BlankNext (gap ++ rest) := by
  cases h with
  | mk hc => exact blankNext_cons hc _

theorem separator_space : Separator [' '] := .mk (by decide) .nil

/-! ## Joined lexemes -/

/-- The lexemes of the tokens, joined by separators. -/
inductive Joined : List Token → List Char → Prop where
  | nil : Joined [] []
  | last (t : Token) : Joined [t] t.lexeme
  | cons {t u : Token} {us : List Token} {separator cs : List Char} :
    Separator separator → Joined (u :: us) cs → Joined (t :: u :: us) (t.lexeme ++ separator ++ cs)

/-- One separator may stand at all places. -/
theorem joined_intercalate {separator : List Char} (h : Separator separator) (ts : List Token) :
    Joined ts (separator.intercalate (ts.map Token.lexeme)) := by
  induction ts with
  | nil => exact .nil
  | cons t ts ih =>
    cases ts with
    | nil =>
      rw [List.map_singleton, List.intercalate_singleton]
      exact .last t
    | cons u us =>
      rw [List.map_cons, List.map_cons, List.intercalate_cons_cons]
      exact .cons h ih

/-- Joined lexemes are cut into tokens of the same words, whether or not the end of the text is
joined to them. -/
theorem Joined.lexed {ts us : List Token} {e : Token} (he : e.lexeme = [])
    (hts : ∀ t ∈ ts, ∃ rest, Lexeme t.kind t.lexeme rest) (hus : us = ts ++ [e] ∨ us = ts)
    (h : Joined us cs) (hgap : Filler gap) (before : List Char) :
    ∃ ts' gap', Lexed before (gap ++ cs) ts' gap' ∧ Gap gap' [] ∧
      ts'.map word = ts.map word := by
  induction ts generalizing us cs gap before with
  | nil =>
    obtain rfl : cs = [] := by
      rcases hus with rfl | rfl
      · cases h
        exact he
      · cases h
        rfl
    rw [List.append_nil]
    exact ⟨[], gap, .nil, hgap.isGap [], rfl⟩
  | cons t ts ih =>
    obtain ⟨⟨rest, ht⟩, hts⟩ := List.forall_mem_cons.mp hts
    have hword : ∀ p : Position,
        word ⟨t.kind, textOf t.kind t.lexeme, p.line, p.column⟩ = t.word :=
      fun _ => Prod.ext rfl (textOf_lexeme t)
    obtain ⟨us, rfl, htail⟩ : ∃ us', us = t :: us' ∧ (us' = ts ++ [e] ∨ us' = ts) := by
      rcases hus with rfl | rfl
      · exact ⟨_, rfl, .inl rfl⟩
      · exact ⟨_, rfl, .inr rfl⟩
    cases h with
    | last =>
      obtain rfl : ts = [] := by
        rcases htail with htail | htail
        · exact absurd htail.symm (List.append_ne_nil_of_right_ne_nil _ (List.cons_ne_nil _ _))
        · exact htail.symm
      have hlexed : Lexed before (gap ++ t.lexeme ++ []) [_] [] :=
        .token (hgap.isGap _) (ht.beforeBlank blankNext_nil) rfl .nil
      rw [List.append_nil] at hlexed
      exact ⟨_, [], hlexed, .nil, congrArg (fun w => [w]) (hword _)⟩
    | cons hseparator hjoined =>
      obtain ⟨ts', gap', hlexed, hgap', hwords⟩ :=
        ih hts htail hjoined hseparator.filler (before ++ gap ++ t.lexeme)
      have hlexed' :=
        Lexed.token (hgap.isGap _) (ht.beforeBlank (hseparator.blankNext _)) rfl hlexed
      rw [List.append_assoc gap, ← List.append_assoc t.lexeme] at hlexed'
      refine ⟨_, gap', hlexed', hgap', ?_⟩
      rw [List.map_cons, List.map_cons, hword, hwords]

/-- The lexemes of a text, joined by a space each or by any separators, are read as tokens of the
same words. -/
theorem scan_joined {source : String} {tokens us : List Token} (h : scan source = .ok tokens)
    (hus : us = tokens ∨ us = tokens.dropLast) :
    (∀ text : String, Joined us text.toList →
      ∃ ts, scan text = .ok ts ∧ ts.map word = tokens.map word) ∧
    ∃ ts, scan (" ".intercalate (us.map fun t => String.ofList t.lexeme)) = .ok ts ∧
      ts.map word = tokens.map word := by
  obtain ⟨ts, gap, hlexed, -, rfl⟩ := lexed_of_scan h
  rw [List.dropLast_concat] at hus
  have hany : ∀ text : String, Joined us text.toList →
      ∃ ts', scan text = .ok ts' ∧ ts'.map word = (ts ++ [ending source.toList]).map word := by
    intro text hjoined
    obtain ⟨ts', gap', hlexed', hgap', hwords⟩ :=
      hjoined.lexed rfl hlexed.lexeme_of_mem hus .nil []
    refine ⟨_, scan_of_lexed hlexed' hgap', ?_⟩
    rw [List.map_append, List.map_append, hwords]
    rfl
  refine ⟨hany, hany _ ?_⟩
  rw [String.toList_intercalate, List.map_map]
  simpa [Function.comp_def] using joined_intercalate separator_space us

/-- A string literal that holds the beginnings of comments, and a mark that is the beginning of a
longer one. -/
theorem scan_joined_of_comments :
    scan "x<=\"//#\";" = .ok [⟨.name, "x", 1, 1⟩, ⟨.mark .lessEq, "<=", 1, 2⟩,
      ⟨.string, "//#", 1, 4⟩, ⟨.mark .semi, ";", 1, 9⟩, ⟨.eof, "", 1, 10⟩] ∧
    ∃ ts, scan "x\t// not x < =\n<= \"//#\"\r\n;" = .ok ts ∧ ts.map word =
      [(.name, "x"), (.mark .lessEq, "<="), (.string, "//#"), (.mark .semi, ";"), (.eof, "")] := by
  have hscan : scan "x<=\"//#\";" = .ok [⟨.name, "x", 1, 1⟩, ⟨.mark .lessEq, "<=", 1, 2⟩,
      ⟨.string, "//#", 1, 4⟩, ⟨.mark .semi, ";", 1, 9⟩, ⟨.eof, "", 1, 10⟩] := by
    cbv
  have hbody : '\n' ∉ " not x < =".toList ∧ nul ∉ " not x < =".toList := by decide
  have hcomment : Separator "\t// not x < =\n".toList :=
    .mk (by decide) (@Filler.comment ['/', '/'] " not x < =".toList [] (by decide)
      (fun c hc => ⟨fun h => hbody.1 (h ▸ hc), fun h => hbody.2 (h ▸ hc)⟩) .nil)
  have hline : Separator "\r\n".toList := .mk (by decide) (.blank (by decide) .nil)
  exact ⟨hscan, (scan_joined hscan (.inr rfl)).1 _
    (.cons hcomment (.cons separator_space (.cons hline (.last _))))⟩

end Token

end CMinusMinus
