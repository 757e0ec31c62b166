import CMinusMinus.Token.Scan

/-!
# Lexemes and gaps

What the tokens of a text are, told of the characters alone.  A text is gaps and lexemes in turn
(`Token.Lexed`): a gap is blanks and comments, and a lexeme is the longest of its sort that stands
where the gap ends.  The position of a token counts the lines before it and the characters of its
own line.

A word ends where a character follows that goes on with no word, and a run of digits likewise
(`Token.longest_run_iff`); a string literal always ends at its first quote that is not escaped
(`Token.StringBody.unique`), and a mark ends where it is the beginning of no longer one.
-/

namespace CMinusMinus

/-! ## Positions -/

/-- The place after a text: one plus the number of its line ends, and one plus the number of
characters since the last of them. -/
def Position.following (before : List Char) : Position :=
  ⟨1 + before.count '\n', 1 + (before.reverse.takeWhile (· != '\n')).length⟩

theorem Position.following_concat (before : List Char) (c : Char) :
    following (before ++ [c]) = (following before).advance c := by
  rw [following, List.count_append, List.reverse_append, advance]
  by_cases hc : c = '\n'
  · subst hc
    simp [following]
    omega
  · have hcount : [c].count '\n' = 0 := List.count_eq_zero.mpr (by simp [Ne.symm hc])
    rw [if_neg hc, hcount]
    simp [following, hc]
    omega

theorem Position.following_append (before cs : List Char) :
    following (before ++ cs) = (following before).after cs := by
  induction cs generalizing before with
  | nil => rw [List.append_nil, after_nil]
  | cons c cs ih => rw [List.append_cons, ih, following_concat, after_cons]

namespace Token

/-! ## Gaps -/

/-- Nothing is left of the line. -/
def LineEnds (cs : List Char) : Prop := ∀ c, cs.head? = some c → c = '\n'

/-- Blanks and comments before the given rest of the text.  A comment goes on to the end of its
line. -/
inductive Gap : List Char → List Char → Prop where
  | nil {rest : List Char} : Gap [] rest
  | blank {c : Char} {gap rest : List Char} :
    c ∈ [' ', '\t', '\r', '\n'] → Gap gap rest → Gap (c :: gap) rest
  | comment {opening body gap rest : List Char} :
    opening ∈ [['#'], ['/', '/']] → (∀ c ∈ body, c ≠ '\n' ∧ c ≠ nul) → LineEnds (gap ++ rest) →
    Gap gap rest → Gap (opening ++ body ++ gap) rest

/-! ## Lexemes -/

/-- A letter or an underscore, and letters, digits, numbers and underscores. -/
def IsWord (cs : List Char) : Prop :=
  ∃ c ds, cs = c :: ds ∧ beginsName c = true ∧ ∀ d ∈ ds, continuesName d = true

/-- Digits, at least one. -/
def IsDigits (cs : List Char) : Prop := cs ≠ [] ∧ ∀ c ∈ cs, Text.isDigit c = true

/-- What may stand between the quotes of a string literal: a backslash only before a character
that it escapes, a quote only after a backslash, and no line end. -/
inductive StringBody : List Char → Prop where
  | nil : StringBody []
  | plain {c : Char} {cs : List Char} :
    c ≠ '"' → c ≠ '\\' → c ≠ '\n' → c ≠ nul → StringBody cs → StringBody (c :: cs)
  | escape {c : Char} {cs : List Char} :
    c ∈ ['n', 't', '\'', '"', '?', '\\'] → StringBody cs → StringBody ('\\' :: c :: cs)

/-- The body of a string literal in its quotes. -/
def IsQuoted (cs : List Char) : Prop := ∃ body, StringBody body ∧ cs = '"' :: body ++ ['"']

/-- The spelling of a mark. -/
def IsMark (cs : List Char) : Prop := ∃ m : Mark, cs = m.spelling

/-- The lexeme is of the sort, and no longer one stands at its place. -/
structure Longest (sort : List Char → Prop) (lexeme rest : List Char) : Prop where
  is : sort lexeme
  longest : ∀ cs, sort cs → cs <+: lexeme ++ rest → cs.length ≤ lexeme.length

/-- The lexeme of a token of the kind, before the given rest of the text.  A word is a keyword if
it is spelled like one, a numeral runs into no name and can be read as an integer, and a comment
comes before division. -/
inductive Lexeme : TokenKind → List Char → List Char → Prop where
  | keyword {k : Keyword} {rest : List Char} :
    Longest IsWord k.text.toList rest → Lexeme (.keyword k) k.text.toList rest
  | name {lexeme rest : List Char} :
    Longest IsWord lexeme rest → (∀ k : Keyword, lexeme ≠ k.text.toList) →
    Lexeme .name lexeme rest
  | numeral {lexeme rest : List Char} {value : Nat} :
    Longest IsDigits lexeme rest → (∀ c, rest.head? = some c → beginsName c = false) →
    lexeme.length ≤ Text.maxDigits → Text.decimal? lexeme = some value → value ≤ intMax →
    Lexeme .numeral lexeme rest
  | string {lexeme rest : List Char} : Longest IsQuoted lexeme rest → Lexeme .string lexeme rest
  | mark {m : Mark} {rest : List Char} :
    Longest IsMark m.spelling rest → (m = .divide → rest.head? ≠ some '/') →
    Lexeme (.mark m) m.spelling rest

/-- The characters of a token in its text: those of a string literal stand in quotes. -/
def lexeme (t : Token) : List Char :=
  if t.kind = .string then '"' :: t.text.toList ++ ['"'] else t.text.toList

/-- The end of a text, as a token. -/
def ending (source : List Char) : Token :=
  let p := Position.following source
  ⟨.eof, "", p.line, p.column⟩

/-- The text that comes after `before` begins with gaps and the lexemes of the tokens in turn, and
goes on as given. -/
inductive Lexed : List Char → List Char → List Token → List Char → Prop where
  | nil {before rest : List Char} : Lexed before rest [] rest
  | cons {before gap rest rest' : List Char} {t : Token} {ts : List Token} :
    Gap gap (t.lexeme ++ rest) → t.position = Position.following (before ++ gap) →
    Lexeme t.kind t.lexeme rest → Lexed (before ++ gap ++ t.lexeme) rest ts rest' →
    Lexed before (gap ++ t.lexeme ++ rest) (t :: ts) rest'

/-! ## Where lexemes end -/

variable {lexeme rest : List Char}

/-- A run that begins with one of some characters and goes on with others is the longest at its
place exactly if no character follows that it could go on with. -/
theorem longest_run_iff {begins continues : Char → Bool} {c : Char} {cs : List Char}
    (hc : begins c = true) (hcs : ∀ d ∈ cs, continues d = true) :
    Longest (fun w => ∃ c cs, w = c :: cs ∧ begins c = true ∧ ∀ d ∈ cs, continues d = true)
        (c :: cs) rest ↔
      ∀ d, rest.head? = some d → continues d = false := by
  constructor
  · intro h d hd
    obtain ⟨rest', rfl⟩ := List.head?_eq_some_iff.mp hd
    cases hcontinues : continues d with
    | false => rfl
    | true =>
      have hlength := h.longest (c :: cs ++ [d])
        ⟨c, cs ++ [d], rfl, hc, by simpa [or_imp, forall_and] using ⟨hcs, hcontinues⟩⟩
        ⟨rest', by simp⟩
      simp only [List.length_append, List.length_cons, List.length_nil] at hlength
      omega
  · refine fun h => ⟨⟨c, cs, rfl, hc, hcs⟩, ?_⟩
    rintro _ ⟨c', cs', rfl, -, hcs'⟩ ⟨tail, htail⟩
    simp only [List.cons_append, List.cons.injEq] at htail
    refine Nat.succ_le_succ (Nat.le_of_not_lt fun hlength => ?_)
    have hget : (cs' ++ tail)[cs.length]? = rest.head? := by
      rw [htail.2, List.getElem?_append_right (Nat.le_refl _), Nat.sub_self, List.head?_eq_getElem?]
    rw [List.getElem?_append_left hlength, List.getElem?_eq_getElem hlength] at hget
    have hcontinues := hcs' _ (List.getElem_mem hlength)
    rw [h _ hget.symm] at hcontinues
    cases hcontinues

theorem longest_isWord_iff (hword : IsWord lexeme) :
    Longest IsWord lexeme rest ↔ ∀ d, rest.head? = some d → continuesName d = false := by
  obtain ⟨c, cs, rfl, hc, hcs⟩ := hword
  exact longest_run_iff hc hcs

theorem isDigits_iff {cs : List Char} :
    IsDigits cs ↔
      ∃ c ds, cs = c :: ds ∧ Text.isDigit c = true ∧ ∀ d ∈ ds, Text.isDigit d = true := by
  constructor
  · rintro ⟨hne, hcs⟩
    obtain ⟨c, ds, rfl⟩ := List.exists_cons_of_ne_nil hne
    exact ⟨c, ds, rfl, List.forall_mem_cons.mp hcs⟩
  · rintro ⟨c, ds, rfl, hcs⟩
    exact ⟨List.cons_ne_nil _ _, List.forall_mem_cons.mpr hcs⟩

theorem longest_isDigits_iff (hdigits : IsDigits lexeme) :
    Longest IsDigits lexeme rest ↔ ∀ d, rest.head? = some d → Text.isDigit d = false := by
  have hsort : IsDigits = fun cs => ∃ c ds, cs = c :: ds ∧ Text.isDigit c = true ∧
      ∀ d ∈ ds, Text.isDigit d = true := funext fun cs => propext isDigits_iff
  obtain ⟨c, cs, rfl, hc, hcs⟩ := isDigits_iff.mp hdigits
  rw [hsort]
  exact longest_run_iff hc hcs

/-- Only one body of a string literal stands at a place. -/
theorem StringBody.unique {body body' rest rest' : List Char} (h : StringBody body)
    (h' : StringBody body') (heq : body ++ '"' :: rest = body' ++ '"' :: rest') :
    body = body' := by
  induction h generalizing body' with
  | nil =>
    cases h' with
    | nil => rfl
    | plain hquote => exact absurd (List.cons.inj heq).1.symm hquote
    | escape => exact absurd (List.cons.inj heq).1 (by decide)
  | plain hquote hbackslash _ _ _ ih =>
    cases h' with
    | nil => exact absurd (List.cons.inj heq).1 hquote
    | plain _ _ _ _ h' =>
      simp only [List.cons_append, List.cons.injEq] at heq
      rw [heq.1, ih h' heq.2]
    | escape => exact absurd (List.cons.inj heq).1 hbackslash
  | escape _ _ ih =>
    cases h' with
    | nil => exact absurd (List.cons.inj heq).1 (by decide)
    | plain _ hbackslash => exact absurd (List.cons.inj heq).1.symm hbackslash
    | escape _ h' =>
      simp only [List.cons_append, List.cons.injEq] at heq
      rw [heq.2.1, ih h' heq.2.2]

theorem longest_isQuoted (h : IsQuoted lexeme) (rest : List Char) :
    Longest IsQuoted lexeme rest := by
  refine ⟨h, ?_⟩
  obtain ⟨body, hbody, rfl⟩ := h
  rintro _ ⟨body', hbody', rfl⟩ ⟨tail, htail⟩
  have heq : body' ++ '"' :: tail = body ++ '"' :: rest := by
    simpa using htail
  obtain rfl := hbody'.unique hbody heq
  exact Nat.le_refl _

end Token

end CMinusMinus
