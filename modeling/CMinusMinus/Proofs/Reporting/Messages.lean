import CMinusMinus.Proofs.Lexing.Escapes
import CMinusMinus.Proofs.Places.Programs
import CMinusMinus.Proofs.Reporting.Names
import CMinusMinus.Proofs.Text

/-!
# Messages on one line

A message is words of its own and what it names: a token in quotes, the text of a token, a name,
digits or a letter.  None of these holds a line end or NUL (`Cause.unbroken_message`).  The one
exception is a character after a backslash: it stands in the message as it is, so that a message is
broken exactly if the text has a backslash before a line end or NUL in a string literal, or ends
there (`Compilation.unbroken_iff`).
-/

namespace CMinusMinus

open Text (Unbroken unbroken_ofList)

/-! ## What messages name -/

theorem Text.unbroken_quoted (s : String) : Unbroken (quoted s).toList := by
  have hbreaks : isPrintable '\n' = false ∧ isPrintable Token.nul = false := by decide
  intro c hc
  have hprintable := isPrintable_of_mem_quoted hc
  exact ⟨Token.ne_of_test hprintable hbreaks.1, Token.ne_of_test hprintable hbreaks.2⟩

theorem Token.unbroken_shown (t : Token) : Unbroken t.shown.toList := by
  unfold shown
  split
  · exact Text.unbroken_ofList rfl
  · exact Text.unbroken_quoted _

theorem IsName.unbroken {name : String} (h : IsName name) : Unbroken name.toList :=
  Token.IsWord.unbroken h.spelled

/-- Words around a text. -/
theorem Text.Unbroken.between {s t u : String} (hs : Unbroken s.toList) (ht : Unbroken t.toList)
    (hu : Unbroken u.toList) : Unbroken (s ++ t ++ u).toList := by
  rw [String.toList_append, String.toList_append]
  exact (hs.append ht).append hu

/-- Words before a text. -/
theorem Text.Unbroken.before {s t : String} (hs : Unbroken s.toList) (ht : Unbroken t.toList) :
    Unbroken (s ++ t).toList := by
  rw [String.toList_append]
  exact hs.append ht

/-! ## Messages -/

theorem Wanted.unbroken_message (w : Wanted) : Unbroken w.message.toList := by
  cases w with
  | conditionStart k =>
    have hk : Unbroken k.text.toList := by
      cases k <;> exact unbroken_ofList rfl
    exact .between (unbroken_ofList rfl) hk (unbroken_ofList rfl)
  | _ => exact unbroken_ofList rfl

theorem SyntaxError.unbroken_message {e : SyntaxError} (h : Unbroken e.token.text.toList) :
    Unbroken e.message.toList := by
  have hshown := e.token.unbroken_shown
  unfold message
  split
  · next wanted _ =>
    exact (wanted.unbroken_message.before (unbroken_ofList rfl)).between hshown
      (unbroken_ofList rfl)
  · exact .before (unbroken_ofList rfl) hshown
  · exact .between (unbroken_ofList rfl) hshown (unbroken_ofList rfl)
  · exact unbroken_ofList rfl
  · exact unbroken_ofList rfl
  · exact unbroken_ofList rfl
  · exact .between (unbroken_ofList rfl) h (unbroken_ofList rfl)
  · exact unbroken_ofList rfl
  · exact unbroken_ofList rfl
  · exact unbroken_ofList rfl
  · exact unbroken_ofList rfl
  · exact .before (unbroken_ofList rfl) hshown

theorem NameCause.Named.unbroken_message {c : NameCause} (h : c.Named) :
    Unbroken c.message.toList := by
  cases c with
  | voidVariable | notStruct => exact unbroken_ofList rfl
  | _ name => exact .between (unbroken_ofList rfl) (h _ rfl).unbroken (unbroken_ofList rfl)

theorem TypeCause.unbroken_message (c : TypeCause) : Unbroken c.message.toList := by
  cases c <;> exact unbroken_ofList rfl

/-- What a refusal names does not break its message, but for what stands after a backslash. -/
theorem LexCause.unbroken_message {c : LexCause} (hc : c.Sound)
    (hescape : ∀ d, c ≠ .unknownEscape d) : Unbroken c.message.toList := by
  cases c with
  | unterminatedString => exact unbroken_ofList rfl
  | unknownEscape d => exact absurd rfl (hescape d)
  | numeralRange digits =>
    have hdigits : Unbroken digits.toList := Token.unbroken_of_test (by decide) (by decide) hc
    exact .between (unbroken_ofList rfl) hdigits (unbroken_ofList rfl)
  | nameAfterNumeral d =>
    have hletter : Unbroken d.toString.toList := by
      rw [Char.toString, String.toList_singleton]
      exact Token.unbroken_of_test (by decide) (by decide) (List.forall_mem_singleton.mpr hc)
    exact .between (unbroken_ofList rfl) hletter (unbroken_ofList rfl)
  | unexpected d => exact .before (unbroken_ofList rfl) (Text.unbroken_quoted _)

theorem Text.Unbroken.notMem {cs : List Char} (h : Unbroken cs) {x : Char}
    (hx : x ∈ ['\n', Token.nul]) : x ∉ cs := by
  intro hmem
  rcases List.mem_pair.mp hx with rfl | rfl
  · exact (h _ hmem).1 rfl
  · exact (h _ hmem).2 rfl

theorem LexCause.mem_message_iff {c : LexCause} (hc : c.Sound) {x : Char}
    (hx : x ∈ ['\n', Token.nul]) : x ∈ c.message.toList ↔ c = .unknownEscape x := by
  cases c with
  | unknownEscape d =>
    have hwords : Unbroken "[LEX-0020] unknown escape sequence \\".toList := unbroken_ofList rfl
    have hlast : x ∈ d.toString.toList ↔ x = d := by
      rw [Char.toString, String.toList_singleton, List.mem_singleton]
    change x ∈ ("[LEX-0020] unknown escape sequence \\" ++ d.toString).toList ↔ _
    rw [String.toList_append, List.mem_append, or_iff_right (hwords.notMem hx), hlast]
    exact ⟨fun h => congrArg _ h.symm, fun h => (unknownEscape.inj h).symm⟩
  | _ => exact iff_of_false ((unbroken_message hc nofun).notMem hx) nofun

namespace Compilation

variable {file : Option String} {source : String} {c : Compilation}

/-- A text is answered with the one refusal of the scanner, or has tokens and then no message is
broken. -/
theorem messages_of_analyze (h : analyze file source = .ok c) :
    (∃ e, Token.scan source = .error (.refused e) ∧
      c.diagnostics = [Diagnostic.ofReport file ⟨.lexical e.cause, .ofPosition e.position⟩]) ∨
    ∃ (tokens : List Token) (rs : List Report), Token.scan source = .ok tokens ∧
      c.diagnostics = rs.map (Diagnostic.ofReport file) ∧
      ∀ r ∈ rs, Unbroken r.cause.message.toList := by
  cases hscan : Token.scan source with
  | error e =>
    have hparse : Program.parse file source = .error (.scan e) := by
      rw [Program.parse, hscan]
    cases e with
    | unreadable digits =>
      rw [analyze, hparse] at h
      cases h
    | refused e =>
      rw [analyze, hparse] at h
      cases h
      exact .inl ⟨e, rfl, rfl⟩
  | ok tokens =>
    refine .inr ⟨tokens, ?_⟩
    cases htokens : Program.ofTokens tokens with
    | error e =>
      have hparse : Program.parse file source = .error (.syntactic e) := by
        simp only [Program.parse, hscan, htokens]
      rw [analyze, hparse] at h
      cases h
      have htext := Token.unbroken_of_scan hscan _ (Program.mem_of_refused htokens)
      exact ⟨[⟨.syntactic e, .ofPosition e.token.position⟩], rfl, rfl,
        List.forall_mem_singleton.mpr (SyntaxError.unbroken_message htext)⟩
    | ok p =>
      have hparse : Program.parse file source = .ok { p with filename := file } := by
        simp only [Program.parse, hscan, htokens]
      obtain ⟨-, rfl⟩ := analysis_of_parse hparse h
      refine ⟨_, rfl, rfl, List.forall_mem_append.mpr ⟨fun r hr => ?_, fun r hr => ?_⟩⟩
      · obtain ⟨cause, hcause, hnamed⟩ := (Program.parse_formed hparse).named_reports r hr
        rw [hcause]
        exact hnamed.unbroken_message
      · obtain ⟨cause, hcause⟩ := Program.only_check _ _ r hr
        rw [hcause]
        exact cause.unbroken_message

/-- A message has a line end or NUL exactly if the text has it after a backslash in a string
literal. -/
theorem mem_message_iff (h : analyze file source = .ok c) {x : Char}
    (hx : x ∈ ['\n', Token.nul]) :
    (∃ d ∈ c.diagnostics, x ∈ d.message.toList) ↔ Token.Misescapes source x := by
  rw [← Token.scan_eq_unknownEscape_iff]
  rcases messages_of_analyze h with
    ⟨e, hscan, hdiagnostics⟩ | ⟨tokens, rs, hscan, hdiagnostics, hrs⟩
  · rw [hdiagnostics, hscan]
    have hmessage := LexCause.mem_message_iff (Token.sound_of_refused hscan) hx
    constructor
    · rintro ⟨d, hd, hmem⟩
      rw [List.mem_singleton.mp hd] at hmem
      refine ⟨e.position, ?_⟩
      rw [← hmessage.mp hmem]
    · rintro ⟨p, he⟩
      cases he
      exact ⟨_, List.mem_singleton_self _, hmessage.mpr rfl⟩
  · rw [hdiagnostics, hscan]
    constructor
    · rintro ⟨d, hd, hmem⟩
      obtain ⟨r, hr, rfl⟩ := List.mem_map.mp hd
      exact absurd hmem ((hrs r hr).notMem hx)
    · rintro ⟨p, he⟩
      cases he

end Compilation

/-- The place of a diagnostic is shown on one line. -/
theorem Locus.no_lineEnd (l : Locus) : '\n' ∉ l.shown.toList := by
  have hnumber : ∀ n : Int, '\n' ∉ (toString n).toList :=
    Text.notMem_int (by decide) (by decide)
  unfold shown
  split
  · simp
  · split
    · simpa using hnumber _
    · simpa using ⟨hnumber _, hnumber _⟩

/-- What announces a diagnostic is broken only by its message. -/
theorem Diagnostic.lineEnd_header_iff {file : Option String} {r : Report} {directory : String}
    (hdirectory : '\n' ∉ directory.toList) (hfile : ∀ f ∈ file, '\n' ∉ f.toList) :
    '\n' ∈ ((ofReport file r).header directory).toList ↔
      '\n' ∈ (ofReport file r).message.toList := by
  have hplace : '\n' ∉ ((file.map (Text.Path.absolute directory)).getD "" ++
      r.locus.shown).toList := by
    rw [String.toList_append, List.mem_append, not_or]
    refine ⟨?_, r.locus.no_lineEnd⟩
    cases file with
    | none => exact List.not_mem_nil
    | some f => exact Text.Path.notMem_absolute (by decide) (by decide) hdirectory (hfile f rfl)
  have hstart : '\n' ∉ (if (file.map (Text.Path.absolute directory)).getD "" ++ r.locus.shown = ""
      then "" else (file.map (Text.Path.absolute directory)).getD "" ++ r.locus.shown ++
        ": ").toList := by
    split
    · exact List.not_mem_nil
    · rw [String.toList_append, List.mem_append, not_or]
      exact ⟨hplace, by decide⟩
  have hseverity : '\n' ∉ Severity.error.text.toList ∧ '\n' ∉ ": ".toList := by decide
  change '\n' ∈ (_ ++ Severity.error.text ++ ": " ++ (ofReport file r).message).toList ↔ _
  simp only [String.toList_append, List.mem_append]
  constructor
  · rintro (((h | h) | h) | h)
    · exact absurd h hstart
    · exact absurd h hseverity.1
    · exact absurd h hseverity.2
    · exact h
  · exact .inr

namespace Compilation

/-- No message of a text is broken, and with a file and a directory that are not broken either
every diagnostic is announced on one line, exactly if no string literal of the text has a backslash
before a line end, before NUL or at the end of the text. -/
theorem unbroken_iff {file : Option String} {source : String} {c : Compilation}
    (h : analyze file source = .ok c) :
    ((∀ d ∈ c.diagnostics, '\n' ∉ d.message.toList ∧ Token.nul ∉ d.message.toList) ↔
      ¬ Token.Misescapes source '\n' ∧ ¬ Token.Misescapes source Token.nul) ∧
    ∀ directory : String, '\n' ∉ directory.toList → (∀ f ∈ file, '\n' ∉ f.toList) →
      ((∀ d ∈ c.diagnostics, '\n' ∉ (d.header directory).toList) ↔
        ¬ Token.Misescapes source '\n') := by
  have hline := mem_message_iff h (x := '\n') (by decide)
  have hnul := mem_message_iff h (x := Token.nul) (by decide)
  constructor
  · rw [← hline, ← hnul, not_exists, not_exists, ← forall_and]
    simp only [not_and, ← forall_and]
  · intro directory hdirectory hfile
    rw [← hline, not_exists]
    simp only [not_and]
    refine forall₂_congr fun d hd => not_congr ?_
    obtain ⟨r, rfl⟩ : ∃ r, d = Diagnostic.ofReport file r := by
      rcases messages_of_analyze h with ⟨e, -, hdiagnostics⟩ | ⟨tokens, rs, -, hdiagnostics, -⟩
      · rw [hdiagnostics] at hd
        exact ⟨_, List.mem_singleton.mp hd⟩
      · rw [hdiagnostics] at hd
        obtain ⟨r, -, rfl⟩ := List.mem_map.mp hd
        exact ⟨r, rfl⟩
    exact Diagnostic.lineEnd_header_iff hdirectory hfile

set_option maxRecDepth 100000 in
/-- A tab after a backslash in a string literal, in a file. -/
theorem unbroken_iff_of_tab : ∃ source c,
    source = "void main() \x7b cout << \"a\\\tb\"; \x7d" ∧ analyze (some "a.cmm") source = .ok c ∧
    ((∀ d ∈ c.diagnostics, '\n' ∉ d.message.toList ∧ Token.nul ∉ d.message.toList) ↔
      ¬ Token.Misescapes source '\n' ∧ ¬ Token.Misescapes source Token.nul) ∧
    ∀ directory : String, '\n' ∉ directory.toList → (∀ f ∈ some "a.cmm", '\n' ∉ f.toList) →
      ((∀ d ∈ c.diagnostics, '\n' ∉ (d.header directory).toList) ↔
        ¬ Token.Misescapes source '\n') := by
  obtain ⟨c, hc⟩ := exists_of_isOk
    (x := analyze (some "a.cmm") "void main() \x7b cout << \"a\\\tb\"; \x7d") (by cbv)
  exact ⟨_, c, rfl, hc, unbroken_iff hc⟩

set_option maxRecDepth 100000 in
/-- A string literal that ends its line in a backslash, and one that ends the text in it: the first
is announced on two lines, and the message about the second has NUL in it. -/
theorem broken_of_backslash :
    (∃ c d, analyze none "void main() \x7b cout << \"a\\\n\"; \x7d" = .ok c ∧ c.diagnostics = [d] ∧
      d.message = "[LEX-0020] unknown escape sequence \\\n" ∧
      d.header "/" = ":1:26: error: [LEX-0020] unknown escape sequence \\\n") ∧
    ∃ c d, analyze none "void main() \x7b cout << \"a\\" = .ok c ∧ c.diagnostics = [d] ∧
      d.message = "[LEX-0020] unknown escape sequence \\\x00" := by
  refine ⟨⟨{ file := none, diagnostics := [⟨.error, .lexical (.unknownEscape '\n'), none,
    .ofPosition ⟨1, 26⟩⟩] }, _, by cbv, rfl, by decide, by decide⟩,
    { file := none, diagnostics := [⟨.error, .lexical (.unknownEscape Token.nul), none,
      .ofPosition ⟨1, 26⟩⟩] }, _, by cbv, rfl, by decide⟩

end Compilation

end CMinusMinus
