import CMinusMinus.Proofs.Compilation
import CMinusMinus.Proofs.Locality.Reports
import CMinusMinus.Proofs.Places.Lines
import CMinusMinus.Proofs.Spans.Words

/-!
# Places of diagnostics

Every diagnostic of a text is in the text, but for the one that `main` is missing, and what is said
of a name or a type is said at a name or a literal of the text, unless a return statement without a
value is meant (`Compilation.places_of_analyze`).
-/

namespace CMinusMinus

open Outcome

open Token (BeginsAmong)

/-- Whether what has the cause is reported at a name or a literal: all that name resolution and
type checking report but a missing value and a missing `main`. -/
def Cause.isAtWord : Cause → Bool
  | .naming _ => true
  | .typing c => c != .noReturnValue && c != .noMain
  | .lexical _ | .syntactic _ | .unreadable _ | .other _ => false

/-- The place is that of a name or a literal among the tokens. -/
def Token.IsWordAmong (tokens : List Token) (s : Option Span) : Prop :=
  ∃ t ∈ tokens, t.kind.isLeaf = true ∧ s = some t.extent

open Token (IsWordAmong)

/-- The report begins with one of the tokens, and if its cause is one about a name or a literal it
is at one among them. -/
structure Report.Placed (tokens : List Token) (x : Report) : Prop where
  begins : x.At (BeginsAmong tokens)
  word : x.cause.isAtWord = true → x.At (IsWordAmong tokens)

variable {tokens ts : List Token}

theorem Report.At.placed {x : Report} (h : x.At (IsWordAmong tokens)) : x.Placed tokens := by
  refine ⟨?_, fun _ => h⟩
  obtain ⟨_, ⟨t, ht, -, rfl⟩, hlocus⟩ := h
  exact ⟨_, List.mem_map_of_mem ht, hlocus⟩

/-- What the passes report of a declaration is placed among the tokens that it is read from. -/
theorem Token.Reads.placed {d : Decl} (h : Reads ts d) (hts : ts ⊆ tokens) (env : Env) :
    (Resolve.decl env d).Only (Report.Placed tokens) ∧
      (Check.decl (Resolve.decl env d).value.1).Only (Report.Placed tokens) := by
  have hleaves : ∀ s ∈ d.leaves, IsWordAmong tokens s := by
    intro s hs
    obtain ⟨t, ht, hleaf, rfl⟩ := h.covers.leaves.exists_token hs
    exact ⟨t, hts ht, hleaf, rfl⟩
  refine ⟨fun x hx => (Resolve.at_decl env hleaves x hx).placed,
    Check.only_decl_resolve (fun _ hx => hx.placed) env hleaves fun s hs => ?_⟩
  refine ⟨TypeCause.at_reportAt ?_ _, fun hword => (Bool.false_ne_true hword).elim⟩
  exact List.map_subset _ hts (h.beginsAmong.2 s hs)

/-- What the passes report of a program is placed among the tokens of its text. -/
theorem Program.placed_reports {file : Option String} {source : String} {p : Program}
    (h : Program.parse file source = .ok p) (hfault : p.resolve.fault = none) (hasMain : Bool) :
    ∃ tokens, Token.scan source = .ok tokens ∧
      ∀ x ∈ p.resolve.reports ++ (p.resolve.program.check hasMain).reports,
        x = Check.noMain ∨ x.Placed tokens := by
  obtain ⟨tokens, tss, hscan, hsublist, htss⟩ := exists_stretches h
  have hpassed := (parse_formed h).passed hfault
  refine ⟨tokens, hscan, hpassed.forall_reports (fun d hd env => ?_) (.inl rfl) _⟩
  obtain ⟨ts, hts, hreads⟩ := htss.exists_reads hd
  obtain ⟨hresolve, hcheck⟩ :=
    hreads.placed (fun t ht => hsublist.subset (List.mem_flatten_of_mem hts ht)) env
  exact ⟨fun x hx => .inr (hresolve x hx), fun x hx => .inr (hcheck x hx)⟩

/-- The token that a text is refused at is one of it. -/
theorem Program.mem_of_refused {e : SyntaxError} (h : Program.ofTokens ts = .error e) :
    e.token ∈ ts := by
  rcases ofTokens_agree (rfl : ts.map Token.word = _) with
    ⟨cause, t, -, i, herror, -, hi, -⟩ | ⟨p, -, hp, -⟩
  · cases herror.symm.trans h
    exact List.mem_of_getElem? hi
  · cases hp.symm.trans h

/-- What begins with a token of a text is in the text. -/
theorem Report.At.inText {source : String} (hscan : Token.scan source = .ok tokens) {x : Report}
    (h : x.At (BeginsAmong tokens)) : x.locus.InText source := by
  obtain ⟨s, hs, hlocus⟩ := h
  obtain ⟨t, ht, hstart⟩ := List.mem_map.mp hs
  obtain ⟨a, rfl, ha⟩ := Option.map_eq_some_iff.mp hstart.symm
  have hposition := (Token.stands_of_scan hscan t ht).inText
  rw [← ha] at hposition
  rw [hlocus]
  exact hposition.locus_span

namespace Compilation

/-- Every diagnostic but the one that `main` is missing is in the text.  One about a name or a type
that is not about a missing value either holds just a name or a literal of the text, on one line. -/
theorem places_of_analyze {file : Option String} {source : String} {c : Compilation}
    (h : analyze file source = .ok c) : ∀ d ∈ c.diagnostics,
      (d.cause ≠ .typing .noMain → d.locus.InText source) ∧
      (d.cause.isAtWord = true → ∃ tokens, Token.scan source = .ok tokens ∧
        ∃ t ∈ tokens, t.kind.isLeaf = true ∧ d.locus = .ofSpan t.extent ∧
          d.locus.Spells source t.lexeme) := by
  intro d hd
  cases hp : Program.parse file source with
  | ok p =>
    obtain ⟨hfault, rfl⟩ := analysis_of_parse hp h
    obtain ⟨tokens, hscan, hplaced⟩ := Program.placed_reports hp hfault p.resolve.hasMain
    obtain ⟨x, hx, rfl⟩ := List.mem_map.mp hd
    rcases hplaced x hx with rfl | hx
    · exact ⟨fun hcause => absurd rfl hcause, fun hword => (Bool.false_ne_true hword).elim⟩
    · refine ⟨fun _ => hx.begins.inText hscan, fun hword => ?_⟩
      obtain ⟨_, ⟨t, ht, hleaf, rfl⟩, hlocus⟩ := hx.word hword
      have hspells := (Token.stands_of_scan hscan t ht).spells
      rw [← hlocus] at hspells
      exact ⟨tokens, hscan, t, ht, hleaf, hlocus, hspells⟩
  | error e =>
    unfold analyze at h
    rw [hp] at h
    cases e with
    | scan e =>
      cases e with
      | unreadable => cases h
      | refused e =>
        cases h
        cases List.mem_singleton.mp hd
        have hscan : Token.scan source = .error (.refused e) := by
          unfold Program.parse at hp
          split at hp
          · cases hp
            assumption
          · split at hp <;> cases hp
        exact ⟨fun _ => (Token.reaches_of_scan hscan).inText.locus, fun hword => by cases hword⟩
    | syntactic e =>
      cases h
      cases List.mem_singleton.mp hd
      obtain ⟨tokens, hscan, htokens⟩ : ∃ tokens, Token.scan source = .ok tokens ∧
          Program.ofTokens tokens = .error e := by
        unfold Program.parse at hp
        split at hp
        · cases hp
        · split at hp <;> cases hp
          exact ⟨_, ‹_›, ‹_›⟩
      have hstands := Token.stands_of_scan hscan _ (Program.mem_of_refused htokens)
      exact ⟨fun _ => hstands.inText.locus, fun hword => by cases hword⟩

set_option maxRecDepth 100000 in
/-- A field of a function, a string in arithmetic, a missing value, on lines of their own. -/
theorem places_of_analyze_of_lines : ∃ source c,
    source = "int f() \x7b\n  return;\n\x7d\n
      void main() \x7b\n  cout << f.x;\n  f = 1 + \"a\\n\";\n\x7d" ∧
    analyze none source = .ok c ∧ ∀ d ∈ c.diagnostics,
      (d.cause ≠ .typing .noMain → d.locus.InText source) ∧
      (d.cause.isAtWord = true → ∃ tokens, Token.scan source = .ok tokens ∧
        ∃ t ∈ tokens, t.kind.isLeaf = true ∧ d.locus = .ofSpan t.extent ∧
          d.locus.Spells source t.lexeme) := by
  obtain ⟨c, hc, -⟩ : ∃ c, analyze none "int f() \x7b\n  return;\n\x7d\n
      void main() \x7b\n  cout << f.x;\n  f = 1 + \"a\\n\";\n\x7d" = .ok c ∧ True :=
    exists_analyze rfl (by decide +kernel)
  exact ⟨_, c, rfl, hc, places_of_analyze hc⟩

end Compilation

end CMinusMinus
