import CMinusMinus.Command
import CMinusMinus.Diagnostic.Codes
import CMinusMinus.Proofs.Compilation
import CMinusMinus.Proofs.Lexing.Stopping
import CMinusMinus.Proofs.Overlong
import CMinusMinus.Proofs.Reporting

/-!
# What an analysis answers

The analysis of a text ends in a program with what name resolution reports and then what type
checking reports, or without a program and with one error of the scanner or the parser
(`Compilation.Answers`), unless it breaks off at a number: at a numeral that the scanner gives up
at, or at a number with too many digits that name resolution is to log
(`Compilation.analyze_answers`).  The code that a message begins with tells which of the stages
reports it.

A file that the operating system refuses is answered with one error as well, but one that is no
UTF-8 breaks the command off (`Command.withAnalysis_answers`).
-/

namespace CMinusMinus

/-! ## Families -/

namespace Diagnostic.Family

/-- The message begins with a code of the family in brackets. -/
def Opens (f : Family) (message : String) : Prop :=
  ∃ code ∈ f.codes, ("[" ++ code ++ "] ").toList <+: message.toList

/-- The characters that a message begins with, by the number of its code. -/
def opening (f : Family) (n : Nat) : List Char :=
  '[' :: (f.letters.toList ++ '-' :: [n / 1000, n / 100, n / 10, n].map fun d =>
    Nat.digitChar (d % 10)) ++ [']', ' ']

theorem opens_ofList {f : Family} {cs : List Char}
    (h : (f.numbers.any fun n => (f.opening n).isPrefixOf cs) = true) :
    f.Opens (String.ofList cs) := by
  obtain ⟨n, hn, hbegins⟩ := List.any_eq_true.mp h
  have hopening : ("[" ++ (f.letters ++ "-" ++ fourDigits n) ++ "] ").toList = f.opening n := by
    simp [opening, fourDigits]
  refine ⟨_, List.mem_map_of_mem hn, ?_⟩
  rw [hopening, String.toList_ofList]
  exact List.isPrefixOf_iff_prefix.mp hbegins

theorem Opens.append {f : Family} {message : String} (h : f.Opens message) (words : String) :
    f.Opens (message ++ words) := by
  obtain ⟨code, hcode, hbegins⟩ := h
  refine ⟨code, hcode, ?_⟩
  rw [String.toList_append (s := message)]
  exact hbegins.trans (List.prefix_append _ _)

end Diagnostic.Family

open Diagnostic (Family)

theorem LexCause.opens (c : LexCause) : Family.lex.Opens c.message := by
  cases c with
  | unterminatedString => exact Family.opens_ofList rfl
  | unknownEscape => exact .append (Family.opens_ofList rfl) _
  | numeralRange => exact .append (.append (Family.opens_ofList rfl) _) _
  | nameAfterNumeral => exact .append (.append (Family.opens_ofList rfl) _) _
  | unexpected => exact .append (Family.opens_ofList rfl) _

theorem Wanted.opens (w : Wanted) : Family.par.Opens w.message := by
  cases w with
  | conditionStart => exact .append (.append (Family.opens_ofList rfl) _) _
  | _ => exact Family.opens_ofList rfl

theorem SyntaxError.opens (e : SyntaxError) : Family.par.Opens e.message := by
  unfold SyntaxError.message
  cases e.cause with
  | expected wanted => exact .append (.append (.append wanted.opens _) _) _
  | topLevel => exact .append (Family.opens_ofList rfl) _
  | typeName => exact .append (.append (Family.opens_ofList rfl) _) _
  | stepTarget => exact .append (.append (Family.opens_ofList rfl) _) _
  | expression => exact .append (Family.opens_ofList rfl) _
  | _ => exact Family.opens_ofList rfl

theorem NameCause.opens (c : NameCause) : Family.res.Opens c.message := by
  cases c with
  | voidVariable | notStruct => exact Family.opens_ofList rfl
  | _ => exact .append (.append (Family.opens_ofList rfl) _) _

theorem TypeCause.opens (c : TypeCause) : Family.typ.Opens c.message := by
  cases c <;> exact Family.opens_ofList rfl

/-- The diagnostic is an error of the family. -/
structure Diagnostic.ErrorOf (f : Family) (d : Diagnostic) : Prop where
  error : d.isError = true
  opens : f.Opens d.message

/-! ## Source texts -/

theorem Program.parse_eq_scan_iff {file : Option String} {source : String} {e : ScanError} :
    parse file source = .error (.scan e) ↔ Token.scan source = .error e := by
  rw [parse]
  cases Token.scan source with
  | error e' => exact ⟨fun h => by cases h; rfl, fun h => by cases h; rfl⟩
  | ok tokens =>
    dsimp only
    cases ofTokens tokens <;> simp

namespace Compilation

/-- There is no program, and just one diagnostic, which is an error of the family. -/
structure Refuses (f : Family) (c : Compilation) : Prop where
  program : c.program = none
  diagnostics : ∃ d, c.diagnostics = [d] ∧ d.ErrorOf f

/-- There is a program with errors of name resolution and after them errors of type checking, or
none with one error of the scanner or the parser. -/
inductive Answers (c : Compilation) : Prop where
  | program {p : Program} {names types : List Diagnostic} :
    c.program = some p → c.diagnostics = names ++ types → (∀ d ∈ names, d.ErrorOf .res) →
    (∀ d ∈ types, d.ErrorOf .typ) → Answers c
  | refused {f : Family} : f ∈ [.lex, .par] → c.Refuses f → Answers c

theorem answers_analysis (file : Option String) (p : Program) : (analysis file p).Answers := by
  have hnames : ∀ d ∈ p.resolve.reports.map (Diagnostic.ofReport file), d.ErrorOf .res := by
    refine List.forall_mem_map.mpr fun r hr => ⟨rfl, ?_⟩
    obtain ⟨c, hc⟩ := p.naming_resolve r hr
    rw [Diagnostic.message, Diagnostic.ofReport, hc]
    exact c.opens
  have htypes : ∀ d ∈ (p.resolve.program.check p.resolve.hasMain).reports.map
      (Diagnostic.ofReport file), d.ErrorOf .typ := by
    refine List.forall_mem_map.mpr fun r hr => ⟨rfl, ?_⟩
    obtain ⟨c, hc⟩ := p.resolve.program.only_check p.resolve.hasMain r hr
    rw [Diagnostic.message, Diagnostic.ofReport, hc]
    exact c.opens
  exact .program rfl List.map_append hnames htypes

/-- The analysis of a text breaks off at a number with these digits: the scanner gives up at it, or
it is the first that name resolution cannot log. -/
inductive BreaksOff (file : Option String) (source digits : String) : Prop where
  | scanning : Token.GivesUp source digits → BreaksOff file source digits
  | resolving {p : Program} {n : Int} :
    Program.parse file source = .ok p → overlong? p.resolve.program.numbers = some n →
    digits = toString n → BreaksOff file source digits

/-- A number that name resolution cannot log breaks the analysis off. -/
theorem analyze_of_overlong {file : Option String} {source : String} {p : Program} {n : Int}
    (hp : Program.parse file source = .ok p)
    (hn : overlong? p.resolve.program.numbers = some n) :
    analyze file source = .error (.numeral (toString n)) :=
  analyze_of_fault hp ((Program.parse_formed hp).fault_of_overlong hn)

theorem analyze_of_written {file : Option String} {source : String} {p : Program}
    (hp : Program.parse file source = .ok p) (hn : overlong? p.resolve.program.numbers = none) :
    analyze file source = .ok (analysis file p) :=
  analyze_of_parse hp ((Program.parse_formed hp).fault_of_written hn)

theorem analyze_eq_numeral_iff {file : Option String} {source digits : String} :
    analyze file source = .error (.numeral digits) ↔ BreaksOff file source digits := by
  constructor
  · intro h
    cases hparse : Program.parse file source with
    | ok p =>
      cases hn : overlong? p.resolve.program.numbers with
      | none => cases (analyze_of_written hparse hn).symm.trans h
      | some n =>
        cases (analyze_of_overlong hparse hn).symm.trans h
        exact .resolving hparse hn rfl
    | error e =>
      rw [analyze, hparse] at h
      cases e with
      | syntactic e => cases h
      | scan e =>
        cases e with
        | refused e => cases h
        | unreadable digits =>
          cases h
          exact .scanning (Token.scan_eq_unreadable_iff.mp (Program.parse_eq_scan_iff.mp hparse))
  · rintro (hgivesUp | ⟨hp, hn, rfl⟩)
    · rw [analyze, Program.parse_eq_scan_iff.mpr (Token.scan_eq_unreadable_iff.mpr hgivesUp)]
    · exact analyze_of_overlong hp hn

theorem breaksOff_or_answers (file : Option String) (source : String) :
    (∃ digits, BreaksOff file source digits) ∨ ∃ c, analyze file source = .ok c ∧ c.Answers := by
  cases hparse : Program.parse file source with
  | ok p =>
    cases hn : overlong? p.resolve.program.numbers with
    | none => exact .inr ⟨_, analyze_of_written hparse hn, answers_analysis _ _⟩
    | some n => exact .inl ⟨_, .resolving hparse hn rfl⟩
  | error e =>
    rw [analyze, hparse]
    cases e with
    | syntactic e =>
      exact .inr ⟨_, rfl, .refused (f := .par) (by decide) ⟨rfl, _, rfl, rfl, e.opens⟩⟩
    | scan e =>
      cases e with
      | refused e =>
        exact .inr ⟨_, rfl, .refused (f := .lex) (by decide) ⟨rfl, _, rfl, rfl, e.cause.opens⟩⟩
      | unreadable digits =>
        have hscan := Token.scan_eq_unreadable_iff.mp (Program.parse_eq_scan_iff.mp hparse)
        exact .inl ⟨digits, .scanning hscan⟩

/-- The analysis of a text breaks off exactly at a number that the scanner gives up at or that name
resolution cannot log, and answers every other text. -/
theorem analyze_answers (file : Option String) (source : String) :
    (∀ digits, analyze file source = .error (.numeral digits) ↔ BreaksOff file source digits) ∧
      ((∃ digits, BreaksOff file source digits) ∨
        ∃ c, analyze file source = .ok c ∧ c.Answers) :=
  ⟨fun _ => analyze_eq_numeral_iff, breaksOff_or_answers file source⟩

end Compilation

/-! ## Files -/

namespace Command

/-- How a command that analyzes a file goes on or breaks off, by what came of reading the file. -/
inductive Analyzes (path : String) (proceed : Compilation → List Log.Message → Response) :
    FileRead → Response → Prop where
  | refused {e : FileError} {c : Compilation} {logged : List Log.Message} :
    c.Refuses .drv → Analyzes path proceed (.refused e) (proceed c logged)
  | answered {source : String} {c : Compilation} {logged : List Log.Message} :
    c.Answers → Analyzes path proceed (.text source) (proceed c logged)
  | stopped {source digits : String} {messages : List Log.Message} :
    Compilation.BreaksOff (some path) source digits →
    Analyzes path proceed (.text source) { messages, exit := .error .numeral }
  | undecodable : Analyzes path proceed .undecodable { exit := .error .undecodable }
  | badPath : Analyzes path proceed .badPath { exit := .error .badPath }

theorem analyzes_withAnalysis (directory path : String) (read : FileRead)
    (proceed : Compilation → List Log.Message → Response) :
    Analyzes path proceed read (withAnalysis directory path read proceed) := by
  cases read with
  | text source =>
    rcases Compilation.breaksOff_or_answers (some path) source with
      ⟨digits, hdigits⟩ | ⟨c, hc, hanswers⟩
    · simp only [withAnalysis, withText, Compilation.analyze_eq_numeral_iff.mpr hdigits]
      exact .stopped hdigits
    · simp only [withAnalysis, withText, hc]
      exact .answered hanswers
  | refused e =>
    have hopens : Family.drv.Opens (Cause.unreadable (e.message path)).message :=
      .append (Family.opens_ofList rfl) _
    exact .refused ⟨rfl, _, rfl, rfl, hopens⟩
  | undecodable => exact .undecodable
  | badPath => exact .badPath

end Command

/-- Every text is answered but those with a numeral that the scanner gives up at or a number that
name resolution cannot log, and every file that the operating system refuses or that is such a text
in UTF-8. -/
theorem Compilation.analyses_answered (file : Option String) (source directory path : String)
    (read : FileRead) (proceed : Compilation → List Log.Message → Command.Response) :
    (∀ digits, analyze file source = .error (.numeral digits) ↔ BreaksOff file source digits) ∧
      ((∃ digits, BreaksOff file source digits) ∨
        ∃ c, analyze file source = .ok c ∧ c.Answers) ∧
      Command.Analyzes path proceed read (Command.withAnalysis directory path read proceed) := by
  obtain ⟨hbreaksOff, hanswers⟩ := analyze_answers file source
  exact ⟨hbreaksOff, hanswers, Command.analyzes_withAnalysis directory path read proceed⟩

set_option maxRecDepth 100000 in
/-- A superscript is a digit without a value. -/
theorem Compilation.analyze_of_superscript :
    analyze none "void main() { cout << ²; }" = .error (.numeral "²") ∧
      ¬ ∃ c, analyze none "void main() { cout << ²; }" = .ok c := by
  have hanalyze : analyze none "void main() { cout << ²; }" = .error (.numeral "²") := by
    cbv
  exact ⟨hanalyze, by rintro ⟨c, hc⟩; cases hanalyze.symm.trans hc⟩

end CMinusMinus
