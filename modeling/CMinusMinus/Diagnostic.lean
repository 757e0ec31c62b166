import CMinusMinus.Diagnostic.Cause
import CMinusMinus.Text.Path

/-!
# Diagnostics

A diagnostic is a cause with its severity, the file, and the place in the file as far as it is
known.  Its header is one line: the file and the place, the severity and the message.
-/

namespace CMinusMinus

/-- How grave a diagnostic is.  Only errors keep a program from being compiled. -/
inductive Severity where
  | error
  | warning
  | other (name : String)
  deriving DecidableEq, Repr

namespace Severity

/-- The severity in words. -/
def text : Severity → String
  | .error => "error"
  | .warning => "warning"
  | .other name => name

/-- The severity of a word. -/
def ofText (s : String) : Severity :=
  if s = "error" then .error else if s = "warning" then .warning else .other s

theorem text_ofText (s : String) : (ofText s).text = s := by
  unfold ofText
  split
  · simp_all [text]
  · split <;> simp_all [text]

end Severity

/-- A place in a file, as far as it is known: where it begins, and where the next character after
it stands. -/
structure Locus where
  line : Option Int := none
  column : Option Int := none
  endLine : Option Int := none
  endColumn : Option Int := none
  deriving DecidableEq, Repr

namespace Locus

/-- The place of a position. -/
def ofPosition (p : Position) : Locus :=
  { line := some p.line, column := some p.column }

/-- The place of a span. -/
def ofSpan (s : Span) : Locus :=
  ⟨some s.startLine, some s.startColumn, some s.endLine, some s.endColumn⟩

/-- The place of what may have a span. -/
def ofSpan? (s : Option Span) : Locus := (s.map ofSpan).getD {}

/-- How a place is shown after the name of its file.  A column means nothing without a line. -/
def shown (l : Locus) : String :=
  match l.line with
  | none => ""
  | some line =>
    ":" ++ toString line ++ (match l.column with
      | none => ""
      | some column => ":" ++ toString column)

end Locus

/-- A cause and its place: a diagnostic but for the file and the severity, which is that of an
error. -/
structure Report where
  cause : Cause
  locus : Locus

/-- What the compiler has to say about a file. -/
structure Diagnostic where
  severity : Severity := .error
  cause : Cause
  file : Option String := none
  locus : Locus := {}

namespace Diagnostic

/-- The error of a report about a file. -/
def ofReport (file : Option String) (r : Report) : Diagnostic :=
  { cause := r.cause, file, locus := r.locus }

/-- What a diagnostic says. -/
def message (d : Diagnostic) : String := d.cause.message

/-- Whether the diagnostic keeps the program from being compiled. -/
def isError (d : Diagnostic) : Bool := d.severity == .error

/-- Whether the diagnostic is a warning. -/
def isWarning (d : Diagnostic) : Bool := d.severity == .warning

/-- The line that announces a diagnostic, given the current directory. -/
def header (directory : String) (d : Diagnostic) : String :=
  let place := (d.file.map (Text.Path.absolute directory)).getD "" ++ d.locus.shown
  (if place = "" then "" else place ++ ": ") ++ d.severity.text ++ ": " ++ d.message

end Diagnostic

end CMinusMinus
