import CMinusMinus.Command.Arguments
import CMinusMinus.Compilation.Trace
import CMinusMinus.Diagnostic.Snippet
import CMinusMinus.File
import CMinusMinus.Syntax.Outline
import CMinusMinus.Syntax.Source

/-!
# Commands

A command works on one file and answers with messages, output and an exit code.  What it does
follows from what came of reading the file, so a command is a function of that and of the current
directory, and only carrying out its answer is left to the outside.

The exit code is 0 unless there are errors.  A table of symbols is printed in spite of errors, as
long as there is a program.
-/

namespace CMinusMinus

open Log (Message)

namespace Command

/-- Why a command breaks off, other than by its exit code. -/
inductive Crash where
  /-- The source file is no UTF-8. -/
  | undecodable
  /-- A numeral is well placed and cannot be read, or is too long to be written. -/
  | numeral
  /-- The path has a character that no path can have. -/
  | badPath
  /-- The operating system refuses to write the file. -/
  | unwritable (e : FileError)
  deriving DecidableEq, Repr

/-- A file to write, and what is logged once it is written. -/
structure Writing where
  path : String
  text : String
  logged : List Message
  deriving DecidableEq, Repr

/-- What a command answers.  The messages come before the file is written. -/
structure Response where
  messages : List Message := []
  output : String := ""
  writing : Option Writing := none
  exit : Except Crash Nat

/-! ## Listings -/

/-- A text of lines. -/
def unlines (lines : List String) : String := String.join (lines.map (· ++ "\n"))

/-- The line of a token in a listing. -/
def tokenLine (path : String) (t : Token) : String :=
  path ++ ":" ++ toString t.line ++ ":" ++ toString t.column ++ ":\t"
    ++ Text.padRight 12 t.kind.label ++ " " ++ Text.quoted t.text

/-- Tokens, with the end of the text or without it. -/
def tokenLines (path : String) (withEnd : Bool) (ts : List Token) : List String :=
  (ts.filter fun t => withEnd || t.kind != .eof).map (tokenLine path)

/-- The line of a name in a table. -/
def symbolLine (name : String) (s : Symbol) : String :=
  "  " ++ Text.padRight 18 s.kind ++ " " ++ name ++ ": " ++ s.shown

/-- The line of a function in a table, if its frame is laid out. -/
def frameLine? (d : FnDecl) : Option String :=
  d.frame.map fun f =>
    "  " ++ d.name.name ++ ": formals=" ++ toString f.formals ++ " locals=" ++ toString f.locals

/-- Lines, or a line that says that there are none. -/
def orNone (lines : List String) : List String := if lines.isEmpty then ["  <none>"] else lines

/-- The names of a program in the order of their characters, and the frames of its functions. -/
def symbolLines (globals : Scope Symbol) (p : Program) : List String :=
  let sorted := globals.mergeSort fun a b => a.1 ≤ b.1
  "globals:" :: orNone (sorted.map fun (name, s) => symbolLine name s)
    ++ "frames:" :: orNone (p.functions.filterMap frameLine?)

/-! ## Reports -/

/-- The messages that a compilation has for the author of the program. -/
def reports (directory : String) (read : FileRead) (c : Compilation) : List Message :=
  c.diagnostics.flatMap fun d => (d.shown directory read.lines?).map .error

/-- The message that a text is no program, without the line it is about. -/
def refusal (path : String) (r : Report) : Message :=
  .error (path ++ r.locus.shown ++ ": error: " ++ r.cause.message)

/-! ## Commands -/

/-- What is done with the text of a file once it is read. -/
abbrev Use := String → Response

/-- Uses the text of a file.  `unread` says what is done where the operating system refuses the
file. -/
def withText (read : FileRead) (unread : FileError → Response) (use : Use) : Response :=
  match read with
  | .text source => use source
  | .refused e => unread e
  | .undecodable => { exit := .error .undecodable }
  | .badPath => { exit := .error .badPath }

/-- What is answered where a compilation ends without a result. -/
def aborted (file : Option String) (logged : List Message) : Compilation.Abort → Response
  | .numeral _ => { messages := logged, exit := .error .numeral }
  | .fault f => { messages := logged ++ [.error (f.report file)], exit := .ok 1 }

/-- Analyzes a file and reports what there is to report.  `proceed` goes on with the compilation
that came out. -/
def withAnalysis (directory path : String) (read : FileRead)
    (proceed : Compilation → List Message → Response) : Response :=
  withText read
    (fun e =>
      let c := Compilation.ofUnreadable path (e.message path)
      proceed c (reports directory read c))
    fun source =>
      let logged := Compilation.analysisTrace (some path) source
      match Compilation.analyze (some path) source with
      | .ok c => proceed c (logged (some c) ++ reports directory read c)
      | .error a => aborted (some path) (logged none) a

/-- Reads a file as a program, without analyzing it. -/
def withProgram (path : String) (read : FileRead) (proceed : Program → String) : Response :=
  withText read
    (fun e =>
      { messages := [.error ("error: [CMC-0010] cannot read " ++ path ++ ": " ++ e.message path)]
        exit := .ok 1 })
    fun source =>
      let logged := Trace.parsing (some path) source
      match Program.parse (some path) source with
      | .ok p => { messages := logged, output := proceed p, exit := .ok 0 }
      | .error e =>
        match e.report? with
        | some r => { messages := logged ++ [refusal path r], exit := .ok 1 }
        | none => { messages := logged, exit := .error .numeral }

/-- The exit code after an analysis. -/
def exitCode (c : Compilation) : Nat := if c.isSound then 0 else 1

/-- Generates code and prints it, or has it written to a file. -/
def code (s : Settings) (c : Compilation) (logged : List Message) : Response :=
  if exitCode c ≠ 0 then { messages := logged, exit := .ok (exitCode c) }
  else
    let logged := logged ++ c.codeTrace
    match (c.emit s.code).result with
    | .error f => aborted c.file logged (.ofFault f)
    | .ok items =>
      if s.output = "" then { messages := logged, output := Item.render items, exit := .ok 0 }
      else
        { messages := logged
          writing := some ⟨Text.Path.tidy s.output, Item.render items,
            [.info ("Wrote assembly to " ++ s.output)]⟩
          exit := .ok 0 }

/-- Lists the names of a program and its frames, if there is a program. -/
def symbols (c : Compilation) (logged : List Message) : Response :=
  match c.program with
  | none => { messages := logged, exit := .ok 1 }
  | some p => { messages := logged, output := unlines (symbolLines c.globals p), exit := .ok 0 }

/-- Lists the tokens of a file. -/
def tokens (path : String) (withEnd : Bool) (read : FileRead) : Response :=
  withText read
    (fun e =>
      { messages := [.error ("error: [CMC-0010] cannot read " ++ path ++ ": " ++ e.message path)]
        exit := .ok 1 })
    fun source =>
      let scanned := Token.scan source
      let logged := Trace.scanning (some path) scanned
      match scanned with
      | .ok ts =>
        { messages := logged, output := unlines (tokenLines path withEnd ts), exit := .ok 0 }
      | .error (.refused e) =>
        { messages := logged ++ [refusal path ⟨.lexical e.cause, .ofPosition e.position⟩]
          exit := .ok 1 }
      | .error (.unreadable _) => { messages := logged, exit := .error .numeral }

/-- How the command's messages are written. -/
def logFormat (cmd : Command) : Log.Format :=
  { level :=
      if 3 ≤ cmd.settings.verbosity then .debug
      else if 1 ≤ cmd.settings.verbosity then .info
      else .error
    stamped := cmd.settings.stamped }

/-- The path of the file that the command works on. -/
def path (cmd : Command) : String := Text.Path.tidy cmd.file

/-- What the command answers, given the current directory and what came of reading its file. -/
def run (cmd : Command) (directory : String) (read : FileRead) : Response :=
  match cmd.action with
  | .check =>
    withAnalysis directory cmd.path read fun c logged =>
      { messages := logged, exit := .ok (exitCode c) }
  | .code => withAnalysis directory cmd.path read (code cmd.settings)
  | .symbols => withAnalysis directory cmd.path read symbols
  | .tokens => tokens cmd.path cmd.settings.includeEnd read
  | .outline =>
    withProgram cmd.path read fun p => unlines ["\n".intercalate (p.outline 0)]
  | .source => withProgram cmd.path read Program.text

end Command

end CMinusMinus
