import CMinusMinus.Check
import CMinusMinus.Generate
import CMinusMinus.Parse
import CMinusMinus.Resolve

/-!
# Compilations

A compilation is what is known about one source file: its program as far as the passes have
annotated it, the names it declares, and the diagnostics so far.  A pass takes the compilation
and returns it as far as the pass came, together with the pass's own result or the fault that
stopped it.

`analyze` runs the passes up to type checking.  A text that is no program ends in a compilation
too, with one diagnostic and no program.  Code is generated only from a program without errors.
-/

namespace CMinusMinus

/-- What is known about a source file. -/
structure Compilation where
  file : Option String := none
  program : Option Program := none
  /-- The accepted declarations at the top of the program. -/
  globals : Scope Symbol := []
  hasMain : Bool := false
  /-- The function that code generation stopped in, if it did. -/
  current : Option String := none
  diagnostics : List Diagnostic := []

/-- A compilation after a pass, and what the pass answers. -/
structure Pass (α : Type) where
  after : Compilation
  result : Except Fault α

namespace ParseError

/-- What is reported of a text that is no program.  A numeral that cannot be read is not the
text's fault. -/
def report? : ParseError → Option Report
  | .scan (.refused e) => some ⟨.lexical e.cause, .ofPosition e.position⟩
  | .scan (.unreadable _) => none
  | .syntactic e => some ⟨.syntactic e, .ofPosition e.token.position⟩

end ParseError

namespace Compilation

/-! ## Diagnostics -/

/-- The compilation with more errors in its file. -/
def report (c : Compilation) (rs : List Report) : Compilation :=
  { c with diagnostics := c.diagnostics ++ rs.map (Diagnostic.ofReport c.file) }

/-- Whether some diagnostic is an error. -/
def hasErrors (c : Compilation) : Bool := c.diagnostics.any Diagnostic.isError

/-- Whether some diagnostic is a warning. -/
def hasWarnings (c : Compilation) : Bool := c.diagnostics.any Diagnostic.isWarning

/-- The number of errors among the diagnostics. -/
def errorCount (c : Compilation) : Nat := c.diagnostics.countP Diagnostic.isError

theorem hasErrors_iff (c : Compilation) : c.hasErrors = true ↔ 0 < c.errorCount := by
  simp [hasErrors, errorCount, List.countP_pos_iff]

/-- Whether there is a program without errors. -/
def isSound (c : Compilation) : Bool := c.program.isSome && !c.hasErrors

/-! ## Passes -/

/-- A pass that needs a program and has none. -/
def stopWithoutProgram {α : Type} (c : Compilation) : Pass α := ⟨c, .error ⟨.noProgram, none⟩⟩

/-- Binds the names of the program, in scopes that are open already, and answers its globals. -/
def resolveIn (enclosing : Env) (c : Compilation) : Pass (Scope Symbol) :=
  match c.program with
  | none => c.stopWithoutProgram
  | some p =>
    let r := p.resolveIn enclosing
    let c :=
      { c with program := some r.program, hasMain := c.hasMain || r.hasMain }.report r.reports
    match r.fault, r.globals with
    | some fault, _ => ⟨c, .error fault⟩
    | none, none => ⟨c, .ok c.globals⟩
    | none, some globals => ⟨{ c with globals }, .ok globals⟩

/-- Binds the names of the program. -/
def resolve (c : Compilation) : Pass (Scope Symbol) := c.resolveIn []

/-- Checks the types of the program. -/
def check (c : Compilation) : Pass Unit :=
  match c.program with
  | none => c.stopWithoutProgram
  | some p =>
    let o := p.check c.hasMain
    ⟨{ c with program := some o.value }.report o.reports,
      match o.fault with
      | some fault => .error fault
      | none => .ok ()⟩

/-- Generates the code of the program, whatever its diagnostics. -/
def emit (o : CodeOptions) (c : Compilation) : Pass (List Item) :=
  match c.program with
  | none => c.stopWithoutProgram
  | some p =>
    match p.generateFrom o c.current with
    | .ok (items, current) => ⟨{ c with current }, .ok items⟩
    | .error stop => ⟨{ c with current := stop.function }, .error stop.fault⟩

/-- Generates the code of the program, if it has no errors. -/
def generate (o : CodeOptions) (c : Compilation) : Pass (Option (List Item)) :=
  if c.isSound then
    let p := c.emit o
    ⟨p.after, p.result.map some⟩
  else ⟨c, .ok none⟩

/-! ## Analysis -/

/-- What ends a compilation without a result. -/
inductive Abort where
  /-- A numeral that is well placed and cannot be read, or that is too long to be written. -/
  | numeral (digits : String)
  | fault (f : Fault)

/-- How a fault ends a compilation. -/
def Abort.ofFault (f : Fault) : Abort :=
  match f.cause with
  | .overlong number => .numeral (toString number)
  | _ => .fault f

/-- The compilation of a source text up to its types. -/
def analyze (file : Option String) (source : String) : Except Abort Compilation :=
  let c : Compilation := { file }
  match Program.parse file source with
  | .error (.scan (.unreadable digits)) => .error (.numeral digits)
  | .error e => .ok (c.report e.report?.toList)
  | .ok p =>
    let p := { c with program := some p }.resolve
    match p.result with
    | .error fault => .error (.ofFault fault)
    | .ok _ =>
      let p := p.after.check
      match p.result with
      | .error fault => .error (.ofFault fault)
      | .ok () => .ok p.after

/-- The compilation of a source file that cannot be read. -/
def ofUnreadable (file reason : String) : Compilation :=
  { file := some file, diagnostics := [{ cause := .unreadable reason }] }

/-- The compilation of a source text with its code, if it has any. -/
def compile (o : CodeOptions) (file : Option String) (source : String) :
    Except Abort (Compilation × Option (List Item)) :=
  match analyze file source with
  | .error a => .error a
  | .ok c =>
    let p := c.generate o
    match p.result with
    | .error fault => .error (.ofFault fault)
    | .ok items => .ok (p.after, items)

end Compilation

end CMinusMinus
