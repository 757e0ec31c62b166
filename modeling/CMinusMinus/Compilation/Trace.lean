import CMinusMinus.Compilation
import CMinusMinus.Log

/-!
# The log of a compilation

What is logged while a file is compiled follows from the file's name, its text and the
compilation it leads to: each stage as it begins, and in detail what the stage looks at and what
it finds.
-/

namespace CMinusMinus

open Log (Message)

/-! ## Stages -/

namespace Trace

/-- What a file is called in the log. -/
def fileName (file : Option String) : String := (file.filter (· != "")).getD "<input>"

/-- While tokens are read from a text; the last message tells how many. -/
def scanning (file : Option String) (tokens : Except ScanError (List Token)) : List Message :=
  .debug ("Lexing " ++ fileName file) ::
    match tokens with
    | .ok ts => [.debug ("Lexed " ++ toString ts.length ++ " token(s)")]
    | .error _ => []

/-- While a text is read as a program. -/
def parsing (file : Option String) (source : String) : List Message :=
  let tokens := Token.scan source
  scanning file tokens ++
    match tokens with
    | .error _ => []
    | .ok ts =>
      .debug ("Parsing " ++ fileName file) ::
        match Program.ofTokens ts with
        | .ok p => [.debug ("Parsed " ++ toString p.decls.length ++ " top-level declaration(s)")]
        | .error _ => []

/-- A message that ends in a number.  There is none if the number cannot be written. -/
def counting (text : String) (number : Int) : List Message :=
  if Text.isWritten number then [.debug (text ++ toString number)] else []

/-- Where an accepted local lies. -/
def placing (d : VarDecl) : List Message :=
  match d.name.binding with
  | .bound (.storage s) =>
    match s.place with
    | .frame offset => counting ("local '" ++ s.name ++ "' at fp-") offset
    | _ => []
  | _ => []

mutual

/-- Where the locals of a statement lie. -/
def placingStmt : Stmt → List Message
  | .ifThen _ _ b | .while _ _ b => placingBlock b
  | .ifElse _ _ b₁ b₂ => placingBlock b₁ ++ placingBlock b₂
  | _ => []
termination_by structural s => s

/-- Where the locals of a block lie. -/
def placingBlock : Block Stmt → List Message
  | ⟨ds, _, ss⟩ => ds.items.flatMap placing ++ placingStmts ss
termination_by structural b => b

/-- Where the locals of statements lie. -/
def placingStmts : List Stmt → List Message
  | [] => []
  | s :: ss => placingStmt s ++ placingStmts ss
termination_by structural ss => ss

end

/-- While the names of a declaration were bound, as far as they are. -/
def resolvingDecl : Decl → List Message
  | .fn d =>
    match d.name.binding with
    | .pending => []
    | _ => .debug ("resolving function '" ++ d.name.name ++ "'") :: placingBlock d.body
  | .struct d =>
    match d.name.binding with
    | .bound (.struct s) => counting ("struct '" ++ s.name ++ "' has size ") s.size
    | _ => []
  | _ => []

/-- While the names of a program were bound. -/
def resolving (p : Program) : List Message :=
  .stage "Resolving names" :: p.decls.flatMap resolvingDecl

/-- A message for each function of a program. -/
def functions (activity : String) (p : Program) : List Message :=
  p.functions.map fun d => .debug (activity ++ " function '" ++ d.name.name ++ "'")

end Trace

/-! ## The whole -/

namespace Compilation

/-- While the names of the program were bound, its types checked, and the results counted. -/
def passTrace (c : Compilation) : List Message :=
  match c.program with
  | none => []
  | some p =>
    Trace.resolving p
      ++ .debug ("Name resolution found " ++ toString c.globals.length ++ " global symbol(s)")
      :: .stage "Type checking" :: Trace.functions "type checking" p
      ++ [.info ("Analysis complete: " ++ toString c.diagnostics.length ++ " total diagnostic(s), "
        ++ toString c.errorCount ++ " error(s)")]

/-- While a text was analyzed, with the compilation that came out, if one did.  If none did and
the text is a program, it was name resolution that stopped. -/
def analysisTrace (file : Option String) (source : String) (c : Option Compilation) :
    List Message :=
  .info ("Starting analysis of '" ++ Trace.fileName file ++ "'") :: .stage "Parsing" file
    :: Trace.parsing file source ++
      match c, Program.parse file source with
      | some c, _ => c.passTrace
      | none, .ok p => Trace.resolving p.resolve.program
      | none, .error _ => []

/-- While the code of the program was generated. -/
def codeTrace (c : Compilation) : List Message :=
  match c.program with
  | none => []
  | some p => .stage "Generating code for" c.file :: Trace.functions "generating" p

/-- While code was generated, if it was. -/
def generationTrace (c : Compilation) : List Message :=
  if c.isSound then c.codeTrace else [.info "Skipping code generation: program has errors"]

end Compilation

end CMinusMinus
