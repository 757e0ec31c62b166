import CMinusMinus.Position
import CMinusMinus.Text.Digit

/-!
# Internal errors

A pass that meets a tree which no earlier pass can have left behind stops with a *fault*.  A
fault is an error of the compiler and not of the program, so it is no diagnostic.

One fault is not foreseen as such: a pass writes the sizes and distances that it finds into its log
or its output, and stops at one with more digits than are ever written.
-/

namespace CMinusMinus

/-- Why a pass stopped. -/
inductive FaultCause where
  /-- A scope was left that was never entered. -/
  | scopeUnderflow
  /-- An operation on scopes needs one, and there is none. -/
  | noScope (operation : String)
  /-- A scope was entered and never left. -/
  | unbalancedScopes
  /-- A field was asked of something that is no location. -/
  | accessOn (kind : String)
  /-- A field access whose struct is unknown. -/
  | accessUnresolved
  /-- The address was asked of something that is no location. -/
  | addressOf (kind : String)
  /-- An identifier without a binding. -/
  | unbound (name : String)
  /-- An identifier that name resolution has not seen. -/
  | neverResolved (name : String)
  | unknownType (kind : String)
  | unknownDecl (kind : String)
  | unknownStmt (kind : String)
  | unknownExp (kind : String)
  | unknownOperator (operator : String)
  /-- There is no program to generate code for. -/
  | noProgram
  /-- A function whose frame was not laid out. -/
  | noFrame (name : String)
  | structAsScalar (name : String)
  | notStorage (name : String)
  /-- A variable without a place in its frame. -/
  | noOffset (name : String)
  /-- An operand of `cout` whose type was not recorded. -/
  | untypedWrite
  /-- A number to be written that has too many digits. -/
  | overlong (number : Int)
  deriving DecidableEq, Repr

namespace FaultCause

/-- The cause in words. -/
def message : FaultCause → String
  | .scopeUnderflow => "[ICE-1010] scope stack underflow"
  | .noScope operation => "[ICE-1011] " ++ operation ++ " on an empty scope stack"
  | .unbalancedScopes => "[ICE-1012] unbalanced scopes after name resolution"
  | .accessOn kind => "[ICE-1020] dot-access on unexpected node kind " ++ kind
  | .accessUnresolved => "[ICE-1020] dot-access without a resolved struct"
  | .addressOf kind => "[ICE-1020] location rooted at unexpected node kind " ++ kind
  | .unbound name => "[ICE-1030] identifier '" ++ name ++ "' has no resolved binding"
  | .neverResolved name => "[ICE-1031] identifier '" ++ name ++ "' was never resolved"
  | .unknownType kind => "[ICE-1040] unknown type node " ++ kind
  | .unknownDecl kind => "[ICE-1040] unexpected top-level declaration " ++ kind
  | .unknownStmt kind => "[ICE-1040] unexpected statement " ++ kind
  | .unknownExp kind => "[ICE-1040] unexpected expression " ++ kind
  | .unknownOperator operator => "[ICE-1041] unknown binary operator '" ++ operator ++ "'"
  | .noProgram => "[ICE-1060] no program to generate code for"
  | .noFrame name => "[ICE-1062] function '" ++ name ++ "' has no frame layout"
  | .structAsScalar name => "[ICE-1063] struct '" ++ name ++ "' used as a scalar value"
  | .notStorage name => "[ICE-1064] identifier '" ++ name ++ "' does not denote storage"
  | .noOffset name => "[ICE-1065] variable '" ++ name ++ "' has no frame offset"
  | .untypedWrite => "[ICE-1066] write operand has no recorded type"
  | .overlong _ => "a number has more than " ++ toString Text.maxDigits ++ " digits"

/-- Whether the report names the file.  Scopes and types are looked at without one. -/
def namesFile : FaultCause → Bool
  | .scopeUnderflow | .noScope _ | .unknownType _ => false
  | _ => true

end FaultCause

/-- A cause and the stretch of text it concerns, if that is known. -/
structure Fault where
  cause : FaultCause
  span : Option Span
  deriving DecidableEq, Repr

namespace Fault

/-- Whether the code of an internal error begins somewhere in a text. -/
def hasCode : List Char → Bool
  | [] => false
  | c :: cs => ['[', 'I', 'C', 'E', '-'].isPrefixOf (c :: cs) || hasCode cs

/-- The report of an internal error.  The place is told only together with a file. -/
def describe (message : String) (file : Option String) (span : Option Span) : String :=
  let text := "internal compiler error: "
    ++ (if hasCode message.toList then message else "[ICE-9999] " ++ message)
  match file.filter (· != ""), span with
  | none, _ => text
  | some f, none => f ++ ": " ++ text
  | some f, some s =>
    f ++ ":" ++ toString s.startLine ++ ":" ++ toString s.startColumn ++ ": " ++ text

/-- The report of a fault in a file. -/
def report (f : Fault) (file : Option String) : String :=
  describe f.cause.message (file.filter fun _ => f.cause.namesFile) f.span

end Fault

end CMinusMinus
