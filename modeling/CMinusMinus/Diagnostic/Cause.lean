import CMinusMinus.Syntax.Error
import CMinusMinus.Token.Error

/-!
# Causes of diagnostics

Whatever the compiler has to say about a program has a cause, and its words follow from the
cause alone.  A message begins with a code, the letters of which tell the stage that reports it.
-/

namespace CMinusMinus

/-- Why name resolution rejects a declaration or a use of a name. -/
inductive NameCause where
  /-- A variable, field or formal of type `void`. -/
  | voidVariable
  /-- A struct type whose struct was not declared before. -/
  | unknownStruct (name : String)
  /-- The second declaration of a name in one scope. -/
  | duplicate (name : String)
  /-- The second field of a name in one struct. -/
  | duplicateField (name : String)
  /-- A name that no open scope declares. -/
  | undeclared (name : String)
  /-- A field is asked of something that is no struct. -/
  | notStruct
  /-- A struct does not have the field. -/
  | noField (name : String)
  deriving DecidableEq, Repr

namespace NameCause

/-- The cause in words. -/
def message : NameCause → String
  | .voidVariable => "[RES-0010] non-function declared void"
  | .unknownStruct name => "[RES-0020] invalid name of struct type '" ++ name ++ "'"
  | .duplicate name => "[RES-0030] multiply declared identifier '" ++ name ++ "'"
  | .duplicateField name => "[RES-0031] multiply declared struct field '" ++ name ++ "'"
  | .undeclared name => "[RES-0040] undeclared identifier '" ++ name ++ "'"
  | .notStruct => "[RES-0050] dot-access of non-struct type"
  | .noField name => "[RES-0060] invalid struct field name '" ++ name ++ "'"

end NameCause

/-- Why type checking rejects an expression or a statement. -/
inductive TypeCause where
  | arithmetic | logical | relational
  | equalVoids | equalFunctions | equalStructNames | equalStructs | mismatch
  | assignFunction | assignStructName | assignStruct
  | callee | argCount | argType
  | ifCondition | loopCondition
  | readFunction | readStructName | readStruct | readVoid
  | writeFunction | writeStructName | writeStruct | writeVoid
  | voidReturn | returnType | noReturnValue
  | noMain
  deriving DecidableEq, Repr

namespace TypeCause

/-- The cause in words. -/
def message : TypeCause → String
  | .arithmetic => "[TYP-0010] arithmetic operator applied to non-numeric operand"
  | .logical => "[TYP-0020] logical operator applied to non-bool operand"
  | .relational => "[TYP-0030] relational operator applied to non-numeric operand"
  | .equalVoids => "[TYP-0040] equality operator applied to void functions"
  | .equalFunctions => "[TYP-0041] equality operator applied to functions"
  | .equalStructNames => "[TYP-0042] equality operator applied to struct names"
  | .equalStructs => "[TYP-0043] equality operator applied to struct variables"
  | .mismatch => "[TYP-0050] type mismatch"
  | .assignFunction => "[TYP-0060] function assignment"
  | .assignStructName => "[TYP-0061] struct name assignment"
  | .assignStruct => "[TYP-0062] struct variable assignment"
  | .callee => "[TYP-0070] attempt to call a non-function"
  | .argCount => "[TYP-0071] function call with wrong number of args"
  | .argType => "[TYP-0072] type of actual does not match type of formal"
  | .ifCondition => "[TYP-0080] non-bool expression used as an if condition"
  | .loopCondition => "[TYP-0081] non-bool expression used as a while condition"
  | .readFunction => "[TYP-0090] attempt to read a function"
  | .readStructName => "[TYP-0091] attempt to read a struct name"
  | .readStruct => "[TYP-0092] attempt to read a struct variable"
  | .readVoid => "[TYP-0093] attempt to read void"
  | .writeFunction => "[TYP-0100] attempt to write a function"
  | .writeStructName => "[TYP-0101] attempt to write a struct name"
  | .writeStruct => "[TYP-0102] attempt to write a struct variable"
  | .writeVoid => "[TYP-0103] attempt to write void"
  | .voidReturn => "[TYP-0110] return with a value in a void function"
  | .returnType => "[TYP-0111] bad return value"
  | .noReturnValue => "[TYP-0112] missing return value"
  | .noMain => "[TYP-0120] no main function"

end TypeCause

/-- Why there is a diagnostic. -/
inductive Cause where
  | lexical (c : LexCause)
  | syntactic (e : SyntaxError)
  | naming (c : NameCause)
  | typing (c : TypeCause)
  /-- The source file cannot be read, for the given reason. -/
  | unreadable (reason : String)
  /-- A message from elsewhere. -/
  | other (message : String)

namespace Cause

/-- The cause in words. -/
def message : Cause → String
  | .lexical c => c.message
  | .syntactic e => e.message
  | .naming c => c.message
  | .typing c => c.message
  | .unreadable reason => "[DRV-0010] cannot read source file: " ++ reason
  | .other message => message

end Cause

end CMinusMinus
