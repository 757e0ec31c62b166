import CMinusMinus.Diagnostic
import CMinusMinus.Syntax

/-!
# Typing rules

What type a node gets from the types of its parts, and what there is to report.  No rule speaks
of a part whose type is the error type: that part has been reported.  An operand that does not
fit is reported at its own place, and a pair that does not match at the place of the whole.
-/

namespace CMinusMinus

namespace TypeCause

/-- A report of type checking, placed at a node with the given span. -/
def reportAt (c : TypeCause) (span : Option Span) : Report := ⟨.typing c, .ofSpan? span⟩

/-- A report of type checking about an expression. -/
def report (c : TypeCause) (e : Exp) : Report := c.reportAt e.anchor.span

end TypeCause

namespace Check

/-- A part together with its type. -/
structure Part where
  exp : Exp
  type : Ty

/-- What a rule answers: a type and reports. -/
abbrev Verdict := Ty × List Report

/-- Reports a part whose type is neither the wanted one nor the error type. -/
def want (type : Ty) (cause : TypeCause) (p : Part) : List Report :=
  if p.type = .error ∨ p.type = type then [] else [cause.report p.exp]

/-- The type of a node whose parts have to be of one type. -/
def uniform (type result : Ty) (cause : TypeCause) (parts : List Part) : Verdict :=
  (if parts.all (·.type == type) then result else .error, parts.flatMap (want type cause))

/-- Why two sides of a common type cannot be compared. -/
def notComparable (l r : Ty) : Option TypeCause :=
  match l, r with
  | .void, .void => some .equalVoids
  | .function, .function => some .equalFunctions
  | .definition, .definition => some .equalStructNames
  | .struct _, .struct _ => some .equalStructs
  | _, _ => none

/-- Why a right side cannot be assigned to a left side of a common type. -/
def notAssignable (l r : Ty) : Option TypeCause :=
  match l, r with
  | .function, .function => some .assignFunction
  | .definition, .definition => some .assignStructName
  | .struct _, .struct _ => some .assignStruct
  | _, _ => none

/-- The type of a pair whose sides have to agree: `result`, unless they do not or a cause is
given why they cannot stand there. -/
def pair (cause : Option TypeCause) (result : Ty) (whole : Exp) (l r : Ty) : Verdict :=
  if l = .error ∨ r = .error then (.error, [])
  else match cause with
    | some c => (.error, [c.report whole])
    | none => if l.agrees r then (result, []) else (.error, [TypeCause.mismatch.report whole])

/-- A binary operator.  An operator that is none has no rule. -/
def binary (op : BinOp) (whole : Exp) (l r : Part) : Verdict :=
  match op with
  | .add | .sub | .mul | .div => uniform .int .int .arithmetic [l, r]
  | .and | .or => uniform .bool .bool .logical [l, r]
  | .less | .greater | .lessEq | .greaterEq => uniform .int .bool .relational [l, r]
  | .equal | .notEqual => pair (notComparable l.type r.type) .bool whole l.type r.type
  | .other _ => (.error, [])

/-- An assignment. -/
def assign (whole : Exp) (l r : Ty) : Verdict := pair (notAssignable l r) l whole l r

/-- Reports arguments that are not of the types of the formals. -/
def arguments (args : List Part) (params : List Ty) : List Report :=
  (args.zip params).flatMap fun (a, t) =>
    if a.type = .error ∨ t = .error ∨ a.type.agrees t then [] else [TypeCause.argType.report a.exp]

/-- A call.  Its type is that of the function's result, whatever the arguments are. -/
def call (callee : Ident) (args : List Part) : Verdict :=
  match callee.binding with
  | .bound (.function f) =>
    (f.returns,
      if args.length = f.arity then arguments args f.params
      else [TypeCause.argCount.reportAt callee.info.span])
  | .bound s =>
    if s.type = .error then (.error, []) else (.error, [TypeCause.callee.reportAt callee.info.span])
  | _ => (.error, [])

/-! ## Statements -/

/-- Why a value cannot be read into a location of a type. -/
def notReadable : Ty → Option TypeCause
  | .function => some .readFunction
  | .definition => some .readStructName
  | .struct _ => some .readStruct
  | .void => some .readVoid
  | _ => none

/-- Why a value of a type cannot be written. -/
def notWritable : Ty → Option TypeCause
  | .function => some .writeFunction
  | .definition => some .writeStructName
  | .struct _ => some .writeStruct
  | .void => some .writeVoid
  | _ => none

/-- A report if there is a cause. -/
def reportIf (cause : Option TypeCause) (e : Exp) : List Report :=
  (cause.map (·.report e)).toList

/-- A value that is returned from a function of the given result. -/
def returned (returns : Ty) (value : Part) : List Report :=
  if returns = .void then [TypeCause.voidReturn.report value.exp]
  else if value.type = .error ∨ value.type.agrees returns then []
  else [TypeCause.returnType.report value.exp]

end Check

end CMinusMinus
