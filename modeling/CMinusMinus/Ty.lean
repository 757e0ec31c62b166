/-!
# Types

The type of an expression is a word type, the type of a struct variable, or what a name that
denotes no value has: the type of functions or that of struct definitions.  `error` is the type
of an expression with a fault that has been reported.  It equals no type, itself included, so a
comparison with it never succeeds; whoever compares types asks for it first and stays silent.
-/

namespace CMinusMinus

/-- Types of expressions. -/
inductive Ty where
  | int
  | bool
  | void
  | string
  /-- A built-in type of another name, which no rule accepts. -/
  | named (name : String)
  /-- The type of a variable of the struct of this name. -/
  | struct (name : String)
  /-- The type of a function's name. -/
  | function
  /-- The type of a struct's name. -/
  | definition
  /-- The type of an expression that was reported. -/
  | error
  /-- No type was given. -/
  | absent
  deriving DecidableEq, Repr

namespace Ty

/-- The built-in type of a name. -/
def ofName (name : String) : Ty :=
  if name = "int" then .int
  else if name = "bool" then .bool
  else if name = "void" then .void
  else if name = "string" then .string
  else .named name

/-- Equality of types as the rules of the language use it: the error type equals nothing. -/
def agrees (s t : Ty) : Bool := s = t && s != .error

theorem agrees_iff {s t : Ty} : s.agrees t = true ↔ s = t ∧ s ≠ .error := by
  simp [agrees]

@[simp] theorem agrees_error (t : Ty) : t.agrees .error = false := by
  cases t <;> simp [agrees]

@[simp] theorem error_agrees (t : Ty) : Ty.agrees .error t = false := by simp [agrees]

/-- Whether the type is that of some struct's variables. -/
def isStruct : Ty → Bool
  | .struct _ => true
  | _ => false

/-- How a type is shown. -/
def shown : Ty → String
  | .int => "int"
  | .bool => "bool"
  | .void => "void"
  | .string => "string"
  | .named name => name
  | .struct name => "struct " ++ name
  | .function => "function"
  | .definition => "struct definition"
  | .error => "<error>"
  | .absent => "<none>"

end Ty

end CMinusMinus
