import CMinusMinus.Frame
import CMinusMinus.Resolve.Exp

/-!
# Declarations of variables

A variable is accepted unless it is of type `void`, its struct is not among the global ones, or
its scope has its name already.  Only accepted variables are entered into the scope and take
storage, except that a formal takes its word of the frame in any case, since the caller passes
one.

Where an accepted local lies is logged, and so is the size of an accepted struct.  The log is
written whether or not it is shown, so the pass stops at a number that cannot be written.
-/

namespace CMinusMinus

namespace Resolve

/-- The type of a declared variable with its struct bound, and the shape of the storage that the
variable would take, if it can have any. -/
def shape (env : Env) (d : VarDecl) : Resolved (TypeNode × Option (Shape StructDef)) :=
  match d.type with
  | .int s => .pure (.int s, some (.scalar .int))
  | .bool s => .pure (.bool s, some (.scalar .bool))
  | .void s => .reporting (.void s, none) [NameCause.voidVariable.report d.name.info.span]
  | .struct s x =>
    match env.outer? x.name with
    | some (.struct layout) => .pure (.struct s (x.bind (.struct layout)), some (.struct layout))
    | _ =>
      .reporting (.struct s x.fail, none) [(NameCause.unknownStruct x.name).report x.info.span]
  | .unknown s => .stop (.unknown s, none) ⟨.unknownType (TypeNode.unknown s).kind, s⟩

/-- The declaration with its names bound, and the storage it introduces if it is accepted.
`taken` tells whether its scope has its name already, and `place` where storage of a shape will
lie. -/
def declare (env : Env) (taken : Option NameCause) (place : Shape StructDef → Place)
    (d : VarDecl) : Resolved (VarDecl × Option Storage) :=
  (shape env d).andThen (fun (type, _) => ({ d with type }, none)) fun (type, shape?) =>
    match taken, shape? with
    | some cause, _ =>
      .reporting ({ d with type, name := d.name.fail }, none) [cause.report d.name.info.span]
    | none, none => .pure ({ d with type, name := d.name.fail }, none)
    | none, some shape =>
      let s : Storage := ⟨d.name.name, d.span, place shape, shape⟩
      .pure ({ d with type, name := d.name.bind (.storage s) }, some s)

/-- Why a name cannot be declared in the innermost scope, if it cannot. -/
def taken (env : Env) (name : String) : Option NameCause :=
  (env.inner? name).map fun _ => .duplicate name

/-- The scopes with an accepted variable. -/
def extend (env : Env) : Option Storage → Env
  | some s => env.insert s.name (.storage s)
  | none => env

/-- What has been resolved when a number is logged, if one is. -/
def logged {α : Type} (number : Option Int) (a : α) : Resolved α :=
  match number.filter fun n => !Text.isWritten n with
  | some n => .stop a ⟨.overlong n, none⟩
  | none => .pure a

@[simp] theorem value_logged {α : Type} (number : Option Int) (a : α) :
    (logged number a).value = a := by
  unfold logged
  split <;> rfl

@[simp] theorem reports_logged {α : Type} (number : Option Int) (a : α) :
    (logged number a).reports = [] := by
  unfold logged
  split <;> rfl

@[simp] theorem logged_none {α : Type} (a : α) : logged none a = .pure a := rfl

theorem logged_of_fault {α : Type} {number : Option Int} {a : α}
    (h : (logged number a).fault = none) : logged number a = .pure a := by
  unfold logged at h ⊢
  split at h
  · cases h
  · rfl

theorem logged_eq_map {α β : Type} (number : Option Int) (f : α → β) (a : α) :
    logged number (f a) = (logged number a).map f := by
  unfold logged
  split <;> rfl

theorem logged_of_isWritten {α : Type} {n : Int} (h : Text.isWritten n = true) (a : α) :
    logged (some n) a = .pure a := by
  simp [logged, Option.filter, h]

theorem logged_of_not_isWritten {α : Type} {n : Int} (h : Text.isWritten n = false) (a : α) :
    logged (some n) a = .stop a ⟨.overlong n, none⟩ := by
  simp [logged, Option.filter, h]

/-- The pass came to its end only over a number that can be written. -/
theorem isWritten_of_logged {α : Type} {n : Int} {a : α}
    (h : (logged (some n) a).fault = none) : Text.isWritten n = true := by
  cases hn : Text.isWritten n with
  | true => rfl
  | false =>
    rw [logged_of_not_isWritten hn] at h
    cases h

/-! ## Locals -/

/-- The frame with an accepted local. -/
def extendFrame (frame : Frame) : Option Storage → Frame
  | some s => frame.addLocal s.shape.size
  | none => frame

/-- The number that is logged of a local: where it lies, if it is accepted. -/
def localNumber (frame : Frame) (s : Option Storage) : Option Int :=
  s.map fun s => frame.localOffset s.shape.size

/-- One local. -/
def localVar (env : Env) (frame : Frame) (d : VarDecl) : Resolved (VarDecl × Env × Frame) :=
  (declare env (taken env d.name.name)
    (fun shape => .frame (frame.localOffset shape.size)) d).andThen
    (fun (d, s) => (d, extend env s, extendFrame frame s))
    fun (d, s) => logged (localNumber frame s) (d, extend env s, extendFrame frame s)

theorem value_localVar (env : Env) (frame : Frame) (d : VarDecl) :
    (localVar env frame d).value =
      (let v := (declare env (taken env d.name.name)
        (fun shape => .frame (frame.localOffset shape.size)) d).value
      (v.1, extend env v.2, extendFrame frame v.2)) := by
  unfold localVar Outcome.andThen
  split <;> simp

/-- The locals that a block declares. -/
def localVars (env : Env) (frame : Frame) : List VarDecl → Resolved (List VarDecl × Env × Frame)
  | [] => .pure ([], env, frame)
  | d :: ds =>
    (localVar env frame d).andThen (fun (d, env, frame) => (d :: ds, env, frame))
      fun (d, env, frame) => (localVars env frame ds).map fun (ds, rest) => (d :: ds, rest)

/-! ## Formals -/

/-- The formals of a function. -/
def formals (env : Env) (frame : Frame) : List VarDecl → Resolved (List VarDecl × Env × Frame)
  | [] => .pure ([], env, frame)
  | d :: ds =>
    (declare env (taken env d.name.name) (fun _ => .frame frame.formalOffset) d).andThen
      (fun (d, s) => (d :: ds, extend env s, frame))
      fun (d, s) =>
        (formals (extend env s) frame.addFormal ds).map fun (ds, rest) => (d :: ds, rest)

/-- The type that a formal gives to its function.  That of a void one is an error, which was
reported where the formal was declared. -/
def paramType : TypeNode → Ty
  | .void _ => .error
  | t => match t.type with
    | .ok type => type
    | .error _ => .absent

/-! ## Fields -/

/-- The fields before the next one and the bytes they take, with an accepted field. -/
def addField (before : List (Field StructDef)) (size : Nat) :
    Option Storage → List (Field StructDef) × Nat
  | some s => (before ++ [⟨s.name, s.site, size, s.shape⟩], size + s.shape.size)
  | none => (before, size)

/-- Why a name cannot be that of the next field, if it cannot. -/
def takenField (before : List (Field StructDef)) (name : String) : Option NameCause :=
  if before.any (·.name == name) then some (.duplicateField name) else none

/-- The fields of a struct together with those before them, which take `size` bytes. -/
def fields (env : Env) (before : List (Field StructDef)) (size : Nat) :
    List VarDecl → Resolved (List VarDecl × List (Field StructDef) × Nat)
  | [] => .pure ([], before, size)
  | d :: ds =>
    (declare env (takenField before d.name.name) (fun _ => .unplaced) d).andThen
      (fun (d, _) => (d :: ds, before, size))
      fun (d, s) =>
        let (before, size) := addField before size s
        (fields env before size ds).map fun (ds, rest) => (d :: ds, rest)

end Resolve

end CMinusMinus
