import CMinusMinus.Position
import CMinusMinus.Ty

/-!
# Symbols

A symbol is what an accepted declaration introduces: storage, a function or a struct definition.
Storage is one word of a scalar type, or a struct; a struct's storage is its fields one after
another, the first at the lowest address.  A struct definition keeps its size and the offset of
each field, so that neither is computed again for each use.

A symbol remembers its *site*, the stretch of the text that declares it.  Two declarations of a
text have different sites, so the site tells symbols apart that agree in all else.
-/

namespace CMinusMinus

/-- The bytes of a word, which is also what a scalar takes. -/
def wordSize : Nat := 4

/-- What storage holds, over a type `δ` of struct definitions. -/
inductive Shape (δ : Type) where
  /-- One word of a scalar type. -/
  | scalar (type : Ty)
  /-- The fields of a struct. -/
  | struct (layout : δ)

/-- A field of a struct and its distance from the beginning of the struct. -/
structure Field (δ : Type) where
  name : String
  site : Option Span
  offset : Nat
  shape : Shape δ

/-- A name among fields that are listed with their names. -/
theorem Field.lookup_map {δ α : Type} (fs : List (Field δ)) (g : Field δ → α) (name : String) :
    (fs.map fun f => (f.name, g f)).lookup name = (fs.find? (·.name == name)).map g := by
  induction fs with
  | nil => rfl
  | cons f fs ih =>
    rw [List.map_cons, List.lookup_cons, List.find?_cons, BEq.comm (a := name)]
    cases f.name == name with
    | true => rfl
    | false => exact ih

/-- A struct: its accepted fields in order, and its size in bytes. -/
structure StructDef where
  name : String
  site : Option Span
  fields : List (Field StructDef)
  size : Nat

namespace Shape

/-- The type of the storage. -/
def type : Shape StructDef → Ty
  | .scalar t => t
  | .struct d => .struct d.name

/-- The bytes that the storage takes. -/
def size : Shape StructDef → Nat
  | .scalar _ => wordSize
  | .struct d => d.size

/-- The struct that the storage is of, if it is of one. -/
def struct? : Shape StructDef → Option StructDef
  | .scalar _ => none
  | .struct d => some d

end Shape

/-- The field of a name. -/
def StructDef.field? (d : StructDef) (name : String) : Option (Field StructDef) :=
  d.fields.find? (·.name == name)

/-- Where storage lies. -/
inductive Place where
  /-- In the data area, under a label of its own. -/
  | static
  /-- In the frame of a function, its lowest word this far below the frame pointer. -/
  | frame (offset : Int)
  /-- Nowhere by itself: a field, whose place depends on the struct it is in. -/
  | unplaced
  deriving DecidableEq, Repr

/-- A variable, formal or field. -/
structure Storage where
  name : String
  site : Option Span
  place : Place
  shape : Shape StructDef

/-- A function: its result and the types of its formals.  `arity` is the number of formals,
which is known before their types are. -/
structure Signature where
  name : String
  site : Option Span
  returns : Ty
  arity : Nat
  params : List Ty

/-- What a name denotes. -/
inductive Symbol where
  | storage (s : Storage)
  | function (f : Signature)
  | struct (d : StructDef)

/-- A field as a symbol of its own. -/
def Field.storage (f : Field StructDef) : Storage := ⟨f.name, f.site, .unplaced, f.shape⟩

namespace Symbol

/-- The name a symbol was declared under. -/
def name : Symbol → String
  | .storage s => s.name
  | .function f => f.name
  | .struct d => d.name

/-- Where a symbol was declared. -/
def site : Symbol → Option Span
  | .storage s => s.site
  | .function f => f.site
  | .struct d => d.site

/-- The type of the expression that is just the symbol's name. -/
def type : Symbol → Ty
  | .storage s => s.shape.type
  | .function _ => .function
  | .struct _ => .definition

/-! ## Listings -/

/-- The kind of a symbol in listings. -/
def kind : Symbol → String
  | .storage ⟨_, _, _, .scalar _⟩ => "VARIABLE"
  | .storage ⟨_, _, _, .struct _⟩ => "STRUCT_INSTANCE"
  | .function _ => "FUNCTION"
  | .struct _ => "STRUCT_DEFINITION"

/-- How a place is shown. -/
def shownPlace : Place → String
  | .static => "global"
  | .frame offset => "fp-" ++ toString offset
  | .unplaced => "field"

/-- How storage is shown. -/
def shownStorage (type : Ty) (place : Place) : String :=
  type.shown ++ " [" ++ shownPlace place ++ "]"

/-- How a function is shown. -/
def shownFunction (params : List Ty) (returns : Ty) : String :=
  ",".intercalate (params.map Ty.shown) ++ "->" ++ returns.shown

/-- How a struct is shown, from its fields' names with what is shown for each. -/
def shownStruct (fields : List (String × String)) (size : Int) : String :=
  "struct \x7b" ++ "; ".intercalate (fields.map fun f => f.1 ++ ": " ++ f.2) ++ "\x7d (size "
    ++ toString size ++ ")"

/-- How a symbol is shown. -/
def shown : Symbol → String
  | .storage s => shownStorage s.shape.type s.place
  | .function f => shownFunction f.params f.returns
  | .struct d =>
    shownStruct (d.fields.map fun f => (f.name, shownStorage f.shape.type .unplaced)) d.size

/-! ## Places -/

/-- The same symbol without its place in a frame. -/
def unplace : Symbol → Symbol
  | .storage ⟨name, site, .frame _, shape⟩ => .storage ⟨name, site, .unplaced, shape⟩
  | s => s

end Symbol

end CMinusMinus
