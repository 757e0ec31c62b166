import CMinusMinus.Asm.Text
import CMinusMinus.Generate.Stmt

/-!
# Code generation

Each global becomes storage in the data area and each function becomes code, in the order of
their declarations; structs become nothing.  The code of a function makes its frame, does what
its statements say, and unmakes the frame.
-/

namespace CMinusMinus

namespace Generate

/-- The storage of a global variable, whose size is written at once. -/
def global (d : VarDecl) : Except Fault (List Item) := do
  let (s, _) ← storageOf d.name
  if Text.isWritten s.shape.size then .ok (Asm.globalSlot (globalLabel s.name) s.shape.size)
  else .error ⟨.overlong s.shape.size, none⟩

/-- The code of a function with a frame. -/
def function (d : FnDecl) (frame : Frame) (ls : Labels) : Code := do
  let name := d.name.name
  let isMain := name == "main"
  let (body, ls) ← block name ls d.body
  .ok (Asm.functionEntry (functionLabel name) isMain ++ Asm.prologue frame.formals frame.locals
    ++ body ++ Asm.epilogue (exitLabel name) frame.formals isMain, ls)

/-- A fault of code generation, and the function whose code was being generated. -/
structure Stop where
  fault : Fault
  function : Option String

/-- The code of declarations.  `current` is the function that an earlier run stopped in; no
function is, once one has come to its end. -/
def decls (ls : Labels) (current : Option String) :
    List Decl → Except Stop (List Item × Option String)
  | [] => .ok ([], current)
  | d :: ds => do
    let (code, ls, current) ←
      match d with
      | .var v =>
        match v.role, global v with
        | .formal, _ => .error ⟨⟨.unknownDecl v.kind, v.span⟩, current⟩
        | .variable, .error fault => .error ⟨fault, current⟩
        | .variable, .ok code => .ok (code, ls, current)
      | .fn f =>
        match f.frame with
        | none => .error ⟨⟨.noFrame f.name.name, f.span⟩, current⟩
        | some frame =>
          match function f frame ls with
          | .error fault => .error ⟨fault, some f.name.name⟩
          | .ok (code, ls) => .ok (code, ls, none)
      | .struct _ => .ok ([], ls, current)
      | .unknown s => .error ⟨⟨.unknownDecl (Decl.unknown s).kind, s⟩, current⟩
    let (rest, current) ← decls ls current ds
    .ok (code ++ rest, current)

end Generate

/-- How code is generated. -/
structure CodeOptions where
  /-- Whether items carry comments. -/
  comments : Bool := true
  /-- Whether equal string constants share one. -/
  pool : Bool := false
  deriving DecidableEq, Repr

/-- The items as the options want them. -/
def CodeOptions.finish (o : CodeOptions) (items : List Item) : List Item :=
  if o.comments then items else items.map Item.bare

/-- The code of a program, and the function that an earlier run stopped in, unless a function
came to its end since. -/
def Program.generateFrom (o : CodeOptions) (current : Option String) (p : Program) :
    Except Generate.Stop (List Item × Option String) := do
  let (items, current) ← Generate.decls { pool := o.pool } current p.decls
  .ok (o.finish items, current)

/-- The code of a program. -/
def Program.generate (o : CodeOptions) (p : Program) : Except Fault (List Item) :=
  match p.generateFrom o none with
  | .ok (items, _) => .ok items
  | .error stop => .error stop.fault

end CMinusMinus
