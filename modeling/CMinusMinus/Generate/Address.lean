import CMinusMinus.Asm.Emit
import CMinusMinus.Generate.Label
import CMinusMinus.Syntax

/-!
# Addresses

A location is a variable and a path of fields in it.  Its address is that of the variable, which
is a label or lies below the frame pointer, and a number of bytes above it, the sum of the
offsets of the fields on the path.
-/

namespace CMinusMinus.Generate

/-- The symbol of an identifier, which has to be bound. -/
def symbolOf (x : Ident) : Except Fault Symbol :=
  match x.binding with
  | .bound s => .ok s
  | _ => .error ⟨.unbound x.name, x.info.span⟩

/-- The operand that denotes the lowest word of storage, if it has a place of its own. -/
def placeOperand? (s : Storage) : Option Operand :=
  match s.place with
  | .static => some (.label (globalLabel s.name))
  | .frame offset => some (.indexed .fp (-offset))
  | .unplaced => none

/-- The storage that an identifier denotes, with the operand of its lowest word. -/
def storageOf (x : Ident) : Except Fault (Storage × Operand) := do
  match ← symbolOf x with
  | .storage s =>
    match placeOperand? s with
    | some operand => .ok (s, operand)
    | none => .error ⟨.noOffset x.name, x.info.span⟩
  | _ => .error ⟨.notStorage x.name, x.info.span⟩

/-- The variable that a location is part of, and the distance of the location from the beginning
of the variable. -/
def path : Exp → Except Fault (Ident × Nat)
  | .ident x => .ok (x, 0)
  | .access i link loc f => do
    let _ ← symbolOf f
    match link.owner.bind (·.field? f.name) with
    | none => .error ⟨.accessUnresolved, i.span⟩
    | some field =>
      let (root, offset) ← path loc
      .ok (root, offset + field.offset)
  | e => .error ⟨.addressOf e.kind, e.span⟩

/-- Puts the address of a location into `$t0`. -/
def address (e : Exp) : Except Fault (List Item) := do
  let (root, offset) ← path e
  let (_, operand) ← storageOf root
  .ok (Asm.loadAddress .t0 operand (some ("&" ++ root.name))
    ++ if offset = 0 then [] else Asm.op3 .addu .t0 .t0 (.imm offset))

end CMinusMinus.Generate
