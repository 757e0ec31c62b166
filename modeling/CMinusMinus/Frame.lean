import CMinusMinus.Symbol

/-!
# Frames

The frame of a function has three areas.  From the frame pointer downwards they are the formals,
one word each, the return address and the caller's frame pointer, and the locals in the order in
which they are declared, those of inner blocks included.  Storage is known by the distance of its
lowest word below the frame pointer.

A frame is laid out by placing one formal or local after another.
-/

namespace CMinusMinus

/-- The areas of a function's frame in bytes, as far as it has been laid out. -/
structure Frame where
  formals : Nat := 0
  locals : Nat := 0
  deriving DecidableEq, Repr

namespace Frame

/-- Where the next formal lies. -/
def formalOffset (f : Frame) : Nat := f.formals

/-- The frame with one more formal. -/
def addFormal (f : Frame) : Frame := { f with formals := f.formals + wordSize }

/-- The bytes of the return address and the caller's frame pointer. -/
def savedSize : Nat := 2 * wordSize

/-- Where the next local lies, if it takes `size` bytes: its highest word follows what has been
laid out. -/
def localOffset (f : Frame) (size : Nat) : Int :=
  (f.formals : Int) + savedSize + f.locals + size - wordSize

/-- The frame with one more local of `size` bytes. -/
def addLocal (f : Frame) (size : Nat) : Frame := { f with locals := f.locals + size }

@[simp] theorem formals_addLocal (f : Frame) (size : Nat) :
    (f.addLocal size).formals = f.formals := rfl

@[simp] theorem locals_addLocal (f : Frame) (size : Nat) :
    (f.addLocal size).locals = f.locals + size := rfl

@[simp] theorem formals_addFormal (f : Frame) : f.addFormal.formals = f.formals + wordSize := rfl

@[simp] theorem locals_addFormal (f : Frame) : f.addFormal.locals = f.locals := rfl

end Frame

end CMinusMinus
