/-!
# Assembly

Assembly is a list of items: instructions with their operands, labels and directives.
Instructions and labels may carry a comment.  What the code generator emits has constructors of
its own; whatever else an assembler may know is `other`.
-/

namespace CMinusMinus

/-- Registers. -/
inductive Reg where
  | zero
  /-- Results and the numbers of system calls. -/
  | v0
  /-- The argument of a system call. -/
  | a0
  /-- Scratch registers. -/
  | t0 | t1 | t2
  /-- The stack pointer, at the next free word. -/
  | sp
  /-- The frame pointer. -/
  | fp
  /-- The return address. -/
  | ra
  | other (name : String)
  deriving DecidableEq, Repr

namespace Reg

/-- How the register is written after the dollar sign. -/
def name : Reg → String
  | .zero => "zero"
  | .v0 => "v0"
  | .a0 => "a0"
  | .t0 => "t0"
  | .t1 => "t1"
  | .t2 => "t2"
  | .sp => "sp"
  | .fp => "fp"
  | .ra => "ra"
  | .other name => name

/-- The registers that have a use in generated code. -/
def all : List Reg := [.zero, .v0, .a0, .t0, .t1, .t2, .sp, .fp, .ra]

/-- The register of a name. -/
def ofName (s : String) : Reg := (all.find? (·.name == s)).getD (.other s)

end Reg

/-- Operands of instructions. -/
inductive Operand where
  | reg (r : Reg)
  | imm (value : Int)
  | label (name : String)
  /-- The word at a distance from the address in a register. -/
  | indexed (base : Reg) (offset : Int)
  deriving DecidableEq, Repr

/-- Operations. -/
inductive Opcode where
  | sw | lw | li | la | move
  | add | sub | mul | div | addu | subu
  | and | or | xori | seq | sne
  | b | beq | bne | blt | bgt | ble | bge
  | jal | jr | syscall
  | other (name : String)
  deriving DecidableEq, Repr

namespace Opcode

/-- How the operation is written. -/
def name : Opcode → String
  | .sw => "sw"
  | .lw => "lw"
  | .li => "li"
  | .la => "la"
  | .move => "move"
  | .add => "add"
  | .sub => "sub"
  | .mul => "mul"
  | .div => "div"
  | .addu => "addu"
  | .subu => "subu"
  | .and => "and"
  | .or => "or"
  | .xori => "xori"
  | .seq => "seq"
  | .sne => "sne"
  | .b => "b"
  | .beq => "beq"
  | .bne => "bne"
  | .blt => "blt"
  | .bgt => "bgt"
  | .ble => "ble"
  | .bge => "bge"
  | .jal => "jal"
  | .jr => "jr"
  | .syscall => "syscall"
  | .other name => name

/-- The operations that generated code has. -/
def all : List Opcode :=
  [.sw, .lw, .li, .la, .move, .add, .sub, .mul, .div, .addu, .subu, .and, .or, .xori, .seq, .sne,
   .b, .beq, .bne, .blt, .bgt, .ble, .bge, .jal, .jr, .syscall]

/-- The operation of a name. -/
def ofName (s : String) : Opcode := (all.find? (·.name == s)).getD (.other s)

end Opcode

/-- Directives to the assembler. -/
inductive Directive where
  /-- What follows is data. -/
  | data
  /-- What follows is code. -/
  | text
  /-- What follows begins at a multiple of `2 ^ power` bytes. -/
  | align (power : Nat)
  /-- The label is visible from outside. -/
  | globl (label : String)
  /-- So many bytes of zeros. -/
  | space (bytes : Int)
  /-- A text with its escapes, and a zero byte after it. -/
  | asciiz (body : String)
  | other (name : String) (args : List String)
  deriving DecidableEq, Repr

namespace Directive

/-- How the directive is written after the dot. -/
def name : Directive → String
  | .data => "data"
  | .text => "text"
  | .align _ => "align"
  | .globl _ => "globl"
  | .space _ => "space"
  | .asciiz _ => "asciiz"
  | .other name _ => name

/-- What is written after the name. -/
def args : Directive → List String
  | .data | .text => []
  | .align power => [toString power]
  | .globl label => [label]
  | .space bytes => [toString bytes]
  | .asciiz body => ["\"" ++ body ++ "\""]
  | .other _ args => args

end Directive

/-- The items of assembly. -/
inductive Item where
  | instr (op : Opcode) (args : List Operand) (comment : Option String)
  | label (name : String) (comment : Option String)
  | directive (d : Directive)
  deriving DecidableEq, Repr

namespace Item

/-- The item without its comment. -/
def bare : Item → Item
  | .instr op args _ => .instr op args none
  | .label name _ => .label name none
  | .directive d => .directive d

@[simp] theorem bare_bare (i : Item) : i.bare.bare = i.bare := by cases i <;> rfl

end Item

end CMinusMinus
