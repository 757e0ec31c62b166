import CMinusMinus.Asm
import CMinusMinus.Frame

/-!
# Pieces of code

The pieces that generated code is made of, on a machine with an evaluation stack.  The stack
pointer is at the next free word, below the topmost value, so pushing stores and then moves the
pointer, and popping loads from the word above it and then moves it back.

`prologue` and `epilogue` make and unmake a frame.  Addresses grow upwards, and from the frame
pointer downwards there are the formals, which the caller pushed, the return address, the
caller's frame pointer and the locals.
-/

namespace CMinusMinus.Asm

/-- An instruction. -/
def instr (op : Opcode) (args : List Operand) (comment : Option String := none) : Item :=
  .instr op args comment

/-- The label of a number. -/
def numbered (n : Nat) : String := ".L" ++ toString n

/-- A comment that stands for a missing or empty one. -/
def orComment (comment : Option String) (standard : String) : Option String :=
  some ((comment.filter (· != "")).getD standard)

/-! ## The evaluation stack -/

/-- Pushes a register. -/
def push (r : Reg) (comment : Option String := none) : List Item :=
  [instr .sw [.reg r, .indexed .sp 0] (orComment comment ("push $" ++ r.name)),
   instr .subu [.reg .sp, .reg .sp, .imm wordSize]]

/-- Pops into a register. -/
def pop (r : Reg) (comment : Option String := none) : List Item :=
  [instr .lw [.reg r, .indexed .sp wordSize] (orComment comment ("pop $" ++ r.name)),
   instr .addu [.reg .sp, .reg .sp, .imm wordSize]]

/-! ## Single instructions -/

/-- Puts a number into a register. -/
def loadImm (r : Reg) (value : Int) (comment : Option String := none) : List Item :=
  [instr .li [.reg r, .imm value] comment]

/-- Puts the word at an address into a register. -/
def loadWord (r : Reg) (addr : Operand) (comment : Option String := none) : List Item :=
  [instr .lw [.reg r, addr] comment]

/-- Puts a register into the word at an address. -/
def storeWord (r : Reg) (addr : Operand) (comment : Option String := none) : List Item :=
  [instr .sw [.reg r, addr] comment]

/-- Puts an address into a register. -/
def loadAddress (r : Reg) (addr : Operand) (comment : Option String := none) : List Item :=
  [instr .la [.reg r, addr] comment]

/-- Puts what an operation makes of a register and an operand into a register. -/
def op3 (op : Opcode) (dst src : Reg) (arg : Operand) : List Item :=
  [instr op [.reg dst, .reg src, arg]]

/-- Copies a register. -/
def move (dst src : Reg) : List Item := [instr .move [.reg dst, .reg src]]

/-! ## Control -/

/-- Defines a label. -/
def label (name : String) (comment : Option String := none) : List Item := [.label name comment]

/-- Goes on at a label. -/
def branch (target : String) : List Item := [instr .b [.label target]]

/-- Goes on at a label if two registers compare as the operation says. -/
def branchIf (op : Opcode) (a b : Reg) (target : String) (comment : Option String := none) :
    List Item :=
  [instr op [.reg a, .reg b, .label target] comment]

/-- Calls the function of a label. -/
def call (target : String) : List Item := [instr .jal [.label target]]

/-- The services of the system. -/
inductive Service where
  | printInt
  | printString
  | readInt
  | exit
  deriving DecidableEq, Repr

/-- The number of a service. -/
def Service.number : Service → Nat
  | .printInt => 1
  | .printString => 4
  | .readInt => 5
  | .exit => 10

/-- Asks for the service of a number. -/
def syscall (number : Int) (comment : Option String := none) : List Item :=
  loadImm .v0 number comment ++ [instr .syscall []]

/-- Asks for a printing service of a number, on the value in `$t0`. -/
def printValue (number : Int) : List Item := move .a0 .t0 ++ syscall number

/-! ## Data -/

/-- Global storage. -/
def globalSlot (name : String) (size : Int) : List Item :=
  [.directive .data, .directive (.align 2), .label name none, .directive (.space size)]

/-- A string constant between pieces of code. -/
def stringConstant (name text : String) : List Item :=
  [.directive .data, .label name none, .directive (.asciiz text), .directive .text]

/-! ## Functions -/

/-- The beginning of a function; the main function has labels of its own. -/
def functionEntry (name : String) (isMain : Bool) : List Item :=
  .directive .text ::
    if isMain then [.directive (.globl "main"), .label "main" none, .label "__start" none]
    else [.label name none]

/-- Makes the frame of a function, given the bytes of its formals and locals. -/
def prologue (formals locals : Int) : List Item :=
  push .ra (some "save return address")
    ++ push .fp (some "save caller's frame pointer")
    ++ [instr .addu [.reg .fp, .reg .sp, .imm (formals + 2 * wordSize)] (some "set frame pointer")]
    ++ if locals = 0 then []
      else [instr .subu [.reg .sp, .reg .sp, .imm locals] (some "reserve locals")]

/-- Unmakes the frame of a function, given the bytes of its formals, and returns.  The formals
go with it.  The main function ends the program instead. -/
def epilogue (exit : String) (formals : Int) (isMain : Bool) : List Item :=
  label exit (some "function epilogue")
    ++ loadWord .ra (.indexed .fp (-formals)) (some "restore return address")
    ++ move .t0 .fp
    ++ loadWord .fp (.indexed .fp (-(formals + wordSize))) (some "restore frame pointer")
    ++ move .sp .t0
    ++ if isMain then syscall Service.exit.number (some "exit") else [instr .jr [.reg .ra]]

end CMinusMinus.Asm
