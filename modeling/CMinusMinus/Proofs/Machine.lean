import Mathlib
import CMinusMinus.Asm.Emit
import CMinusMinus.Proofs.Word

/-!
# The machine

What generated code means.  The machine has registers and a memory of words, and executes items
one after another; where code goes on is the position of an item among all of them.  Loading puts
globals and string constants one after another into the data area and finds out what each label
stands for: in code the position that it is at, among data an address.

A state without a next one has come to its end, which is at the system call for it
(`Machine.Halted`), or it does something that has no meaning, like dividing by zero, reading from
an address that is no multiple of the word size, or reading more input than there is.
-/

namespace CMinusMinus.Machine

/-! ## Loading -/

/-- The areas that items go to. -/
inductive Segment where
  | text
  | data
  deriving DecidableEq, Repr

/-- The area that is filled after an item. -/
def Segment.after (g : Segment) : Item → Segment
  | .directive .data => .data
  | .directive .text => .text
  | _ => g

/-- Where the data area begins. -/
def dataBase : Nat := 0x10010000

/-- The address of the word that is pushed first. -/
def stackTop : Nat := 0x7FFFEFFC

/-- The address of the last word of memory that a program may use. -/
def memoryTop : Nat := 0x7FFFFFFC

/-- The bytes of a text with its escapes as they were written, and the zero byte after it. -/
def textBytes : List Char → Nat
  | '\\' :: _ :: cs => 1 + textBytes cs
  | c :: cs => c.utf8Size + textBytes cs
  | [] => 1

/-- The address that the bytes after a directive begin at. -/
def advance (next : Nat) : Directive → Nat
  | .align power => (next + 2 ^ power - 1) / 2 ^ power * 2 ^ power
  | .space bytes => next + bytes.toNat
  | .asciiz body => next + textBytes body.toList
  | _ => next

/-- What labels stand for, as far as items have been loaded. -/
structure Layout where
  segment : Segment := .text
  /-- The position of the next item. -/
  position : Nat := 0
  /-- The address of the next byte of data. -/
  next : Nat := dataBase
  /-- The positions of the labels in code. -/
  code : List (String × Nat) := []
  /-- The addresses of the labels among data. -/
  data : List (String × Nat) := []
  /-- The texts by their addresses. -/
  texts : List (Nat × String) := []

namespace Layout

/-- The labels that an item adds to those of code. -/
def codeOf (l : Layout) : Item → List (String × Nat)
  | .label name _ => if l.segment = .text then [(name, l.position)] else []
  | _ => []

/-- The labels that an item adds to those among data. -/
def dataOf (l : Layout) : Item → List (String × Nat)
  | .label name _ => if l.segment = .data then [(name, l.next)] else []
  | _ => []

/-- The texts that an item adds. -/
def textsOf (l : Layout) : Item → List (Nat × String)
  | .directive (.asciiz body) => [(l.next, body)]
  | _ => []

/-- Where the data after an item begins. -/
def nextOf (l : Layout) : Item → Nat
  | .directive d => advance l.next d
  | _ => l.next

/-- The layout with one more item. -/
def add (l : Layout) (i : Item) : Layout where
  segment := l.segment.after i
  position := l.position + 1
  next := l.nextOf i
  code := l.code ++ l.codeOf i
  data := l.data ++ l.dataOf i
  texts := l.texts ++ l.textsOf i

/-- The layout with more items. -/
def addAll (l : Layout) (items : List Item) : Layout := items.foldl add l

end Layout

/-- Where items are loaded. -/
def load (items : List Item) : Layout := Layout.addAll {} items

/-! ## States -/

/-- A state of the machine.  Input that was not read yet comes with it, and what was to be seen of
the run so far. -/
structure State where
  pc : Nat
  regs : Reg → Word
  mem : Nat → Word
  input : List Word
  events : List Event

namespace State

/-- What a register holds. -/
def get (s : State) (r : Reg) : Word := if r = .zero then 0 else s.regs r

/-- The state with something else in a register. -/
def set (s : State) (r : Reg) (w : Word) : State :=
  { s with regs := fun r' => if r' = r then w else s.regs r' }

/-- The state with something else at an address. -/
def store (s : State) (a : Nat) (w : Word) : State :=
  { s with mem := fun a' => if a' = a then w else s.mem a' }

/-- The state so many items further on. -/
def skip (s : State) (n : Nat) : State := { s with pc := s.pc + n }

/-- The state elsewhere in the code. -/
def goto (s : State) (pc : Nat) : State := { s with pc := pc }

/-- The state that has printed one more value. -/
def print (s : State) (v : Value) : State := { s with events := s.events ++ [.printed v] }

/-- The state that has taken a word of the input. -/
def take (s : State) (w : Word) : State :=
  { s with input := s.input.tail, events := s.events ++ [.taken w] }

/-- The value of an operand. -/
def value? (s : State) : Operand → Option Word
  | .reg r => some (s.get r)
  | .imm v => some (BitVec.ofInt 32 v)
  | .label _ | .indexed _ _ => none

/-- The address that an operand denotes. -/
def address? (s : State) (l : Layout) : Operand → Option Word
  | .label name => (l.data.lookup name).map (BitVec.ofNat 32)
  | .indexed base offset => some (s.get base + BitVec.ofInt 32 offset)
  | .reg _ | .imm _ => none

end State

/-! ## Execution -/

/-- Words are at multiples of the word size. -/
def aligned? (a : Word) : Option Nat := if a.toNat % wordSize = 0 then some a.toNat else none

/-- What an operation makes of two words. -/
def compute? : Opcode → Word → Word → Option Word
  | .add, a, b | .addu, a, b => some (a + b)
  | .sub, a, b | .subu, a, b => some (a - b)
  | .mul, a, b => some (a * b)
  | .div, a, b => if b = 0 then none else some (a.sdiv b)
  | .and, a, b => some (a &&& b)
  | .or, a, b => some (a ||| b)
  | .xori, a, b => some (a ^^^ b)
  | .seq, a, b => some (Word.ofBool (a == b))
  | .sne, a, b => some (Word.ofBool (a != b))
  | _, _, _ => none

/-- Whether a branch is taken on two words. -/
def taken? : Opcode → Word → Word → Option Bool
  | .beq, a, b => some (a == b)
  | .bne, a, b => some (a != b)
  | .blt, a, b => some (a.slt b)
  | .bgt, a, b => some (b.slt a)
  | .ble, a, b => some (a.sle b)
  | .bge, a, b => some (b.sle a)
  | _, _, _ => none

/-- Asks the system for the service whose number is in `$v0`. -/
def service? (l : Layout) (s : State) : Option State :=
  if s.get .v0 = BitVec.ofNat 32 Asm.Service.printInt.number then
    some (s.print (.word (s.get .a0)))
  else if s.get .v0 = BitVec.ofNat 32 Asm.Service.printString.number then
    (l.texts.lookup (s.get .a0).toNat).map fun t => s.print (.text t)
  else if s.get .v0 = BitVec.ofNat 32 Asm.Service.readInt.number then
    s.input.head?.map fun w => (s.take w).set .v0 w
  else none

/-- Executes an operation between a register and an operand. -/
def transfer? (l : Layout) (s : State) (r : Reg) (arg : Operand) : Opcode → Option State
  | .li | .move => (s.value? arg).map fun w => (s.set r w).skip 1
  | .la => (s.address? l arg).map fun w => (s.set r w).skip 1
  | .lw => ((s.address? l arg).bind aligned?).map fun a => (s.set r (s.mem a)).skip 1
  | .sw => ((s.address? l arg).bind aligned?).map fun a => (s.store a (s.get r)).skip 1
  | _ => none

/-- Executes an operation that leads to a label. -/
def jump? (l : Layout) (s : State) (name : String) : Opcode → Option State
  | .b => (l.code.lookup name).map s.goto
  | .jal => (l.code.lookup name).map (s.set .ra (BitVec.ofNat 32 (s.pc + 1))).goto
  | _ => none

/-- Executes an instruction. -/
def execute? (l : Layout) (s : State) (op : Opcode) : List Operand → Option State
  | [.reg a, .reg b, .label name] => (taken? op (s.get a) (s.get b)).bind fun taken =>
      if taken then (l.code.lookup name).map s.goto else some (s.skip 1)
  | [.reg dst, .reg src, arg] => (s.value? arg).bind fun b =>
      (compute? op (s.get src) b).map fun w => (s.set dst w).skip 1
  | [.reg r, arg] => transfer? l s r arg op
  | [.label name] => jump? l s name op
  | [.reg r] => if op = .jr then some (s.goto (s.get r).toNat) else none
  | [] => if op = .syscall then (service? l s).map (·.skip 1) else none
  | _ => none

/-- The next state.  Labels and directives do nothing. -/
def step? (items : List Item) (s : State) : Option State :=
  items[s.pc]?.bind fun
    | .instr op args _ => execute? (load items) s op args
    | .label .. | .directive _ => some (s.skip 1)

/-- The machine comes from one state to another. -/
inductive Reaches (items : List Item) : State → State → Prop where
  | refl {s : State} : Reaches items s s
  | step {s s' s'' : State} : step? items s = some s' → Reaches items s' s'' → Reaches items s s''

/-- The state after so many steps. -/
def run? (items : List Item) : Nat → State → Option State
  | 0, s => some s
  | n + 1, s => (step? items s).bind (run? items n)

/-- The state is at the system call that ends the program. -/
def Halted (items : List Item) (s : State) : Prop :=
  (∃ comment, items[s.pc]? = some (.instr .syscall [] comment)) ∧
    s.get .v0 = BitVec.ofNat 32 Asm.Service.exit.number

/-- The state is at the main function, with nothing on the stack and zeros in the data area.
Nothing is said about the other registers and the rest of the memory. -/
structure Boots (items : List Item) (input : List Word) (s : State) : Prop where
  pc : (load items).code.lookup "main" = some s.pc
  sp : s.get .sp = BitVec.ofNat 32 stackTop
  zeros : ∀ a, dataBase ≤ a → a < (load items).next → s.mem a = 0
  input : s.input = input
  events : s.events = []

/-- Code, data and stack have room on the way from a state: neither the stack pointer nor the frame
pointer is ever moved by more than there is in memory, and the stack pointer never leaves the part
of memory above the data. -/
structure Fits (items : List Item) (s : State) : Prop where
  code : items.length < 2 ^ 32
  moves : ∀ bytes comment, .instr .subu [.reg .sp, .reg .sp, .imm bytes] comment ∈ items →
    (load items).next + bytes ≤ memoryTop
  frames : ∀ bytes comment, .instr .addu [.reg .fp, .reg .sp, .imm bytes] comment ∈ items →
    memoryTop + bytes < 2 ^ 32
  stack : ∀ s', Reaches items s s' →
    (load items).next ≤ (s'.get .sp).toNat ∧ (s'.get .sp).toNat ≤ memoryTop

end CMinusMinus.Machine
