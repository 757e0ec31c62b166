import CMinusMinus.Generate.Address

/-!
# Code of expressions

The code of an expression pushes its value.  Of two operands the right one comes first, so that
the left one ends on top of the stack.  Both operands of `&&` and `||` are evaluated; the
comparison that follows only chooses how they are combined.

Code generation counts the numbered labels it has used, and remembers the label of each string
constant, so that equal constants can share one.
-/

namespace CMinusMinus.Generate

/-- What is remembered from one piece of code to the next. -/
structure Labels where
  /-- Whether equal string constants share one label. -/
  pool : Bool
  /-- The number of the next label. -/
  next : Nat := 0
  /-- The string constants so far, the last one first, with their labels. -/
  strings : List (String × String) := []

/-- A piece of code, and what is remembered after it. -/
abbrev Code := Except Fault (List Item × Labels)

namespace Labels

/-- A label that was not used before. -/
def fresh (ls : Labels) : String × Labels :=
  (Asm.numbered ls.next, { ls with next := ls.next + 1 })

/-- The label of a string constant, with the constant itself where it is new. -/
def constant (ls : Labels) (text : String) : String × List Item × Labels :=
  match if ls.pool then ls.strings.lookup text else none with
  | some label => (label, [], ls)
  | none =>
    let (label, ls) := ls.fresh
    (label, Asm.stringConstant label text, { ls with strings := (text, label) :: ls.strings })

end Labels

open Asm (push pop loadImm loadWord storeWord loadAddress op3 branch branchIf label)

/-- Pushes what an operation makes of `$t0` and `$t1`. -/
def compute (op : Opcode) (ls : Labels) : List Item × Labels :=
  (op3 op .t0 .t0 (.reg .t1) ++ push .t0, ls)

/-- Pushes whether `$t0` and `$t1` compare as a branch says. -/
def compare (op : Opcode) (ls : Labels) : List Item × Labels :=
  let (done, ls) := ls.fresh
  (loadImm .t2 1 ++ branchIf op .t0 .t1 done ++ loadImm .t2 0 ++ label done ++ push .t2, ls)

/-- Pushes `$t0`, if the test against zero says so as it is, and else combined with `$t1`. -/
def connect (test op : Opcode) (ls : Labels) : List Item × Labels :=
  let (short, ls) := ls.fresh
  let (done, ls) := ls.fresh
  (branchIf test .t0 .zero short ++ op3 op .t0 .t0 (.reg .t1) ++ push .t0 ++ branch done
    ++ label short ++ push .t0 ++ label done, ls)

/-- Pushes what a binary operator makes of its left operand in `$t0` and its right one in
`$t1`. -/
def combine (op : BinOp) (span : Option Span) (ls : Labels) : Code :=
  match op with
  | .add => .ok (compute .add ls)
  | .sub => .ok (compute .sub ls)
  | .mul => .ok (compute .mul ls)
  | .div => .ok (compute .div ls)
  | .equal => .ok (compute .seq ls)
  | .notEqual => .ok (compute .sne ls)
  | .less => .ok (compare .blt ls)
  | .greater => .ok (compare .bgt ls)
  | .lessEq => .ok (compare .ble ls)
  | .greaterEq => .ok (compare .bge ls)
  | .and => .ok (connect .beq .and ls)
  | .or => .ok (connect .bne .or ls)
  | .other op => .error ⟨.unknownOperator op, span⟩

/-- Pushes the value of a variable. -/
def load (x : Ident) : Except Fault (List Item) := do
  let (s, operand) ← storageOf x
  match s.shape with
  | .struct _ => .error ⟨.structAsScalar x.name, x.info.span⟩
  | .scalar _ => .ok (loadWord .t0 operand (some x.name) ++ push .t0)

mutual

/-- The code of an expression. -/
def exp (ls : Labels) : Exp → Code
  | .int _ v => .ok (loadImm .t0 v ++ push .t0, ls)
  | .bool _ b => .ok (loadImm .t0 (if b then 1 else 0) ++ push .t0, ls)
  | .string _ text =>
    let (name, constant, ls) := ls.constant text
    .ok (constant ++ loadAddress .t0 (.label name) ++ push .t0, ls)
  | .ident x => do
    let code ← load x
    .ok (code, ls)
  | .access i link loc f => do
    let addr ← address (.access i link loc f)
    .ok (addr ++ loadWord .t0 (.indexed .t0 0) ++ push .t0, ls)
  | .assign _ l r => do
    let (value, ls) ← exp ls r
    let addr ← address l
    .ok (value ++ addr ++ pop .t1 ++ storeWord .t1 (.indexed .t0 0) ++ push .t1, ls)
  | .call _ f _ args => do
    let (values, ls) ← exps ls args
    let _ ← symbolOf f
    .ok (values ++ Asm.call (functionLabel f.name) ++ push .v0, ls)
  | .neg _ e => do
    let (value, ls) ← exp ls e
    .ok (value ++ pop .t0 ++ op3 .sub .t0 .zero (.reg .t0) ++ push .t0, ls)
  | .not _ e => do
    let (value, ls) ← exp ls e
    .ok (value ++ pop .t0 ++ op3 .xori .t0 .t0 (.imm 1) ++ push .t0, ls)
  | .binary i op l r => do
    let (right, ls) ← exp ls r
    let (left, ls) ← exp ls l
    let (result, ls) ← combine op i.span ls
    .ok (right ++ left ++ pop .t0 ++ pop .t1 ++ result, ls)
  | .unknown i => .error ⟨.unknownExp (Exp.unknown i).kind, i.span⟩
termination_by structural e => e

/-- The code of expressions, from left to right. -/
def exps (ls : Labels) : List Exp → Code
  | [] => .ok ([], ls)
  | e :: es => do
    let (first, ls) ← exp ls e
    let (rest, ls) ← exps ls es
    .ok (first ++ rest, ls)
termination_by structural es => es

end

end CMinusMinus.Generate
