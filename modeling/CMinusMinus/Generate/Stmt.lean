import CMinusMinus.Generate.Exp

/-!
# Code of statements

The code of a statement leaves the stack as it found it.  A statement of the function `fn` that
returns goes on at the label before the end of the function.
-/

namespace CMinusMinus.Generate

open Asm (pop loadWord storeWord op3 branch branchIf label syscall printValue)

/-- Pops a condition, and goes on at a label if it is false. -/
def onFalse (target : String) : List Item :=
  pop .t0 ++ branchIf .beq .t0 .zero target (some "branch if false")

/-- Adds one to a location or takes one from it, by the given operation. -/
def step (op : Opcode) (e : Exp) : Except Fault (List Item) := do
  let addr ← address e
  .ok (addr ++ loadWord .t1 (.indexed .t0 0) ++ op3 op .t1 .t1 (.imm 1)
    ++ storeWord .t1 (.indexed .t0 0))

/-- The service that prints values of a type. -/
def printer (t : Ty) : Asm.Service := if t = .string then .printString else .printInt

mutual

/-- The code of a statement. -/
def stmt (fn : String) (ls : Labels) : Stmt → Code
  | .assign _ e => do
    let (code, ls) ← exp ls e
    .ok (code ++ pop .t0 (some "discard assignment value"), ls)
  | .increment _ e => do
    let code ← step .addu e
    .ok (code, ls)
  | .decrement _ e => do
    let code ← step .subu e
    .ok (code, ls)
  | .read _ e => do
    let addr ← address e
    .ok (syscall Asm.Service.readInt.number (some "read int") ++ addr
      ++ storeWord .v0 (.indexed .t0 0), ls)
  | .write _ e => do
    let (code, ls) ← exp ls e
    match e.info.type with
    | none => .error ⟨.untypedWrite, e.span⟩
    | some t => .ok (code ++ pop .t0 ++ printValue (printer t).number, ls)
  | .ifThen _ e b => do
    let (done, ls) := ls.fresh
    let (cond, ls) ← exp ls e
    let (body, ls) ← block fn ls b
    .ok (cond ++ onFalse done ++ body ++ label done, ls)
  | .ifElse _ e b₁ b₂ => do
    let (other, ls) := ls.fresh
    let (done, ls) := ls.fresh
    let (cond, ls) ← exp ls e
    let (yes, ls) ← block fn ls b₁
    let (no, ls) ← block fn ls b₂
    .ok (cond ++ onFalse other ++ yes ++ branch done ++ label other ++ no ++ label done, ls)
  | .while _ e b => do
    let (top, ls) := ls.fresh
    let (done, ls) := ls.fresh
    let (cond, ls) ← exp ls e
    let (body, ls) ← block fn ls b
    .ok (label top (some "loop top") ++ cond ++ onFalse done ++ body ++ branch top ++ label done,
      ls)
  | .call _ e => do
    let (code, ls) ← exp ls e
    .ok (code ++ pop .t0 (some "discard return value"), ls)
  | .return _ none => .ok (branch (exitLabel fn), ls)
  | .return _ (some e) => do
    let (code, ls) ← exp ls e
    .ok (code ++ pop .v0 (some "return value") ++ branch (exitLabel fn), ls)
  | .unknown s => .error ⟨.unknownStmt (Stmt.unknown s).kind, s⟩
termination_by structural s => s

/-- The code of a block. -/
def block (fn : String) (ls : Labels) : Block Stmt → Code
  | ⟨_, _, ss⟩ => stmts fn ls ss
termination_by structural b => b

/-- The code of statements, one after another. -/
def stmts (fn : String) (ls : Labels) : List Stmt → Code
  | [] => .ok ([], ls)
  | s :: ss => do
    let (first, ls) ← stmt fn ls s
    let (rest, ls) ← stmts fn ls ss
    .ok (first ++ rest, ls)
termination_by structural ss => ss

end

end CMinusMinus.Generate
