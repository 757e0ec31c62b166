import CMinusMinus.Check.Exp

/-!
# Types in statements

Each kind of statement asks something of the types of its expressions.  What a return statement
asks depends on the function it is in.
-/

namespace CMinusMinus.Check

/-- An expression of a statement, with what the statement reports about its type. -/
def operand (e : Exp) (complain : Part → List Report) : Checked Exp :=
  (exp e).andThen Part.exp fun p => .reporting p.exp (complain p)

mutual

/-- The statement of a function with the given result, with the types of its expressions. -/
def stmt (returns : Ty) : Stmt → Checked Stmt
  | .assign s e => (operand e fun _ => []).map (.assign s ·)
  | .increment s e => (operand e (want .int .arithmetic)).map (.increment s ·)
  | .decrement s e => (operand e (want .int .arithmetic)).map (.decrement s ·)
  | .read s e => (operand e fun p => reportIf (notReadable p.type) p.exp).map (.read s ·)
  | .write s e => (operand e fun p => reportIf (notWritable p.type) p.exp).map (.write s ·)
  | .ifThen s e b =>
    (operand e (want .bool .ifCondition)).andThen (.ifThen s · b) fun e =>
      (block returns b).map (.ifThen s e ·)
  | .ifElse s e b₁ b₂ =>
    (operand e (want .bool .ifCondition)).andThen (.ifElse s · b₁ b₂) fun e =>
      (block returns b₁).andThen (.ifElse s e · b₂) fun b₁ =>
        (block returns b₂).map (.ifElse s e b₁ ·)
  | .while s e b =>
    (operand e (want .bool .loopCondition)).andThen (.while s · b) fun e =>
      (block returns b).map (.while s e ·)
  | .call s e => (operand e fun _ => []).map (.call s ·)
  | .return s none =>
    .reporting (.return s none)
      (if returns = .void then [] else [TypeCause.noReturnValue.reportAt s])
  | .return s (some e) => (operand e (returned returns)).map (.return s <| some ·)
  | .unknown s => .stop (.unknown s) ⟨.unknownStmt (Stmt.unknown s).kind, s⟩
termination_by structural s => s

/-- The block with the types of its expressions. -/
def block (returns : Ty) : Block Stmt → Checked (Block Stmt)
  | ⟨ds, s, ss⟩ => (stmts returns ss).map (⟨ds, s, ·⟩)
termination_by structural b => b

/-- The statements with the types of their expressions. -/
def stmts (returns : Ty) : List Stmt → Checked (List Stmt)
  | [] => .pure []
  | s :: ss => (stmt returns s).andThen (· :: ss) fun s => (stmts returns ss).map (s :: ·)
termination_by structural ss => ss

end

end CMinusMinus.Check
