import CMinusMinus.Resolve.VarDecl

/-!
# Names in statements

Each block opens a scope.  The frame is one for the whole function, so it is handed from block to
block, while the scopes of a block end with it.
-/

namespace CMinusMinus.Resolve

mutual

/-- The statement with its names bound, and the frame with its locals. -/
def stmt (env : Env) (frame : Frame) : Stmt → Resolved (Stmt × Frame)
  | .assign s e => (exp env e).map fun e => (.assign s e, frame)
  | .increment s e => (exp env e).map fun e => (.increment s e, frame)
  | .decrement s e => (exp env e).map fun e => (.decrement s e, frame)
  | .read s e => (exp env e).map fun e => (.read s e, frame)
  | .write s e => (exp env e).map fun e => (.write s e, frame)
  | .ifThen s e b =>
    (exp env e).andThen (fun e => (.ifThen s e b, frame)) fun e =>
      (block env.enter frame b).map fun (b, frame) => (.ifThen s e b, frame)
  | .ifElse s e b₁ b₂ =>
    (exp env e).andThen (fun e => (.ifElse s e b₁ b₂, frame)) fun e =>
      (block env.enter frame b₁).andThen (fun (b₁, frame) => (.ifElse s e b₁ b₂, frame))
        fun (b₁, frame) =>
          (block env.enter frame b₂).map fun (b₂, frame) => (.ifElse s e b₁ b₂, frame)
  | .while s e b =>
    (exp env e).andThen (fun e => (.while s e b, frame)) fun e =>
      (block env.enter frame b).map fun (b, frame) => (.while s e b, frame)
  | .call s e => (exp env e).map fun e => (.call s e, frame)
  | .return s none => .pure (.return s none, frame)
  | .return s (some e) => (exp env e).map fun e => (.return s (some e), frame)
  | .unknown s => .stop (.unknown s, frame) ⟨.unknownStmt (Stmt.unknown s).kind, s⟩
termination_by structural s => s

/-- The block, whose scope is open, with its names bound. -/
def block (env : Env) (frame : Frame) : Block Stmt → Resolved (Block Stmt × Frame)
  | ⟨ds, s, ss⟩ =>
    (localVars env frame ds.items).andThen
      (fun (items, _, frame) => (⟨{ ds with items }, s, ss⟩, frame))
      fun (items, env, frame) =>
        (stmts env frame ss).map fun (ss, frame) => (⟨{ ds with items }, s, ss⟩, frame)
termination_by structural b => b

/-- The statements with their names bound. -/
def stmts (env : Env) (frame : Frame) : List Stmt → Resolved (List Stmt × Frame)
  | [] => .pure ([], frame)
  | s :: ss =>
    (stmt env frame s).andThen (fun (s, frame) => (s :: ss, frame)) fun (s, frame) =>
      (stmts env frame ss).map fun (ss, frame) => (s :: ss, frame)
termination_by structural ss => ss

end

end CMinusMinus.Resolve
