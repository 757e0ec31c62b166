import CMinusMinus.Generate
import CMinusMinus.Proofs.Sequencing

/-!
# Code and the code of parts

A tree has code exactly if its parts have, and its code is put together from theirs (`ExpCode`,
`StmtCode`).  What is said of all code is proved by cases on how it was put together
(`exp_eq_ok`, `stmt_eq_ok`), and no proof has to follow code generation step by step.
-/

namespace CMinusMinus.Generate

open Asm (push pop loadImm loadWord storeWord loadAddress op3 branch label syscall printValue)

variable {ls ls' : Labels} {q : List Item} {e : Exp} {fn : String}

/-! ## Locations -/

/-- The address of a location is that of the variable it lies in and a distance from there. -/
theorem address_eq_ok : address e = .ok q ↔
    ∃ root offset s operand, path e = .ok (root, offset) ∧ storageOf root = .ok (s, operand) ∧
      q = loadAddress .t0 operand (some ("&" ++ root.name))
        ++ if offset = 0 then [] else op3 .addu .t0 .t0 (.imm offset) := by
  constructor
  · intro h
    rw [address] at h
    obtain ⟨⟨root, offset⟩, hpath, h⟩ := bind_eq_ok.mp h
    obtain ⟨⟨s, operand⟩, hs, h⟩ := bind_eq_ok.mp h
    cases h
    exact ⟨root, offset, s, operand, hpath, hs, rfl⟩
  · rintro ⟨root, offset, s, operand, hpath, hs, rfl⟩
    rw [address]
    exact bind_eq_ok.mpr ⟨_, hpath, bind_eq_ok.mpr ⟨_, hs, rfl⟩⟩

/-- A variable whose value is pushed holds a scalar. -/
theorem load_eq_ok {x : Ident} : load x = .ok q ↔
    ∃ s operand t, storageOf x = .ok (s, operand) ∧ s.shape = .scalar t ∧
      q = loadWord .t0 operand (some x.name) ++ push .t0 := by
  constructor
  · intro h
    rw [load] at h
    obtain ⟨⟨s, operand⟩, hs, h⟩ := bind_eq_ok.mp h
    dsimp only at h
    split at h
    · cases h
    · next t hshape =>
      cases h
      exact ⟨s, operand, t, hs, hshape, rfl⟩
  · rintro ⟨s, operand, t, hs, hshape, rfl⟩
    rw [load]
    refine bind_eq_ok.mpr ⟨_, hs, ?_⟩
    dsimp only
    rw [hshape]

theorem step_eq_ok {op : Opcode} : step op e = .ok q ↔
    ∃ addr, address e = .ok addr ∧ q = addr ++ loadWord .t1 (.indexed .t0 0)
      ++ op3 op .t1 .t1 (.imm 1) ++ storeWord .t1 (.indexed .t0 0) := by
  constructor
  · intro h
    rw [step] at h
    obtain ⟨addr, haddr, h⟩ := bind_eq_ok.mp h
    cases h
    exact ⟨addr, haddr, rfl⟩
  · rintro ⟨addr, haddr, rfl⟩
    rw [step]
    exact bind_eq_ok.mpr ⟨_, haddr, rfl⟩

/-! ## Expressions -/

/-- The code of an expression, with the labels before and after it. -/
inductive ExpCode (ls : Labels) : Exp → List Item → Labels → Prop where
  | int {i : Info} {v : Int} : ExpCode ls (.int i v) (loadImm .t0 v ++ push .t0) ls
  | bool {i : Info} {b : Bool} :
    ExpCode ls (.bool i b) (loadImm .t0 (if b then 1 else 0) ++ push .t0) ls
  | string {i : Info} {text : String} :
    ExpCode ls (.string i text) ((ls.constant text).2.1
      ++ loadAddress .t0 (.label (ls.constant text).1) ++ push .t0) (ls.constant text).2.2
  | ident {x : Ident} {code : List Item} :
    load x = .ok code → ExpCode ls (.ident x) code ls
  | access {i : Info} {link : FieldLink} {loc : Exp} {f : Ident} {addr : List Item} :
    address (.access i link loc f) = .ok addr →
    ExpCode ls (.access i link loc f) (addr ++ loadWord .t0 (.indexed .t0 0) ++ push .t0) ls
  | assign {i : Info} {l r : Exp} {value addr : List Item} {ls' : Labels} :
    exp ls r = .ok (value, ls') → address l = .ok addr →
    ExpCode ls (.assign i l r)
      (value ++ addr ++ pop .t1 ++ storeWord .t1 (.indexed .t0 0) ++ push .t1) ls'
  | call {i : Info} {f : Ident} {sp : Option Span} {args : List Exp} {values : List Item}
    {s : Symbol} {ls' : Labels} :
    exps ls args = .ok (values, ls') → symbolOf f = .ok s →
    ExpCode ls (.call i f sp args) (values ++ Asm.call (functionLabel f.name) ++ push .v0) ls'
  | neg {i : Info} {e : Exp} {value : List Item} {ls' : Labels} :
    exp ls e = .ok (value, ls') →
    ExpCode ls (.neg i e) (value ++ pop .t0 ++ op3 .sub .t0 .zero (.reg .t0) ++ push .t0) ls'
  | not {i : Info} {e : Exp} {value : List Item} {ls' : Labels} :
    exp ls e = .ok (value, ls') →
    ExpCode ls (.not i e) (value ++ pop .t0 ++ op3 .xori .t0 .t0 (.imm 1) ++ push .t0) ls'
  | binary {i : Info} {op : BinOp} {l r : Exp} {right left result : List Item}
    {ls₁ ls₂ ls' : Labels} :
    exp ls r = .ok (right, ls₁) → exp ls₁ l = .ok (left, ls₂) →
    combine op i.span ls₂ = .ok (result, ls') →
    ExpCode ls (.binary i op l r) (right ++ left ++ pop .t0 ++ pop .t1 ++ result) ls'

theorem ExpCode.of_exp (h : exp ls e = .ok (q, ls')) : ExpCode ls e q ls' := by
  cases e with
  | int | bool | string =>
    cases h
    constructor
  | ident =>
    rw [exp] at h
    obtain ⟨code, hcode, h⟩ := bind_eq_ok.mp h
    cases h
    exact .ident hcode
  | access =>
    rw [exp] at h
    obtain ⟨addr, haddr, h⟩ := bind_eq_ok.mp h
    cases h
    exact .access haddr
  | assign =>
    rw [exp] at h
    obtain ⟨⟨value, _⟩, hvalue, h⟩ := bind_eq_ok.mp h
    obtain ⟨addr, haddr, h⟩ := bind_eq_ok.mp h
    cases h
    exact .assign hvalue haddr
  | call =>
    rw [exp] at h
    obtain ⟨⟨values, _⟩, hvalues, h⟩ := bind_eq_ok.mp h
    obtain ⟨s, hs, h⟩ := bind_eq_ok.mp h
    cases h
    exact .call hvalues hs
  | neg =>
    rw [exp] at h
    obtain ⟨⟨value, _⟩, hvalue, h⟩ := bind_eq_ok.mp h
    cases h
    exact .neg hvalue
  | not =>
    rw [exp] at h
    obtain ⟨⟨value, _⟩, hvalue, h⟩ := bind_eq_ok.mp h
    cases h
    exact .not hvalue
  | binary =>
    rw [exp] at h
    obtain ⟨⟨right, _⟩, hright, h⟩ := bind_eq_ok.mp h
    obtain ⟨⟨left, _⟩, hleft, h⟩ := bind_eq_ok.mp h
    obtain ⟨⟨result, _⟩, hresult, h⟩ := bind_eq_ok.mp h
    cases h
    exact .binary hright hleft hresult
  | unknown => cases h

theorem exp_eq_ok : exp ls e = .ok (q, ls') ↔ ExpCode ls e q ls' := by
  refine ⟨.of_exp, fun h => ?_⟩
  cases h with
  | int | bool | string => rfl
  | ident hcode =>
    rw [exp]
    exact bind_eq_ok.mpr ⟨_, hcode, rfl⟩
  | access haddr =>
    rw [exp]
    exact bind_eq_ok.mpr ⟨_, haddr, rfl⟩
  | assign hvalue haddr =>
    rw [exp]
    exact bind_eq_ok.mpr ⟨_, hvalue, bind_eq_ok.mpr ⟨_, haddr, rfl⟩⟩
  | call hvalues hs =>
    rw [exp]
    exact bind_eq_ok.mpr ⟨_, hvalues, bind_eq_ok.mpr ⟨_, hs, rfl⟩⟩
  | neg hvalue | not hvalue =>
    rw [exp]
    exact bind_eq_ok.mpr ⟨_, hvalue, rfl⟩
  | binary hright hleft hresult =>
    rw [exp]
    exact bind_eq_ok.mpr ⟨_, hright, bind_eq_ok.mpr ⟨_, hleft, bind_eq_ok.mpr ⟨_, hresult, rfl⟩⟩⟩

theorem exps_cons_eq_ok {es : List Exp} : exps ls (e :: es) = .ok (q, ls') ↔
    ∃ first ls₁ rest, exp ls e = .ok (first, ls₁) ∧ exps ls₁ es = .ok (rest, ls') ∧
      q = first ++ rest := by
  rw [exps]
  constructor
  · intro h
    obtain ⟨⟨first, ls₁⟩, hfirst, h⟩ := bind_eq_ok.mp h
    obtain ⟨⟨rest, _⟩, hrest, h⟩ := bind_eq_ok.mp h
    cases h
    exact ⟨first, ls₁, rest, hfirst, hrest, rfl⟩
  · rintro ⟨first, ls₁, rest, hfirst, hrest, rfl⟩
    exact bind_eq_ok.mpr ⟨_, hfirst, bind_eq_ok.mpr ⟨_, hrest, rfl⟩⟩

/-! ## Statements -/

/-- The code of a statement of the function `fn`, with the labels before and after it. -/
inductive StmtCode (fn : String) (ls : Labels) : Stmt → List Item → Labels → Prop where
  | assign {sp : Option Span} {e : Exp} {code : List Item} {ls' : Labels} :
    exp ls e = .ok (code, ls') →
    StmtCode fn ls (.assign sp e) (code ++ pop .t0 (some "discard assignment value")) ls'
  | increment {sp : Option Span} {e : Exp} {code : List Item} :
    step .addu e = .ok code → StmtCode fn ls (.increment sp e) code ls
  | decrement {sp : Option Span} {e : Exp} {code : List Item} :
    step .subu e = .ok code → StmtCode fn ls (.decrement sp e) code ls
  | read {sp : Option Span} {e : Exp} {addr : List Item} :
    address e = .ok addr →
    StmtCode fn ls (.read sp e) (syscall Asm.Service.readInt.number (some "read int") ++ addr
      ++ storeWord .v0 (.indexed .t0 0)) ls
  | write {sp : Option Span} {e : Exp} {t : Ty} {code : List Item} {ls' : Labels} :
    exp ls e = .ok (code, ls') → e.info.type = some t →
    StmtCode fn ls (.write sp e) (code ++ pop .t0 ++ printValue (printer t).number) ls'
  | ifThen {sp : Option Span} {e : Exp} {b : Block Stmt} {cond body : List Item}
    {ls₁ ls' : Labels} :
    exp ls.fresh.2 e = .ok (cond, ls₁) → block fn ls₁ b = .ok (body, ls') →
    StmtCode fn ls (.ifThen sp e b)
      (cond ++ onFalse ls.fresh.1 ++ body ++ label ls.fresh.1) ls'
  | ifElse {sp : Option Span} {e : Exp} {b₁ b₂ : Block Stmt} {cond yes no : List Item}
    {ls₁ ls₂ ls' : Labels} :
    exp ls.fresh.2.fresh.2 e = .ok (cond, ls₁) → block fn ls₁ b₁ = .ok (yes, ls₂) →
    block fn ls₂ b₂ = .ok (no, ls') →
    StmtCode fn ls (.ifElse sp e b₁ b₂) (cond ++ onFalse ls.fresh.1 ++ yes
      ++ branch ls.fresh.2.fresh.1 ++ label ls.fresh.1 ++ no ++ label ls.fresh.2.fresh.1) ls'
  | while {sp : Option Span} {e : Exp} {b : Block Stmt} {cond body : List Item}
    {ls₁ ls' : Labels} :
    exp ls.fresh.2.fresh.2 e = .ok (cond, ls₁) → block fn ls₁ b = .ok (body, ls') →
    StmtCode fn ls (.while sp e b) (label ls.fresh.1 (some "loop top") ++ cond
      ++ onFalse ls.fresh.2.fresh.1 ++ body ++ branch ls.fresh.1 ++ label ls.fresh.2.fresh.1) ls'
  | call {sp : Option Span} {e : Exp} {code : List Item} {ls' : Labels} :
    exp ls e = .ok (code, ls') →
    StmtCode fn ls (.call sp e) (code ++ pop .t0 (some "discard return value")) ls'
  | exit {sp : Option Span} : StmtCode fn ls (.return sp none) (branch (exitLabel fn)) ls
  | return {sp : Option Span} {e : Exp} {code : List Item} {ls' : Labels} :
    exp ls e = .ok (code, ls') →
    StmtCode fn ls (.return sp (some e))
      (code ++ pop .v0 (some "return value") ++ branch (exitLabel fn)) ls'

theorem StmtCode.of_stmt {s : Stmt} (h : stmt fn ls s = .ok (q, ls')) : StmtCode fn ls s q ls' := by
  cases s with
  | assign =>
    rw [stmt] at h
    obtain ⟨⟨code, _⟩, hcode, h⟩ := bind_eq_ok.mp h
    cases h
    exact .assign hcode
  | increment =>
    rw [stmt] at h
    obtain ⟨code, hcode, h⟩ := bind_eq_ok.mp h
    cases h
    exact .increment hcode
  | decrement =>
    rw [stmt] at h
    obtain ⟨code, hcode, h⟩ := bind_eq_ok.mp h
    cases h
    exact .decrement hcode
  | read =>
    rw [stmt] at h
    obtain ⟨addr, haddr, h⟩ := bind_eq_ok.mp h
    cases h
    exact .read haddr
  | write _ e =>
    rw [stmt] at h
    obtain ⟨⟨code, _⟩, hcode, h⟩ := bind_eq_ok.mp h
    cases htype : e.info.type with
    | none =>
      rw [htype] at h
      cases h
    | some t =>
      rw [htype] at h
      cases h
      exact .write hcode htype
  | ifThen =>
    rw [stmt] at h
    obtain ⟨⟨cond, _⟩, hcond, h⟩ := bind_eq_ok.mp h
    obtain ⟨⟨body, _⟩, hbody, h⟩ := bind_eq_ok.mp h
    cases h
    exact .ifThen hcond hbody
  | ifElse =>
    rw [stmt] at h
    obtain ⟨⟨cond, _⟩, hcond, h⟩ := bind_eq_ok.mp h
    obtain ⟨⟨yes, _⟩, hyes, h⟩ := bind_eq_ok.mp h
    obtain ⟨⟨no, _⟩, hno, h⟩ := bind_eq_ok.mp h
    cases h
    exact .ifElse hcond hyes hno
  | «while» =>
    rw [stmt] at h
    obtain ⟨⟨cond, _⟩, hcond, h⟩ := bind_eq_ok.mp h
    obtain ⟨⟨body, _⟩, hbody, h⟩ := bind_eq_ok.mp h
    cases h
    exact .while hcond hbody
  | call =>
    rw [stmt] at h
    obtain ⟨⟨code, _⟩, hcode, h⟩ := bind_eq_ok.mp h
    cases h
    exact .call hcode
  | «return» _ e =>
    cases e with
    | none =>
      cases h
      exact .exit
    | some =>
      rw [stmt] at h
      obtain ⟨⟨code, _⟩, hcode, h⟩ := bind_eq_ok.mp h
      cases h
      exact .return hcode
  | unknown => cases h

theorem stmt_eq_ok {s : Stmt} : stmt fn ls s = .ok (q, ls') ↔ StmtCode fn ls s q ls' := by
  refine ⟨.of_stmt, fun h => ?_⟩
  cases h with
  | assign hcode | increment hcode | decrement hcode | read hcode | call hcode | «return» hcode =>
    rw [stmt]
    exact bind_eq_ok.mpr ⟨_, hcode, rfl⟩
  | write hcode htype =>
    rw [stmt, htype]
    exact bind_eq_ok.mpr ⟨_, hcode, rfl⟩
  | ifThen hcond hbody | «while» hcond hbody =>
    rw [stmt]
    exact bind_eq_ok.mpr ⟨_, hcond, bind_eq_ok.mpr ⟨_, hbody, rfl⟩⟩
  | ifElse hcond hyes hno =>
    rw [stmt]
    exact bind_eq_ok.mpr ⟨_, hcond, bind_eq_ok.mpr ⟨_, hyes, bind_eq_ok.mpr ⟨_, hno, rfl⟩⟩⟩
  | exit => rfl

theorem stmts_cons_eq_ok {s : Stmt} {ss : List Stmt} : stmts fn ls (s :: ss) = .ok (q, ls') ↔
    ∃ first ls₁ rest, stmt fn ls s = .ok (first, ls₁) ∧ stmts fn ls₁ ss = .ok (rest, ls') ∧
      q = first ++ rest := by
  rw [stmts]
  constructor
  · intro h
    obtain ⟨⟨first, ls₁⟩, hfirst, h⟩ := bind_eq_ok.mp h
    obtain ⟨⟨rest, _⟩, hrest, h⟩ := bind_eq_ok.mp h
    cases h
    exact ⟨first, ls₁, rest, hfirst, hrest, rfl⟩
  · rintro ⟨first, ls₁, rest, hfirst, hrest, rfl⟩
    exact bind_eq_ok.mpr ⟨_, hfirst, bind_eq_ok.mpr ⟨_, hrest, rfl⟩⟩

/-! ## Declarations -/

/-- A global that has a place is a slot, if its size can be written. -/
theorem global_eq_ok {d : VarDecl} : global d = .ok q ↔
    ∃ s operand, storageOf d.name = .ok (s, operand) ∧ Text.isWritten s.shape.size = true ∧
      q = Asm.globalSlot (globalLabel s.name) s.shape.size := by
  rw [global]
  constructor
  · intro h
    obtain ⟨⟨s, operand⟩, hs, h⟩ := bind_eq_ok.mp h
    dsimp only at h
    split at h
    · next hwritten =>
      cases h
      exact ⟨s, operand, hs, hwritten, rfl⟩
    · cases h
  · rintro ⟨s, operand, hs, hwritten, rfl⟩
    exact bind_eq_ok.mpr ⟨_, hs, if_pos hwritten⟩

/-- The slot of a global that has storage. -/
theorem slot_of_bound {d : VarDecl} {s : Storage} (hbound : d.name.binding = .bound (.storage s))
    (h : global d = .ok q) : q = Asm.globalSlot (globalLabel s.name) s.shape.size := by
  obtain ⟨s', operand, hs, -, rfl⟩ := global_eq_ok.mp h
  rw [storageOf, symbolOf, hbound] at hs
  simp only [bind, Except.bind] at hs
  split at hs
  · cases hs
    rfl
  · cases hs

/-- The code of a function is that of its statements, in a frame. -/
theorem function_eq_ok {d : FnDecl} {frame : Frame} : function d frame ls = .ok (q, ls') ↔
    ∃ body, block d.name.name ls d.body = .ok (body, ls') ∧
      q = Asm.functionEntry (functionLabel d.name.name) (d.name.name == "main")
        ++ Asm.prologue frame.formals frame.locals ++ body
        ++ Asm.epilogue (exitLabel d.name.name) frame.formals (d.name.name == "main") := by
  rw [function]
  constructor
  · intro h
    obtain ⟨⟨body, _⟩, hbody, h⟩ := bind_eq_ok.mp h
    cases h
    exact ⟨body, hbody, rfl⟩
  · rintro ⟨body, hbody, rfl⟩
    exact bind_eq_ok.mpr ⟨_, hbody, rfl⟩

end CMinusMinus.Generate
