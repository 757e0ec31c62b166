import CMinusMinus.Proofs.Compilation
import CMinusMinus.Proofs.Generation.Declarations
import CMinusMinus.Proofs.Generation.Parts
import CMinusMinus.Proofs.Height.Functions

/-!
# Sketches of code

The code of a part of a program depends on what code generation remembers only through the numbers
of its labels, and through the string constants that are shared.  A *sketch* leaves both open: it
is the code with its labels told apart by where they are taken, and with string constants for the
place and label they will have.  Code generation writes out the sketch of the program
(`Generate.run_decls`), so what is said of sketches holds of the code under all settings and
wherever it stands.
-/

namespace CMinusMinus

open Asm Generate

/-- Code up to the numbers of labels.  A label that was taken for the code around is told by its
distance: zero is the one that was taken last. -/
inductive Sketch where
  /-- Items that do not depend on what is remembered. -/
  | items (q : List Item)
  /-- Puts the address of a string constant into `$t0`. -/
  | constant (text : String)
  | append (first rest : Sketch)
  /-- Code that a label is taken for. -/
  | taking (body : Sketch)
  /-- Code that knows none of the labels taken around it. -/
  | part (code : Sketch)
  | label (k : Nat) (comment : Option String)
  /-- An instruction whose last operand is a label. -/
  | jump (op : Opcode) (args : List Operand) (k : Nat) (comment : Option String)

instance : Append Sketch := ⟨.append⟩

namespace Sketch

/-- The code that a sketch stands for, given the labels taken around it, the last one first. -/
def run : Sketch → List String → Labels → List Item × Labels
  | .items q, _, ls => (q, ls)
  | .constant text, _, ls =>
    let (name, new, ls) := ls.constant text
    (new ++ loadAddress .t0 (.label name), ls)
  | .append a b, names, ls =>
    let (first, ls) := a.run names ls
    let (rest, ls) := b.run names ls
    (first ++ rest, ls)
  | .taking a, names, ls =>
    let (name, ls) := ls.fresh
    a.run (name :: names) ls
  | .part a, _, ls => a.run [] ls
  | .label k comment, names, ls => (Asm.label (names.getD k "") comment, ls)
  | .jump op args k comment, names, ls =>
    ([instr op (args ++ [.label (names.getD k "")]) comment], ls)

/-- The items that do not depend on what is remembered. -/
def plain : Sketch → List Item
  | .items q => q
  | .append a b => a.plain ++ b.plain
  | .taking a | .part a => a.plain
  | .constant _ | .label .. | .jump .. => []

/-- The string constants whose addresses are asked for, in order. -/
def strings : Sketch → List String
  | .constant text => [text]
  | .append a b => a.strings ++ b.strings
  | .taking a | .part a => a.strings
  | .items _ | .label .. | .jump .. => []

/-- Whether the sketch defines a label that was taken around it. -/
def Defines : Sketch → Nat → Prop
  | .append a b, k => a.Defines k ∨ b.Defines k
  | .taking a, k => a.Defines (k + 1)
  | .label k' _, k => k' = k
  | .items _, _ | .constant _, _ | .part _, _ | .jump .., _ => False

/-- Labels are used only in branches and only where they were taken, `n` of them around the sketch,
and each label that is taken is defined. -/
def Scoped : Sketch → Nat → Prop
  | .append a b, n => a.Scoped n ∧ b.Scoped n
  | .taking a, n => a.Scoped (n + 1) ∧ a.Defines 0
  | .part a, _ => a.Scoped 0
  | .label k _, n => k < n
  | .jump op args k _, n => k < n ∧ op.branches = true ∧ args.filterMap Operand.label? = []
  | .items _, _ | .constant _, _ => True

variable {names : List String} {ls : Labels}

@[simp] theorem plain_append (a b : Sketch) : (a ++ b).plain = a.plain ++ b.plain := rfl

@[simp] theorem strings_append (a b : Sketch) : (a ++ b).strings = a.strings ++ b.strings := rfl

@[simp] theorem defines_append (a b : Sketch) (k : Nat) :
    (a ++ b).Defines k ↔ a.Defines k ∨ b.Defines k := .rfl

@[simp] theorem scoped_append (a b : Sketch) (n : Nat) :
    (a ++ b).Scoped n ↔ a.Scoped n ∧ b.Scoped n := .rfl

theorem run_append (a b : Sketch) : (a ++ b).run names ls =
    ((a.run names ls).1 ++ (b.run names (a.run names ls).2).1,
      (b.run names (a.run names ls).2).2) := rfl

@[simp] theorem run_items (q : List Item) : (items q).run names ls = (q, ls) := rfl

theorem run_taking (a : Sketch) :
    (taking a).run names ls = a.run (ls.fresh.1 :: names) ls.fresh.2 := rfl

/-- Items after the code of a sketch. -/
theorem run_append_items (a : Sketch) (q : List Item) : (a ++ items q).run names ls =
    ((a.run names ls).1 ++ q, (a.run names ls).2) := rfl

end Sketch

/-! ## Sketches of programs -/

/-- The items of a part that has code. -/
def code (r : Except Fault (List Item)) : List Item := r.toOption.getD []

/-- Pushes whether `$t0` and `$t1` compare as a branch says. -/
def Sketch.compare (op : Opcode) : Sketch :=
  .taking (.items (loadImm .t2 1) ++ .jump op [.reg .t0, .reg .t1] 0 none
    ++ .items (loadImm .t2 0) ++ .label 0 none ++ .items (push .t2))

/-- Pushes `$t0`, if the test against zero says so as it is, and else combined with `$t1`. -/
def Sketch.connect (test op : Opcode) : Sketch :=
  .taking (.taking (.jump test [.reg .t0, .reg .zero] 1 none
    ++ .items (op3 op .t0 .t0 (.reg .t1) ++ push .t0) ++ .jump .b [] 0 none
    ++ .label 1 none ++ .items (push .t0) ++ .label 0 none))

/-- Pushes what an operator makes of its operands. -/
def BinOp.sketch : BinOp → Sketch
  | .add => .items (op3 .add .t0 .t0 (.reg .t1) ++ push .t0)
  | .sub => .items (op3 .sub .t0 .t0 (.reg .t1) ++ push .t0)
  | .mul => .items (op3 .mul .t0 .t0 (.reg .t1) ++ push .t0)
  | .div => .items (op3 .div .t0 .t0 (.reg .t1) ++ push .t0)
  | .equal => .items (op3 .seq .t0 .t0 (.reg .t1) ++ push .t0)
  | .notEqual => .items (op3 .sne .t0 .t0 (.reg .t1) ++ push .t0)
  | .less => .compare .blt
  | .greater => .compare .bgt
  | .lessEq => .compare .ble
  | .greaterEq => .compare .bge
  | .and => .connect .beq .and
  | .or => .connect .bne .or
  | .other _ => .items []

namespace Exp

mutual

/-- The sketch of an expression. -/
def sketch : Exp → Sketch
  | .int _ v => .items (loadImm .t0 v ++ push .t0)
  | .bool _ b => .items (loadImm .t0 (if b then 1 else 0) ++ push .t0)
  | .string _ text => .constant text ++ .items (push .t0)
  | .ident x => .items (code (load x))
  | .access i link loc f =>
    .items (code (address (.access i link loc f)) ++ loadWord .t0 (.indexed .t0 0) ++ push .t0)
  | .assign _ l r =>
    r.sketch ++ .items (code (address l) ++ pop .t1 ++ storeWord .t1 (.indexed .t0 0) ++ push .t1)
  | .call _ f _ args => listSketch args ++ .items (Asm.call (functionLabel f.name) ++ push .v0)
  | .neg _ e => e.sketch ++ .items (pop .t0 ++ op3 .sub .t0 .zero (.reg .t0) ++ push .t0)
  | .not _ e => e.sketch ++ .items (pop .t0 ++ op3 .xori .t0 .t0 (.imm 1) ++ push .t0)
  | .binary _ op l r => r.sketch ++ l.sketch ++ .items (pop .t0 ++ pop .t1) ++ op.sketch
  | .unknown _ => .items []
termination_by structural e => e

/-- The sketch of expressions, from left to right. -/
def listSketch : List Exp → Sketch
  | [] => .items []
  | e :: es => e.sketch ++ listSketch es
termination_by structural es => es

end

end Exp

namespace Stmt

/-- Pops a condition, and goes on at a label if it is false. -/
def onFalseSketch (k : Nat) : Sketch :=
  .items (pop .t0) ++ .jump .beq [.reg .t0, .reg .zero] k (some "branch if false")

/-- The sketch of a step of a location, by the given operation. -/
def stepSketch (op : Opcode) (e : Exp) : Sketch := .items (code (step op e))

mutual

/-- The sketch of a statement of the function `fn`. -/
def sketch (fn : String) : Stmt → Sketch
  | .assign _ e => e.sketch ++ .items (pop .t0 (some "discard assignment value"))
  | .increment _ e => stepSketch .addu e
  | .decrement _ e => stepSketch .subu e
  | .read _ e =>
    .items (syscall Service.readInt.number (some "read int") ++ code (address e)
      ++ storeWord .v0 (.indexed .t0 0))
  | .write _ e =>
    e.sketch ++ .items (pop .t0 ++ printValue (printer (e.info.type.getD .error)).number)
  | .ifThen _ e b =>
    .taking (.part e.sketch ++ onFalseSketch 0 ++ .part (blockSketch fn b) ++ .label 0 none)
  | .ifElse _ e b₁ b₂ =>
    .taking (.taking (.part e.sketch ++ onFalseSketch 1 ++ .part (blockSketch fn b₁)
      ++ .jump .b [] 0 none ++ .label 1 none ++ .part (blockSketch fn b₂) ++ .label 0 none))
  | .while _ e b =>
    .taking (.taking (.label 1 (some "loop top") ++ .part e.sketch ++ onFalseSketch 0
      ++ .part (blockSketch fn b) ++ .jump .b [] 1 none ++ .label 0 none))
  | .call _ e => e.sketch ++ .items (pop .t0 (some "discard return value"))
  | .return _ none => .items (branch (exitLabel fn))
  | .return _ (some e) =>
    e.sketch ++ .items (pop .v0 (some "return value") ++ branch (exitLabel fn))
  | .unknown _ => .items []
termination_by structural s => s

/-- The sketch of a block. -/
def blockSketch (fn : String) : Block Stmt → Sketch
  | ⟨_, _, ss⟩ => listSketch fn ss
termination_by structural b => b

/-- The sketch of statements, one after another. -/
def listSketch (fn : String) : List Stmt → Sketch
  | [] => .items []
  | s :: ss => s.sketch fn ++ listSketch fn ss
termination_by structural ss => ss

end

end Stmt

namespace FnDecl

/-- The sketch of a function. -/
def sketch (d : FnDecl) : Sketch :=
  let frame := d.frame.getD {}
  .items (front d frame) ++ Stmt.blockSketch d.name.name d.body
    ++ .items (epilogue (exitLabel d.name.name) frame.formals (d.name.name == "main"))

end FnDecl

namespace Decl

/-- The sketch of a declaration. -/
def sketch : Decl → Sketch
  | .var d => .items (code (global d))
  | .fn d => d.sketch
  | .struct _ | .unknown _ => .items []

/-- The sketch of declarations, one after another. -/
def listSketch : List Decl → Sketch
  | [] => .items []
  | d :: ds => d.sketch ++ listSketch ds

end Decl

/-! ## Code generation writes out sketches -/

namespace Generate

theorem code_ok {r : Except Fault (List Item)} {q : List Item} (h : r = .ok q) : code r = q := by
  rw [h]
  rfl

theorem run_combine {op : BinOp} {span : Option Span} {ls : Labels} {r : List Item × Labels}
    (h : combine op span ls = .ok r) : op.sketch.run [] ls = r := by
  cases op with
  | other => cases h
  | _ =>
    cases h
    rfl

mutual

/-- The code of an expression is what its sketch stands for. -/
theorem run_exp : ∀ {e : Exp} {ls ls' : Labels} {q : List Item},
    exp ls e = .ok (q, ls') → e.sketch.run [] ls = (q, ls')
  | .int .., _, _, _, h | .bool .., _, _, _, h | .string .., _, _, _, h => by
    cases h
    rfl
  | .ident x, _, _, _, h => by
    cases exp_eq_ok.mp h with
    | ident hq => rw [Exp.sketch, code_ok hq, Sketch.run_items]
  | .access i link loc f, _, _, _, h => by
    cases exp_eq_ok.mp h with
    | access haddr => rw [Exp.sketch, code_ok haddr, Sketch.run_items]
  | .assign i l r, _, _, _, h => by
    cases exp_eq_ok.mp h with
    | assign hvalue haddr =>
      rw [Exp.sketch, Sketch.run_append_items, run_exp hvalue, code_ok haddr]
      simp only [List.append_assoc]
  | .call i f sp args, _, _, _, h => by
    cases exp_eq_ok.mp h with
    | call hvalues =>
      rw [Exp.sketch, Sketch.run_append_items, run_exps hvalues, List.append_assoc]
  | .neg i e, _, _, _, h => by
    cases exp_eq_ok.mp h with
    | neg hvalue =>
      rw [Exp.sketch, Sketch.run_append_items, run_exp hvalue]
      simp only [List.append_assoc]
  | .not i e, _, _, _, h => by
    cases exp_eq_ok.mp h with
    | not hvalue =>
      rw [Exp.sketch, Sketch.run_append_items, run_exp hvalue]
      simp only [List.append_assoc]
  | .binary i op l r, _, _, _, h => by
    cases exp_eq_ok.mp h with
    | binary hright hleft hresult =>
      rw [Exp.sketch, Sketch.run_append, Sketch.run_append_items, Sketch.run_append,
        run_exp hright, run_exp hleft, run_combine hresult]
      simp only [List.append_assoc]
  | .unknown _, _, _, _, h => by cases h

theorem run_exps : ∀ {es : List Exp} {ls ls' : Labels} {q : List Item},
    exps ls es = .ok (q, ls') → (Exp.listSketch es).run [] ls = (q, ls')
  | [], _, _, _, h => by
    cases h
    rfl
  | e :: es, _, _, _, h => by
    obtain ⟨first, ls₁, rest, hfirst, hrest, rfl⟩ := exps_cons_eq_ok.mp h
    rw [Exp.listSketch, Sketch.run_append, run_exp hfirst, run_exps hrest]

end

mutual

/-- The code of a statement is what its sketch stands for. -/
theorem run_stmt {fn : String} : ∀ {s : Stmt} {ls ls' : Labels} {q : List Item},
    stmt fn ls s = .ok (q, ls') → (s.sketch fn).run [] ls = (q, ls')
  | .assign _ e, _, _, _, h => by
    cases stmt_eq_ok.mp h with
    | assign hvalue => rw [Stmt.sketch, Sketch.run_append_items, run_exp hvalue]
  | .call _ e, _, _, _, h => by
    cases stmt_eq_ok.mp h with
    | call hvalue => rw [Stmt.sketch, Sketch.run_append_items, run_exp hvalue]
  | .increment _ e, _, _, _, h => by
    cases stmt_eq_ok.mp h with
    | increment hq => rw [Stmt.sketch, Stmt.stepSketch, code_ok hq, Sketch.run_items]
  | .decrement _ e, _, _, _, h => by
    cases stmt_eq_ok.mp h with
    | decrement hq => rw [Stmt.sketch, Stmt.stepSketch, code_ok hq, Sketch.run_items]
  | .read _ e, _, _, _, h => by
    cases stmt_eq_ok.mp h with
    | read haddr => rw [Stmt.sketch, code_ok haddr, Sketch.run_items]
  | .write _ e, _, _, _, h => by
    cases stmt_eq_ok.mp h with
    | write hvalue htype =>
      rw [Stmt.sketch, htype, Sketch.run_append_items, run_exp hvalue, List.append_assoc]
      rfl
  | .ifThen _ e b, ls, _, _, h => by
    cases stmt_eq_ok.mp h with
    | ifThen hcond hbody =>
      simp only [Stmt.sketch, Stmt.onFalseSketch, Sketch.run_taking, Sketch.run_append, Sketch.run,
        run_exp hcond, run_block hbody]
      rfl
  | .ifElse _ e b₁ b₂, ls, _, _, h => by
    cases stmt_eq_ok.mp h with
    | ifElse hcond hyes hno =>
      simp only [Stmt.sketch, Stmt.onFalseSketch, Sketch.run_taking, Sketch.run_append, Sketch.run,
        run_exp hcond, run_block hyes, run_block hno]
      rfl
  | .while _ e b, ls, _, _, h => by
    cases stmt_eq_ok.mp h with
    | «while» hcond hbody =>
      simp only [Stmt.sketch, Stmt.onFalseSketch, Sketch.run_taking, Sketch.run_append, Sketch.run,
        run_exp hcond, run_block hbody]
      rfl
  | .return _ none, _, _, _, h => by
    cases h
    rfl
  | .return _ (some e), _, _, _, h => by
    cases stmt_eq_ok.mp h with
    | «return» hvalue =>
      rw [Stmt.sketch, Sketch.run_append_items, run_exp hvalue, List.append_assoc]
  | .unknown _, _, _, _, h => by cases h

theorem run_block {fn : String} : ∀ {b : Block Stmt} {ls ls' : Labels} {q : List Item},
    block fn ls b = .ok (q, ls') → (Stmt.blockSketch fn b).run [] ls = (q, ls')
  | ⟨_, _, ss⟩, _, _, _, h => by
    rw [block] at h
    exact run_stmts h

theorem run_stmts {fn : String} : ∀ {ss : List Stmt} {ls ls' : Labels} {q : List Item},
    stmts fn ls ss = .ok (q, ls') → (Stmt.listSketch fn ss).run [] ls = (q, ls')
  | [], _, _, _, h => by
    cases h
    rfl
  | s :: ss, _, _, _, h => by
    obtain ⟨first, ls₁, rest, hfirst, hrest, rfl⟩ := stmts_cons_eq_ok.mp h
    rw [Stmt.listSketch, Sketch.run_append, run_stmt hfirst, run_stmts hrest]

end

/-- The code of a function is what its sketch stands for. -/
theorem run_function {d : FnDecl} {frame : Frame} (hframe : d.frame = some frame)
    {ls ls' : Labels} {q : List Item} (h : function d frame ls = .ok (q, ls')) :
    d.sketch.run [] ls = (q, ls') := by
  obtain ⟨body, hbody, rfl⟩ := function_eq_ok.mp h
  rw [FnDecl.sketch, Sketch.run_append_items, Sketch.run_append, Sketch.run_items,
    run_block hbody, hframe]
  rfl

theorem run_decl {d : Decl} {ls ls' : Labels} {q : List Item} (h : DeclCode ls d q ls') :
    d.sketch.run [] ls = (q, ls') := by
  cases h with
  | var h => rw [Decl.sketch, code_ok h, Sketch.run_items]
  | fn hframe h => exact run_function hframe h
  | struct => rfl

/-- The code of declarations is what their sketch stands for. -/
theorem run_decls {ds : List Decl} {ls : Labels} {current current' : Option String}
    {items : List Item} (h : decls ls current ds = .ok (items, current')) :
    ((Decl.listSketch ds).run [] ls).1 = items := by
  induction ds generalizing ls current items with
  | nil =>
    cases h
    rfl
  | cons d ds ih =>
    obtain ⟨q, ls', current₁, rest, hq, hrest, rfl⟩ := decls_cons h
    rw [Decl.listSketch, Sketch.run_append, run_decl hq, ih hrest]

end Generate

/-- What is emitted for a program without errors is what the sketch of its declarations stands for,
as the options want it. -/
theorem Compilation.emit_sketch {file : Option String} {p : Program} (hp : p.Formed)
    (hfault : p.resolve.fault = none) (herrors : (analysis file p).hasErrors = false) :
    ∃ q env, (analysis file p).program = some q ∧ q.Typed env ∧ ∀ o : CodeOptions, ∃ current,
      Generate.decls { pool := o.pool } none q.decls =
        .ok (((Decl.listSketch q.decls).run [] { pool := o.pool }).1, current) ∧
      ((analysis file p).emit o).result =
        .ok (o.finish ((Decl.listSketch q.decls).run [] { pool := o.pool }).1) := by
  obtain ⟨q, env, hq, htyped, -⟩ := typed_of_analysis hp hfault herrors
  refine ⟨q, env, hq, htyped, fun o => ?_⟩
  obtain ⟨⟨raw, current⟩, hraw⟩ :=
    Generate.decls_of_typed htyped Env.sound_empty { pool := o.pool } none
  rw [run_decls hraw]
  exact ⟨current, hraw, emit_of_decls hq hraw⟩

end CMinusMinus
