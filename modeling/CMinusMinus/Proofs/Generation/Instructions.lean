import CMinusMinus.Proofs.Generation.Sketches
import CMinusMinus.Proofs.Layout.Access

/-!
# Instructions of sketches

Apart from branches to labels that are taken, the code of the body of a function is instructions
that are the same wherever it stands.  They go on at the end of the function, call the functions
that are called, in the order in which they are, and use the addresses of the globals that the
locations lie in (`Generate.steady_block`).
-/

namespace CMinusMinus

open Asm Generate

/-! ## Labels of instructions -/

namespace Item

/-- The labels that an item calls. -/
def callees : Item → List String
  | .instr op args _ => if op = .jal then args.filterMap Operand.label? else []
  | _ => []

/-- The labels that an item uses as addresses of data. -/
def addressed : Item → List String
  | .instr op args _ =>
    if op.branches = true ∨ op = .jal then [] else args.filterMap Operand.label?
  | _ => []

/-- Whether an item is an instruction that names no label. -/
def isQuiet : Item → Bool
  | .instr _ args _ => (args.filterMap Operand.label?).isEmpty
  | _ => false

end Item

/-! ## What a tree calls and uses -/

namespace Exp

mutual

/-- The names of functions that an expression calls, in the order of the calls. -/
def calls : Exp → List Ident
  | .assign _ _ r => r.calls
  | .call _ f _ args => listCalls args ++ [f]
  | .neg _ e | .not _ e => e.calls
  | .binary _ _ l r => r.calls ++ l.calls
  | .int .. | .string .. | .bool .. | .ident _ | .access .. | .unknown _ => []
termination_by structural e => e

/-- The names of functions that expressions call. -/
def listCalls : List Exp → List Ident
  | [] => []
  | e :: es => e.calls ++ listCalls es
termination_by structural es => es

end

/-- The location lies in a global with the label. -/
def Names (e : Exp) (l : String) : Prop :=
  ∃ x s, e.root? = some x ∧ x.binding = .bound (.storage s) ∧ s.place = .static ∧
    l = globalLabel s.name

end Exp

namespace Stmt

mutual

/-- The names of functions that a statement calls, in the order in which the calls stand in its
code. -/
def calls : Stmt → List Ident
  | .assign _ e | .write _ e | .call _ e | .return _ (some e) => e.calls
  | .ifThen _ e b | .while _ e b => e.calls ++ blockCalls b
  | .ifElse _ e b₁ b₂ => e.calls ++ (blockCalls b₁ ++ blockCalls b₂)
  | .increment .. | .decrement .. | .read .. | .return _ none | .unknown _ => []
termination_by structural s => s

/-- The names of functions that a block calls. -/
def blockCalls : Block Stmt → List Ident
  | ⟨_, _, ss⟩ => listCalls ss
termination_by structural b => b

/-- The names of functions that statements call. -/
def listCalls : List Stmt → List Ident
  | [] => []
  | s :: ss => s.calls ++ listCalls ss
termination_by structural ss => ss

end

end Stmt

/-- The names of functions that a function calls. -/
def FnDecl.calls (d : FnDecl) : List Ident := Stmt.blockCalls d.body

/-! ## Instructions -/

/-- The code is instructions that branch to given labels only, call the functions of the names in
their order, and use addresses of the given labels only. -/
structure Steady (Used : String → Prop) (exits : List String) (calls : List Ident)
    (q : List Item) : Prop where
  instrs : ∀ i ∈ q, ∃ op args comment, i = .instr op args comment
  targets : ∀ i ∈ q, ∀ l ∈ i.targets, l ∈ exits
  callees : q.flatMap Item.callees = calls.map fun f => functionLabel f.name
  addressed : ∀ i ∈ q, ∀ l ∈ i.addressed, Used l

namespace Steady

variable {Used : String → Prop} {exits : List String} {calls calls' : List Ident}
  {q r : List Item}

theorem nil : Steady Used exits [] [] :=
  ⟨List.forall_mem_nil _, List.forall_mem_nil _, rfl, List.forall_mem_nil _⟩

theorem append (hq : Steady Used exits calls q) (hr : Steady Used exits calls' r) :
    Steady Used exits (calls ++ calls') (q ++ r) where
  instrs := List.forall_mem_append.mpr ⟨hq.instrs, hr.instrs⟩
  targets := List.forall_mem_append.mpr ⟨hq.targets, hr.targets⟩
  callees := by rw [List.flatMap_append, List.map_append, hq.callees, hr.callees]
  addressed := List.forall_mem_append.mpr ⟨hq.addressed, hr.addressed⟩

/-- Instructions that name no label. -/
theorem quiet (h : q.all Item.isQuiet = true) : Steady Used exits [] q := by
  induction q with
  | nil => exact nil
  | cons i q ih =>
    rw [List.all_cons, Bool.and_eq_true] at h
    have hone : Steady Used exits [] [i] := by
      cases i with
      | label | directive => cases h.1
      | instr op args comment =>
        have hargs : args.filterMap Operand.label? = [] := List.isEmpty_iff.mp h.1
        refine ⟨?_, ?_, ?_, ?_⟩
        · exact List.forall_mem_singleton.mpr ⟨_, _, _, rfl⟩
        · refine List.forall_mem_singleton.mpr fun l hl => ?_
          rw [Item.targets, hargs, ite_self] at hl
          cases hl
        · rw [List.flatMap_singleton, Item.callees, hargs, ite_self]
          rfl
        · refine List.forall_mem_singleton.mpr fun l hl => ?_
          rw [Item.addressed, hargs, ite_self] at hl
          cases hl
    exact hone.append (ih h.2)

theorem quietly (h : Steady Used exits calls q) (hr : r.all Item.isQuiet = true) :
    Steady Used exits calls (q ++ r) := by
  rw [← List.append_nil calls]
  exact h.append (quiet hr)

end Steady

namespace Generate

section Parts

variable {Used : String → Prop} {exits : List String}

theorem placeOperand_label {s : Storage} {operand : Operand}
    (h : placeOperand? s = some operand) {l : String} (hl : operand.label? = some l) :
    s.place = .static ∧ l = globalLabel s.name := by
  unfold placeOperand? at h
  split at h
  · next hplace =>
    cases h
    cases hl
    exact ⟨hplace, rfl⟩
  · cases h
    cases hl
  · cases h

theorem storageOf_eq_ok {x : Ident} {s : Storage} {operand : Operand}
    (h : storageOf x = .ok (s, operand)) :
    x.binding = .bound (.storage s) ∧ placeOperand? s = some operand := by
  rw [storageOf, symbolOf] at h
  obtain ⟨s', hs', h⟩ := bind_eq_ok.mp h
  split at hs'
  · next hbound =>
    cases hs'
    split at h
    · split at h
      · next hplace =>
        cases h
        exact ⟨hbound, hplace⟩
      · cases h
    · cases h
  · cases hs'

theorem root_of_path : ∀ {e : Exp} {x : Ident} {n : Nat}, path e = .ok (x, n) → e.root? = some x
  | .ident _, _, _, h => by
    cases h
    rfl
  | .access i link loc f, _, _, h => by
    rw [path] at h
    obtain ⟨_, -, h⟩ := bind_eq_ok.mp h
    split at h
    · cases h
    · obtain ⟨⟨root, offset⟩, hpath, h⟩ := bind_eq_ok.mp h
      cases h
      exact root_of_path (e := loc) hpath
  | .int .., _, _, h | .string .., _, _, h | .bool .., _, _, h | .assign .., _, _, h
  | .call .., _, _, h | .neg .., _, _, h | .not .., _, _, h | .binary .., _, _, h
  | .unknown _, _, _, h => by cases h

/-- An instruction that loads from a place or takes its address. -/
theorem steady_operand {e : Exp} (h : ∀ l, e.Names l → Used l) {x : Ident} {s : Storage}
    {operand : Operand} (hroot : e.root? = some x) (hs : storageOf x = .ok (s, operand))
    (op : Opcode) (hop : op.branches = false) (hjal : op ≠ .jal) (r : Reg)
    (comment : Option String) :
    Steady Used exits [] [instr op [.reg r, operand] comment] where
  instrs := List.forall_mem_singleton.mpr ⟨_, _, _, rfl⟩
  targets := by
    refine List.forall_mem_singleton.mpr fun l hl => ?_
    rw [instr, Item.targets, hop] at hl
    cases hl
  callees := by
    rw [List.flatMap_singleton, instr, Item.callees, if_neg hjal]
    rfl
  addressed := by
    refine List.forall_mem_singleton.mpr fun l hl => h l ?_
    rw [instr, Item.addressed, if_neg (by simp [hop, hjal])] at hl
    obtain ⟨hbound, hplace⟩ := storageOf_eq_ok hs
    obtain ⟨arg, harg, hlabel⟩ := List.mem_filterMap.mp hl
    rcases List.mem_cons.mp harg with rfl | harg
    · cases hlabel
    · cases List.mem_singleton.mp harg
      obtain ⟨hstatic, rfl⟩ := placeOperand_label hplace hlabel
      exact ⟨x, s, hroot, hbound, hstatic, rfl⟩

theorem code_error {r : Except Fault (List Item)} {fault : Fault} (h : r = .error fault) :
    code r = [] := by
  rw [h]
  rfl

theorem steady_code {r : Except Fault (List Item)} {calls : List Ident}
    (h : ∀ q, r = .ok q → Steady Used exits calls q) (hcalls : calls = []) :
    Steady Used exits calls (code r) := by
  cases hr : r with
  | error fault =>
    rw [code_error rfl, hcalls]
    exact .nil
  | ok q => exact h q hr

theorem steady_address {e : Exp} (h : ∀ l, e.Names l → Used l) :
    Steady Used exits [] (code (address e)) := by
  refine steady_code (fun q hq => ?_) rfl
  obtain ⟨root, offset, s, operand, hpath, hs, rfl⟩ := address_eq_ok.mp hq
  refine (steady_operand h (root_of_path hpath) hs .la rfl (by decide) .t0 _).quietly ?_
  split <;> rfl

theorem steady_load {x : Ident} (h : ∀ l, (Exp.ident x).Names l → Used l) :
    Steady Used exits [] (code (load x)) := by
  refine steady_code (fun q hq => ?_) rfl
  obtain ⟨s, operand, t, hs, -, rfl⟩ := load_eq_ok.mp hq
  exact (steady_operand h rfl hs .lw rfl (by decide) .t0 _).quietly rfl

theorem steady_step {op : Opcode} {e : Exp} (h : ∀ l, e.Names l → Used l) :
    Steady Used exits [] (code (step op e)) := by
  refine steady_code (fun q hq => ?_) rfl
  obtain ⟨addr, haddr, rfl⟩ := step_eq_ok.mp hq
  exact (code_ok haddr ▸ steady_address h).quietly rfl |>.quietly rfl |>.quietly rfl

theorem steady_call (f : Ident) :
    Steady Used exits [f] (Asm.call (functionLabel f.name) ++ push .v0) :=
  .quietly ⟨List.forall_mem_singleton.mpr ⟨_, _, _, rfl⟩, List.forall_mem_singleton.mpr nofun,
    rfl, List.forall_mem_singleton.mpr nofun⟩ rfl

theorem steady_branch (l : String) : Steady Used [l] [] (branch l) where
  instrs := List.forall_mem_singleton.mpr ⟨_, _, _, rfl⟩
  targets := List.forall_mem_singleton.mpr fun _ h => h
  callees := rfl
  addressed := List.forall_mem_singleton.mpr nofun

/-! ## Expressions -/

theorem steady_binOp (op : BinOp) : Steady Used exits [] op.sketch.plain := by
  refine .quiet ?_
  cases op <;> rfl

/-- A location has only itself for a location. -/
theorem names_of_code {e : Exp} (h : ∀ l ∈ e.locations, ∀ n, l.Names n → Used n) (n : String)
    (hn : e.Names n) : Used n := by
  have hloc : e.isLocation = true := by
    obtain ⟨x, s, hroot, -⟩ := hn
    cases e with
    | ident | access => rfl
    | _ => cases hroot
  rw [Exp.locations_of_isLocation hloc] at h
  exact h e (List.mem_singleton_self e) n hn

mutual

/-- The instructions of an expression. -/
theorem steady_exp : ∀ {e : Exp}, (∀ l ∈ e.locations, ∀ n, l.Names n → Used n) →
    Steady Used exits e.calls e.sketch.plain
  | .int .., _ | .bool .., _ | .string .., _ => .quiet rfl
  | .ident x, h => steady_load (names_of_code h)
  | .access i link loc f, h =>
    (steady_address (names_of_code h)).quietly rfl |>.quietly rfl
  | .assign i l r, h => by
    rw [Exp.locations, List.forall_mem_append] at h
    have hvalue : Steady Used exits r.calls r.sketch.plain := steady_exp h.2
    have haddr : Steady Used exits [] (code (address l)) := steady_address (names_of_code h.1)
    rw [Exp.calls, ← List.append_nil r.calls]
    exact hvalue.append (haddr.quietly rfl |>.quietly rfl |>.quietly rfl)
  | .call i f sp args, h => (steady_exps h).append (steady_call f)
  | .neg i e, h | .not i e, h => (steady_exp (e := e) h).quietly rfl
  | .binary i op l r, h => by
    rw [Exp.locations, List.forall_mem_append] at h
    have hright : Steady Used exits r.calls r.sketch.plain := steady_exp h.2
    have hleft : Steady Used exits l.calls l.sketch.plain := steady_exp h.1
    rw [Exp.calls, ← List.append_nil (r.calls ++ l.calls)]
    exact (hright.append hleft).quietly (r := pop .t0 ++ pop .t1) rfl |>.append (steady_binOp op)
  | .unknown _, _ => .nil

theorem steady_exps : ∀ {es : List Exp}, (∀ l ∈ Exp.listLocations es, ∀ n, l.Names n → Used n) →
    Steady Used exits (Exp.listCalls es) (Exp.listSketch es).plain
  | [], _ => .nil
  | e :: es, h => by
    rw [Exp.listLocations, List.forall_mem_append] at h
    exact (steady_exp h.1).append (steady_exps h.2)

end

/-! ## Statements -/

theorem steady_syscall (number : Int) (comment : Option String) :
    Steady Used exits [] (syscall number comment) := .quiet rfl

mutual

/-- The instructions of a statement. -/
theorem steady_stmt {fn : String} : ∀ {s : Stmt}, (∀ l ∈ s.locations, ∀ n, l.Names n → Used n) →
    Steady Used [exitLabel fn] s.calls (s.sketch fn).plain
  | .assign _ e, h | .call _ e, h | .write _ e, h => (steady_exp (e := e) h).quietly rfl
  | .increment _ e, h | .decrement _ e, h => steady_step (names_of_code h)
  | .read _ e, h => ((steady_syscall _ _).append (steady_address (names_of_code h))).quietly rfl
  | .ifThen _ e b, h => by
    rw [Stmt.locations, List.forall_mem_append] at h
    have hbody : Steady Used [exitLabel fn] (Stmt.blockCalls b) (Stmt.blockSketch fn b).plain :=
      steady_block h.2
    have hall := (steady_exp h.1).quietly (r := (Stmt.onFalseSketch 0).plain) rfl |>.append hbody
    exact hall.quietly (r := []) rfl
  | .ifElse _ e b₁ b₂, h => by
    rw [Stmt.locations, List.forall_mem_append, List.forall_mem_append] at h
    have hcond : Steady Used [exitLabel fn] e.calls e.sketch.plain := steady_exp h.1
    have hyes : Steady Used [exitLabel fn] (Stmt.blockCalls b₁) (Stmt.blockSketch fn b₁).plain :=
      steady_block h.2.1
    have hno : Steady Used [exitLabel fn] (Stmt.blockCalls b₂) (Stmt.blockSketch fn b₂).plain :=
      steady_block h.2.2
    have hfirst := hcond.quietly (r := (Stmt.onFalseSketch 1).plain) rfl |>.append hyes
    rw [Stmt.calls, ← List.append_assoc]
    exact hfirst.quietly (r := []) rfl |>.quietly (r := []) rfl |>.append hno
      |>.quietly (r := []) rfl
  | .while _ e b, h => by
    rw [Stmt.locations, List.forall_mem_append] at h
    have hbody : Steady Used [exitLabel fn] (Stmt.blockCalls b) (Stmt.blockSketch fn b).plain :=
      steady_block h.2
    have hall := (steady_exp h.1).quietly (r := (Stmt.onFalseSketch 0).plain) rfl |>.append hbody
    exact hall.quietly (r := []) rfl |>.quietly (r := []) rfl
  | .return _ none, _ => steady_branch _
  | .return _ (some e), h => by
    have hall := (steady_exp h).quietly (r := pop .v0 (some "return value")) rfl
      |>.append (steady_branch (exitLabel fn))
    rw [List.append_nil, List.append_assoc] at hall
    exact hall
  | .unknown _, _ => .nil

theorem steady_block {fn : String} : ∀ {b : Block Stmt},
    (∀ l ∈ Stmt.blockLocations b, ∀ n, l.Names n → Used n) →
    Steady Used [exitLabel fn] (Stmt.blockCalls b) (Stmt.blockSketch fn b).plain
  | ⟨_, _, ss⟩, h => by
    rw [Stmt.blockLocations] at h
    exact steady_stmts h

theorem steady_stmts {fn : String} : ∀ {ss : List Stmt},
    (∀ l ∈ Stmt.listLocations ss, ∀ n, l.Names n → Used n) →
    Steady Used [exitLabel fn] (Stmt.listCalls ss) (Stmt.listSketch fn ss).plain
  | [], _ => .nil
  | s :: ss, h => by
    rw [Stmt.listLocations, List.forall_mem_append] at h
    exact (steady_stmt h.1).append (steady_stmts h.2)

end

end Parts

/-! ## Labels that are taken -/

theorem scoped_binOp (op : BinOp) : op.sketch.Scoped 0 := by
  cases op <;> simp [BinOp.sketch, Sketch.compare, Sketch.connect, Sketch.Scoped, Sketch.Defines,
    Opcode.branches, Operand.label?]

mutual

theorem scoped_exp : ∀ e : Exp, e.sketch.Scoped 0
  | .int .. | .bool .. | .ident _ | .access .. | .unknown _ => trivial
  | .string .. => ⟨trivial, trivial⟩
  | .assign _ _ r => ⟨scoped_exp r, trivial⟩
  | .call _ _ _ args => ⟨scoped_exps args, trivial⟩
  | .neg _ e | .not _ e => ⟨scoped_exp e, trivial⟩
  | .binary _ op l r => ⟨⟨⟨scoped_exp r, scoped_exp l⟩, trivial⟩, scoped_binOp op⟩

theorem scoped_exps : ∀ es : List Exp, (Exp.listSketch es).Scoped 0
  | [] => trivial
  | e :: es => ⟨scoped_exp e, scoped_exps es⟩

end

theorem scoped_onFalse {k n : Nat} (h : k < n) : (Stmt.onFalseSketch k).Scoped n :=
  ⟨trivial, h, rfl, rfl⟩

mutual

/-- In the sketch of a statement labels are used where they are taken. -/
theorem scoped_stmt (fn : String) : ∀ s : Stmt, (s.sketch fn).Scoped 0
  | .assign _ e | .call _ e | .write _ e | .return _ (some e) => ⟨scoped_exp e, trivial⟩
  | .increment .. | .decrement .. | .read .. | .return _ none | .unknown _ => trivial
  | .ifThen _ e b =>
    ⟨⟨⟨⟨scoped_exp e, scoped_onFalse Nat.one_pos⟩, scoped_block fn b⟩, Nat.one_pos⟩, .inr rfl⟩
  | .ifElse _ e b₁ b₂ => by
    have hyes : (Stmt.blockSketch fn b₁).Scoped 0 := scoped_block fn b₁
    have hno : (Stmt.blockSketch fn b₂).Scoped 0 := scoped_block fn b₂
    simp [Stmt.sketch, Sketch.Scoped, Sketch.Defines, scoped_exp e, scoped_onFalse, hyes, hno,
      Opcode.branches, Operand.label?]
  | .while _ e b => by
    have hbody : (Stmt.blockSketch fn b).Scoped 0 := scoped_block fn b
    simp [Stmt.sketch, Sketch.Scoped, Sketch.Defines, scoped_exp e, scoped_onFalse, hbody,
      Opcode.branches, Operand.label?]

theorem scoped_block (fn : String) : ∀ b : Block Stmt, (Stmt.blockSketch fn b).Scoped 0
  | ⟨_, _, ss⟩ => scoped_stmts fn ss

theorem scoped_stmts (fn : String) : ∀ ss : List Stmt, (Stmt.listSketch fn ss).Scoped 0
  | [] => trivial
  | s :: ss => ⟨scoped_stmt fn s, scoped_stmts fn ss⟩

end

end Generate

end CMinusMinus
