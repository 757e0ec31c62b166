import CMinusMinus.Proofs.Generation.Linking
import CMinusMinus.Proofs.Layout.Separation
import CMinusMinus.Proofs.Printing.Literals
import CMinusMinus.Proofs.Word

/-!
# The range of numbers

The numbers in code are literals of the program, sizes, and distances.  A literal is a signed word,
since the scanner refuses any other; nothing limits how much storage a program describes.

The code of a program without errors has signed words for numbers exactly if the sizes of its
globals, the areas of its frames and the distances of the variables that its functions access are
signed words (`Compilation.ranged_iff`).  The walk over trees says that the code of a tree is ranged
if its locations are and its literals can be written (`Generate.ranged_function`); the other
direction finds the pieces of code that have the numbers (`Generate.ranged_of_function`).  Structs
that double in size from one to the next leave the range soon (`Compilation.unranged_of_nested`).
-/

namespace CMinusMinus

open Asm Outcome

/-! ## Signed words -/

namespace Word

/-- The number is a signed word. -/
def Signed (z : Int) : Prop := -2147483648 ≤ z ∧ z ≤ 2147483647

instance (z : Int) : Decidable (Signed z) := inferInstanceAs (Decidable (_ ∧ _))

/-- The machine keeps signed words as they are, and only these. -/
theorem signed_iff (z : Int) : Signed z ↔ (BitVec.ofInt 32 z).toInt = z := by
  rw [BitVec.toInt_ofInt, Signed, Int.bmod_def]
  omega

end Word

open Word (Signed)

/-! ## Numbers in code -/

/-- The number in an operand. -/
def Operand.numbers : Operand → List Int
  | .imm z | .indexed _ z => [z]
  | .reg _ | .label _ => []

/-- The number in a directive. -/
def Directive.numbers : Directive → List Int
  | .align power => [power]
  | .space bytes => [bytes]
  | .data | .text | .globl _ | .asciiz _ | .other .. => []

/-- The numbers in an item. -/
def Item.numbers : Item → List Int
  | .instr _ args _ => args.flatMap Operand.numbers
  | .label .. => []
  | .directive d => d.numbers

@[simp] theorem Item.numbers_bare (i : Item) : i.bare.numbers = i.numbers := by
  cases i <;> rfl

namespace Asm

/-- The numbers in code. -/
def numbers (q : List Item) : List Int := q.flatMap Item.numbers

/-- All numbers in the code are signed words. -/
def Ranged (q : List Item) : Prop := ∀ z ∈ numbers q, Signed z

namespace Ranged

variable {q r : List Item}

theorem append_iff : Ranged (q ++ r) ↔ Ranged q ∧ Ranged r := by
  rw [Ranged, numbers, List.flatMap_append]
  exact List.forall_mem_append

theorem append (hq : Ranged q) (hr : Ranged r) : Ranged (q ++ r) := append_iff.mpr ⟨hq, hr⟩

theorem of_infix (h : Ranged r) (hq : q <:+: r) : Ranged q := by
  obtain ⟨before, after, rfl⟩ := hq
  exact (append_iff.mp (append_iff.mp h).1).2

/-- Code in which the numbers are fixed. -/
theorem fixed (h : (numbers q).all (decide <| Signed ·) = true) : Ranged q :=
  fun z hz => of_decide_eq_true (List.all_eq_true.mp h z hz)

/-- Code with fixed numbers behind other code. -/
theorem fixedly (h : Ranged q) (hr : (numbers r).all (decide <| Signed ·) = true) :
    Ranged (q ++ r) :=
  h.append (fixed hr)

end Ranged

end Asm

theorem CodeOptions.ranged_finish (o : CodeOptions) (q : List Item) :
    Ranged (o.finish q) ↔ Ranged q := by
  rw [finish]
  split
  · exact Iff.rfl
  · simp only [Ranged, numbers, List.flatMap_map, Item.numbers_bare]

/-! ## Locations -/

/-- The code for the location adds a signed word to the address of an operand in which there is
none other. -/
def Exp.Ranged (e : Exp) : Prop :=
  ∃ operand n, e.Emits operand n ∧ (∀ z ∈ operand.numbers, Signed z) ∧ Signed (n : Int)

namespace Generate

variable {e : Exp} {q : List Item} {ls ls' : Labels}

theorem ranged_operand_iff {op : Opcode} {r : Reg} {operand : Operand} {comment : Option String} :
    Ranged [instr op [.reg r, operand] comment] ↔ ∀ z ∈ operand.numbers, Signed z := by
  simp [Ranged, numbers, instr, Item.numbers, Operand.numbers]

/-- The code for the address of a location that is ranged. -/
theorem ranged_address (hq : address e = .ok q) (h : ∀ l ∈ e.locations, l.Ranged) : Ranged q := by
  rw [Exp.locations_of_isLocation (isLocation_of_address hq)] at h
  obtain ⟨operand, n, hemits, hoperand, hn⟩ := List.forall_mem_singleton.mp h
  obtain ⟨comment, haddress⟩ := hemits.address
  cases hq.symm.trans haddress
  refine (ranged_operand_iff.mpr hoperand).append ?_
  split
  · exact .fixed rfl
  · exact List.forall_mem_singleton.mpr hn

/-- The code for the value of a location that is ranged. -/
theorem ranged_location (hq : exp ls e = .ok (q, ls')) (h : e.Ranged) : Ranged q := by
  obtain ⟨operand, n, hemits, hoperand, hn⟩ := h
  obtain ⟨load, hload, hcases⟩ := hemits.value ls
  cases hq.symm.trans hload
  refine Ranged.fixedly ?_ rfl
  rcases hcases with ⟨-, comment, rfl⟩ | ⟨addr, haddr, rfl⟩
  · exact ranged_operand_iff.mpr hoperand
  · refine Ranged.fixedly (ranged_address haddr ?_) rfl
    rw [Exp.locations_of_isLocation (isLocation_of_address haddr)]
    exact List.forall_mem_singleton.mpr ⟨operand, n, hemits, hoperand, hn⟩

/-! ## Trees -/

theorem ranged_combine {op : BinOp} {span : Option Span}
    (h : combine op span ls = .ok (q, ls')) : Ranged q := by
  cases op with
  | other => cases h
  | _ =>
    cases h
    exact .fixed rfl

theorem ranged_constant (ls : Labels) (text : String) : Ranged (ls.constant text).2.1 := by
  rw [Labels.constant]
  split <;> exact .fixed rfl

theorem signed_of_writable {i : Info} {v : Int} (h : (Exp.int i v).Writable) : Signed v := by
  obtain ⟨hlow, hhigh⟩ := h
  unfold Token.intMax at hhigh
  unfold Signed
  omega

mutual

/-- The code of an expression is ranged if its locations are and its literals can be written. -/
theorem ranged_exp : ∀ {e : Exp} {ls ls' : Labels} {q : List Item}, exp ls e = .ok (q, ls') →
    (∀ l ∈ e.locations, l.Ranged) → (∀ x ∈ e.expressions, x.Writable) → Ranged q
  | .int i v, _, _, _, h, _, hw => by
    cases h
    refine Ranged.fixedly ?_ rfl
    exact List.forall_mem_singleton.mpr (signed_of_writable (List.forall_mem_singleton.mp hw))
  | .bool _ b, _, _, _, h, _, _ => by
    cases h
    cases b <;> exact .fixed rfl
  | .string _ text, ls, _, _, h, _, _ => by
    cases h
    exact (ranged_constant ls text).fixedly rfl |>.fixedly rfl
  | .ident x, _, _, _, h, hl, _ => ranged_location h (List.forall_mem_singleton.mp hl)
  | .access .., _, _, _, h, hl, _ => ranged_location h (List.forall_mem_singleton.mp hl)
  | .assign _ l r, _, _, _, h, hl, hw => by
    rw [Exp.locations, List.forall_mem_append] at hl
    rw [Exp.expressions, List.cons_append, List.forall_mem_cons, List.forall_mem_append] at hw
    cases exp_eq_ok.mp h with
    | assign hvalue haddr =>
      have hfirst := (ranged_exp hvalue hl.2 hw.2.2).append (ranged_address haddr hl.1)
      exact hfirst.fixedly rfl |>.fixedly rfl |>.fixedly rfl
  | .call _ f _ args, _, _, _, h, hl, hw => by
    rw [Exp.expressions, List.forall_mem_cons, List.forall_mem_cons] at hw
    cases exp_eq_ok.mp h with
    | call hvalues => exact (ranged_exps hvalues hl hw.2.2).fixedly rfl |>.fixedly rfl
  | .neg _ e, _, _, _, h, hl, hw => by
    rw [Exp.expressions, List.forall_mem_cons] at hw
    cases exp_eq_ok.mp h with
    | neg hvalue =>
      exact (ranged_exp hvalue hl hw.2).fixedly rfl |>.fixedly rfl |>.fixedly rfl
  | .not _ e, _, _, _, h, hl, hw => by
    rw [Exp.expressions, List.forall_mem_cons] at hw
    cases exp_eq_ok.mp h with
    | not hvalue =>
      exact (ranged_exp hvalue hl hw.2).fixedly rfl |>.fixedly rfl |>.fixedly rfl
  | .binary _ op l r, _, _, _, h, hl, hw => by
    rw [Exp.locations, List.forall_mem_append] at hl
    rw [Exp.expressions, List.cons_append, List.forall_mem_cons, List.forall_mem_append] at hw
    cases exp_eq_ok.mp h with
    | binary hright hleft hresult =>
      have hfirst := (ranged_exp hright hl.2 hw.2.2).append (ranged_exp hleft hl.1 hw.2.1)
      exact hfirst.fixedly rfl |>.fixedly rfl |>.append (ranged_combine hresult)
  | .unknown _, _, _, _, h, _, _ => by cases h

theorem ranged_exps : ∀ {es : List Exp} {ls ls' : Labels} {q : List Item},
    exps ls es = .ok (q, ls') → (∀ l ∈ Exp.listLocations es, l.Ranged) →
      (∀ x ∈ Exp.listExpressions es, x.Writable) → Ranged q
  | [], _, _, _, h, _, _ => by
    cases h
    exact .fixed rfl
  | e :: es, _, _, _, h, hl, hw => by
    obtain ⟨first, _, rest, hfirst, hrest, rfl⟩ := exps_cons_eq_ok.mp h
    rw [Exp.listLocations, List.forall_mem_append] at hl
    rw [Exp.listExpressions, List.forall_mem_append] at hw
    exact (ranged_exp hfirst hl.1 hw.1).append (ranged_exps hrest hl.2 hw.2)

end

theorem ranged_step {op : Opcode} (h : step op e = .ok q) (hl : ∀ l ∈ e.locations, l.Ranged) :
    Ranged q := by
  obtain ⟨addr, haddr, rfl⟩ := step_eq_ok.mp h
  exact (ranged_address haddr hl).fixedly rfl |>.fixedly rfl |>.fixedly rfl

theorem ranged_printer (t : Ty) : Ranged (printValue (printer t).number) := by
  rw [printer]
  split <;> exact .fixed rfl

mutual

/-- The code of a statement is ranged if its locations are and its literals can be written. -/
theorem ranged_stmt {fn : String} : ∀ {s : Stmt} {ls ls' : Labels} {q : List Item},
    stmt fn ls s = .ok (q, ls') → (∀ l ∈ s.locations, l.Ranged) →
      (∀ x ∈ s.expressions, x.Writable) → Ranged q
  | .assign _ e, _, _, _, h, hl, hw => by
    cases stmt_eq_ok.mp h with
    | assign hvalue => exact (ranged_exp hvalue hl hw).fixedly rfl
  | .call _ e, _, _, _, h, hl, hw => by
    cases stmt_eq_ok.mp h with
    | call hvalue => exact (ranged_exp hvalue hl hw).fixedly rfl
  | .return _ (some e), _, _, _, h, hl, hw => by
    cases stmt_eq_ok.mp h with
    | «return» hvalue => exact (ranged_exp hvalue hl hw).fixedly rfl |>.fixedly rfl
  | .increment _ e, _, _, _, h, hl, _ => by
    cases stmt_eq_ok.mp h with
    | increment hcode => exact ranged_step hcode hl
  | .decrement _ e, _, _, _, h, hl, _ => by
    cases stmt_eq_ok.mp h with
    | decrement hcode => exact ranged_step hcode hl
  | .read _ e, _, _, _, h, hl, _ => by
    cases stmt_eq_ok.mp h with
    | read haddr => exact (Ranged.append (.fixed rfl) (ranged_address haddr hl)).fixedly rfl
  | .write _ e, _, _, _, h, hl, hw => by
    cases stmt_eq_ok.mp h with
    | @write _ _ t _ _ hvalue =>
      exact (ranged_exp hvalue hl hw).fixedly rfl |>.append (ranged_printer t)
  | .ifThen _ e b, _, _, _, h, hl, hw => by
    rw [Stmt.locations, List.forall_mem_append] at hl
    rw [Stmt.expressions, List.forall_mem_append] at hw
    cases stmt_eq_ok.mp h with
    | ifThen hcond hbody =>
      exact (ranged_exp hcond hl.1 hw.1).fixedly rfl |>.append (ranged_block hbody hl.2 hw.2)
        |>.fixedly rfl
  | .ifElse _ e b₁ b₂, _, _, _, h, hl, hw => by
    rw [Stmt.locations, List.forall_mem_append, List.forall_mem_append] at hl
    rw [Stmt.expressions, List.forall_mem_append, List.forall_mem_append] at hw
    cases stmt_eq_ok.mp h with
    | ifElse hcond hyes hno =>
      have hcond' := ranged_exp hcond hl.1 hw.1.1
      have hyes' := ranged_block hyes hl.2.1 hw.1.2
      have hno' := ranged_block hno hl.2.2 hw.2
      exact hcond'.fixedly rfl |>.append hyes' |>.fixedly rfl |>.fixedly rfl |>.append hno'
        |>.fixedly rfl
  | .while _ e b, _, _, _, h, hl, hw => by
    rw [Stmt.locations, List.forall_mem_append] at hl
    rw [Stmt.expressions, List.forall_mem_append] at hw
    cases stmt_eq_ok.mp h with
    | «while» hcond hbody =>
      have hcond' := ranged_exp hcond hl.1 hw.1
      have hbody' := ranged_block hbody hl.2 hw.2
      exact (Ranged.append (.fixed rfl) hcond').fixedly rfl |>.append hbody' |>.fixedly rfl
        |>.fixedly rfl
  | .return _ none, _, _, _, h, _, _ => by
    cases h
    exact .fixed rfl
  | .unknown _, _, _, _, h, _, _ => by cases h

theorem ranged_block {fn : String} : ∀ {b : Block Stmt} {ls ls' : Labels} {q : List Item},
    block fn ls b = .ok (q, ls') → (∀ l ∈ Stmt.blockLocations b, l.Ranged) →
      (∀ x ∈ Stmt.blockExpressions b, x.Writable) → Ranged q
  | ⟨_, _, _⟩, _, _, _, h, hl, hw => by
    rw [block] at h
    rw [Stmt.blockExpressions, List.forall_mem_append] at hw
    exact ranged_stmts h hl hw.2

theorem ranged_stmts {fn : String} : ∀ {ss : List Stmt} {ls ls' : Labels} {q : List Item},
    stmts fn ls ss = .ok (q, ls') → (∀ l ∈ Stmt.listLocations ss, l.Ranged) →
      (∀ x ∈ Stmt.listExpressions ss, x.Writable) → Ranged q
  | [], _, _, _, h, _, _ => by
    cases h
    exact .fixed rfl
  | s :: ss, _, _, _, h, hl, hw => by
    obtain ⟨first, _, rest, hfirst, hrest, rfl⟩ := stmts_cons_eq_ok.mp h
    rw [Stmt.listLocations, List.forall_mem_append] at hl
    rw [Stmt.listExpressions, List.forall_mem_append] at hw
    exact (ranged_stmt hfirst hl.1 hw.1).append (ranged_stmts hrest hl.2 hw.2)

end

end Generate

/-! ## Functions -/

/-- The areas of the frame are signed words, and so are the distances of the variables in it that
the function accesses. -/
structure FnDecl.Ranged (d : FnDecl) (frame : Frame) : Prop where
  saved : Signed (frame.formals + Frame.savedSize : Nat)
  locals : Signed frame.locals
  accessed : ∀ e ∈ d.locations, ∀ x s offset, e.root? = some x →
    x.binding = .bound (.storage s) → s.place = .frame offset → Signed (-offset)

namespace Generate

variable {d : FnDecl} {frame : Frame} {ls ls' : Labels} {q : List Item}

theorem ranged_prologue_iff (formals locals : Nat) :
    Ranged (prologue formals locals) ↔
      Signed (formals + Frame.savedSize : Nat) ∧ Signed locals := by
  have hpush : ∀ r comment, Ranged (push r comment) := fun _ _ => .fixed rfl
  have hfp : ∀ comment,
      Ranged [instr .addu [.reg .fp, .reg .sp, .imm (formals + 2 * wordSize)] comment] ↔
        Signed (formals + Frame.savedSize : Nat) := fun _ => List.forall_mem_singleton
  have hsp : ∀ comment, Ranged [instr .subu [.reg .sp, .reg .sp, .imm locals] comment] ↔
      Signed locals := fun _ => List.forall_mem_singleton
  rw [prologue, Ranged.append_iff, Ranged.append_iff, Ranged.append_iff, hfp]
  simp only [hpush, true_and]
  refine and_congr_right fun _ => ?_
  by_cases hlocals : (locals : Int) = 0
  · rw [if_pos hlocals, hlocals]
    exact iff_of_true (.fixed rfl) (by decide)
  · rw [if_neg hlocals, hsp]

theorem ranged_epilogue (exit : String) {formals : Nat} (isMain : Bool)
    (h : Signed (formals + Frame.savedSize : Nat)) : Ranged (epilogue exit formals isMain) := by
  have hsaved : Frame.savedSize = 8 := rfl
  have hword : (wordSize : Int) = 4 := rfl
  have hra : Signed (-(formals : Int)) := by
    unfold Signed at *
    omega
  have hfp : Signed (-((formals : Int) + wordSize)) := by
    unfold Signed at *
    omega
  have hload : ∀ {r z comment}, Signed z → Ranged (loadWord r (.indexed .fp z) comment) :=
    List.forall_mem_singleton.mpr
  refine Ranged.append ((Ranged.append (.fixed rfl) (hload hra)).fixedly rfl
    |>.append (hload hfp) |>.fixedly rfl) ?_
  cases isMain <;> exact .fixed rfl

/-- The code of a function is ranged if its frame and its locations are and its literals can be
written. -/
theorem ranged_function (h : function d frame ls = .ok (q, ls')) (hframe : d.Ranged frame)
    (hl : ∀ l ∈ d.locations, l.Ranged) (hw : ∀ x ∈ Stmt.blockExpressions d.body, x.Writable) :
    Ranged q := by
  obtain ⟨body, hbody, rfl⟩ := function_eq_ok.mp h
  have hentry : ∀ name isMain, Ranged (functionEntry name isMain) := by
    intro name isMain
    cases isMain <;> exact .fixed rfl
  have hprologue :=
    (ranged_prologue_iff frame.formals frame.locals).mpr ⟨hframe.saved, hframe.locals⟩
  exact (((hentry _ _).append hprologue).append (ranged_block hbody hl hw)).append
    (ranged_epilogue _ _ hframe.saved)

/-- The operand of a location stands in the code for it. -/
theorem signed_of_emitted {e : Exp} {operand : Operand} {n : Nat} (he : e.Emitted q)
    (hemits : e.Emits operand n) (hq : Ranged q) : ∀ z ∈ operand.numbers, Signed z := by
  obtain ⟨code, hcode, hinfix⟩ := he
  have hranged := hq.of_infix hinfix
  obtain ⟨comment, haddress⟩ := hemits.address
  rcases hcode with hcode | ⟨ls, ls', hcode⟩
  · cases hcode.symm.trans haddress
    exact ranged_operand_iff.mp (Ranged.append_iff.mp hranged).1
  · obtain ⟨load, hload, hcases⟩ := hemits.value ls
    cases hcode.symm.trans hload
    have hfirst := (Ranged.append_iff.mp hranged).1
    rcases hcases with ⟨-, comment', rfl⟩ | ⟨addr, haddr, rfl⟩
    · exact ranged_operand_iff.mp hfirst
    · cases haddr.symm.trans haddress
      exact ranged_operand_iff.mp (Ranged.append_iff.mp (Ranged.append_iff.mp hfirst).1).1

end Generate

namespace FnTyped

variable {env : Env} {d : FnDecl} {sig : Signature} {frame : Frame}

/-- The locations of a function are ranged if its frame and the sizes of the globals are. -/
theorem ranged_locations (h : FnTyped env d sig) (hsound : env.Sound)
    (hglobals : ∀ name s, env.find? name = some (.storage s) →
      s.place = .static ∧ Signed s.shape.size)
    (hframe : d.frame = some frame) (hranged : d.Ranged frame) :
    ∀ e ∈ d.locations, e.Ranged := by
  intro e he
  obtain ⟨frame', hframe', hplaced, hstack⟩ := h.stacked
  cases hframe.symm.trans hframe'
  obtain ⟨env₁, s, n, t, hsound₁, hloc, hhost⟩ := h.hosted hsound e he
  obtain ⟨operand, hoperand⟩ := Generate.placeOperand_of_placed (hloc.root hsound₁).1
  obtain ⟨x, hroot, hbound⟩ := hloc.root?_eq
  have hwithin : n + wordSize ≤ s.shape.size :=
    (hloc.root hsound₁).2.words.within hloc.mem_words_scalar
  refine ⟨operand, n, hloc.emits hsound₁ hoperand, ?_, ?_⟩
  · unfold Generate.placeOperand? at hoperand
    split at hoperand
    · cases hoperand
      exact List.forall_mem_nil _
    · next offset hplace =>
      cases hoperand
      exact List.forall_mem_singleton.mpr (hranged.accessed e he x s offset hroot hbound hplace)
    · cases hoperand
  · have hlocals := hranged.locals
    have hsize : s.shape.size ≤ wordSize ∨ s.shape.size ≤ frame.locals ∨ Signed s.shape.size := by
      rcases hhost with hmem | hfind
      · rcases List.mem_append.mp hmem with hmem | hmem
        · obtain ⟨i, -, -, hsize⟩ := hplaced.of_mem hmem
          exact .inl (Nat.le_of_eq hsize)
        · obtain ⟨offset, -, hlow, hhigh⟩ := hstack.within hmem
          dsimp only at hlow hhigh
          exact .inr (.inl (by omega))
      · exact .inr (.inr (hglobals _ _ hfind).2)
    have hword : wordSize = 4 := rfl
    unfold Signed at *
    omega

/-- A function whose code is ranged is itself. -/
theorem ranged_of_function (h : FnTyped env d sig) (hsound : env.Sound) {ls ls' : Generate.Labels}
    {q : List Item} (hcode : Generate.function d frame ls = .ok (q, ls')) (hq : Ranged q) :
    d.Ranged frame := by
  have hemitted := Generate.emitted_function hcode
  obtain ⟨body, -, rfl⟩ := Generate.function_eq_ok.mp hcode
  have hentry := (Ranged.append_iff.mp (Ranged.append_iff.mp (Ranged.append_iff.mp hq).1).1).2
  obtain ⟨hsaved, hlocals⟩ := (Generate.ranged_prologue_iff _ _).mp hentry
  refine ⟨hsaved, hlocals, fun e he x s offset hroot hbound hplace => ?_⟩
  obtain ⟨env₁, s', n, t, hsound₁, hloc, -⟩ := h.hosted hsound e he
  obtain ⟨x', hroot', hbound'⟩ := hloc.root?_eq
  cases hroot.symm.trans hroot'
  cases hbound.symm.trans hbound'
  have hoperand : Generate.placeOperand? s = some (.indexed .fp (-offset)) := by
    rw [Generate.placeOperand?, hplace]
  exact Generate.signed_of_emitted (hemitted e he) (hloc.emits hsound₁ hoperand) hq _
    (List.mem_singleton_self _)

/-- A frame that is not too large is ranged. -/
theorem ranged_of_size (h : FnTyped env d sig) (hsound : env.Sound)
    (hglobals : ∀ name s, env.find? name = some (.storage s) → s.place = .static)
    (hframe : d.frame = some frame) (hsize : frame.size < 2147483648) : d.Ranged frame := by
  obtain ⟨frame', hframe', hplaced, hstack⟩ := h.stacked
  cases hframe.symm.trans hframe'
  unfold Frame.size at hsize
  have hareas : Signed (frame.formals + Frame.savedSize : Nat) ∧ Signed frame.locals := by
    unfold Signed
    omega
  refine ⟨hareas.1, hareas.2, fun e he x s offset hroot hbound hplace => ?_⟩
  obtain ⟨env₁, s', n, t, hsound₁, hloc, hhost⟩ := h.hosted hsound e he
  obtain ⟨x', hroot', hbound'⟩ := hloc.root?_eq
  cases hroot.symm.trans hroot'
  cases hbound.symm.trans hbound'
  rcases hhost with hmem | hfind
  · obtain ⟨offset', hplace', hlow, hhigh⟩ := hplaced.within hstack s hmem
    cases hplace.symm.trans hplace'
    have hwithin : n + wordSize ≤ s.shape.size :=
      (hloc.root hsound₁).2.words.within hloc.mem_words_scalar
    unfold Frame.size at hhigh
    unfold Signed
    omega
  · cases hplace.symm.trans (hglobals _ _ hfind)

end FnTyped

/-! ## Programs -/

/-- The sizes of the globals are signed words, and the functions are ranged. -/
structure Program.Ranged (p : Program) : Prop where
  globals : ∀ s ∈ p.globals, Signed s.shape.size
  functions : ∀ d ∈ p.functions, ∃ frame, d.frame = some frame ∧ d.Ranged frame

theorem Asm.ranged_globalSlot_iff (name : String) (size : Int) :
    Ranged (globalSlot name size) ↔ Signed size := by
  have halign : Signed 2 := by decide
  show (∀ z ∈ [2, size], Signed z) ↔ Signed size
  simp [halign]

/-- The code of declarations is ranged if the sizes of the globals and the code of the functions
are. -/
theorem Generate.ranged_decls {env env' : Env} {ds : List Decl} (h : DeclsTyped env ds env')
    {ls : Labels} {current current' : Option String} {items : List Item}
    (hitems : decls ls current ds = .ok (items, current'))
    (hglobals : ∀ s ∈ Decl.globals ds, Signed s.shape.size)
    (hfunctions : ∀ d ∈ Decl.functions ds, ∀ frame ls ls' q, d.frame = some frame →
      function d frame ls = .ok (q, ls') → Asm.Ranged q) : Asm.Ranged items := by
  induction h generalizing ls current items with
  | nil =>
    cases hitems
    exact .fixed rfl
  | @var _ _ d _ s _ _ hd _ _ _ ih =>
    obtain ⟨code, ls', current₁, rest, hcode, hrest, rfl⟩ := decls_cons hitems
    rw [hd.globals, List.forall_mem_cons] at hglobals
    refine Ranged.append ?_ (ih hrest hglobals.2 hfunctions)
    cases hcode with
    | var hcode =>
      rw [slot_of_bound hd.binding hcode]
      exact (ranged_globalSlot_iff _ _).mpr hglobals.1
  | fn _ _ _ ih =>
    obtain ⟨code, ls', current₁, rest, hcode, hrest, rfl⟩ := decls_cons hitems
    cases hcode with
    | fn hframe hcode =>
      exact (hfunctions _ List.mem_cons_self _ _ _ _ hframe hcode).append
        (ih hrest hglobals fun d hd => hfunctions d (List.mem_cons_of_mem _ hd))
  | struct _ _ _ _ ih =>
    obtain ⟨code, ls', current₁, rest, hcode, hrest, rfl⟩ := decls_cons hitems
    cases hcode with
    | struct => exact ih hrest hglobals hfunctions

/-- What the passes make of a program that was read has literals that can be written. -/
theorem Program.writable_of_parse {file : Option String} {source : String} {p : Program}
    (h : Program.parse file source = .ok p) (hasMain : Bool) :
    ∀ d ∈ (p.resolve.program.check hasMain).value.functions,
      ∀ x ∈ Stmt.blockExpressions d.body, x.Writable := by
  intro d hd x hx
  have hmem : x ∈ (p.resolve.program.check hasMain).value.expressions := by
    refine List.mem_flatMap.mpr ⟨.fn d, Program.mem_functions.mp hd, ?_⟩
    exact List.mem_append_right _ hx
  exact forall_expressions_of_form Exp.writable_form (p.form_check hasMain)
    (grammatical_of_parse h).literals x hmem

namespace Compilation

/-- In the code of a program without errors all numbers are signed words exactly if the program is
ranged, as it is if its globals and its frames are not too large. -/
theorem ranged_iff {file : Option String} {source : String} {c : Compilation}
    (hc : analyze file source = .ok c) (herrors : c.hasErrors = false) (o : CodeOptions) :
    ∃ p items, c.program = some p ∧ (c.emit o).result = .ok items ∧
      ((∀ z ∈ numbers items, Signed z) ↔ p.Ranged) ∧
      ((∀ s ∈ p.globals, s.shape.size < 2147483648) →
        (∀ d ∈ p.functions, ∃ frame, d.frame = some frame ∧ frame.size < 2147483648) →
        p.Ranged) := by
  obtain ⟨p, hp, hfault, rfl⟩ := analysis_of_analyze hc herrors
  have hformed := Program.parse_formed hp
  obtain ⟨hresolve, hcheck⟩ := reports_of_hasErrors herrors
  obtain ⟨env, htyped, -⟩ := hformed.typed hfault hresolve hcheck
  obtain ⟨⟨raw, current⟩, hraw⟩ := Generate.decls_of_typed htyped Env.sound_empty
    { pool := o.pool } none
  have hfn : ∀ d ∈ (p.resolve.program.check p.resolve.hasMain).value.functions,
      ∃ env₁ sig, env₁.Sound ∧ FnTyped env₁ d sig ∧
        ∀ name s, env₁.find? name = some (.storage s) → s.place = .static ∧
          s ∈ (p.resolve.program.check p.resolve.hasMain).value.globals := by
    intro d hd
    obtain ⟨sig, env₁, hsound, hwithin, -, hfn⟩ :=
      DeclsTyped.typedWithin htyped rfl Env.sound_empty hd
    refine ⟨env₁, sig, hsound, hfn, fun name s hfind => ?_⟩
    have hmem : s ∈ (p.resolve.program.check p.resolve.hasMain).value.globals :=
      (DeclsTyped.global_of_find? htyped rfl (hwithin hfind)).resolve_left nofun
    exact ⟨htyped.static s hmem, hmem⟩
  refine ⟨_, o.finish raw, rfl, emit_of_decls rfl hraw,
    (o.ranged_finish raw).trans ⟨fun hall => ?_, fun hranged => ?_⟩, fun hglobals hframes => ?_⟩
  · refine ⟨fun s hs => ?_, fun d hd => ?_⟩
    · have hslot := Generate.globalSlot_of_decls htyped hraw s hs
      exact (ranged_globalSlot_iff _ _).mp (hall.of_infix hslot)
    · obtain ⟨env₁, sig, hsound, hfn, -⟩ := hfn d hd
      obtain ⟨frame, ls, ls', code, before, after, hframe, hcode, hsplit⟩ :=
        Generate.mem_decls hraw hd
      have hinfix : code <:+: raw := ⟨before, after, by rw [hsplit, List.append_assoc]⟩
      exact ⟨frame, hframe, hfn.ranged_of_function hsound hcode (hall.of_infix hinfix)⟩
  · refine Generate.ranged_decls htyped hraw hranged.globals
      fun d hd frame ls ls' q hframe hq => ?_
    obtain ⟨env₁, sig, hsound, hfn, hglobals⟩ := hfn d hd
    obtain ⟨frame', hframe', hd'⟩ := hranged.functions d hd
    cases hframe.symm.trans hframe'
    refine Generate.ranged_function hq hd' ?_ (Program.writable_of_parse hp _ d hd)
    exact hfn.ranged_locations hsound (fun name s hfind =>
      ⟨(hglobals name s hfind).1, hranged.globals s (hglobals name s hfind).2⟩) hframe hd'
  · refine ⟨fun s hs => ?_, fun d hd => ?_⟩
    · have hsize := hglobals s hs
      unfold Signed
      omega
    · obtain ⟨env₁, sig, hsound, hfn, hglobals⟩ := hfn d hd
      obtain ⟨frame, hframe, hsize⟩ := hframes d hd
      have hstatic := fun name s hfind => (hglobals name s hfind).1
      exact ⟨frame, hframe, hfn.ranged_of_size hsound hstatic hframe hsize⟩

set_option maxRecDepth 100000 in
/-- The largest literal, a struct in a global and one in a frame. -/
theorem ranged_iff_of_literal :
    ∃ c p items, analyze none
        "struct s \x7b int x; bool y; \x7d; struct s g;
         int f(int n) \x7b struct s l; l.x = n; return 2147483647 - l.x; \x7d
         void main() \x7b cout << f(g.x); \x7d" = .ok c ∧
      c.hasErrors = false ∧ c.program = some p ∧ (c.emit {}).result = .ok items ∧
      (∀ s ∈ p.globals, s.shape.size < 2147483648) ∧
      (∀ d ∈ p.functions, ∃ frame, d.frame = some frame ∧ frame.size < 2147483648) ∧
      ∀ z ∈ numbers items, Signed z := by
  obtain ⟨c, hc, herrors, hsome⟩ : ∃ c, analyze none
        "struct s \x7b int x; bool y; \x7d; struct s g;
         int f(int n) \x7b struct s l; l.x = n; return 2147483647 - l.x; \x7d
         void main() \x7b cout << f(g.x); \x7d" = .ok c ∧
      c.hasErrors = false ∧ c.program.any (fun p => decide (p.globals.map (·.shape.size) = [8] ∧
        p.functions.map (·.frame) = [some ⟨4, 8⟩, some ⟨0, 0⟩])) = true :=
    exists_analyze rfl (by decide +kernel)
  obtain ⟨p, hp, hfacts⟩ := (Option.any_eq_true _ _).mp hsome
  obtain ⟨hglobals, hframes⟩ := of_decide_eq_true hfacts
  obtain ⟨p', items, hp', hitems, hiff, hsmall⟩ := ranged_iff hc herrors {}
  cases hp.symm.trans hp'
  have hsizes : ∀ s ∈ p.globals, s.shape.size < 2147483648 := by
    intro s hs
    have hmem := List.mem_map_of_mem (f := fun s : Storage => s.shape.size) hs
    rw [hglobals, List.mem_singleton] at hmem
    omega
  have hareas : ∀ d ∈ p.functions, ∃ frame, d.frame = some frame ∧ frame.size < 2147483648 := by
    intro d hd
    have hmem := List.mem_map_of_mem (f := FnDecl.frame) hd
    rw [hframes] at hmem
    rcases List.mem_cons.mp hmem with h | h
    · exact ⟨_, h, by decide⟩
    · exact ⟨_, List.mem_singleton.mp h, by decide⟩
  exact ⟨c, p, items, hc, herrors, hp, hitems, hsizes, hareas, hiff.mpr (hsmall hsizes hareas)⟩

set_option maxRecDepth 100000 in
/-- A local of four gigabytes: what the prologue takes from the stack pointer is no signed word, and
the machine takes nothing. -/
theorem unranged_of_nested :
    ∃ c items, analyze none
        "struct a \x7bint w; int x; int y; int z;\x7d;
struct b \x7bstruct a w; struct a x; struct a y; struct a z;\x7d;
struct c \x7bstruct b w; struct b x; struct b y; struct b z;\x7d;
struct d \x7bstruct c w; struct c x; struct c y; struct c z;\x7d;
struct e \x7bstruct d w; struct d x; struct d y; struct d z;\x7d;
struct f \x7bstruct e w; struct e x; struct e y; struct e z;\x7d;
struct g \x7bstruct f w; struct f x; struct f y; struct f z;\x7d;
struct h \x7bstruct g w; struct g x; struct g y; struct g z;\x7d;
struct i \x7bstruct h w; struct h x; struct h y; struct h z;\x7d;
struct j \x7bstruct i w; struct i x; struct i y; struct i z;\x7d;
struct k \x7bstruct j w; struct j x; struct j y; struct j z;\x7d;
struct l \x7bstruct k w; struct k x; struct k y; struct k z;\x7d;
struct m \x7bstruct l w; struct l x; struct l y; struct l z;\x7d;
struct n \x7bstruct m w; struct m x; struct m y; struct m z;\x7d;
struct o \x7bstruct n w; struct n x; struct n y; struct n z;\x7d;
void main() \x7bstruct o s;\x7d" = .ok c ∧
      c.hasErrors = false ∧ (c.emit {}).result = .ok items ∧
      .instr .subu [.reg .sp, .reg .sp, .imm 4294967296] (some "reserve locals") ∈ items ∧
      (¬ ∀ z ∈ numbers items, Signed z) ∧ BitVec.ofInt 32 4294967296 = 0 := by
  exact exists_emit rfl (by decide +kernel)

end Compilation

end CMinusMinus
