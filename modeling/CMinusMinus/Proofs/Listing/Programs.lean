import CMinusMinus.Proofs.Generation.Linking
import CMinusMinus.Proofs.Generation.Segments
import CMinusMinus.Proofs.Lexing.Escapes
import CMinusMinus.Proofs.Listing
import CMinusMinus.Proofs.Printing
import CMinusMinus.Proofs.Printing.Literals
import CMinusMinus.Proofs.Rules.Programs

/-!
# Assembly of programs can be read back

What generated code takes from the program without quoting it are names, in labels and comments, and
the bodies of string literals.  Where names are spelled like names and literals stay on their line
(`Exp.Spelled`), and the locations lie in globals with labels of such names, the sketch of a tree is
legible (`Generate.legible_exp`, `Generate.legible_block`), and so are the items that it stands for
(`Sketch.legible_run`).  The names of a tree in the shape of a program are spelled like names, and
its literals were lexemes, which stay on their line (`Program.Grammatical.spelled`); annotations do
not change either.

So the assembly of a program without errors has one line for each item, none of them empty, and
tells the items (`Compilation.emit_listed`).
-/

namespace CMinusMinus

open Asm Generate

/-! ## Labels and comments of names -/

theorem IsName.narrow {name : String} (h : IsName name) : Narrow name.toList :=
  ⟨h.notMem (by decide) (by decide), h.notMem (by decide) (by decide)⟩

theorem IsName.isComment {name : String} (h : IsName name) : IsComment name := by
  obtain ⟨c, cs, hname, -⟩ := h.spelled
  exact ⟨by rw [hname]; exact List.cons_ne_nil _ _, h.narrow⟩

/-- A name after something that is not a name. -/
theorem IsName.isComment_and {name : String} (h : IsName name) : IsComment ("&" ++ name) := by
  have hand : Narrow ['&'] := by decide
  rw [IsComment, String.toList_append]
  exact ⟨List.cons_ne_nil _ _, hand.append h.narrow⟩

namespace Asm

theorem isLabel_numbered (n : Nat) : IsLabel (numbered n) := by
  have hdigits : ∀ {c : Char}, c.isDigit = false → c ≠ '-' → c ∉ (toString n).toList :=
    fun hdigit hsign => Text.notMem_int hdigit hsign n
  have hstart : Narrow ['.', 'L'] ∧ ',' ∉ ['.', 'L'] ∧ ':' ∉ ['.', 'L'] := by decide
  rw [IsLabel, toList_numbered]
  exact ⟨by simp,
    hstart.1.append ⟨hdigits (by decide) (by decide), hdigits (by decide) (by decide)⟩,
    List.not_mem_append hstart.2.1 (hdigits (by decide) (by decide)),
    List.not_mem_append hstart.2.2 (hdigits (by decide) (by decide))⟩

theorem isLabel_globalLabel {name : String} (h : IsName name) : IsLabel (globalLabel name) := by
  have hstart : Narrow ['_'] ∧ ',' ∉ ['_'] ∧ ':' ∉ ['_'] := by decide
  rw [IsLabel, globalLabel, String.toList_append]
  exact ⟨by simp, hstart.1.append h.narrow,
    List.not_mem_append hstart.2.1 (h.notMem (by decide) (by decide)),
    List.not_mem_append hstart.2.2 (h.notMem (by decide) (by decide))⟩

theorem isLabel_functionLabel {name : String} (h : IsName name) : IsLabel (functionLabel name) := by
  rw [functionLabel]
  split
  · decide
  · exact isLabel_globalLabel h

theorem isLabel_exitLabel {name : String} (h : IsName name) : IsLabel (exitLabel name) := by
  have hend : Narrow ".exit".toList ∧ ',' ∉ ".exit".toList ∧ ':' ∉ ".exit".toList := by decide
  obtain ⟨hhead, hnarrow, hcomma, hcolon⟩ := isLabel_functionLabel h
  rw [IsLabel, exitLabel, String.toList_append]
  refine ⟨?_, hnarrow.append hend.1, List.not_mem_append hcomma hend.2.1,
    List.not_mem_append hcolon hend.2.2⟩
  rw [List.head?_append]
  cases hstart : (functionLabel name).toList.head? with
  | none =>
    rw [hstart] at hhead
    exact absurd hhead (by decide)
  | some c =>
    rw [hstart] at hhead
    exact hhead

end Asm

/-! ## Legible code -/

namespace Asm

/-- All items of the code are legible. -/
def Legible (q : List Item) : Prop := ∀ i ∈ q, i.Legible

instance (q : List Item) : Decidable (Legible q) := inferInstanceAs (Decidable (∀ i ∈ q, _))

namespace Legible

variable {q r : List Item}

theorem append (hq : Legible q) (hr : Legible r) : Legible (q ++ r) :=
  List.forall_mem_append.mpr ⟨hq, hr⟩

/-- Code that takes nothing from the program but numbers. -/
theorem fixed (h : decide (Legible q) = true) : Legible q := of_decide_eq_true h

/-- Such code behind other code. -/
theorem fixedly (h : Legible q) (hr : decide (Legible r) = true) : Legible (q ++ r) :=
  h.append (fixed hr)

end Legible

end Asm

namespace Sketch

/-- The code of the sketch is legible, whatever labels it takes. -/
def Legible : Sketch → Prop
  | .items q => Asm.Legible q
  | .constant text => '\n' ∉ text.toList
  | .append a b => a.Legible ∧ b.Legible
  | .taking a | .part a => a.Legible
  | .label _ comment => ∀ c ∈ comment, IsComment c
  | .jump op args _ comment =>
    op ∈ Opcode.all ∧ (∀ a ∈ args, a.Legible) ∧ ∀ c ∈ comment, IsComment c

instance decidableLegible : DecidablePred Legible
  | .items q => inferInstanceAs (Decidable (Asm.Legible q))
  | .constant text => inferInstanceAs (Decidable ('\n' ∉ text.toList))
  | .append a b =>
    have := decidableLegible a
    have := decidableLegible b
    inferInstanceAs (Decidable (a.Legible ∧ b.Legible))
  | .taking a | .part a => decidableLegible a
  | .label _ comment => inferInstanceAs (Decidable (∀ c ∈ comment, IsComment c))
  | .jump op .. => inferInstanceAs (Decidable (op ∈ Opcode.all ∧ _))

variable {names : List String} {ls : Labels}

theorem legible_constant {text : String} (h : '\n' ∉ text.toList)
    (hls : ∀ c ∈ ls.strings, IsLabel c.2) :
    Asm.Legible ((constant text).run names ls).1 ∧
      ∀ c ∈ ((constant text).run names ls).2.strings, IsLabel c.2 := by
  have haddress : ∀ {l}, IsLabel l → Asm.Legible (loadAddress .t0 (.label l)) := by
    intro l hl
    refine List.forall_mem_singleton.mpr ⟨by decide, ?_, nofun⟩
    exact List.forall_mem_cons.mpr ⟨by decide, List.forall_mem_singleton.mpr hl⟩
  have hfresh : IsLabel ls.fresh.1 := isLabel_numbered ls.next
  rw [run]
  rcases ls.constant_cases text with ⟨l, heq, -, hfind⟩ | ⟨heq, -⟩
  · rw [heq]
    obtain ⟨before, after, hsplit, -⟩ := List.lookup_eq_some_iff.mp hfind
    have hmem : (text, l) ∈ ls.strings := by
      rw [hsplit]
      exact List.mem_append_right _ List.mem_cons_self
    exact ⟨haddress (hls _ hmem), hls⟩
  · rw [heq]
    refine ⟨Asm.Legible.append ?_ (haddress hfresh), List.forall_mem_cons.mpr ⟨hfresh, hls⟩⟩
    simp only [Asm.Legible, stringConstant, List.forall_mem_cons]
    exact ⟨trivial, ⟨hfresh, nofun⟩, h, trivial, nofun⟩

/-- What a legible sketch stands for is legible, and so are the labels of its string constants. -/
theorem legible_run {s : Sketch} (h : s.Legible) (hs : s.Scoped names.length)
    (hnames : ∀ l ∈ names, IsLabel l) (hls : ∀ c ∈ ls.strings, IsLabel c.2) :
    Asm.Legible (s.run names ls).1 ∧ ∀ c ∈ (s.run names ls).2.strings, IsLabel c.2 := by
  induction s generalizing names ls with
  | items q => exact ⟨h, hls⟩
  | constant text => exact legible_constant h hls
  | append a b iha ihb =>
    obtain ⟨hfirst, hafter⟩ := iha h.1 hs.1 hnames hls
    obtain ⟨hrest, hafter'⟩ := ihb h.2 hs.2 hnames hafter
    exact ⟨hfirst.append hrest, hafter'⟩
  | taking a ih =>
    exact @ih (ls.fresh.1 :: names) ls.fresh.2 h hs.1
      (List.forall_mem_cons.mpr ⟨isLabel_numbered ls.next, hnames⟩) hls
  | part a ih => exact ih h hs nofun hls
  | label k comment => exact ⟨List.forall_mem_singleton.mpr ⟨hnames _ (getD_mem hs), h⟩, hls⟩
  | jump op args k comment =>
    refine ⟨List.forall_mem_singleton.mpr ⟨h.1, ?_, h.2.2⟩, hls⟩
    exact List.forall_mem_append.mpr
      ⟨h.2.1, List.forall_mem_singleton.mpr (hnames _ (getD_mem hs.1))⟩

end Sketch

/-! ## Expressions -/

/-- A name is spelled like one, and a string literal stays on its line. -/
def Exp.Spelled : Exp → Prop
  | .ident x => x.Named
  | .string _ text => '\n' ∉ text.toList
  | _ => True

theorem Exp.named_root : ∀ {e : Exp} {x : Ident}, (∀ y ∈ e.expressions, y.Spelled) →
    e.root? = some x → x.Named
  | .ident x, _, h, hroot => by
    cases hroot
    exact h (.ident x) (List.mem_singleton_self _)
  | .access _ _ loc _, _, h, hroot => by
    rw [expressions, List.cons_append, List.forall_mem_cons, List.forall_mem_append] at h
    exact named_root (e := loc) h.2.1 hroot
  | .int .., _, _, hroot | .string .., _, _, hroot | .bool .., _, _, hroot
  | .assign .., _, _, hroot | .call .., _, _, hroot | .neg .., _, _, hroot
  | .not .., _, _, hroot | .binary .., _, _, hroot | .unknown _, _, _, hroot => by cases hroot

namespace Generate

section Parts

variable {e : Exp} {x : Ident} {fn : String}

/-- An instruction that loads from a place or takes its address. -/
theorem legible_operand {s : Storage} {operand : Operand} {comment : String}
    (hl : ∀ n, e.Names n → IsLabel n) (hroot : e.root? = some x)
    (hs : storageOf x = .ok (s, operand)) (hcomment : IsComment comment) {op : Opcode}
    (hop : op ∈ Opcode.all) : Asm.Legible [instr op [.reg .t0, operand] (some comment)] := by
  refine List.forall_mem_singleton.mpr
    ⟨hop, List.forall_mem_cons.mpr ⟨by decide, List.forall_mem_singleton.mpr ?_⟩, ?_⟩
  · obtain ⟨hbound, hplace⟩ := storageOf_eq_ok hs
    cases operand with
    | label l =>
      obtain ⟨hstatic, rfl⟩ := placeOperand_label hplace rfl
      exact hl _ ⟨x, s, hroot, hbound, hstatic, rfl⟩
    | indexed base offset =>
      have hfp : Reg.fp ∈ Reg.all := by decide
      unfold placeOperand? at hplace
      split at hplace <;> cases hplace
      exact hfp
    | reg | imm =>
      unfold placeOperand? at hplace
      split at hplace <;> cases hplace
  · rintro c hc
    cases hc
    exact hcomment

theorem legible_code {r : Except Fault (List Item)} (h : ∀ q, r = .ok q → Asm.Legible q) :
    Asm.Legible (code r) := by
  cases hr : r with
  | error fault =>
    rw [code_error rfl]
    exact .fixed rfl
  | ok q => exact h q hr

theorem legible_address (hx : ∀ y ∈ e.expressions, y.Spelled)
    (hl : ∀ l ∈ e.locations, ∀ n, l.Names n → IsLabel n) : Asm.Legible (code (address e)) := by
  refine legible_code fun q hq => ?_
  obtain ⟨root, offset, s, operand, hpath, hs, rfl⟩ := address_eq_ok.mp hq
  have hroot := root_of_path hpath
  have hcomment := (Exp.named_root hx hroot).isComment_and
  refine (legible_operand (names_of_code hl) hroot hs hcomment (by decide)).append ?_
  split <;> exact .fixed rfl

theorem legible_load (hx : x.Named) (hl : ∀ n, (Exp.ident x).Names n → IsLabel n) :
    Asm.Legible (code (load x)) := by
  refine legible_code fun q hq => ?_
  obtain ⟨s, operand, t, hs, -, rfl⟩ := load_eq_ok.mp hq
  exact (legible_operand hl rfl hs hx.isComment (by decide)).fixedly rfl

theorem legible_binOp (op : BinOp) : op.sketch.Legible := by
  cases op <;> exact of_decide_eq_true rfl

mutual

/-- The sketch of an expression is legible if its names and literals are spelled and its locations
have labels. -/
theorem legible_exp : ∀ {e : Exp}, (∀ y ∈ e.expressions, y.Spelled) →
    (∀ l ∈ e.locations, ∀ n, l.Names n → IsLabel n) → e.sketch.Legible
  | .int .., _, _ => .fixed rfl
  | .bool _ b, _, _ => by cases b <;> exact .fixed rfl
  | .string i text, hx, _ => ⟨hx (.string i text) (List.mem_singleton_self _), .fixed rfl⟩
  | .ident x, hx, hl =>
    legible_load (hx (.ident x) (List.mem_singleton_self _)) (names_of_code hl)
  | .access i link loc f, hx, hl =>
    (legible_address hx hl).fixedly rfl |>.fixedly rfl
  | .assign i l r, hx, hl => by
    rw [Exp.locations, List.forall_mem_append] at hl
    rw [Exp.expressions, List.cons_append, List.forall_mem_cons, List.forall_mem_append] at hx
    exact ⟨legible_exp hx.2.2 hl.2,
      (legible_address hx.2.1 hl.1).fixedly rfl |>.fixedly rfl |>.fixedly rfl⟩
  | .call i f sp args, hx, hl => by
    rw [Exp.expressions, List.forall_mem_cons, List.forall_mem_cons] at hx
    refine ⟨legible_exps hx.2.2 hl, Asm.Legible.fixedly ?_ rfl⟩
    refine List.forall_mem_singleton.mpr ⟨by decide, List.forall_mem_singleton.mpr ?_, nofun⟩
    exact isLabel_functionLabel hx.2.1
  | .neg i e, hx, hl | .not i e, hx, hl => by
    rw [Exp.expressions, List.forall_mem_cons] at hx
    exact ⟨legible_exp hx.2 hl, .fixed rfl⟩
  | .binary i op l r, hx, hl => by
    rw [Exp.locations, List.forall_mem_append] at hl
    rw [Exp.expressions, List.cons_append, List.forall_mem_cons, List.forall_mem_append] at hx
    exact ⟨⟨⟨legible_exp hx.2.2 hl.2, legible_exp hx.2.1 hl.1⟩, .fixed rfl⟩, legible_binOp op⟩
  | .unknown _, _, _ => .fixed rfl

theorem legible_exps : ∀ {es : List Exp}, (∀ y ∈ Exp.listExpressions es, y.Spelled) →
    (∀ l ∈ Exp.listLocations es, ∀ n, l.Names n → IsLabel n) → (Exp.listSketch es).Legible
  | [], _, _ => .fixed rfl
  | e :: es, hx, hl => by
    rw [Exp.listLocations, List.forall_mem_append] at hl
    rw [Exp.listExpressions, List.forall_mem_append] at hx
    exact ⟨legible_exp hx.1 hl.1, legible_exps hx.2 hl.2⟩

end

/-! ## Statements -/

theorem legible_step {op : Opcode} (hop : op ∈ Opcode.all) (hx : ∀ y ∈ e.expressions, y.Spelled)
    (hl : ∀ l ∈ e.locations, ∀ n, l.Names n → IsLabel n) : (Stmt.stepSketch op e).Legible := by
  refine legible_code fun q hq => ?_
  obtain ⟨addr, haddr, rfl⟩ := step_eq_ok.mp hq
  have haddress := code_ok haddr ▸ legible_address hx hl
  refine haddress.fixedly rfl |>.append ?_ |>.fixedly rfl
  exact List.forall_mem_singleton.mpr ⟨hop, by decide, nofun⟩

theorem legible_onFalse (k : Nat) : (Stmt.onFalseSketch k).Legible :=
  ⟨.fixed rfl, by decide, by decide, by decide⟩

theorem legible_branch_exit (hfn : IsName fn) : Asm.Legible (branch (exitLabel fn)) :=
  List.forall_mem_singleton.mpr
    ⟨by decide, List.forall_mem_singleton.mpr (isLabel_exitLabel hfn), nofun⟩

theorem legible_printer (t : Ty) : Asm.Legible (printValue (printer t).number) := by
  rw [printer]
  split <;> exact .fixed rfl

mutual

/-- The sketch of a statement is legible if its names and literals are spelled and its locations
have labels. -/
theorem legible_stmt (hfn : IsName fn) : ∀ {s : Stmt}, (∀ y ∈ s.expressions, y.Spelled) →
    (∀ l ∈ s.locations, ∀ n, l.Names n → IsLabel n) → (s.sketch fn).Legible
  | .assign _ e, hx, hl | .call _ e, hx, hl => ⟨legible_exp hx hl, .fixed rfl⟩
  | .increment _ e, hx, hl | .decrement _ e, hx, hl => legible_step (by decide) hx hl
  | .read _ e, hx, hl => (Asm.Legible.append (.fixed rfl) (legible_address hx hl)).fixedly rfl
  | .write _ e, hx, hl => ⟨legible_exp hx hl, Asm.Legible.append (.fixed rfl) (legible_printer _)⟩
  | .ifThen _ e b, hx, hl => by
    rw [Stmt.locations, List.forall_mem_append] at hl
    rw [Stmt.expressions, List.forall_mem_append] at hx
    exact ⟨⟨⟨legible_exp hx.1 hl.1, legible_onFalse 0⟩, legible_block hfn hx.2 hl.2⟩, nofun⟩
  | .ifElse _ e b₁ b₂, hx, hl => by
    rw [Stmt.locations, List.forall_mem_append, List.forall_mem_append] at hl
    rw [Stmt.expressions, List.forall_mem_append, List.forall_mem_append] at hx
    have hcond := legible_exp hx.1.1 hl.1
    have hyes := legible_block hfn hx.1.2 hl.2.1
    have hno := legible_block hfn hx.2 hl.2.2
    exact ⟨⟨⟨⟨⟨⟨hcond, legible_onFalse 1⟩, hyes⟩, by decide, nofun, nofun⟩, nofun⟩, hno⟩, nofun⟩
  | .while _ e b, hx, hl => by
    rw [Stmt.locations, List.forall_mem_append] at hl
    rw [Stmt.expressions, List.forall_mem_append] at hx
    have hcond := legible_exp hx.1 hl.1
    have hbody := legible_block hfn hx.2 hl.2
    have htop : (Sketch.label 1 (some "loop top")).Legible := by decide
    exact ⟨⟨⟨⟨⟨htop, hcond⟩, legible_onFalse 0⟩, hbody⟩, by decide, nofun, nofun⟩, nofun⟩
  | .return _ none, _, _ => legible_branch_exit hfn
  | .return _ (some e), hx, hl =>
    ⟨legible_exp hx hl, Asm.Legible.append (.fixed rfl) (legible_branch_exit hfn)⟩
  | .unknown _, _, _ => .fixed rfl

theorem legible_block (hfn : IsName fn) : ∀ {b : Block Stmt},
    (∀ y ∈ Stmt.blockExpressions b, y.Spelled) →
    (∀ l ∈ Stmt.blockLocations b, ∀ n, l.Names n → IsLabel n) → (Stmt.blockSketch fn b).Legible
  | ⟨_, _, ss⟩, hx, hl => by
    rw [Stmt.blockLocations] at hl
    rw [Stmt.blockExpressions, List.forall_mem_append] at hx
    exact legible_stmts hfn hx.2 hl

theorem legible_stmts (hfn : IsName fn) : ∀ {ss : List Stmt},
    (∀ y ∈ Stmt.listExpressions ss, y.Spelled) →
    (∀ l ∈ Stmt.listLocations ss, ∀ n, l.Names n → IsLabel n) → (Stmt.listSketch fn ss).Legible
  | [], _, _ => .fixed rfl
  | s :: ss, hx, hl => by
    rw [Stmt.listLocations, List.forall_mem_append] at hl
    rw [Stmt.listExpressions, List.forall_mem_append] at hx
    exact ⟨legible_stmt hfn hx.1 hl.1, legible_stmts hfn hx.2 hl.2⟩

end

end Parts

/-! ## Functions -/

theorem legible_front {d : FnDecl} (hd : d.name.Named) (frame : Frame) :
    Asm.Legible (front d frame) := by
  refine Asm.Legible.append ?_ ?_
  · rw [functionEntry]
    split
    · exact .fixed rfl
    · exact List.forall_mem_cons.mpr
        ⟨trivial, List.forall_mem_singleton.mpr ⟨isLabel_functionLabel hd, nofun⟩⟩
  · rw [prologue]
    split <;> exact .fixed rfl

theorem legible_epilogue {fn : String} (hfn : IsName fn) (formals : Int) (isMain : Bool) :
    Asm.Legible (epilogue (exitLabel fn) formals isMain) := by
  refine List.forall_mem_cons.mpr ⟨⟨isLabel_exitLabel hfn, by decide⟩, ?_⟩
  cases isMain <;> exact Asm.Legible.fixed rfl

/-- The sketch of a function is legible if its names and literals are spelled and its locations have
labels. -/
theorem legible_function {d : FnDecl} (hd : d.name.Named)
    (hx : ∀ y ∈ Stmt.blockExpressions d.body, y.Spelled)
    (hl : ∀ l ∈ d.locations, ∀ n, l.Names n → IsLabel n) : d.sketch.Legible :=
  ⟨⟨legible_front hd _, legible_block hd hx hl⟩, legible_epilogue hd _ _⟩

end Generate

/-! ## Names and literals of trees that were read -/

/-- All names among the expressions are spelled like names. -/
def AllNamed (es : List Exp) : Prop := ∀ x, .ident x ∈ es → x.Named

theorem allNamed_append {es fs : List Exp} : AllNamed (es ++ fs) ↔ AllNamed es ∧ AllNamed fs := by
  simp only [AllNamed, List.mem_append, or_imp, forall_and]

theorem allNamed_ident {x : Ident} {es : List Exp} :
    AllNamed (.ident x :: es) ↔ x.Named ∧ AllNamed es := by
  simp only [AllNamed, List.mem_cons, Exp.ident.injEq, or_imp, forall_and, forall_eq]

/-- An expression that is no name before others. -/
theorem AllNamed.cons {e : Exp} {es : List Exp} (h : AllNamed es) (he : ∀ x, e ≠ .ident x) :
    AllNamed (e :: es) :=
  fun x hx => (List.mem_cons.mp hx).elim (fun heq => absurd heq.symm (he x)) (h x)

theorem allNamed_nil : AllNamed [] := fun _ hx => absurd hx List.not_mem_nil

mutual

theorem Exp.Formed.named : ∀ {e : Exp}, e.Formed → AllNamed e.expressions
  | .int .., _ | .string .., _ | .bool .., _ => fun x hx => by cases List.mem_singleton.mp hx
  | .ident _, h => allNamed_ident.mpr ⟨h, allNamed_nil⟩
  | .access _ _ loc f, h => by
    have hfield := allNamed_ident.mpr ⟨h.2.2, allNamed_nil⟩
    have hrest := allNamed_append.mpr ⟨Formed.named h.2.1, hfield⟩
    exact hrest.cons fun x hx => by cases hx
  | .assign _ l r, h | .binary _ _ l r, h => by
    have hrest := allNamed_append.mpr ⟨Formed.named h.2.1, Formed.named h.2.2⟩
    exact hrest.cons fun x hx => by cases hx
  | .call _ f _ es, h => by
    have hrest := allNamed_ident.mpr ⟨h.1, AllFormed.named h.2⟩
    exact hrest.cons fun x hx => by cases hx
  | .neg _ e, h | .not _ e, h => by
    have hrest := Formed.named (e := e) h
    exact hrest.cons fun x hx => by cases hx
  | .unknown _, h => h.elim

theorem Exp.AllFormed.named : ∀ {es : List Exp}, Exp.AllFormed es →
    AllNamed (Exp.listExpressions es)
  | [], _ => allNamed_nil
  | _ :: _, h => allNamed_append.mpr ⟨Formed.named h.1, AllFormed.named h.2⟩

end

theorem TypeNode.Formed.named {t : TypeNode} (h : t.Formed) : AllNamed t.expressions := by
  cases t with
  | struct span x => exact allNamed_ident.mpr ⟨h, allNamed_nil⟩
  | _ => exact allNamed_nil

/-- The names in declarations of variables with formed types and spelled names. -/
theorem VarDecl.named {ds : List VarDecl} (h : ∀ d ∈ ds, d.type.Formed ∧ d.name.Named) :
    AllNamed (ds.flatMap VarDecl.expressions) := by
  intro x hx
  obtain ⟨d, hd, hx⟩ := List.mem_flatMap.mp hx
  obtain ⟨htype, hname⟩ := h d hd
  exact allNamed_append.mpr ⟨htype.named, allNamed_ident.mpr ⟨hname, allNamed_nil⟩⟩ x hx

mutual

theorem Stmt.Formed.named : ∀ {s : Stmt}, s.Formed → AllNamed s.expressions
  | .assign .., ⟨_, h⟩ | .increment .., ⟨_, h⟩ | .decrement .., ⟨_, h⟩ | .read .., ⟨_, h⟩
  | .call .., ⟨_, h⟩ => h.named
  | .write _ e, h | .return _ (some e), h => Exp.Formed.named (e := e) h
  | .ifThen .., ⟨he, hb⟩ | .while .., ⟨he, hb⟩ =>
    allNamed_append.mpr ⟨he.named, BlockFormed.named hb⟩
  | .ifElse .., ⟨he, hb₁, hb₂⟩ =>
    allNamed_append.mpr
      ⟨allNamed_append.mpr ⟨he.named, BlockFormed.named hb₁⟩, BlockFormed.named hb₂⟩
  | .return _ none, _ => allNamed_nil
  | .unknown _, h => h.elim

theorem Stmt.BlockFormed.named : ∀ {b : Block Stmt}, Stmt.BlockFormed b →
    AllNamed (Stmt.blockExpressions b)
  | ⟨_, _, _⟩, ⟨hds, hss⟩ =>
    allNamed_append.mpr
      ⟨VarDecl.named fun d hd => ⟨(hds d hd).type, (hds d hd).name⟩, AllFormed.named hss⟩

theorem Stmt.AllFormed.named : ∀ {ss : List Stmt}, Stmt.AllFormed ss →
    AllNamed (Stmt.listExpressions ss)
  | [], _ => allNamed_nil
  | _ :: _, ⟨h, hs⟩ => allNamed_append.mpr ⟨Formed.named h, AllFormed.named hs⟩

end

theorem Decl.Formed.named {d : Decl} (h : d.Formed) : AllNamed d.expressions := by
  cases d with
  | var d =>
    replace h : d.Formed := h
    exact allNamed_append.mpr ⟨h.type.named, allNamed_ident.mpr ⟨h.name, allNamed_nil⟩⟩
  | fn d =>
    replace h : d.Formed := h
    have hformals := VarDecl.named fun f hf =>
      ⟨TypeNode.formed_of_isWordType (h.formals f hf).type, (h.formals f hf).name⟩
    have hname := allNamed_ident.mpr ⟨h.name, hformals⟩
    have hreturns := (TypeNode.formed_of_isWordType h.returns).named
    exact allNamed_append.mpr ⟨allNamed_append.mpr ⟨hreturns, hname⟩, h.body.named⟩
  | struct d =>
    replace h : d.Formed := h
    refine allNamed_ident.mpr ⟨h.name, ?_⟩
    exact VarDecl.named fun f hf => ⟨(h.fields f hf).type, (h.fields f hf).name⟩
  | unknown => exact h.elim

/-- The names of a program that can be read are spelled like names, and its literals stay on their
lines. -/
theorem Program.Grammatical.spelled {p : Program} (h : p.Grammatical) :
    ∀ e ∈ p.expressions, e.Spelled := by
  intro e he
  have hwritable := h.literals e he
  cases e with
  | ident x =>
    obtain ⟨d, hd, hx⟩ := List.mem_flatMap.mp he
    exact (h.formed d hd).named x hx
  | string i text => exact (Token.StringBody.unbroken hwritable).no_lineEnd
  | _ => trivial

theorem Exp.spelled_form (e : Exp) : e.form.Spelled ↔ e.Spelled := by
  cases e <;> exact Iff.rfl

/-! ## Programs -/

namespace Generate

/-- The sketches of declarations take labels where they are used. -/
theorem scoped_listSketch : ∀ ds : List Decl, (Decl.listSketch ds).Scoped 0
  | [] => trivial
  | .fn d :: ds =>
    ⟨⟨⟨trivial, scoped_block d.name.name d.body⟩, trivial⟩, scoped_listSketch ds⟩
  | .var _ :: ds | .struct _ :: ds | .unknown _ :: ds => ⟨trivial, scoped_listSketch ds⟩

theorem legible_listSketch {ds : List Decl} (h : ∀ d ∈ ds, d.sketch.Legible) :
    (Decl.listSketch ds).Legible := by
  induction ds with
  | nil => exact .fixed rfl
  | cons d ds ih =>
    obtain ⟨hd, hds⟩ := List.forall_mem_cons.mp h
    exact ⟨hd, ih hds⟩

theorem legible_globalSlot {name : String} (h : IsName name) (size : Int) :
    Asm.Legible (globalSlot (globalLabel name) size) := by
  simp only [Asm.Legible, globalSlot, List.forall_mem_cons]
  exact ⟨trivial, trivial, ⟨isLabel_globalLabel h, by rintro _ ⟨⟩⟩, trivial, by rintro _ ⟨⟩⟩

end Generate

/-- The code of a typed program is legible if its names and literals are spelled. -/
theorem Program.Typed.legible {p : Program} {env : Env} (h : p.Typed env)
    (hx : ∀ e ∈ p.expressions, e.Spelled) : (Decl.listSketch p.decls).Legible := by
  have hvar : ∀ v, .var v ∈ p.decls → v.name.Named := fun v hv =>
    hx (.ident v.name) (List.mem_flatMap.mpr ⟨_, hv, List.mem_append_right _ List.mem_cons_self⟩)
  refine legible_listSketch fun d hd => ?_
  cases d with
  | struct | unknown => exact .fixed rfl
  | var v =>
    obtain ⟨s, hbound, hplace, hname, hwritten⟩ := DeclsTyped.introduces h hd
    rw [Decl.sketch, code_ok (global_of_bound hbound hplace hwritten hname)]
    exact legible_globalSlot (hvar v hd) s.shape.size
  | fn d =>
    have hmem := Program.mem_functions.mpr hd
    obtain ⟨sig, env₁, hsound, hwithin, -, hfn⟩ :=
      DeclsTyped.typedWithin h rfl Env.sound_empty hmem
    refine legible_function hfn.named (fun y hy => hx y ?_) fun e he l hl => ?_
    · exact List.mem_flatMap.mpr ⟨_, hd, List.mem_append_right _ hy⟩
    · obtain ⟨v, hv, rfl⟩ := hfn.names_globals hsound hwithin h e he l hl
      exact isLabel_globalLabel (hvar v hv)

namespace Compilation

/-- The items of a program without errors are legible, and there are some. -/
theorem emit_legible {file : Option String} {source : String} {c : Compilation}
    (hc : analyze file source = .ok c) (herrors : c.hasErrors = false) (o : CodeOptions) :
    ∃ items, (c.emit o).result = .ok items ∧ Asm.Legible items ∧ items ≠ [] := by
  obtain ⟨p, hp, hfault, rfl⟩ := analysis_of_analyze hc herrors
  have hgrammatical := Program.grammatical_of_parse hp
  obtain ⟨q, env, hq, htyped, hmain⟩ := typed_of_analysis hgrammatical.formed hfault herrors
  obtain ⟨⟨raw, current⟩, hraw⟩ :=
    Generate.decls_of_typed htyped Env.sound_empty { pool := o.pool } none
  have hform : q.form = p.form := by
    cases hq
    exact Program.form_check p _
  have hspelled := Program.forall_expressions_of_form Exp.spelled_form hform hgrammatical.spelled
  have hlegible : Asm.Legible raw := by
    have hrun := @Sketch.legible_run [] { pool := o.pool } _ (htyped.legible hspelled)
      (scoped_listSketch q.decls) nofun nofun
    rw [run_decls hraw] at hrun
    exact hrun.1
  have hne : raw ≠ [] := by
    obtain ⟨d, hd, -⟩ := exists_main_of_analysis hfault hq hmain
    obtain ⟨frame, ls, ls', code, before, after, -, hcode, rfl⟩ := Generate.mem_decls hraw hd
    obtain ⟨body, -, rfl⟩ := function_eq_ok.mp hcode
    simp [functionEntry]
  refine ⟨o.finish raw, emit_of_decls hq hraw, ?_, ?_⟩
  · rw [CodeOptions.finish]
    split
    · exact hlegible
    · exact List.forall_mem_map.mpr fun i hi => (hlegible i hi).bare
  · rw [CodeOptions.finish]
    split
    · exact hne
    · exact mt List.map_eq_nil_iff.mp hne

/-- In the assembly of a program without errors each item is on one line, which is ended and not
empty, and the assembly of two such programs is the same only if their items are. -/
theorem emit_listed {file file' : Option String} {source source' : String} {c c' : Compilation}
    (hc : analyze file source = .ok c) (hc' : analyze file' source' = .ok c')
    (herrors : c.hasErrors = false) (herrors' : c'.hasErrors = false) (o o' : CodeOptions) :
    ∃ items items', (c.emit o).result = .ok items ∧ (c'.emit o').result = .ok items' ∧
      (Item.render items).toList =
        (items.map fun i => i.text.toList).flatMap (· ++ ['\n']) ∧
      (∀ i ∈ items, i.text ≠ "" ∧ '\n' ∉ i.text.toList) ∧
      (Item.render items = Item.render items' ↔ items = items') := by
  obtain ⟨items, hitems, hlegible, hne⟩ := emit_legible hc herrors o
  obtain ⟨items', hitems', hlegible', hne'⟩ := emit_legible hc' herrors' o'
  exact ⟨items, items', hitems, hitems', Item.toList_render hne,
    fun i hi => Item.text_line (hlegible i hi),
    Item.render_inj hlegible hlegible' hne hne', congrArg Item.render⟩

set_option maxRecDepth 100000 in
/-- A string constant that looks like operands and a comment, and a program without it. -/
theorem emit_listed_of_strings : ∃ c c' items items',
    analyze none "int a; void main() \x7b a = 1; cout << \"$t0, 4($sp)\t\t# &a:\"; \x7d" = .ok c ∧
    analyze none "int a; void main() \x7b a = 1; \x7d" = .ok c' ∧
    c.hasErrors = false ∧ c'.hasErrors = false ∧ (c.emit {}).result = .ok items ∧
    (c'.emit { comments := false }).result = .ok items' ∧
    (Item.render items).toList =
      (items.map fun i => i.text.toList).flatMap (· ++ ['\n']) ∧
    (∀ i ∈ items, i.text ≠ "" ∧ '\n' ∉ i.text.toList) ∧
    (Item.render items = Item.render items' ↔ items = items') := by
  have haccepts : accepts
      "int a; void main() \x7b a = 1; cout << \"$t0, 4($sp)\t\t# &a:\"; \x7d" = true :=
    accepts_of_chars rfl (by decide +kernel)
  have haccepts' : accepts "int a; void main() \x7b a = 1; \x7d" = true :=
    accepts_of_chars rfl (by decide +kernel)
  obtain ⟨c, hc, herrors⟩ := analyze_of_accepts haccepts
  obtain ⟨c', hc', herrors'⟩ := analyze_of_accepts haccepts'
  obtain ⟨items, items', hitems, hitems', hlisted⟩ :=
    emit_listed hc hc' herrors herrors' {} { comments := false }
  exact ⟨c, c', items, items', hc, hc', herrors, herrors', hitems, hitems', hlisted⟩

end Compilation

end CMinusMinus
