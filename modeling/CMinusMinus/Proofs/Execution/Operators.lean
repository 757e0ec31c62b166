import CMinusMinus.Proofs.Execution.Courses
import CMinusMinus.Proofs.Execution.Steps
import CMinusMinus.Proofs.Generation

/-!
# Locations and operators on the machine

The code of the address of a location finds the word that the location has in memory
(`After.address`).  Loading from there finds what the location holds, and storing there changes
the location alone (`After.store`).  The code of an operator pushes what the operator makes of the
words in `$t0` and `$t1` (`After.combine`), or is stuck where it makes nothing of them.
-/

namespace CMinusMinus

open Machine

variable {b : Image} {act : Activation b} {live : List (List Storage)} {scope : Scope Symbol}
  {frame : Frame} {σ : Situation} {s s₁ : State} {q q' : List Item} {ws : List Word}
  {e : Exp} {st : Storage} {n : Nat} {t : Ty}

/-- The lowest word of a formal or local is below the frame pointer. -/
theorem Frame.Places.offset_le (h : frame.Places st) (hle : frame.Le act.frame) :
    ∃ offset : Nat, st.place = .frame offset ∧ offset ≤ act.fp := by
  obtain ⟨offset, hplace, -, -, hrange⟩ := h.place
  have hframe := hle.size
  have hlow := act.low
  refine ⟨offset, hplace, ?_⟩
  unfold Frame.size Frame.savedSize wordSize at *
  omega

/-- The operand of a variable in scope denotes its lowest word. -/
theorem Site.address? (hsite : Site act live scope frame)
    (hs : st ∈ (live ++ [b.globals]).flatten) (hfp : (s.get .fp).toNat = act.fp)
    {operand : Operand} (hoperand : Generate.placeOperand? st = some operand) :
    ∃ w, s.address? b.layout operand = some w ∧ w.toNat = b.base act.fp st := by
  have hhigh := act.high
  have hlow := act.low
  rw [List.flatten_append, List.flatten_singleton] at hs
  rcases List.mem_append.mp hs with hs | hs
  · obtain ⟨offset, hplace, hoffset⟩ := (hsite.hosts.places st hs).offset_le hsite.le
    rw [Generate.placeOperand?, hplace] at hoperand
    cases hoperand
    refine ⟨_, rfl, ?_⟩
    rw [Word.toNat_add_ofInt (by omega) (by omega), hfp, Image.base, hplace]
    show ((act.fp : Int) + -(offset : Int)).toNat = act.fp - (offset : Int).toNat
    omega
  · obtain ⟨hlookup, -, -, hend⟩ := b.global_base hs act.fp
    rw [Generate.placeOperand?, b.globals_static hs] at hoperand
    cases hoperand
    refine ⟨_, by rw [State.address?, hlookup, Option.map_some], ?_⟩
    rw [BitVec.toNat_ofNat]
    omega

@[simp] theorem Store.input_write (σ : Store) (e : Exp) (w : Word) :
    (σ.write e w).input = σ.input := by
  unfold write assign
  split
  · split <;> rfl
  · rfl

@[simp] theorem Store.events_write (σ : Store) (e : Exp) (w : Word) :
    (σ.write e w).events = σ.events := by
  unfold write assign
  split
  · split <;> rfl
  · rfl

namespace After

/-- The word at an address that a register holds. -/
theorem load (h : After act live σ s q ws s₁) {dst base : Reg} {comment : Option String}
    (hsits : Sits b.items s.pc (q ++ Asm.loadWord dst (.indexed base 0) comment))
    (hdvd : wordSize ∣ (s₁.get base).toNat) (hdst : dst.Scratch) :
    After act live (σ.put dst (s₁.mem (s₁.get base).toNat)) s
      (q ++ Asm.loadWord dst (.indexed base 0) comment) ws
      ((s₁.set dst (s₁.mem (s₁.get base).toNat)).skip 1) := by
  refine h.set hsits ?_ hdst
  rw [execute?_transfer, transfer?, State.address?_indexed, Option.bind_some,
    aligned?_of_dvd hdvd, Option.map_some]

/-- The address of a location is put into `$t0`. -/
theorem address (h : After act live σ s q ws s₁) (hsite : Site act live scope frame)
    (hloc : Locates (Env.ofLive live scope) e st n (.scalar t)) {q' : List Item}
    (haddr : Generate.address e = .ok q') (hsits : Sits b.items s.pc (q ++ q')) :
    ∃ s₂, After act live σ s (q ++ q') ws s₂ ∧ (s₂.get .t0).toNat = b.base act.fp st + n ∧
      (∀ r, r ≠ .t0 → s₂.get r = s₁.get r) ∧ s₂.mem = s₁.mem := by
  obtain ⟨operand, comment, hoperand, hcode⟩ := Generate.address_of_locates hsite.sound hloc
  cases haddr.symm.trans hcode
  obtain ⟨hmem, howns⟩ := hsite.located hloc
  obtain ⟨w, hw, hbase⟩ := hsite.address? hmem h.ready.fp hoperand
  have hexecute : execute? b.layout s₁ .la [.reg .t0, operand] =
      some ((s₁.set .t0 w).skip 1) := by
    rw [execute?_transfer, transfer?, hw, Option.map_some]
  by_cases hn : n = 0
  · subst hn
    rw [if_pos rfl, List.append_nil] at hsits ⊢
    refine ⟨_, h.set hsits hexecute (by decide), ?_, fun r hr => s₁.get_set_of_ne hr w, rfl⟩
    exact (congrArg BitVec.toNat (s₁.get_set_self (r := .t0) (by decide) w)).trans hbase
  · rw [if_neg hn, ← List.append_assoc] at hsits ⊢
    have hfirst := h.set (q := q) hsits.left hexecute (by decide)
    have hget : ((s₁.set .t0 w).skip 1).get .t0 = w := s₁.get_set_self (r := .t0) (by decide) w
    refine ⟨_, hfirst.computeImm hsits rfl (by decide), ?_, fun r hr => ?_, rfl⟩
    · have hbound := (hsite.owns hmem howns).2.1
      show (State.get _ .t0).toNat = _
      rw [State.get_skip, State.get_set_self (r := .t0) _ (by decide), hget,
        Word.toNat_add_ofInt (by omega) (by omega), hbase]
      rfl
    · exact (State.get_set_of_ne _ hr _).trans (s₁.get_set_of_ne hr w)

/-- A word is stored at the address of a location. -/
theorem store (h : After act live σ s q ws s₁) (hsite : Site act live scope frame)
    (hloc : Locates (Env.ofLive live scope) e st n (.scalar t)) {src base : Reg}
    (hsits : Sits b.items s.pc (q ++ Asm.storeWord src (.indexed base 0)))
    (hbase : (s₁.get base).toNat = b.base act.fp st + n) :
    ∃ s₂, After act live (σ.write e (s₁.get src)) s
      (q ++ Asm.storeWord src (.indexed base 0)) ws s₂ ∧ ∀ r, s₂.get r = s₁.get r := by
  obtain ⟨hmem, howns⟩ := hsite.located hloc
  have hdvd := (hsite.owns hmem howns).1
  rw [← hbase] at hdvd
  have hstep : step? b.items s₁ =
      some ((s₁.store (b.base act.fp st + n) (s₁.get src)).skip 1) := by
    rw [(h.sits hsits).step_instr, execute?_transfer, transfer?, State.address?_indexed,
      Option.bind_some, aligned?_of_dvd hdvd, Option.map_some, hbase]
  have hready : Ready act live (σ.write e (s₁.get src))
      ((s₁.store (b.base act.fp st + n) (s₁.get src)).skip 1) :=
    h.ready.congr (.single hstep) (fun _ => rfl) (hsite.write hloc h.ready.tracks _)
      (h.ready.input.trans (σ.store.input_write e _).symm)
      (h.ready.events.trans (σ.store.events_write e _).symm) rfl
  refine ⟨_, h.extend (.single hstep) rfl (fun a ha => if_neg fun heq => ?_) hready rfl rfl,
    fun _ => rfl⟩
  exact hsite.not_keeps hmem (heq ▸ howns) ha

end After

/-! ## Values on the stack -/

/-- The word stands for the value: it is the word itself, or the address of the text. -/
def Image.Represents (b : Image) (w : Word) : Value → Prop
  | .word w' => w = w'
  | .text text => b.layout.texts.lookup w.toNat = some text

/-- The machine has executed the code and pushed a word that stands for the value. -/
def Pushes (act : Activation b) (live : List (List Storage)) (s : State) (q : List Item)
    (ws : List Word) (v : Value) (σ : Situation) : Prop :=
  ∃ w s', b.Represents w v ∧ After act live σ s q (ws ++ [w]) s'

theorem Pushes.after {w : Word} (h : Pushes act live s q ws (.word w) σ) :
    ∃ s', After act live σ s q (ws ++ [w]) s' := by
  obtain ⟨w', s', rfl, h⟩ := h
  exact ⟨s', h⟩

/-! ## Pieces of code -/

namespace After

/-- The result of an operation is pushed. -/
theorem compute_push (h : After act live σ s q ws s₁) (hsite : Site act live scope frame)
    {op : Opcode} (hsits : Sits b.items s.pc
      (q ++ (Asm.op3 op .t0 .t0 (.reg .t1) ++ Asm.push .t0))) {w : Word}
    (hw : compute? op (s₁.get .t0) (s₁.get .t1) = some w) :
    ∃ s₂, After act live σ s (q ++ (Asm.op3 op .t0 .t0 (.reg .t1) ++ Asm.push .t0))
      (ws ++ [w]) s₂ := by
  rw [← List.append_assoc] at hsits ⊢
  obtain ⟨s₂, hpush, -⟩ := (h.compute hsits.left hw (by decide)).push hsite hsits
  rw [State.get_skip, State.get_set_self (r := .t0) _ (by decide)] at hpush
  exact ⟨s₂, hpush⟩

/-- Whether a branch is taken is pushed. -/
theorem compare (h : After act live σ s q ws s₁) (hsite : Site act live scope frame)
    {op : Opcode} {ls : Generate.Labels}
    (hsits : Sits b.items s.pc (q ++ (Generate.compare op ls).1)) {c : Bool}
    (hc : taken? op (s₁.get .t0) (s₁.get .t1) = some c) :
    ∃ s₂, After act live σ s (q ++ (Generate.compare op ls).1) (ws ++ [Word.ofBool c]) s₂ := by
  unfold Generate.compare at hsits ⊢
  simp only [← List.append_assoc] at hsits ⊢
  have hone := h.loadImm hsits.left.left.left.left (by decide)
  have ht0 : (s₁.set .t2 (BitVec.ofInt 32 1)).get .t0 =
      s₁.get .t0 := s₁.get_set_of_ne (by decide) _
  have ht1 : (s₁.set .t2 (BitVec.ofInt 32 1)).get .t1 =
      s₁.get .t1 := s₁.get_set_of_ne (by decide) _
  rw [← ht0, ← ht1] at hc
  cases c with
  | false =>
    have hskip := hone.branch_skip hsits.left.left.left hc
    have hzero := hskip.loadImm hsits.left.left (by decide)
    obtain ⟨s₂, hpush, -⟩ := (hzero.label hsits.left).push hsite hsits
    rw [State.get_skip, State.get_skip, State.get_set_self (r := .t2) _ (by decide)] at hpush
    exact ⟨s₂, hpush⟩
  | true =>
    have hsits' := hsits
    rw [List.append_assoc _ (Asm.branchIf ..), List.append_assoc _ (Asm.label _)] at hsits'
    have htake := hone.branch_take hsits' hc rfl
    rw [← List.append_assoc] at htake
    obtain ⟨s₂, hpush, -⟩ := (htake.label hsits.left).push hsite hsits
    rw [State.get_skip, State.get_goto, State.get_skip,
      State.get_set_self (r := .t2) _ (by decide)] at hpush
    exact ⟨s₂, hpush⟩

/-- The left operand is pushed if the test says so, and else what the operation makes of both. -/
theorem connect (h : After act live σ s q ws s₁) (hsite : Site act live scope frame)
    {test op : Opcode} {ls : Generate.Labels}
    (hsits : Sits b.items s.pc (q ++ (Generate.connect test op ls).1)) {c : Bool}
    (hc : taken? test (s₁.get .t0) 0 = some c) {w : Word}
    (hw : (if c then some (s₁.get .t0) else compute? op (s₁.get .t0) (s₁.get .t1)) = some w) :
    ∃ s₂, After act live σ s (q ++ (Generate.connect test op ls).1) (ws ++ [w]) s₂ := by
  unfold Generate.connect at hsits ⊢
  simp only [← List.append_assoc] at hsits ⊢
  cases c with
  | false =>
    have hskip := h.branch_skip hsits.left.left.left.left.left.left hc
    have hcompute := hskip.compute hsits.left.left.left.left.left hw (by decide)
    obtain ⟨s₂, hpush, -⟩ := hcompute.push hsite hsits.left.left.left.left
    rw [State.get_skip, State.get_set_self (r := .t0) _ (by decide)] at hpush
    have hsits' := hsits
    rw [List.append_assoc _ (Asm.label _), List.append_assoc _ (Asm.branch _)] at hsits'
    have hbranch := hpush.branch hsits' rfl
    rw [← List.append_assoc, ← List.append_assoc] at hbranch
    exact ⟨_, hbranch.label hsits⟩
  | true =>
    cases hw
    have hsits' : Sits b.items s.pc (q ++ (Asm.branchIf test .t0 .zero ls.fresh.1 ++
        (Asm.op3 op .t0 .t0 (.reg .t1) ++ Asm.push .t0 ++ Asm.branch ls.fresh.2.fresh.1)) ++
          Asm.label ls.fresh.1) := by
      simpa only [List.append_assoc] using hsits.left.left
    have htake := h.branch_take hsits' hc rfl
    simp only [← List.append_assoc] at htake
    obtain ⟨s₂, hpush, -⟩ := (htake.label hsits.left.left).push hsite hsits.left
    exact ⟨_, hpush.label hsits⟩

/-- The code of an operator pushes its result. -/
theorem combine (h : After act live σ s q ws s₁) (hsite : Site act live scope frame) {op : BinOp}
    {span : Option Span} {ls ls' : Generate.Labels}
    (hcombine : Generate.combine op span ls = .ok (q', ls'))
    (hsits : Sits b.items s.pc (q ++ q')) {w : Word}
    (hw : op.compute? (s₁.get .t0) (s₁.get .t1) = some w) :
    ∃ s₂, After act live σ s (q ++ q') (ws ++ [w]) s₂ := by
  cases op with
  | add | sub | mul | div | equal | notEqual =>
    cases hcombine
    exact h.compute_push hsite hsits hw
  | less | greater | lessEq | greaterEq =>
    cases hcombine
    cases hw
    exact h.compare hsite hsits rfl
  | and =>
    cases hcombine
    cases hw
    refine h.connect hsite hsits (c := s₁.get .t0 == 0) rfl ?_
    split
    · next hzero => simp [eq_of_beq hzero]
    · rfl
  | or =>
    cases hcombine
    cases hw
    refine h.connect hsite hsits (c := s₁.get .t0 != 0) rfl ?_
    generalize s₁.get .t0 = a
    by_cases hzero : a = 0#32
    · simp [hzero, Machine.compute?]
    · simp [hzero]
  | other => cases hcombine

/-- Without a result of its operator the code is stuck. -/
theorem combine_stuck (h : After act live σ s q ws s₁) {op : BinOp} {span : Option Span}
    {ls ls' : Generate.Labels} (hcombine : Generate.combine op span ls = .ok (q', ls'))
    (hsits : Sits b.items s.pc (q ++ q'))
    (hw : op.compute? (s₁.get .t0) (s₁.get .t1) = none) : Stuck b.items s₁ := by
  cases op with
  | div =>
    cases hcombine
    have hcode := h.sits hsits
    have hcompute : Machine.compute? .div (s₁.get .t0) (s₁.get .t1) = none := hw
    refine ⟨?_, ?_⟩
    · rw [hcode.left.step_instr, execute?_op3, hcompute, Option.map_none]
    · rintro ⟨⟨comment, hitem⟩, -⟩
      rw [hcode.left.getElem?] at hitem
      cases hitem
  | other => cases hcombine
  | _ => cases hw

/-- The code of an operator does what the operator does. -/
theorem operate (h : After act live σ s q ws s₁) (hsite : Site act live scope frame) {op : BinOp}
    {span : Option Span} {ls ls' : Generate.Labels}
    (hcombine : Generate.combine op span ls = .ok (q', ls'))
    (hsits : Sits b.items s.pc (q ++ q')) (n : Nat) :
    (Run.operate op (s₁.get .t0) (s₁.get .t1) σ).Meets b.items n s fun v σ' =>
      v.service = .printInt ∧ Pushes act live s (q ++ q') ws v σ' := by
  unfold Run.operate
  split
  · next w hw =>
    obtain ⟨s₂, hpush⟩ := h.combine hsite hcombine hsits hw
    exact ⟨rfl, w, s₂, rfl, hpush⟩
  · next hw =>
    exact ⟨s₁, h.reaches, h.combine_stuck hcombine hsits hw, h.ready.events⟩

end After

end CMinusMinus
