import CMinusMinus.Proofs.Execution.Memory
import CMinusMinus.Proofs.Machine.Framing
import CMinusMinus.Proofs.Meaning.Interpretation

/-!
# Steps of an activation

A state is *ready* for code of an activation if its memory tracks the variables in scope and the
stack pointer is below the frame.  A state *yields* another one by pushing words, if the machine
comes from the one to the other and what belongs to no variable is kept (`Yields`); a piece of
code does so *after* it (`After`).  Pieces are put together by `After.append`, and there is one
lemma for each kind of instruction.
-/

namespace CMinusMinus

open Machine

/-- Registers that code may use for its own purposes, and that for results. -/
def Reg.Scratch (r : Reg) : Prop := r ≠ .zero ∧ r ≠ .sp ∧ r ≠ .fp

instance (r : Reg) : Decidable r.Scratch := inferInstanceAs (Decidable (_ ∧ _ ∧ _))

/-- The situation after a change of a register, which matters if it is that for results. -/
def Situation.put (σ : Situation) (r : Reg) (w : Word) : Situation :=
  if r = .v0 then { σ with result := w } else σ

@[simp] theorem Situation.put_store (σ : Situation) (r : Reg) (w : Word) :
    (σ.put r w).store = σ.store := by
  unfold put
  split <;> rfl

section

variable {b : Image} (act : Activation b) (live : List (List Storage))

/-- The state may execute code of the activation in the situation. -/
structure Ready (σ : Situation) (s : State) : Prop where
  fits : Fits b.items s
  below : (s.get .sp).toNat ≤ act.bottom
  aligned : wordSize ∣ (s.get .sp).toNat
  fp : (s.get .fp).toNat = act.fp
  tracks : b.Tracks act.fp s.mem live σ.store
  input : s.input = σ.store.input
  events : s.events = σ.store.events
  result : s.get .v0 = σ.result

/-- The machine comes from one state to another that has the words on the stack in addition, the
last one on top. -/
structure Yields (σ : Situation) (s : State) (ws : List Word) (s' : State) : Prop where
  reaches : Reaches b.items s s'
  below : (s.get .sp).toNat ≤ act.bottom
  sp : (s'.get .sp).toNat + wordSize * ws.length = (s.get .sp).toNat
  words : ∀ i w, ws[i]? = some w → s'.mem ((s.get .sp).toNat - wordSize * i) = w
  kept : ∀ a, act.Keeps (s.get .sp).toNat a → s'.mem a = s.mem a
  ready : Ready act live σ s'

/-- The machine executes a piece of code from its beginning to its end. -/
structure After (σ : Situation) (s : State) (q : List Item) (ws : List Word) (s' : State) : Prop
    extends Yields act live σ s ws s' where
  textual : Textual q
  pc : s'.pc = s.pc + q.length

end

variable {b : Image} {act : Activation b} {live : List (List Storage)} {σ σ₁ σ₂ : Situation}
  {s s₁ s₂ : State} {q r : List Item} {ws ws' : List Word}

namespace Ready

/-- The stack pointer is at a free word below the frame. -/
theorem free (h : Ready act live σ s) : b.dataEnd ≤ (s.get .sp).toNat ∧
    (s.get .sp).toNat ≤ memoryTop :=
  h.fits.stack s .refl

theorem congr (h : Ready act live σ s) (hreaches : Reaches b.items s s₁)
    (hregs : ∀ r, s₁.get r = s.get r) (htracks : b.Tracks act.fp s₁.mem live σ₁.store)
    (hinput : s₁.input = σ₁.store.input) (hevents : s₁.events = σ₁.store.events)
    (hresult : σ₁.result = σ.result) : Ready act live σ₁ s₁ where
  fits := h.fits.after hreaches
  below := hregs .sp ▸ h.below
  aligned := hregs .sp ▸ h.aligned
  fp := hregs .fp ▸ h.fp
  tracks := htracks
  input := hinput
  events := hevents
  result := (hregs .v0).trans (h.result.trans hresult.symm)

/-- The state with a change of a register that code may use. -/
theorem set (h : Ready act live σ s) {dst : Reg} (hdst : dst.Scratch) {w : Word}
    (hreaches : Reaches b.items s ((s.set dst w).skip 1)) :
    Ready act live (σ.put dst w) ((s.set dst w).skip 1) where
  fits := h.fits.after hreaches
  below := by
    rw [State.get_skip, s.get_set_of_ne (Ne.symm hdst.2.1)]
    exact h.below
  aligned := by
    rw [State.get_skip, s.get_set_of_ne (Ne.symm hdst.2.1)]
    exact h.aligned
  fp := by
    rw [State.get_skip, s.get_set_of_ne (Ne.symm hdst.2.2)]
    exact h.fp
  tracks := (σ.put_store dst w).symm ▸ h.tracks
  input := (σ.put_store dst w).symm ▸ h.input
  events := (σ.put_store dst w).symm ▸ h.events
  result := by
    rw [State.get_skip]
    by_cases hv0 : dst = .v0
    · subst hv0
      exact s.get_set_self (by decide) w
    · rw [s.get_set_of_ne (Ne.symm hv0), Situation.put, if_neg hv0]
      exact h.result

end Ready

namespace Yields

theorem refl (h : Ready act live σ s) : Yields act live σ s [] s where
  reaches := .refl
  below := h.below
  sp := rfl
  words := by simp
  kept _ _ := rfl
  ready := h

/-- A word that was pushed is kept while the stack pointer is below it. -/
theorem keeps (h : Yields act live σ s ws s₁) {i : Nat} (hi : i < ws.length) :
    act.Keeps (s₁.get .sp).toNat ((s.get .sp).toNat - wordSize * i) := by
  have hsp := h.sp
  have hfree := h.ready.free.1
  have hbelow := h.below
  unfold wordSize at *
  exact ⟨by omega, by omega, by omega⟩

theorem trans (h : Yields act live σ₁ s ws s₁) (h' : Yields act live σ₂ s₁ ws' s₂) :
    Yields act live σ₂ s (ws ++ ws') s₂ where
  reaches := h.reaches.trans h'.reaches
  below := h.below
  sp := by
    have hsp := h.sp
    have hsp' := h'.sp
    rw [List.length_append, Nat.mul_add]
    omega
  words i w hw := by
    by_cases hi : i < ws.length
    · rw [List.getElem?_append_left hi] at hw
      rw [h'.kept _ (h.keeps hi)]
      exact h.words i w hw
    · rw [List.getElem?_append_right (Nat.le_of_not_lt hi)] at hw
      have hword := h'.words _ w hw
      have hsp := h.sp
      rwa [show (s₁.get .sp).toNat - wordSize * (i - ws.length) =
        (s.get .sp).toNat - wordSize * i by unfold wordSize at *; omega] at hword
  kept a ha := by
    have hsp := h.sp
    rw [h'.kept a (ha.mono (by omega)), h.kept a ha]
  ready := h'.ready

end Yields

namespace After

theorem refl (h : Ready act live σ s) : After act live σ s [] [] s :=
  { Yields.refl h with textual := rfl, pc := rfl }

theorem append (h : After act live σ₁ s q ws s₁) (h' : After act live σ₂ s₁ r ws' s₂) :
    After act live σ₂ s (q ++ r) (ws ++ ws') s₂ :=
  { h.toYields.trans h'.toYields with
    textual := h.textual.append h'.textual
    pc := by rw [h'.pc, h.pc, List.length_append, Nat.add_assoc] }

/-- What comes after a piece of code sits where the machine is after it. -/
theorem sits (h : After act live σ s q ws s₁) (hq : Sits b.items s.pc (q ++ r)) :
    Sits b.items s₁.pc r :=
  h.pc ▸ hq.right h.textual

/-- The machine goes on to a state where the stack pointer is the same. -/
theorem extend (h : After act live σ₁ s q ws s₁) (hreaches : Reaches b.items s₁ s₂)
    (hsp : s₂.get .sp = s₁.get .sp)
    (hkept : ∀ a, act.Keeps (s₁.get .sp).toNat a → s₂.mem a = s₁.mem a)
    (hready : Ready act live σ₂ s₂) (hr : Textual r) (hpc : s₂.pc = s₁.pc + r.length) :
    After act live σ₂ s (q ++ r) ws s₂ := by
  have hstay : After act live σ₂ s₁ r [] s₂ :=
    { reaches := hreaches
      below := h.ready.below
      sp := by rw [hsp]; rfl
      words := by simp
      kept := hkept
      ready := hready
      textual := hr
      pc := hpc }
  have happend := h.append hstay
  rwa [List.append_nil] at happend

/-- The machine goes on to a state that differs only in the position. -/
theorem move (h : After act live σ s q ws s₁) {pc : Nat}
    (hstep : step? b.items s₁ = some (s₁.goto pc)) (hr : Textual r)
    (hpc : pc = s₁.pc + r.length) : After act live σ s (q ++ r) ws (s₁.goto pc) := by
  have hreaches : Reaches b.items s₁ (s₁.goto pc) := .single hstep
  exact h.extend hreaches rfl (fun _ _ => rfl)
    (h.ready.congr hreaches (fun _ => rfl) h.ready.tracks h.ready.input h.ready.events rfl) hr hpc

/-- An instruction that puts something into a register. -/
theorem set (h : After act live σ s q ws s₁) {op : Opcode} {args : List Operand}
    {comment : Option String} (hsits : Sits b.items s.pc (q ++ [Asm.instr op args comment]))
    {dst : Reg} {w : Word}
    (hex : execute? b.layout s₁ op args = some ((s₁.set dst w).skip 1)) (hdst : dst.Scratch) :
    After act live (σ.put dst w) s (q ++ [Asm.instr op args comment]) ws
      ((s₁.set dst w).skip 1) := by
  have hstep : step? b.items s₁ = some ((s₁.set dst w).skip 1) :=
    (h.sits hsits).step_instr.trans hex
  exact h.extend (.single hstep) (s₁.get_set_of_ne (Ne.symm hdst.2.1) w) (fun _ _ => rfl)
    (h.ready.set hdst (.single hstep)) rfl rfl

/-- An instruction that computes with two registers. -/
theorem compute (h : After act live σ s q ws s₁) {op : Opcode} {dst a c : Reg} {w : Word}
    (hsits : Sits b.items s.pc (q ++ Asm.op3 op dst a (.reg c)))
    (hw : compute? op (s₁.get a) (s₁.get c) = some w) (hdst : dst.Scratch) :
    After act live (σ.put dst w) s (q ++ Asm.op3 op dst a (.reg c)) ws ((s₁.set dst w).skip 1) :=
  h.set hsits (by rw [execute?_op3, hw, Option.map_some]) hdst

/-- An instruction that computes with a register and a number. -/
theorem computeImm (h : After act live σ s q ws s₁) {op : Opcode} {dst a : Reg} {v : Int} {w : Word}
    (hsits : Sits b.items s.pc (q ++ Asm.op3 op dst a (.imm v)))
    (hw : compute? op (s₁.get a) (BitVec.ofInt 32 v) = some w) (hdst : dst.Scratch) :
    After act live (σ.put dst w) s (q ++ Asm.op3 op dst a (.imm v)) ws ((s₁.set dst w).skip 1) :=
  h.set hsits (by rw [execute?_op3_imm, hw, Option.map_some]) hdst

/-- A number is put into a register. -/
theorem loadImm (h : After act live σ s q ws s₁) {dst : Reg} {v : Int} {comment : Option String}
    (hsits : Sits b.items s.pc (q ++ Asm.loadImm dst v comment)) (hdst : dst.Scratch) :
    After act live (σ.put dst (BitVec.ofInt 32 v)) s (q ++ Asm.loadImm dst v comment) ws
      ((s₁.set dst (BitVec.ofInt 32 v)).skip 1) :=
  h.set hsits rfl hdst

/-- A register is copied. -/
theorem copy (h : After act live σ s q ws s₁) {dst src : Reg}
    (hsits : Sits b.items s.pc (q ++ Asm.move dst src)) (hdst : dst.Scratch) :
    After act live (σ.put dst (s₁.get src)) s (q ++ Asm.move dst src) ws
      ((s₁.set dst (s₁.get src)).skip 1) :=
  h.set hsits rfl hdst

/-! ## Labels and branches -/

/-- A label is passed over. -/
theorem label (h : After act live σ s q ws s₁) {name : String} {comment : Option String}
    (hsits : Sits b.items s.pc (q ++ Asm.label name comment)) :
    After act live σ s (q ++ Asm.label name comment) ws (s₁.skip 1) :=
  h.move (step?_inert (h.sits hsits).getElem? (by rintro _ _ _ ⟨⟩)) rfl rfl

/-- A branch that is not taken. -/
theorem branch_skip (h : After act live σ s q ws s₁) {op : Opcode} {a c : Reg} {target : String}
    {comment : Option String} (hsits : Sits b.items s.pc (q ++ Asm.branchIf op a c target comment))
    (htaken : taken? op (s₁.get a) (s₁.get c) = some false) :
    After act live σ s (q ++ Asm.branchIf op a c target comment) ws (s₁.skip 1) := by
  have hstep : step? b.items s₁ = some (s₁.skip 1) := by
    rw [(h.sits hsits).step_instr, execute?_branchIf, htaken]
    rfl
  exact h.move hstep rfl rfl

/-- A branch that is taken, to a label behind the code after it. -/
theorem branch_take (h : After act live σ s q ws s₁) {op : Opcode} {a c : Reg} {target : String}
    {comment comment' : Option String} {rest : List Item}
    (hsits : Sits b.items s.pc (q ++ (Asm.branchIf op a c target comment ++ r) ++
      .label target comment' :: rest))
    (htaken : taken? op (s₁.get a) (s₁.get c) = some true)
    (hr : Textual (Asm.branchIf op a c target comment ++ r)) :
    After act live σ s (q ++ (Asm.branchIf op a c target comment ++ r)) ws
      (s₁.goto (s₁.pc + (Asm.branchIf op a c target comment ++ r).length)) := by
  have hlookup := (hsits.right (h.textual.append hr)).label b.distinct
  refine h.move ?_ hr rfl
  rw [(h.sits hsits.left).step_instr, execute?_branchIf, htaken, Option.bind_some, if_pos rfl,
    hlookup, Option.map_some, List.length_append, ← Nat.add_assoc, ← h.pc]

/-- The machine goes on at a label behind the code after it. -/
theorem branch (h : After act live σ s q ws s₁) {target : String} {comment : Option String}
    {rest : List Item} (hsits : Sits b.items s.pc (q ++ (Asm.branch target ++ r) ++
      .label target comment :: rest)) (hr : Textual (Asm.branch target ++ r)) :
    After act live σ s (q ++ (Asm.branch target ++ r)) ws
      (s₁.goto (s₁.pc + (Asm.branch target ++ r).length)) := by
  have hlookup := (hsits.right (h.textual.append hr)).label b.distinct
  refine h.move ?_ hr rfl
  have hstep := (h.sits hsits.left).step_instr
  have hexecute : execute? (load b.items) s₁ .b [.label target] =
      ((load b.items).code.lookup target).map s₁.goto := rfl
  rw [hstep, hexecute, hlookup, Option.map_some, List.length_append, ← Nat.add_assoc, ← h.pc]

end After

/-! ## The stack -/

variable {scope : Scope Symbol} {frame : Frame}

/-- Memory below the frame belongs to no variable. -/
theorem Site.tracks_store (hsite : Site act live scope frame) {mem : Nat → Word} {σ : Store}
    (h : b.Tracks act.fp mem live σ) {a : Nat} (hlow : b.dataEnd ≤ a) (hhigh : a ≤ act.bottom)
    (w : Word) : b.Tracks act.fp (fun a' => if a' = a then w else mem a') live σ := by
  refine h.congr fun t ht a' ha' => if_neg ?_
  obtain ⟨-, -, hrange⟩ := hsite.owns ht ha'
  omega

namespace After

/-- A word is pushed. -/
theorem push (h : After act live σ s q ws s₁) (hsite : Site act live scope frame) {src : Reg}
    {comment : Option String} (hsits : Sits b.items s.pc (q ++ Asm.push src comment)) :
    ∃ s₂, After act live σ s (q ++ Asm.push src comment) (ws ++ [s₁.get src]) s₂ ∧
      ∀ r', r' ≠ .sp → s₂.get r' = s₁.get r' := by
  obtain ⟨hlow, -⟩ := h.ready.free
  have hbelow := h.ready.below
  have hbase : dataBase ≤ b.dataEnd := Layout.le_next_addAll {} b.items
  have hsp : ((s₁.push src).get .sp).toNat + wordSize = (s₁.get .sp).toNat := s₁.sp_push src (by
    unfold dataBase at hbase
    unfold wordSize
    omega)
  have hget : ∀ r', r' ≠ .sp → (s₁.push src).get r' = s₁.get r' := fun _ => s₁.get_push src
  have hreaches := (h.sits hsits).push h.ready.aligned
  refine ⟨s₁.push src, h.append
    { reaches := hreaches
      below := h.ready.below
      sp := hsp
      words := fun i w hw => ?_
      kept := fun a ha => ?_
      ready :=
        { fits := h.ready.fits.after hreaches
          below := by omega
          aligned := (Nat.dvd_add_left (Nat.dvd_refl wordSize)).mp (hsp.symm ▸ h.ready.aligned)
          fp := (congrArg BitVec.toNat (hget .fp (by decide))).trans h.ready.fp
          tracks := hsite.tracks_store h.ready.tracks hlow hbelow _
          input := h.ready.input
          events := h.ready.events
          result := (hget .v0 (by decide)).trans h.ready.result }
      textual := rfl
      pc := rfl }, hget⟩
  · cases i with
    | zero =>
      cases hw
      exact if_pos rfl
    | succ i => cases hw
  · have habove := ha.above
    exact if_neg (by omega)

/-- The topmost word is popped into a register. -/
theorem pop {w : Word} (h : After act live σ s q (ws ++ [w]) s₁) {dst : Reg}
    {comment : Option String} (hsits : Sits b.items s.pc (q ++ Asm.pop dst comment))
    (hdst : dst.Scratch) :
    ∃ s₂, After act live (σ.put dst w) s (q ++ Asm.pop dst comment) ws s₂ ∧ s₂.get dst = w ∧
      ∀ r', r' ≠ dst → r' ≠ .sp → s₂.get r' = s₁.get r' := by
  obtain ⟨hlow, hhigh⟩ := h.ready.free
  have hspw := h.sp
  have hbelow := h.below
  have hhigh' := act.high
  rw [List.length_append, List.length_singleton, Nat.mul_add, Nat.mul_one] at hspw
  have hadd : (s₁.get .sp + BitVec.ofInt 32 (wordSize : Nat)).toNat =
      (s₁.get .sp).toNat + wordSize := by
    rw [Word.toNat_add_ofInt]
    · rfl
    · omega
    · unfold memoryTop at hhigh
      unfold wordSize
      omega
  have htop : s₁.mem ((s₁.get .sp).toNat + wordSize) = w := by
    have hword := h.words ws.length w (by simp)
    rwa [show (s.get .sp).toNat - wordSize * ws.length = (s₁.get .sp).toNat + wordSize by omega]
      at hword
  have hcode := h.sits hsits
  let loaded := (s₁.set dst w).skip 1
  let moved := (loaded.set .sp (s₁.get .sp + BitVec.ofInt 32 (wordSize : Nat))).skip 1
  have hload : step? b.items s₁ = some loaded := by
    rw [hcode.step_instr, execute?_transfer, transfer?]
    have haddress : s₁.address? (load b.items) (.indexed .sp wordSize) =
        some (s₁.get .sp + BitVec.ofInt 32 (wordSize : Nat)) := rfl
    rw [haddress, Option.bind_some, aligned?_of_dvd, Option.map_some, hadd, htop]
    rw [hadd]
    exact Nat.dvd_add h.ready.aligned (Nat.dvd_refl _)
  have hready := h.ready.set hdst (.single hload)
  have hspkept : loaded.get .sp = s₁.get .sp := s₁.get_set_of_ne (Ne.symm hdst.2.1) w
  have hmove : step? b.items loaded = some moved := by
    have hnext : Sits b.items loaded.pc _ := hcode.right (q := [_]) rfl
    have hstep := hnext.step_instr
    rw [execute?_op3_imm, hspkept] at hstep
    exact hstep
  have hreaches : Reaches b.items s₁ moved := .step hload (.single hmove)
  have hsp : moved.get .sp = s₁.get .sp + BitVec.ofInt 32 (wordSize : Nat) :=
    loaded.get_set_self (r := .sp) (by decide) _
  have hget : ∀ r', r' ≠ .sp → moved.get r' = loaded.get r' := fun r' hr' =>
    loaded.get_set_of_ne hr' _
  refine ⟨moved,
    { reaches := h.reaches.trans hreaches
      below := h.below
      sp := ?_
      words := fun i v hv => ?_
      kept := fun a ha => h.kept a ha
      ready :=
        { fits := h.ready.fits.after hreaches
          below := ?_
          aligned := ?_
          fp := ?_
          tracks := hready.tracks
          input := hready.input
          events := hready.events
          result := (hget .v0 (by decide)).trans hready.result }
      textual := h.textual.append rfl
      pc := ?_ }, ?_, fun r' hr' hr'' => ?_⟩
  · rw [hsp, hadd]
    omega
  · refine h.words i v ?_
    obtain ⟨hi, -⟩ := List.getElem?_eq_some_iff.mp hv
    rwa [List.getElem?_append_left hi]
  · rw [hsp, hadd]
    omega
  · rw [hsp, hadd]
    exact Nat.dvd_add h.ready.aligned (Nat.dvd_refl _)
  · rw [hget .fp (by decide)]
    exact hready.fp
  · show s₁.pc + 1 + 1 = _
    rw [h.pc, List.length_append]
    rfl
  · rw [hget _ hdst.2.1]
    exact s₁.get_set_self hdst.1 w
  · rw [hget _ hr'']
    exact s₁.get_set_of_ne hr' w

end After

end CMinusMinus
