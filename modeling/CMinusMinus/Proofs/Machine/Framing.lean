import CMinusMinus.Proofs.Machine.Running

/-!
# Making and unmaking frames

What the code at the beginning of a function makes of a state (`Enters`), and what the code at its
end makes of one (`Leaves`), wherever the stack is: addresses wrap around.  Where the frame lies in
one piece, as it does if there is room for it, the same is said of addresses as numbers (`Framed`,
`Unframed`).
-/

namespace CMinusMinus.Machine

variable {items : List Item} {s : State}

theorem aligned?_of_dvd {a : Word} (h : wordSize ∣ a.toNat) : aligned? a = some a.toNat :=
  if_pos (Nat.mod_eq_zero_of_dvd h)

theorem State.address?_indexed (l : Layout) (r : Reg) :
    s.address? l (.indexed r 0) = some (s.get r) :=
  congrArg some (BitVec.add_zero _)

/-! ## The stack -/

/-- The state that has a register on the stack in addition. -/
def State.push (s : State) (src : Reg) : State :=
  ((s.store (s.get .sp).toNat (s.get src)).set .sp
    (s.get .sp - BitVec.ofInt 32 (wordSize : Nat))).skip 2

theorem State.get_push {r : Reg} (src : Reg) (hr : r ≠ .sp) : (s.push src).get r = s.get r :=
  State.get_set_of_ne _ hr _

theorem State.get_sp_push (src : Reg) :
    (s.push src).get .sp = s.get .sp - BitVec.ofNat 32 wordSize :=
  (s.store (s.get .sp).toNat (s.get src)).get_set_self (r := .sp) (by decide) _

theorem State.sp_push (src : Reg) (h : wordSize ≤ (s.get .sp).toNat) :
    ((s.push src).get .sp).toNat + wordSize = (s.get .sp).toNat := by
  rw [get_sp_push, ← BitVec.ofInt_natCast, Word.toNat_sub_ofInt h]
  omega

theorem dvd_toNat_sub {w : Word} {n : Nat} (hw : wordSize ∣ w.toNat) (hn : wordSize ∣ n) :
    wordSize ∣ (w - BitVec.ofNat 32 n).toNat := by
  rw [BitVec.toNat_sub, BitVec.toNat_ofNat]
  unfold wordSize at *
  omega

/-- A register is pushed. -/
theorem Sits.push {src : Reg} {comment : Option String}
    (h : Sits items s.pc (Asm.push src comment)) (haligned : wordSize ∣ (s.get .sp).toNat) :
    Reaches items s (s.push src) := by
  let stored := (s.store (s.get .sp).toNat (s.get src)).skip 1
  have hstore : step? items s = some stored := by
    rw [h.step_instr, execute?_transfer, transfer?, State.address?_indexed, Option.bind_some,
      aligned?_of_dvd haligned]
    rfl
  have hmove : step? items stored = some (s.push src) := by
    have hnext : Sits items stored.pc _ := h.right (q := [_]) rfl
    exact hnext.step_instr
  exact .step hstore (.single hmove)

/-! ## Making frames -/

/-- The state is at the statements of a function, whose frame has room for formals and locals of so
many bytes.  The return address and the caller's frame pointer are saved in it. -/
structure Enters (s : State) (formals locals : Nat) (s' : State) : Prop where
  sp : s'.get .sp = s.get .sp - BitVec.ofNat 32 (Frame.savedSize + locals)
  fp : s'.get .fp = s.get .sp + BitVec.ofNat 32 formals
  savedRa : s'.mem (s.get .sp).toNat = s.get .ra
  savedFp : s'.mem (s.get .sp - BitVec.ofNat 32 wordSize).toNat = s.get .fp
  kept : ∀ a, a ≠ (s.get .sp).toNat → a ≠ (s.get .sp - BitVec.ofNat 32 wordSize).toNat →
    s'.mem a = s.mem a
  result : s'.get .v0 = s.get .v0
  input : s'.input = s.input
  events : s'.events = s.events

/-- The code at the beginning of a function makes the frame. -/
theorem Sits.enters {formals locals : Nat}
    (h : Sits items s.pc (Asm.prologue formals locals))
    (haligned : wordSize ∣ (s.get .sp).toNat) :
    ∃ s', Reaches items s s' ∧ s'.pc = s.pc + (Asm.prologue formals locals).length ∧
      Enters s formals locals s' := by
  unfold Asm.prologue at h ⊢
  simp only [List.append_assoc] at h ⊢
  -- the return address and the frame pointer are pushed
  let s₁ := s.push .ra
  have hsp₁ : s₁.get .sp = s.get .sp - BitVec.ofNat 32 wordSize := s.get_sp_push .ra
  have h₁ : Sits items s₁.pc _ := h.right (q := Asm.push _ _) rfl
  have haligned₁ : wordSize ∣ (s₁.get .sp).toNat :=
    hsp₁ ▸ dvd_toNat_sub haligned (Nat.dvd_refl _)
  let s₂ := s₁.push .fp
  have hsp₂ : s₂.get .sp = s.get .sp - BitVec.ofNat 32 Frame.savedSize := by
    rw [s₁.get_sp_push .fp, hsp₁]
    unfold Frame.savedSize wordSize
    bv_omega
  have h₂ : Sits items s₂.pc _ := h₁.right (q := Asm.push _ _) rfl
  have hreaches₂ : Reaches items s s₂ := (h.left.push haligned).trans (h₁.left.push haligned₁)
  -- the frame pointer is set
  let s₃ := (s₂.set .fp (s₂.get .sp + BitVec.ofInt 32 (formals + 2 * wordSize))).skip 1
  have hstep₃ : step? items s₂ = some s₃ := h₂.step_instr
  have hreaches₃ := hreaches₂.trans (.single hstep₃)
  have hne : (s.get .sp).toNat ≠ (s.get .sp - BitVec.ofNat 32 wordSize).toNat := by
    unfold wordSize
    bv_omega
  have henters : Enters s formals 0 s₃ :=
    { sp := hsp₂
      fp := by
        have hget : s₃.get .fp = s₂.get .sp + BitVec.ofInt 32 (formals + 2 * wordSize) :=
          s₂.get_set_self (r := .fp) (by decide) _
        have hbytes : BitVec.ofInt 32 (formals + 2 * wordSize) =
            BitVec.ofNat 32 (formals + Frame.savedSize) := BitVec.ofInt_natCast 32 _
        rw [hget, hsp₂, hbytes, BitVec.ofNat_add]
        bv_omega
      savedRa := (if_neg (hsp₁ ▸ hne)).trans (if_pos rfl)
      savedFp := hsp₁ ▸ (if_pos rfl).trans (s.get_push .ra (by decide))
      kept := fun a ha ha' => (if_neg (hsp₁ ▸ ha')).trans (if_neg ha)
      result := rfl
      input := rfl
      events := rfl }
  -- the locals are reserved
  have h₃ : Sits items s₃.pc _ := h₂.right (q := [_]) rfl
  by_cases hlocals : locals = 0
  · subst hlocals
    exact ⟨s₃, hreaches₃, rfl, henters⟩
  · rw [if_neg (by omega)] at h₃ ⊢
    let s₄ := (s₃.set .sp (s₃.get .sp - BitVec.ofInt 32 locals)).skip 1
    have hstep₄ : step? items s₃ = some s₄ := h₃.step_instr
    refine ⟨s₄, hreaches₃.trans (.single hstep₄), rfl, { henters with sp := ?_ }⟩
    have hget : s₄.get .sp = s₃.get .sp - BitVec.ofInt 32 locals :=
      s₃.get_set_self (r := .sp) (by decide) _
    rw [hget, henters.sp, BitVec.ofInt_natCast, BitVec.ofNat_add]
    bv_omega

/-- The frame lies in one piece: the state is at the statements of a function, whose frame has room
for formals and locals of so many bytes. -/
structure Framed (s : State) (formals locals : Nat) (s' : State) : Prop where
  sp : (s'.get .sp).toNat + locals + Frame.savedSize = (s.get .sp).toNat
  fp : (s'.get .fp).toNat = (s.get .sp).toNat + formals
  savedRa : s'.mem (s.get .sp).toNat = s.get .ra
  savedFp : s'.mem ((s.get .sp).toNat - wordSize) = s.get .fp
  kept : ∀ a, a ≠ (s.get .sp).toNat → a ≠ (s.get .sp).toNat - wordSize → s'.mem a = s.mem a
  result : s'.get .v0 = s.get .v0
  input : s'.input = s.input
  events : s'.events = s.events

theorem toNat_sub_ofNat {w : Word} {n : Nat} (h : n ≤ w.toNat) :
    (w - BitVec.ofNat 32 n).toNat = w.toNat - n := by
  rw [← BitVec.ofInt_natCast, Word.toNat_sub_ofInt h]

theorem Enters.framed {formals locals : Nat} {s' : State} (h : Enters s formals locals s')
    (hlow : Frame.savedSize + locals ≤ (s.get .sp).toNat)
    (hhigh : (s.get .sp).toNat + formals < 2 ^ 32) : Framed s formals locals s' := by
  have hword : (s.get .sp - BitVec.ofNat 32 wordSize).toNat = (s.get .sp).toNat - wordSize :=
    toNat_sub_ofNat (by unfold Frame.savedSize at hlow; omega)
  exact
    { h with
      sp := by
        rw [h.sp, toNat_sub_ofNat hlow]
        omega
      fp := by
        rw [h.fp, BitVec.toNat_add, BitVec.toNat_ofNat]
        omega
      savedFp := hword ▸ h.savedFp
      kept := fun a ha ha' => h.kept a ha (hword ▸ ha') }

/-- The code at the beginning of a function makes the frame in one piece if there is room. -/
theorem Sits.prologue {formals locals : Nat}
    (h : Sits items s.pc (Asm.prologue formals locals)) (hfits : Fits items s)
    (haligned : wordSize ∣ (s.get .sp).toNat) :
    ∃ s', Reaches items s s' ∧ s'.pc = s.pc + (Asm.prologue formals locals).length ∧
      Framed s formals locals s' := by
  obtain ⟨s', hreaches, hpc, henters⟩ := h.enters haligned
  have hbase : dataBase ≤ (load items).next := Layout.le_next_addAll {} items
  obtain ⟨hlow, hhigh⟩ := hfits.stack s .refl
  have hmem : ∀ i ∈ Asm.prologue formals locals, i ∈ items := fun _ hi => h.isInfix.subset hi
  have hformals := hfits.frames (formals + 2 * wordSize) (some "set frame pointer")
    (hmem _ (by simp [Asm.prologue, Asm.instr]))
  have hlocals : Frame.savedSize + locals ≤ (s.get .sp).toNat := by
    have hhigh' := (hfits.stack s' hreaches).2
    rw [henters.sp, BitVec.toNat_sub, BitVec.toNat_ofNat] at hhigh'
    by_cases hzero : locals = 0
    · unfold dataBase Frame.savedSize wordSize at *
      omega
    · have hmoves := hfits.moves locals (some "reserve locals")
        (hmem _ (by simp [Asm.prologue, Asm.instr, hzero]))
      unfold memoryTop dataBase Frame.savedSize wordSize at *
      omega
  exact ⟨s', hreaches, hpc, henters.framed hlocals (by omega)⟩

/-! ## Unmaking frames -/

/-- The frame of a function with formals of so many bytes is gone: the return address and the
caller's frame pointer are back in their registers, and the stack pointer is above the formals. -/
structure Leaves (s : State) (formals : Nat) (s' : State) : Prop where
  ra : s'.get .ra = s.mem (s.get .fp - BitVec.ofNat 32 formals).toNat
  fp : s'.get .fp = s.mem (s.get .fp - BitVec.ofNat 32 (formals + wordSize)).toNat
  sp : s'.get .sp = s.get .fp
  result : s'.get .v0 = s.get .v0
  mem : s'.mem = s.mem
  input : s'.input = s.input
  events : s'.events = s.events

/-- A word of a frame is loaded. -/
theorem execute?_lw_fp {l : Layout} {dst : Reg} {offset : Nat}
    (haligned : wordSize ∣ (s.get .fp).toNat) (hoffset : wordSize ∣ offset) :
    execute? l s .lw [.reg dst, .indexed .fp (-(offset : Int))] =
      some ((s.set dst (s.mem (s.get .fp - BitVec.ofNat 32 offset).toNat)).skip 1) := by
  have haddress : s.get .fp + BitVec.ofInt 32 (-(offset : Int)) =
      s.get .fp - BitVec.ofNat 32 offset := by
    rw [BitVec.ofInt_neg, BitVec.ofInt_natCast, BitVec.sub_eq_add_neg]
  rw [execute?_transfer, transfer?, State.address?, Option.bind_some, haddress,
    aligned?_of_dvd (dvd_toNat_sub haligned hoffset), Option.map_some]

/-- The code at the end of a function unmakes the frame. -/
theorem Sits.leaves {formals : Nat} {exit : String} {isMain : Bool}
    (h : Sits items s.pc (Asm.epilogue exit formals isMain))
    (haligned : wordSize ∣ (s.get .fp).toNat) (hformals : wordSize ∣ formals) :
    ∃ s', Reaches items s s' ∧ Leaves s formals s' ∧ Sits items s'.pc
      (if isMain then Asm.syscall Asm.Service.exit.number (some "exit")
        else [Asm.instr .jr [.reg .ra]]) := by
  unfold Asm.epilogue at h
  simp only [List.append_assoc] at h
  have h₁ : Sits items (s.skip 1).pc _ := h.right (q := Asm.label _ _) rfl
  have hlabel : step? items s = some (s.skip 1) := step?_inert h.getElem? (by rintro _ _ _ ⟨⟩)
  -- the return address
  let s₂ := ((s.skip 1).set .ra (s.mem (s.get .fp - BitVec.ofNat 32 formals).toNat)).skip 1
  have hra : step? items (s.skip 1) = some s₂ :=
    h₁.step_instr.trans (execute?_lw_fp haligned hformals)
  have h₂ : Sits items s₂.pc _ := h₁.right (q := [_]) rfl
  -- the frame pointer, which is where the stack pointer goes
  let s₃ := (s₂.set .t0 (s₂.get .fp)).skip 1
  have ht0 : step? items s₂ = some s₃ := h₂.step_instr
  have h₃ : Sits items s₃.pc _ := h₂.right (q := [_]) rfl
  let s₄ := (s₃.set .fp
    (s₃.mem (s₃.get .fp - BitVec.ofNat 32 (formals + wordSize)).toNat)).skip 1
  have hfp : step? items s₃ = some s₄ :=
    h₃.step_instr.trans (execute?_lw_fp haligned (Nat.dvd_add hformals (Nat.dvd_refl _)))
  have h₄ : Sits items s₄.pc _ := h₃.right (q := [_]) rfl
  let s₅ := (s₄.set .sp (s₄.get .t0)).skip 1
  have hsp : step? items s₄ = some s₅ := h₄.step_instr
  have h₅ : Sits items s₅.pc _ := h₄.right (q := [_]) rfl
  refine ⟨s₅, .step hlabel (.step hra (.step ht0 (.step hfp (.single hsp)))), ?_, h₅⟩
  exact { ra := rfl, fp := rfl, sp := rfl, result := rfl, mem := rfl, input := rfl, events := rfl }

/-- The frame that is gone lay in one piece. -/
structure Unframed (s : State) (formals : Nat) (s' : State) : Prop where
  ra : s'.get .ra = s.mem ((s.get .fp).toNat - formals)
  fp : s'.get .fp = s.mem ((s.get .fp).toNat - (formals + wordSize))
  sp : s'.get .sp = s.get .fp
  result : s'.get .v0 = s.get .v0
  mem : s'.mem = s.mem
  input : s'.input = s.input
  events : s'.events = s.events

/-- The code at the end of a function unmakes a frame that lies in one piece. -/
theorem Sits.epilogue {formals : Nat} {exit : String} {isMain : Bool}
    (h : Sits items s.pc (Asm.epilogue exit formals isMain))
    (haligned : wordSize ∣ (s.get .fp).toNat) (hformals : wordSize ∣ formals)
    (hle : formals + wordSize ≤ (s.get .fp).toNat) :
    ∃ s', Reaches items s s' ∧ Unframed s formals s' ∧ Sits items s'.pc
      (if isMain then Asm.syscall Asm.Service.exit.number (some "exit")
        else [Asm.instr .jr [.reg .ra]]) := by
  obtain ⟨s', hreaches, hleaves, hsits⟩ := h.leaves haligned hformals
  refine ⟨s', hreaches, { hleaves with ra := ?_, fp := ?_ }, hsits⟩
  · rw [hleaves.ra, toNat_sub_ofNat (Nat.le_of_add_right_le hle)]
  · rw [hleaves.fp, toNat_sub_ofNat hle]

end CMinusMinus.Machine
