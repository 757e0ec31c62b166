import CMinusMinus.Proofs.Machine.Comments
import CMinusMinus.Proofs.Machine.Framing

/-!
# The calling convention

A caller pushes the words for the formals of a function and jumps to its label.  The code at the
beginning of the function saves the return address and the caller's frame pointer below them and
reserves the locals, and the code at its end takes all of it off the stack again.  Whatever the
statements of the function do, as long as they leave the frame pointer and the two saved words, the
machine comes back behind the jump with the stack pointer and the frame pointer that the caller had
(`call_returns`).

Nothing is asked about where the stack is: addresses wrap around, and all that matters is that the
words pushed, the words saved and the locals have addresses of their own.
-/

namespace CMinusMinus

namespace Word

/-! ## Words below an address -/

/-- The address so many words below another. -/
def below (w : Word) (n : Nat) : Word := w - BitVec.ofNat 32 (wordSize * n)

@[simp] theorem below_zero (w : Word) : w.below 0 = w := BitVec.sub_zero w

theorem below_below (w : Word) (m n : Nat) : (w.below m).below n = w.below (m + n) := by
  unfold below
  rw [Nat.mul_add, BitVec.ofNat_add]
  bv_omega

theorem dvd_below {w : Word} (n : Nat) (h : wordSize ∣ w.toNat) : wordSize ∣ (w.below n).toNat :=
  Machine.dvd_toNat_sub h (Nat.dvd_mul_right _ _)

theorem below_inj {w : Word} {i j : Nat} (hi : i < 2 ^ 30) (hj : j < 2 ^ 30) :
    w.below i = w.below j ↔ i = j := by
  unfold below wordSize
  constructor
  · intro h
    bv_omega
  · rintro rfl
    rfl

/-- So many words below an address have addresses of their own only if they fit into memory. -/
theorem le_of_distinct {w : Word} {n : Nat}
    (h : ∀ i < n, ∀ j < n, w.below i = w.below j → i = j) : n ≤ 2 ^ 30 := by
  by_contra hlt
  -- the way down through all of the memory ends where it began
  have hround : w.below 0 = w.below (2 ^ 30) := by
    unfold below wordSize
    bv_omega
  have := h 0 (by omega) (2 ^ 30) (by omega) hround
  omega

/-- An address on the way upwards from one address to another, which are left out. -/
def Between (low a high : Word) : Prop :=
  0 < (a - low).toNat ∧ (a - low).toNat < (high - low).toNat

/-- The way does not lead round the memory if it ends above where it begins. -/
theorem between_iff {low a high : Word} (h : low.toNat ≤ high.toNat) :
    Between low a high ↔ low.toNat < a.toNat ∧ a.toNat < high.toNat := by
  unfold Between
  bv_omega

theorem between_below (w : Word) {i j k : Nat} (hij : i < j) (hjk : j < k) (hk : k < i + 2 ^ 30) :
    Between (w.below k) (w.below j) (w.below i) := by
  unfold Between below wordSize
  bv_omega

end Word

namespace Machine

variable {o : CodeOptions} {items : List Item} {s t u b e : State} {ws : List Word}
  {target : String} {locals entry leave : Nat}

/-- The word at an address. -/
def State.load (s : State) (a : Word) : Word := s.mem a.toNat

theorem State.load_store (a a' w : Word) :
    (s.store a.toNat w).load a' = if a' = a then w else s.load a' :=
  if_congr BitVec.toNat_inj rfl rfl

theorem State.load_push (src : Reg) (a : Word) :
    (s.push src).load a = if a = s.get .sp then s.get src else s.load a :=
  s.load_store _ _ _

/-! ## Callers -/

/-- From a state on, words are pushed one after another.  What code does between the pushes is its
own affair, as long as it leaves the stack pointer, the frame pointer and the words that are on the
stack already. -/
inductive Pushes (o : CodeOptions) (items : List Item) (s : State) : List Word → State → Prop
  | none : Pushes o items s [] s
  | push {ws : List Word} {t : State} {src : Reg} {comment : Option String} :
      Pushes o items s ws t → Sits items t.pc (Asm.push src comment) →
      Pushes o items s (ws ++ [t.get src]) (t.push src)
  | between {ws : List Word} {t u : State} :
      Pushes o items s ws t → Reaches (o.finish items) t u →
      u.get .sp = t.get .sp → u.get .fp = t.get .fp →
      (∀ i < ws.length, u.load ((s.get .sp).below i) = t.load ((s.get .sp).below i)) →
      Pushes o items s ws u

namespace Pushes

theorem sp (h : Pushes o items s ws t) : t.get .sp = (s.get .sp).below ws.length := by
  induction h with
  | none => exact (Word.below_zero _).symm
  | push _ _ ih =>
    rw [State.get_sp_push, ih, List.length_append]
    exact Word.below_below _ _ 1
  | between _ _ hsp _ _ ih => exact hsp.trans ih

theorem fp (h : Pushes o items s ws t) : t.get .fp = s.get .fp := by
  induction h with
  | none => rfl
  | push _ _ ih => exact (State.get_push _ (by decide)).trans ih
  | between _ _ _ hfp _ ih => exact hfp.trans ih

/-- The machine does push the words. -/
theorem reaches (h : Pushes o items s ws t) (haligned : wordSize ∣ (s.get .sp).toNat) :
    Reaches (o.finish items) s t := by
  induction h with
  | none => exact .refl
  | push h hsits ih =>
    exact ih.trans (reaches_finish.mpr (hsits.push (h.sp ▸ Word.dvd_below _ haligned)))
  | between _ hreaches _ _ _ ih => exact ih.trans hreaches

/-- The words are on the stack. -/
theorem load (h : Pushes o items s ws t) (hle : ws.length ≤ 2 ^ 30) {i : Nat} {w : Word}
    (hw : ws[i]? = some w) : t.load ((s.get .sp).below i) = w := by
  induction h with
  | none => cases hw
  | @push ws t src _ h _ ih =>
    rw [List.length_append, List.length_singleton] at hle
    rw [State.load_push, h.sp]
    obtain ⟨hi, -⟩ := List.getElem?_eq_some_iff.mp hw
    rw [List.length_append, List.length_singleton] at hi
    obtain hi | rfl : i < ws.length ∨ i = ws.length := by omega
    -- a word that was pushed earlier is higher on the stack than the one just pushed
    · rw [if_neg ((Word.below_inj (by omega) (by omega)).not.mpr (by omega))]
      exact ih (by omega) (by rwa [List.getElem?_append_left hi] at hw)
    · rw [List.getElem?_concat_length, Option.some_inj] at hw
      rw [if_pos rfl, hw]
  | between _ _ _ _ hkept ih =>
    obtain ⟨hi, -⟩ := List.getElem?_eq_some_iff.mp hw
    exact (hkept i hi).trans (ih hle hw)

end Pushes

/-! ## Functions -/

/-- The label is that of a function with so many words for formals and for locals: the code that
makes its frame begins at one position, and the code that unmakes it at another. -/
structure Callee (items : List Item) (target : String) (formals locals entry leave : Nat) :
    Prop where
  label : (load items).code.lookup target = some entry
  prologue : ∃ comment, Sits items entry (Asm.label target comment ++
    Asm.prologue (wordSize * formals : Nat) (wordSize * locals : Nat))
  epilogue : ∃ exit, Sits items leave (Asm.epilogue exit (wordSize * formals : Nat) false)

/-- The machine is at the statements of a function that was called with the words: from the frame
pointer downwards there are the words, the position to return to and the frame pointer of the
caller, and then the locals. -/
structure Inside (s : State) (ws : List Word) (locals back : Nat) (b : State) : Prop where
  fp : b.get .fp = s.get .sp
  words : ∀ i w, ws[i]? = some w → b.load ((b.get .fp).below i) = w
  savedRa : b.load ((b.get .fp).below ws.length) = BitVec.ofNat 32 back
  savedFp : b.load ((b.get .fp).below (ws.length + 1)) = s.get .fp
  locals : ∀ j < locals, Word.Between (b.get .sp) ((b.get .fp).below (ws.length + 2 + j))
    ((b.get .fp).below (ws.length + 1))

/-- A frame that was made below words on the stack. -/
theorem Enters.inside (h : Enters t (wordSize * ws.length) (wordSize * locals) b)
    (hsp : t.get .sp = (s.get .sp).below ws.length) (hfp : t.get .fp = s.get .fp)
    {back : Nat} (hra : t.get .ra = BitVec.ofNat 32 back)
    (hwords : ∀ i w, ws[i]? = some w → t.load ((s.get .sp).below i) = w)
    (hle : ws.length + locals + 2 ≤ 2 ^ 30) : Inside s ws locals back b := by
  have hfp' : b.get .fp = s.get .sp := by
    rw [h.fp, hsp]
    exact BitVec.sub_add_cancel _ _
  have hsp' : b.get .sp = (s.get .sp).below (ws.length + 2 + locals) := by
    have hsize : Frame.savedSize + wordSize * locals = wordSize * (2 + locals) := by
      unfold Frame.savedSize wordSize
      omega
    rw [h.sp, hsp, hsize, Nat.add_assoc]
    exact Word.below_below _ _ _
  have hsaved : (t.get .sp).below 1 = (s.get .sp).below (ws.length + 1) :=
    hsp ▸ Word.below_below _ _ _
  refine { fp := hfp', words := fun i w hw => ?_, savedRa := ?_, savedFp := ?_, locals := ?_ } <;>
    rw [hfp']
  -- the saved words are below the words pushed, so these were kept
  · obtain ⟨hi, -⟩ := List.getElem?_eq_some_iff.mp hw
    have hne : (s.get .sp).below i ≠ t.get .sp :=
      hsp ▸ (Word.below_inj (by omega) (by omega)).not.mpr (by omega)
    have hne' : (s.get .sp).below i ≠ (t.get .sp).below 1 :=
      hsaved ▸ (Word.below_inj (by omega) (by omega)).not.mpr (by omega)
    rw [← hwords i w hw]
    exact h.kept _ (BitVec.toNat_inj.not.mpr hne) (BitVec.toNat_inj.not.mpr hne')
  · rw [← hsp, ← hra]
    exact h.savedRa
  · rw [← hsaved, ← hfp]
    exact h.savedFp
  · intro j hj
    rw [hsp']
    exact Word.between_below _ (by omega) (by omega) (by omega)

/-- The code at the end of a function leads back to the caller. -/
theorem Inside.returns {back : Nat} (h : Inside s ws locals back b)
    (haligned : wordSize ∣ (s.get .sp).toNat) (hback : back < 2 ^ 32) {exit : String}
    (hsits : Sits items e.pc (Asm.epilogue exit (wordSize * ws.length : Nat) false))
    (hfp : e.get .fp = b.get .fp)
    (hra : e.load ((b.get .fp).below ws.length) = b.load ((b.get .fp).below ws.length))
    (hsaved : e.load ((b.get .fp).below (ws.length + 1)) =
      b.load ((b.get .fp).below (ws.length + 1))) :
    ∃ s', Reaches items e s' ∧ s'.pc = back ∧ s'.get .sp = s.get .sp ∧ s'.get .fp = s.get .fp := by
  obtain ⟨s', hreaches, hleaves, hjr⟩ :=
    hsits.leaves (by rwa [hfp, h.fp]) (Nat.dvd_mul_right _ _)
  have hstep : step? items s' = some (s'.goto (s'.get .ra).toNat) := hjr.step_instr
  have hget : s'.get .ra = BitVec.ofNat 32 back := by
    rw [hleaves.ra, hfp]
    exact hra.trans h.savedRa
  refine ⟨_, hreaches.trans (.single hstep), ?_, ?_, ?_⟩
  · show (s'.get .ra).toNat = back
    rw [hget, BitVec.toNat_ofNat, Nat.mod_eq_of_lt hback]
  · exact (hleaves.sp.trans hfp).trans h.fp
  · rw [State.get_goto, hleaves.fp, hfp]
    exact hsaved.trans h.savedFp

/-! ## Calls -/

/-- A call brings the machine to the statements of the function. -/
theorem Pushes.enters (h : Pushes o items s ws t) (haligned : wordSize ∣ (s.get .sp).toNat)
    (hle : ws.length + locals + 2 ≤ 2 ^ 30) (hcall : Sits items t.pc (Asm.call target))
    (hcallee : Callee items target ws.length locals entry leave) :
    ∃ b, Reaches (o.finish items) s b ∧
      b.pc = entry +
        (Asm.prologue (wordSize * ws.length : Nat) (wordSize * locals : Nat)).length + 1 ∧
      Inside s ws locals (t.pc + 1) b := by
  obtain ⟨comment, hsits⟩ := hcallee.prologue
  -- behind the label
  let t₁ := ((t.set .ra (BitVec.ofNat 32 (t.pc + 1))).goto entry).skip 1
  have hget : ∀ r, r ≠ .ra → t₁.get r = t.get r := fun r hr => t.get_set_of_ne hr _
  have hlabel : step? items ((t.set .ra (BitVec.ofNat 32 (t.pc + 1))).goto entry) = some t₁ :=
    step?_inert hsits.getElem? (by rintro _ _ _ ⟨⟩)
  have hjump := (hcall.call hcallee.label).trans (.single hlabel)
  have hbegin : Sits items t₁.pc _ := hsits.right (q := Asm.label _ _) rfl
  have hsp : t₁.get .sp = (s.get .sp).below ws.length := (hget .sp (by decide)).trans h.sp
  obtain ⟨b, hreaches, hpc, henters⟩ := hbegin.enters (hsp ▸ Word.dvd_below _ haligned)
  refine ⟨b, (h.reaches haligned).trans (reaches_finish.mpr (hjump.trans hreaches)), ?_, ?_⟩
  · rw [hpc]
    exact Nat.add_right_comm _ _ _
  · exact henters.inside hsp ((hget .fp (by decide)).trans h.fp)
      (t.get_set_self (r := .ra) (by decide) _) (fun i w => h.load (by omega)) hle

/-- Calls return.  The words pushed by the caller, the words saved and the locals must have
addresses of their own, and the position behind the jump must be a word.  At the statements of the
function everything is in its place, and from wherever they end at the code that unmakes the frame,
with the frame pointer and the saved words as they were, the machine comes back behind the jump,
with the stack pointer from before the first push and the frame pointer of the caller. -/
theorem call_returns (haligned : wordSize ∣ (s.get .sp).toNat)
    (hdistinct : ∀ i < ws.length + locals + 2, ∀ j < ws.length + locals + 2,
      (s.get .sp).below i = (s.get .sp).below j → i = j)
    (hpushes : Pushes o items s ws t) (hcall : Sits items t.pc (Asm.call target))
    (hback : t.pc + 1 < 2 ^ 32) (hcallee : Callee items target ws.length locals entry leave) :
    ∃ b, Reaches (o.finish items) s b ∧
      b.pc = entry +
        (Asm.prologue (wordSize * ws.length : Nat) (wordSize * locals : Nat)).length + 1 ∧
      Inside s ws locals (t.pc + 1) b ∧
      ∀ e, Reaches (o.finish items) b e → e.pc = leave → e.get .fp = b.get .fp →
        e.load ((b.get .fp).below ws.length) = b.load ((b.get .fp).below ws.length) →
        e.load ((b.get .fp).below (ws.length + 1)) = b.load ((b.get .fp).below (ws.length + 1)) →
        ∃ s', Reaches (o.finish items) s s' ∧ s'.pc = t.pc + 1 ∧ s'.get .sp = s.get .sp ∧
          s'.get .fp = s.get .fp := by
  have hle := Word.le_of_distinct hdistinct
  obtain ⟨b, hreaches, hpc, hinside⟩ := hpushes.enters haligned hle hcall hcallee
  refine ⟨b, hreaches, hpc, hinside, fun e hbody hleave hfp hra hsaved => ?_⟩
  obtain ⟨exit, hepilogue⟩ := hcallee.epilogue
  obtain ⟨s', hreturn, hs'⟩ :=
    hinside.returns haligned hback (hleave ▸ hepilogue) hfp hra hsaved
  exact ⟨s', (hreaches.trans hbody).trans (reaches_finish.mpr hreturn), hs'⟩

/-- Two words are pushed for a function that stores one of them in its local. -/
def storing : List Item :=
  Asm.push .a0 ++ (Asm.loadImm .a0 8 ++ (Asm.push .a0 ++ (Asm.call "_keep" ++
    (Asm.label "_keep" ++ (Asm.prologue (2 * wordSize : Nat) wordSize ++
      (Asm.storeWord .a0 (.indexed .fp (-(4 * wordSize : Nat))) ++
        Asm.epilogue "_keep_exit" (2 * wordSize : Nat) false))))))

theorem call_returns_of_storing :
    ∃ b, Reaches (CodeOptions.finish { comments := false } storing) (boot storing []) b ∧
      Inside (boot storing []) [0, 8] 1 6 b ∧
      ∃ s', Reaches (CodeOptions.finish { comments := false } storing) (boot storing []) s' ∧
        s'.pc = 6 ∧ s'.get .sp = (boot storing []).get .sp ∧
        s'.get .fp = (boot storing []).get .fp := by
  let s := boot storing []
  let u := ((s.push .a0).set .a0 8).skip 1
  have hfirst : Sits storing s.pc (Asm.push .a0) := ⟨[], _, rfl, rfl, rfl⟩
  have hload : Sits storing (s.push .a0).pc (Asm.loadImm .a0 8) := ⟨Asm.push .a0, _, rfl, rfl, rfl⟩
  have hsecond : Sits storing u.pc (Asm.push .a0) := ⟨storing.take 3, _, rfl, rfl, rfl⟩
  have hbetween : Reaches storing (s.push .a0) u := .single hload.step_instr
  have hsame : ∀ a, u.load a = (s.push .a0).load a := fun _ => rfl
  have hpush := Pushes.push (o := { comments := false }) .none hfirst
  have hother : ∀ r, r ≠ .a0 → u.get r = (s.push .a0).get r :=
    fun r hr => State.get_set_of_ne _ hr _
  have hpushes := (hpush.between (reaches_finish.mpr hbetween) (hother .sp (by decide))
    (hother .fp (by decide)) fun _ _ => hsame _).push hsecond
  have hcallee : Callee storing "_keep" 2 1 6 14 :=
    { label := by rfl
      prologue := ⟨none, storing.take 6, _, rfl, rfl, rfl⟩
      epilogue := ⟨"_keep_exit", storing.take 14, [], rfl, rfl, rfl⟩ }
  have hdistinct : ∀ i < 5, ∀ j < 5, (s.get .sp).below i = (s.get .sp).below j → i = j :=
    fun i hi j hj => (Word.below_inj (by omega) (by omega)).mp
  obtain ⟨b, hreaches, hpc, hinside, hreturns⟩ := call_returns (by decide) hdistinct hpushes
    ⟨storing.take 5, _, rfl, rfl, rfl⟩ (by decide) hcallee
  refine ⟨b, hreaches, hinside, ?_⟩
  -- the one statement leaves the saved words
  have hfp : b.get .fp = BitVec.ofNat 32 stackTop := hinside.fp
  let a : Word := BitVec.ofNat 32 (stackTop - 4 * wordSize)
  have hstore : Reaches storing b ((b.store a.toNat (b.get .a0)).skip 1) := by
    have hsits : Sits storing b.pc (Asm.storeWord .a0 (.indexed .fp (-(4 * wordSize : Nat)))) :=
      hpc ▸ ⟨storing.take 13, _, rfl, rfl, rfl⟩
    refine .single (hsits.step_instr.trans ?_)
    rw [execute?_transfer, transfer?, State.address?, Option.bind_some, hfp]
    rfl
  have hkept : ∀ w, w ≠ a → ((b.store a.toNat (b.get .a0)).skip 1).load w = b.load w :=
    fun w hw => (b.load_store a w _).trans (if_neg hw)
  refine hreturns _ (reaches_finish.mpr hstore) (congrArg (· + 1) hpc) rfl ?_ ?_
  · rw [hfp]
    exact hkept _ (by decide)
  · rw [hfp]
    exact hkept _ (by decide)

end Machine

end CMinusMinus
