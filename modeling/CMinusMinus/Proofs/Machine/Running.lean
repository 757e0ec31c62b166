import CMinusMinus.Proofs.Machine.Code

/-!
# Running code

What one item that sits at the program counter does to a state, and how runs are put together.  For
runs that come to their end soon there are a state to start a program in (`boot`), and tests of
whether there is room for all of the run (`fits?`) and whether it ends the program
(`exits_of_run?`).
-/

namespace CMinusMinus.Machine

namespace State

variable (s : State)

@[simp] theorem get_zero : s.get .zero = 0 := rfl

@[simp] theorem get_skip (n : Nat) (r : Reg) : (s.skip n).get r = s.get r := rfl

@[simp] theorem get_goto (pc : Nat) (r : Reg) : (s.goto pc).get r = s.get r := rfl

@[simp] theorem get_store (a : Nat) (w : Word) (r : Reg) : (s.store a w).get r = s.get r := rfl

@[simp] theorem get_print (v : Value) (r : Reg) : (s.print v).get r = s.get r := rfl

@[simp] theorem get_take (w : Word) (r : Reg) : (s.take w).get r = s.get r := rfl

theorem get_set_self {r : Reg} (h : r ≠ .zero) (w : Word) : (s.set r w).get r = w := by
  show (if r = .zero then 0 else if r = r then w else s.regs r) = w
  rw [if_neg h, if_pos rfl]

theorem get_set_of_ne {r r' : Reg} (h : r' ≠ r) (w : Word) : (s.set r w).get r' = s.get r' := by
  show (if r' = .zero then 0 else if r' = r then w else s.regs r') = s.get r'
  rw [if_neg h]
  rfl

theorem skip_skip (m n : Nat) : (s.skip m).skip n = s.skip (m + n) := by
  simp only [skip, Nat.add_assoc]

end State

variable {items : List Item} {l : Layout} {s s' s'' : State}

/-! ## Runs -/

namespace Reaches

theorem single (h : step? items s = some s') : Reaches items s s' := .step h .refl

theorem trans (h : Reaches items s s') (h' : Reaches items s' s'') : Reaches items s s'' := by
  induction h with
  | refl => exact h'
  | step hstep _ ih => exact .step hstep (ih h')

end Reaches

theorem run?_add (m n : Nat) : run? items (m + n) s = (run? items m s).bind (run? items n) := by
  induction m generalizing s with
  | zero => simp [run?]
  | succ m ih =>
    rw [Nat.add_right_comm, run?, run?, Option.bind_assoc]
    exact congrArg _ (funext fun _ => ih)

theorem reaches_of_run? {n : Nat} (h : run? items n s = some s') : Reaches items s s' := by
  induction n generalizing s with
  | zero =>
    cases h
    exact .refl
  | succ n ih =>
    obtain ⟨s₁, hstep, hrun⟩ := Option.bind_eq_some_iff.mp h
    exact .step hstep (ih hrun)

theorem Reaches.exists_run? (h : Reaches items s s') : ∃ n, run? items n s = some s' := by
  induction h with
  | refl => exact ⟨0, rfl⟩
  | step hstep _ ih =>
    obtain ⟨n, hrun⟩ := ih
    exact ⟨n + 1, Option.bind_eq_some_iff.mpr ⟨_, hstep, hrun⟩⟩

/-- There is room on the rest of a way, if there is room on all of it. -/
theorem Fits.after (h : Fits items s) (h' : Reaches items s s') : Fits items s' where
  code := h.code
  moves := h.moves
  frames := h.frames
  stack s'' hs'' := h.stack s'' (h'.trans hs'')

/-! ## Items -/

/-- Labels and directives. -/
def Inert (q : List Item) : Prop := ∀ i ∈ q, ∀ op args comment, i ≠ .instr op args comment

theorem Sits.step_instr {op : Opcode} {args : List Operand} {comment : Option String}
    {q : List Item} (h : Sits items s.pc (.instr op args comment :: q)) :
    step? items s = execute? (load items) s op args := by
  rw [step?, h.getElem?]
  rfl

theorem step?_inert {i : Item} (h : items[s.pc]? = some i)
    (hi : ∀ op args comment, i ≠ .instr op args comment) : step? items s = some (s.skip 1) := by
  rw [step?, h]
  cases i with
  | instr op args comment => exact absurd rfl (hi op args comment)
  | label | directive => rfl

/-- Labels and directives are passed over. -/
theorem Sits.reaches_inert {q : List Item} (h : Sits items s.pc q) (hq : Inert q) :
    Reaches items s (s.skip q.length) := by
  obtain ⟨pre, post, hitems, hpc, -⟩ := h.split
  clear h
  induction q generalizing s pre with
  | nil => exact .refl
  | cons i q ih =>
    obtain ⟨hi, hq⟩ := List.forall_mem_cons.mp hq
    have hitem : items[s.pc]? = some i := by simp [hitems, ← hpc]
    have hskip : (s.skip 1).skip q.length = s.skip (i :: q).length := by
      rw [State.skip_skip, List.length_cons, Nat.add_comm]
    refine .step (step?_inert hitem hi) (hskip ▸ ih hq (pre ++ [i]) ?_ ?_)
    · rw [hitems, List.append_assoc]
      rfl
    · rw [List.length_append, hpc]
      rfl

/-! ## Instructions -/

theorem execute?_op3 (op : Opcode) (dst a b : Reg) :
    execute? l s op [.reg dst, .reg a, .reg b] =
      (compute? op (s.get a) (s.get b)).map fun w => (s.set dst w).skip 1 := rfl

theorem execute?_op3_imm (op : Opcode) (dst a : Reg) (v : Int) :
    execute? l s op [.reg dst, .reg a, .imm v] =
      (compute? op (s.get a) (BitVec.ofInt 32 v)).map fun w => (s.set dst w).skip 1 := rfl

theorem execute?_branchIf (op : Opcode) (a b : Reg) (name : String) :
    execute? l s op [.reg a, .reg b, .label name] =
      (taken? op (s.get a) (s.get b)).bind fun taken =>
        if taken then (l.code.lookup name).map s.goto else some (s.skip 1) := rfl

theorem execute?_transfer (op : Opcode) (r : Reg) (arg : Operand) :
    execute? l s op [.reg r, arg] = transfer? l s r arg op := by
  cases arg <;> rfl

/-- A call goes on at the label, with the position behind it in `$ra`. -/
theorem Sits.call {target : String} {pc : Nat} (h : Sits items s.pc (Asm.call target))
    (hlookup : (load items).code.lookup target = some pc) :
    Reaches items s ((s.set .ra (BitVec.ofNat 32 (s.pc + 1))).goto pc) := by
  have hexecute : execute? (load items) s .jal [.label target] =
      ((load items).code.lookup target).map (s.set .ra (BitVec.ofNat 32 (s.pc + 1))).goto := rfl
  rw [hlookup, Option.map_some] at hexecute
  exact .single (h.step_instr.trans hexecute)

end CMinusMinus.Machine

/-! ## Starting -/

namespace CMinusMinus.Machine

variable {items : List Item} {input : List Word} {s s' : State}

/-- The state at the main function with nothing but zeros in the registers and in memory. -/
def boot (items : List Item) (input : List Word) : State where
  pc := ((load items).code.lookup "main").getD 0
  regs r := if r = .sp then BitVec.ofNat 32 stackTop else 0
  mem _ := 0
  input := input
  events := []

theorem boots_boot (h : ((load items).code.lookup "main").isSome) (input : List Word) :
    Boots items input (boot items input) where
  pc := by
    obtain ⟨pc, hpc⟩ := Option.isSome_iff_exists.mp h
    rw [boot, hpc]
    rfl
  sp := rfl
  zeros _ _ _ := rfl
  input := rfl
  events := rfl

/-! ## Room -/

/-- Whether there is room for what the item does to the stack pointer or the frame pointer. -/
def roomy (next : Nat) : Item → Bool
  | .instr .subu [.reg .sp, .reg .sp, .imm bytes] _ => next + bytes ≤ memoryTop
  | .instr .addu [.reg .fp, .reg .sp, .imm bytes] _ => memoryTop + bytes < 2 ^ 32
  | _ => true

/-- Whether the machine ends before it has made so many steps, and the stack pointer stays in its
part of memory on the way. -/
def stays? (items : List Item) (next : Nat) : Nat → State → Bool
  | 0, _ => false
  | n + 1, s =>
    (next ≤ (s.get .sp).toNat && (s.get .sp).toNat ≤ memoryTop) &&
      match step? items s with
      | none => true
      | some s' => stays? items next n s'

/-- Whether a run that ends before it has made so many steps has room. -/
def fits? (items : List Item) (n : Nat) (s : State) : Bool :=
  items.length < 2 ^ 32 && items.all (roomy (load items).next) &&
    stays? items (load items).next n s

theorem sp_of_stays? {next n : Nat} (h : stays? items next n s = true) (h' : Reaches items s s') :
    next ≤ (s'.get .sp).toNat ∧ (s'.get .sp).toNat ≤ memoryTop := by
  induction h' generalizing n with
  | refl =>
    cases n with
    | zero => cases h
    | succ n =>
      simp only [stays?, Bool.and_eq_true, decide_eq_true_eq] at h
      exact h.1
  | step hstep _ ih =>
    cases n with
    | zero => cases h
    | succ n =>
      simp only [stays?, hstep, Bool.and_eq_true] at h
      exact ih h.2

theorem fits_of_fits? {n : Nat} (h : fits? items n s = true) : Fits items s := by
  simp only [fits?, Bool.and_eq_true, decide_eq_true_eq, List.all_eq_true] at h
  obtain ⟨⟨hcode, hroomy⟩, hstays⟩ := h
  exact
    { code := hcode
      moves := fun bytes _ hmem => by
        have h := hroomy _ hmem
        rw [roomy, decide_eq_true_eq] at h
        exact_mod_cast h
      frames := fun bytes _ hmem => by
        have h := hroomy _ hmem
        rw [roomy, decide_eq_true_eq] at h
        exact_mod_cast h
      stack := fun _ => sp_of_stays? hstays }

/-! ## Ends -/

/-- The program is at its end after so many steps. -/
theorem exits_of_run? {n : Nat} {events : List Event}
    (h : (run? items n s).map (fun t => (items[t.pc]?, t.get .v0, t.events)) =
      some (some (.instr .syscall [] none), BitVec.ofNat 32 Asm.Service.exit.number, events)) :
    ∃ t, Reaches items s t ∧ Halted items t ∧ t.events = events := by
  obtain ⟨t, hrun, ht⟩ := Option.map_eq_some_iff.mp h
  rw [Prod.mk.injEq, Prod.mk.injEq] at ht
  exact ⟨t, reaches_of_run? hrun, ⟨⟨none, ht.1⟩, ht.2.1⟩, ht.2.2⟩

end CMinusMinus.Machine
