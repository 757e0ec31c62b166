import CMinusMinus.Proofs.Execution.Expressions

/-!
# Control on the machine

The code of a statement either goes on behind itself, with the stack as it found it, or it leaves
for the end of the function (`Goes`).  Conditions, system calls and scopes are here; `Goes.after`
puts the code of one statement behind that of another.
-/

namespace CMinusMinus

open Machine

variable {b : Image} {act : Activation b} {live : List (List Storage)} {scope : Scope Symbol}
  {frame frame' : Frame} {σ σ' : Situation} {s s₁ s₂ : State} {q r : List Item} {ws : List Word}
  {e : Exp} {ls ls' : Generate.Labels} {exit n : Nat} {flow : Flow}

/-! ## Ways out of a statement -/

/-- The machine has left the statements of a function for the position of its end. -/
structure Quits (act : Activation b) (exit : Nat) (s : State) (σ : Situation) (s' : State) :
    Prop where
  reaches : Reaches b.items s s'
  pc : s'.pc = exit
  fp : (s'.get .fp).toNat = act.fp
  kept : ∀ a, act.Keeps (s.get .sp).toNat a → s'.mem a = s.mem a
  globals : AlignedScope (b.Holds act.fp s'.mem) b.globals σ.store.globals
  input : s'.input = σ.store.input
  events : s'.events = σ.store.events
  result : s'.get .v0 = σ.result

/-- The machine has executed code of statements, with such a flow. -/
def Goes (act : Activation b) (live : List (List Storage)) (exit : Nat) (s : State)
    (q : List Item) : Flow → Situation → Prop
  | .next, σ => ∃ s', After act live σ s q [] s'
  | .return _, σ => ∃ s', Quits act exit s σ s'

/-- The stack pointer is where it was, if nothing was pushed. -/
theorem Yields.sp_nil (h : Yields act live σ s [] s₁) :
    (s₁.get .sp).toNat = (s.get .sp).toNat := h.sp

namespace After

/-- Behind its code the machine has left it. -/
theorem quits (h : After act live σ s q ws s₁) : Quits act (s.pc + q.length) s σ s₁ where
  reaches := h.reaches
  pc := h.pc
  fp := h.ready.fp
  kept := h.kept
  globals := (b.tracks_iff.mp h.ready.tracks).2
  input := h.ready.input
  events := h.ready.events
  result := h.ready.result

/-- Statements that leave the function are left behind the code before them as well. -/
theorem quits_after (h : After act live σ s q [] s₁) (h' : Quits act exit s₁ σ' s₂) :
    Quits act exit s σ' s₂ :=
  { h' with
    reaches := h.reaches.trans h'.reaches
    kept := fun a ha => (h'.kept a (ha.mono (Nat.le_of_eq h.sp_nil))).trans (h.kept a ha) }

/-- The same state among other scopes, whose variables it tracks as well. -/
theorem among (h : After act live σ s q ws s₁) {live' : List (List Storage)}
    {locals : Scopes Contents} (htracks : Aligned (b.Holds act.fp s₁.mem) live' locals) :
    After act live' (σ.within locals) s q ws s₁ :=
  { h with
    ready :=
      { h.ready with
        tracks := b.tracks_iff.mpr ⟨htracks, (b.tracks_iff.mp h.ready.tracks).2⟩ } }

end After

/-- The machine jumps to another position. -/
theorem Quits.goto {pc : Nat} (h : Quits act pc s σ s₁)
    (hstep : step? b.items s₁ = some (s₁.goto exit)) : Quits act exit s σ (s₁.goto exit) :=
  { h with
    reaches := h.reaches.trans (.single hstep)
    pc := rfl }

namespace Goes

/-- The code of statements behind other code. -/
theorem after (h : After act live σ s q [] s₁) (hgoes : Goes act live exit s₁ r flow σ') :
    Goes act live exit s (q ++ r) flow σ' := by
  cases flow with
  | next =>
    obtain ⟨s₂, h₂⟩ := hgoes
    exact ⟨s₂, h.append h₂⟩
  | «return» =>
    obtain ⟨s₂, h₂⟩ := hgoes
    exact ⟨s₂, h.quits_after h₂⟩

/-- The code goes on, unless it left. -/
theorem extend (hgoes : Goes act live exit s q flow σ)
    (hnext : ∀ s₁, After act live σ s q [] s₁ → ∃ s₂, After act live σ s r [] s₂) :
    Goes act live exit s r flow σ := by
  cases flow with
  | next =>
    obtain ⟨s₁, h₁⟩ := hgoes
    exact hnext s₁ h₁
  | «return» => exact hgoes

/-- Whatever the flow at its end, the machine leaves code for the position behind it. -/
theorem quits (h : Goes act live (s.pc + q.length) s q flow σ) :
    ∃ s₁, Quits act (s.pc + q.length) s σ s₁ := by
  cases flow with
  | «return» => exact h
  | next =>
    obtain ⟨s₁, h₁⟩ := h
    exact ⟨s₁, h₁.quits⟩

/-- At the end of a scope its variables are gone. -/
theorem leave {ss : List Storage} (hgoes : Goes act (ss :: live) exit s q flow σ) :
    Goes act live exit s q flow (σ.within σ.store.locals.tail) := by
  cases flow with
  | next =>
    obtain ⟨s₁, h₁⟩ := hgoes
    have htracks := (b.tracks_iff.mp h₁.ready.tracks).1
    refine ⟨s₁, h₁.among ?_⟩
    generalize σ.store.locals = locals at htracks
    cases htracks with
    | cons _ houter => exact houter
  | «return» =>
    obtain ⟨s₁, h₁⟩ := hgoes
    exact ⟨s₁, { h₁ with }⟩

end Goes

/-! ## Scopes -/

/-- A new scope has no variables. -/
theorem Site.enter (hsite : Site act live scope frame) : Site act ([] :: live) scope frame where
  sound := hsite.sound.enter
  within := hsite.within
  hosts := hsite.hosts
  le := hsite.le

/-- More of the frame is laid out. -/
theorem Site.mono (hsite : Site act live scope frame) (h : frame.Le frame')
    (hle : frame'.Le act.frame) : Site act live scope frame' where
  sound := hsite.sound
  within := hsite.within
  hosts := hsite.hosts.mono h
  le := hle

theorem Ready.enter (h : Ready act live σ s) :
    Ready act ([] :: live) (σ.within σ.store.locals.enter) s :=
  ((After.refl h).among (.cons .nil (b.tracks_iff.mp h.tracks).1)).ready

theorem Ready.declare {ss ss' : List Storage} {ds : List VarDecl}
    (h : Ready act (ss :: live) σ s)
    (hnames : List.Forall₂ (fun st d => st.name = d.name.name) ss' ds) :
    Ready act ((ss ++ ss') :: live) (σ.declare ds) s :=
  ((After.refl h).among (Aligned.declare (by rintro st w hw x ⟨⟩)
    (b.tracks_iff.mp h.tracks).1 hnames)).ready

/-! ## Conditions -/

namespace After

/-- A condition that holds. -/
theorem onFalse_skip {w : Word} (h : After act live σ s q ([] ++ [w]) s₁) {target : String}
    (hsits : Sits b.items s.pc (q ++ Generate.onFalse target)) (hw : w ≠ 0) :
    ∃ s₂, After act live σ s (q ++ Generate.onFalse target) [] s₂ := by
  unfold Generate.onFalse at hsits ⊢
  rw [← List.append_assoc] at hsits ⊢
  obtain ⟨s₂, hpop, ht0, -⟩ := h.pop hsits.left (by decide)
  refine ⟨_, hpop.branch_skip hsits ?_⟩
  rw [ht0, State.get_zero, taken?, beq_false_of_ne hw]

/-- A condition that does not hold. -/
theorem onFalse_take (h : After act live σ s q ([] ++ [0]) s₁) {target : String}
    {comment : Option String} {rest : List Item}
    (hsits : Sits b.items s.pc
      (q ++ (Generate.onFalse target ++ r) ++ .label target comment :: rest))
    (hr : Textual r) : ∃ s₂, After act live σ s (q ++ (Generate.onFalse target ++ r)) [] s₂ := by
  unfold Generate.onFalse at hsits ⊢
  rw [List.append_assoc (Asm.pop _), ← List.append_assoc q] at hsits ⊢
  obtain ⟨s₂, hpop, ht0, -⟩ := h.pop hsits.left.left (by decide)
  refine ⟨_, hpop.branch_take hsits ?_ (Textual.append (by rfl) hr)⟩
  rw [ht0, State.get_zero, taken?, BEq.rfl]

end After

/-! ## System calls -/

/-- The number of a service is in `$v0`. -/
theorem Asm.Service.word (service : Asm.Service) :
    BitVec.ofInt 32 (service.number : Int) = BitVec.ofNat 32 service.number :=
  BitVec.ofInt_natCast 32 service.number

/-- The system prints the value that `$a0` stands for. -/
theorem service?_print {v : Value} (hservice : s.get .v0 = BitVec.ofNat 32 v.service.number)
    (ha0 : b.Represents (s.get .a0) v) : service? b.layout s = some (s.print v) := by
  unfold service?
  cases v with
  | word w =>
    replace hservice : s.get .v0 = BitVec.ofNat 32 Asm.Service.printInt.number := hservice
    rw [if_pos hservice, show s.get .a0 = w from ha0]
  | text text =>
    replace hservice : s.get .v0 = BitVec.ofNat 32 Asm.Service.printString.number := hservice
    rw [hservice, if_neg (by decide), if_pos rfl, show b.layout.texts.lookup _ = some text from ha0,
      Option.map_some]

/-- The system reads a word of the input, if there is one. -/
theorem service?_read (hservice : s.get .v0 = BitVec.ofNat 32 Asm.Service.readInt.number) :
    service? b.layout s = s.input.head?.map fun w => (s.take w).set .v0 w := by
  unfold service?
  rw [hservice, if_neg (by decide), if_neg (by decide), if_pos rfl]

namespace After

/-- A value is printed. -/
theorem printValue {w : Word} {v : Value} (h : After act live σ s q ws s₁)
    (hw : b.Represents w v) (ht0 : s₁.get .t0 = w)
    (hsits : Sits b.items s.pc (q ++ Asm.printValue v.service.number)) :
    ∃ s₂, After act live (σ.print v) s (q ++ Asm.printValue v.service.number) ws s₂ := by
  unfold Asm.printValue Asm.syscall at hsits ⊢
  simp only [← List.append_assoc] at hsits ⊢
  have hcopy := h.copy hsits.left.left (by decide)
  have hnumber := hcopy.loadImm hsits.left (by decide)
  rw [ht0, Asm.Service.word] at hnumber
  generalize hs₂ : State.skip (State.set (State.skip (s₁.set .a0 w) 1) .v0 _) 1 = s₂ at hnumber
  have hv0 : s₂.get .v0 = BitVec.ofNat 32 v.service.number := by
    rw [← hs₂, State.get_skip, State.get_set_self (r := .v0) _ (by decide)]
  have ha0 : s₂.get .a0 = w := by
    rw [← hs₂, State.get_skip, State.get_set_of_ne _ (by decide), State.get_skip,
      State.get_set_self (r := .a0) _ (by decide)]
  have hstep : step? b.items s₂ = some ((s₂.print v).skip 1) := by
    have hexecute : execute? b.layout s₂ .syscall [] = (service? b.layout s₂).map (·.skip 1) := rfl
    rw [service?_print hv0 (ha0.symm ▸ hw), Option.map_some] at hexecute
    exact (hnumber.sits hsits).step_instr.trans hexecute
  have hready : Ready act live (σ.print v) ((s₂.print v).skip 1) :=
    { fits := hnumber.ready.fits.after (.single hstep)
      below := hnumber.ready.below
      aligned := hnumber.ready.aligned
      fp := hnumber.ready.fp
      tracks := hnumber.ready.tracks
      input := hnumber.ready.input
      events := congrArg (· ++ [Event.printed v]) hnumber.ready.events
      result := hv0 }
  exact ⟨_, hnumber.extend (.single hstep) rfl (fun _ _ => rfl) hready rfl rfl⟩

/-- The system is asked for a word. -/
theorem askWord (h : After act live σ s q ws s₁) {comment : Option String}
    (hsits : Sits b.items s.pc (q ++ Asm.syscall Asm.Service.readInt.number comment)) :
    ∃ s₂, After act live (σ.put .v0 (BitVec.ofNat 32 Asm.Service.readInt.number)) s
        (q ++ Asm.loadImm .v0 Asm.Service.readInt.number comment) ws s₂ ∧
      step? b.items s₂ = σ.store.input.head?.map fun w => ((s₂.take w).set .v0 w).skip 1 := by
  unfold Asm.syscall at hsits
  rw [← List.append_assoc] at hsits
  have hnumber := h.loadImm hsits.left (by decide)
  rw [Asm.Service.word] at hnumber
  refine ⟨_, hnumber, ?_⟩
  have hexecute : ∀ s₂ : State, execute? b.layout s₂ .syscall [] =
      (service? b.layout s₂).map (·.skip 1) := fun _ => rfl
  refine (hnumber.sits hsits).step_instr.trans ?_
  rw [← Image.layout, hexecute, service?_read, hnumber.ready.input, Option.map_map]
  · rw [Situation.put_store]
    rfl
  · rw [State.get_skip, State.get_set_self (r := .v0) _ (by decide)]

/-- A word of the input is read. -/
theorem readWord (h : After act live σ s q ws s₁) {comment : Option String}
    (hsits : Sits b.items s.pc (q ++ Asm.syscall Asm.Service.readInt.number comment)) {w : Word}
    (hinput : σ.store.input.head? = some w) :
    ∃ s₂, After act live (σ.take w) s
      (q ++ Asm.syscall Asm.Service.readInt.number comment) ws s₂ := by
  obtain ⟨s₂, hnumber, hstep⟩ := h.askWord hsits
  rw [hinput, Option.map_some] at hstep
  have hready : Ready act live (σ.take w) (((s₂.take w).set .v0 w).skip 1) :=
    { fits := hnumber.ready.fits.after (.single hstep)
      below := hnumber.ready.below
      aligned := hnumber.ready.aligned
      fp := hnumber.ready.fp
      tracks := hnumber.ready.tracks
      input := congrArg List.tail hnumber.ready.input
      events := congrArg (· ++ [Event.taken w]) hnumber.ready.events
      result := (s₂.take w).get_set_self (r := .v0) (by decide) w }
  refine ⟨((s₂.take w).set .v0 w).skip 1, ?_⟩
  unfold Asm.syscall
  rw [← List.append_assoc]
  exact hnumber.extend (.single hstep) rfl (fun _ _ => rfl) hready rfl rfl

/-- Without input the machine is stuck. -/
theorem readWord_stuck (h : After act live σ s q ws s₁) {comment : Option String}
    (hsits : Sits b.items s.pc (q ++ Asm.syscall Asm.Service.readInt.number comment))
    (hinput : σ.store.input.head? = none) :
    Ends b.items n s .stuck σ.store.events := by
  obtain ⟨s₂, hnumber, hstep⟩ := h.askWord hsits
  rw [hinput, Option.map_none] at hstep
  refine ⟨s₂, hnumber.reaches, ⟨hstep, fun hhalted => ?_⟩, hnumber.ready.events⟩
  have hv0 : BitVec.ofNat 32 Asm.Service.readInt.number =
      BitVec.ofNat 32 Asm.Service.exit.number := hnumber.ready.result.symm.trans hhalted.2
  exact absurd hv0 (by decide)

end After

end CMinusMinus
