import CMinusMinus.Proofs.Execution.Statements

/-!
# Functions on the machine

The code of a function that is called makes a frame, in which the words it was called with are its
formals (`Called.ready`).  When it leaves its statements the frame is unmade, and the machine is
back where the function was called from (`Quits.returned`), or at the end of the program if it is
the main function.  So every function does what the interpretation of calls says, however much fuel
there is (`Image.answers`).
-/

namespace CMinusMinus

open Machine

variable {b : Image} {d : FnDecl} {ws : List Word} {top : Nat} {σ σ' : Situation}
  {s s' s₁ : State} {frame : Frame}

/-! ## Frames of functions -/

/-- A function with what is known of its formals and its body. -/
structure Image.Declares (b : Image) (d : FnDecl) (scope : Scope Symbol) (env' : Env)
    (inner frame : Frame) : Prop where
  sound : Env.Sound [scope]
  within : Env.Within [scope] b.top
  formals : ∃ params, FormalsTyped (Env.ofLive [[]] scope) {} d.formals.items params env' inner
  body : ∃ ret, BlockTyped ret env' inner d.body frame
  frame : d.frame = some frame

theorem Image.exists_declares (b : Image) (hd : d ∈ Decl.functions b.decls) :
    ∃ scope env' inner frame, b.Declares d scope env' inner frame := by
  obtain ⟨sig, env₁, hsound, hwithin, hone, hf⟩ := b.typed.typedWithin rfl Env.sound_empty hd
  obtain ⟨env', inner, frame, hformals, hbody, hframe⟩ := hf.body
  obtain ⟨scope, rfl⟩ := List.length_eq_one_iff.mp hone
  exact ⟨scope, env', inner, frame, hsound, hwithin, ⟨_, hformals⟩, ⟨_, hbody⟩, hframe⟩

namespace Called

/-- The activation of a function that was called and has made its frame. -/
def activation (h : Called b d ws top σ s) (hformals : frame.formals = wordSize * ws.length)
    (hframed : Framed s frame.formals frame.locals s') (hreaches : Reaches b.items s s') :
    Activation b where
  frame := frame
  fp := top
  formals := hformals ▸ Nat.dvd_mul_right _ _
  aligned := h.sp ▸ Nat.dvd_add h.aligned (Nat.dvd_mul_right _ _)
  high := by
    have hlt := (s'.get .fp).isLt
    have hfp := hframed.fp
    have hsp := h.sp
    omega
  low := by
    have hlow := (h.fits.stack s' hreaches).1
    have hspFramed := hframed.sp
    have hsp := h.sp
    unfold Frame.size Image.dataEnd Image.layout
    omega

/-- Formals hold the words that the function is called with. -/
theorem holds_formal (h : Called b d ws top σ s) {formals locals : Nat}
    (hframed : Framed s formals locals s') {i : Nat} {st : Storage} {t : Ty} {w : Word}
    (hw : ws[i]? = some w) (hplace : st.place = .frame ((0 + wordSize * i : Nat) : Int))
    (hshape : st.shape = .scalar t) : b.Holds top s'.mem st fun _ => some w := by
  obtain ⟨hi, -⟩ := List.getElem?_eq_some_iff.mp hw
  have hsp := h.sp
  have hbase : b.base top st = top - wordSize * i := by
    rw [Image.base, hplace, Nat.zero_add]
    rfl
  intro v hv x hx
  rw [hshape] at hv
  cases List.mem_singleton.mp hv
  cases hx
  unfold wordSize at *
  rw [hbase, Nat.add_zero, hframed.kept _ (by omega) (by unfold wordSize; omega)]
  exact h.words i w hw

/-- A function that has made its frame is ready for its statements. -/
theorem ready (h : Called b d ws top σ s) (hlength : ws.length = d.formals.items.length)
    {scope : Scope Symbol} {env' : Env} {inner : Frame} (hd : b.Declares d scope env' inner frame)
    (hframed : Framed s frame.formals frame.locals s') (hreaches : Reaches b.items s s') :
    ∃ (act : Activation b) (ss : List Storage), act.frame = frame ∧ act.fp = top ∧
      env' = Env.ofLive [ss] scope ∧ Site act [ss] scope inner ∧
      Ready act [ss] (σ.within [d.formals.bind ws]) s' := by
  obtain ⟨params, hparams⟩ := hd.formals
  obtain ⟨ret, hbody⟩ := hd.body
  have hhosts : Frame.Hosts {} [] :=
    ⟨⟨0, rfl⟩, ⟨0, rfl⟩, .nil, List.forall_mem_nil _⟩
  obtain ⟨ss, henv, hss, hinner, halign⟩ := hparams.live (R := b.Holds top s'.mem) hhosts rfl
    (List.forall_mem_nil _) hlength.symm fun i st t w hw hplace hshape =>
      h.holds_formal hframed hw hplace hshape
  rw [List.nil_append] at henv hss
  have hle := hbody.le
  have hformals : frame.formals = wordSize * ws.length := by
    rw [← hle.formals, hinner, hlength]
    exact Nat.zero_add _
  have hlocals : wordSize ∣ frame.locals := (hss.mono hle).locals
  have hsp := h.sp
  have hspFramed := hframed.sp
  have hlow := (h.fits.stack s' hreaches).1
  refine ⟨h.activation hformals hframed hreaches, ss, rfl, rfl, henv, ?_, ?_⟩
  · refine ⟨?_, hd.within, ?_, hle⟩
    · rw [← henv]
      exact hparams.sound hd.sound.enter
    · rwa [List.flatten_singleton]
  · exact
      { fits := h.fits.after hreaches
        below := by
          unfold Activation.bottom Frame.size activation
          dsimp only
          omega
        aligned := by
          have hsaved : wordSize ∣ Frame.savedSize := ⟨2, rfl⟩
          have haligned := h.aligned
          rw [← hspFramed] at haligned
          exact (Nat.dvd_add_left hlocals).mp ((Nat.dvd_add_left hsaved).mp haligned)
        fp := by
          rw [hframed.fp, hformals]
          exact hsp
        tracks := by
          refine b.tracks_iff.mpr ⟨.cons halign .nil, b.globals_congr h.globals ?_⟩
          intro st hst a ha
          have hend := (Image.owns_global hst (b.typed.globals_laid st hst) ha).2
          unfold Image.dataEnd Image.layout at hend
          unfold Frame.savedSize at hspFramed
          refine hframed.kept a ?_ ?_ <;> unfold wordSize at * <;> omega
        input := hframed.input.trans h.input
        events := hframed.events.trans h.events
        result := hframed.result.trans h.result }

/-- The machine comes from the label of a function to its statements. -/
theorem enter (h : Called b d ws top σ s) (hd : d ∈ Decl.functions b.decls) :
    ∃ frame ls ls' code s₁ s', d.frame = some frame ∧
      Generate.block d.name.name ls d.body = .ok (code, ls') ∧ Known b.items ls.strings ∧
      step? b.items s = some s₁ ∧ Reaches b.items s₁ s' ∧
      Framed s frame.formals frame.locals s' ∧ Sits b.items s'.pc (code ++
        Asm.epilogue (Generate.exitLabel d.name.name) frame.formals (d.name.name == "main")) := by
  obtain
    ⟨frame, ls, ls', code, pc, comment, entry, hframe, hcode, hknown, hinert, htextual, hsits⟩ :=
    b.sits_function hd
  have hpc : pc = s.pc := Option.some.inj ((hsits.label b.distinct).symm.trans h.pc)
  subst hpc
  have hlabel : step? b.items s = some (s.skip 1) := step?_inert hsits.getElem? (by rintro _ _ _ ⟨⟩)
  have hentry : Sits b.items (s.skip 1).pc (entry ++ _) := hsits.right (q := [_]) rfl
  have hskip := hentry.left.reaches_inert hinert
  have hprologue : Sits b.items ((s.skip 1).skip entry.length).pc _ := hentry.right htextual
  rw [List.append_assoc] at hprologue
  have hreaches := (Reaches.single hlabel).trans hskip
  obtain ⟨s', hreaches', hpc', hframed⟩ :=
    hprologue.left.prologue (h.fits.after hreaches) h.aligned
  refine ⟨frame, ls, ls', code, s.skip 1, s', hframe, hcode, hknown, hlabel,
    hskip.trans hreaches', { hframed with }, ?_⟩
  rw [hpc']
  exact hprologue.right (Generate.textual_prologue _ _)

end Called

/-! ## Ends of functions -/

variable {act : Activation b} {exit : Nat} {isMain : Bool} {label : String}

/-- The machine is behind the frame of a function that it was called for in the one state, and has
left the statements of in the other. -/
structure Unwinds (act : Activation b) (s s₁ s' : State) : Prop where
  reaches : Reaches b.items s₁ s'
  ra : s'.get .ra = s.get .ra
  fp : s'.get .fp = s.get .fp
  sp : (s'.get .sp).toNat = act.fp
  mem : s'.mem = s₁.mem
  result : s'.get .v0 = s₁.get .v0
  input : s'.input = s₁.input
  events : s'.events = s₁.events

/-- The code at the end of a function finds what the code at the beginning has saved. -/
theorem Quits.unwinds (h : Quits act exit s' σ' s₁) (hcalled : Called b d ws act.fp σ s)
    (hframed : Framed s act.frame.formals act.frame.locals s')
    (hfp : (s'.get .fp).toNat = act.fp) (hsits : Sits b.items exit
      (Asm.epilogue label act.frame.formals isMain)) :
    ∃ s₂, Unwinds act s s₁ s₂ ∧ Sits b.items s₂.pc
      (if isMain then Asm.syscall Asm.Service.exit.number (some "exit")
        else [Asm.instr .jr [.reg .ra]]) := by
  have hlow := act.low
  have hframe := hframed.fp
  have hsp := hframed.sp
  have hfree := (hcalled.fits.stack s .refl).1
  unfold Frame.size Frame.savedSize wordSize at hlow hsp
  -- the saved words are where they were
  have hkept : ∀ a, a = (s.get .sp).toNat ∨ a + wordSize = (s.get .sp).toNat →
      s₁.mem a = s'.mem a := by
    intro a ha
    refine h.kept a ⟨?_, ?_, ?_⟩ <;> unfold Image.dataEnd Image.layout wordSize at * <;> omega
  have hra : act.fp - act.frame.formals = (s.get .sp).toNat := by omega
  have hsaved : act.fp - (act.frame.formals + wordSize) = (s.get .sp).toNat - wordSize := by omega
  have hepilogue : Sits b.items s₁.pc (Asm.epilogue label act.frame.formals isMain) := by
    rwa [h.pc]
  obtain ⟨s₂, hreaches, hunframed, hrest⟩ := hepilogue.epilogue (h.fp ▸ act.aligned) act.formals (by
    rw [h.fp]
    unfold wordSize
    omega)
  refine ⟨s₂, ?_, hrest⟩
  exact
    { reaches := hreaches
      ra := by
        rw [hunframed.ra, h.fp, hra, hkept _ (.inl rfl), hframed.savedRa]
      fp := by
        rw [hunframed.fp, h.fp, hsaved, hkept _ (.inr (by unfold wordSize; omega)),
          hframed.savedFp]
      sp := by rw [hunframed.sp, h.fp]
      mem := hunframed.mem
      result := hunframed.result
      input := hunframed.input
      events := hunframed.events }

/-- A function that is not the main one returns to its caller. -/
theorem Quits.returned (h : Quits act exit s' σ' s₁) (hcalled : Called b d ws act.fp σ s)
    (hframed : Framed s act.frame.formals act.frame.locals s')
    (hfp : (s'.get .fp).toNat = act.fp) (hreaches : Reaches b.items s s')
    (hsits : Sits b.items exit (Asm.epilogue label act.frame.formals false)) :
    ∃ s₂, Returned b act.fp σ s (σ'.within σ.store.locals) s₂ := by
  obtain ⟨s₂, hunwinds, hjr⟩ := h.unwinds hcalled hframed hfp hsits
  have hstep : step? b.items s₂ = some (s₂.goto (s₂.get .ra).toNat) := hjr.step_instr
  have hsp := hcalled.sp
  have hspFramed := hframed.sp
  refine ⟨s₂.goto (s₂.get .ra).toNat,
    { reaches := ((hreaches.trans h.reaches).trans hunwinds.reaches).trans (.single hstep)
      pc := congrArg BitVec.toNat hunwinds.ra
      sp := hunwinds.sp
      fp := hunwinds.fp
      kept := fun a hlow ha => ?_
      locals := rfl
      globals := ?_
      input := hunwinds.input.trans h.input
      events := hunwinds.events.trans h.events
      result := hunwinds.result.trans h.result }⟩
  · have hkept := h.kept a ⟨hlow, by omega, .inl ha⟩
    have hmem : s₂.mem a = s₁.mem a := congrFun hunwinds.mem a
    exact hmem.trans (hkept.trans (hframed.kept a (by omega) (by omega)))
  · show AlignedScope (b.Holds act.fp s₂.mem) b.globals σ'.store.globals
    rw [hunwinds.mem]
    exact h.globals

/-- The main function ends the program. -/
theorem Quits.ends (h : Quits act exit s' σ' s₁) (hcalled : Called b d ws act.fp σ s)
    (hframed : Framed s act.frame.formals act.frame.locals s')
    (hfp : (s'.get .fp).toNat = act.fp)
    (hsits : Sits b.items exit (Asm.epilogue label act.frame.formals true)) (n : Nat) :
    Ends b.items n s' .exited σ'.store.events := by
  obtain ⟨s₂, hunwinds, hexit⟩ := h.unwinds hcalled hframed hfp hsits
  rw [if_pos rfl] at hexit
  let s₃ := (s₂.set .v0 (BitVec.ofInt 32 (Asm.Service.exit.number : Int))).skip 1
  have hstep : step? b.items s₂ = some s₃ := hexit.step_instr
  have hsyscall : Sits b.items s₃.pc _ := hexit.right (q := [_]) rfl
  refine ⟨s₃, (h.reaches.trans hunwinds.reaches).trans (.single hstep),
    ⟨⟨none, hsyscall.getElem?⟩, ?_⟩,
    hunwinds.events.trans h.events⟩
  exact (s₂.get_set_self (r := .v0) (by decide) _).trans (Asm.Service.word .exit)

/-! ## All functions -/

/-- If all functions do what the interpretation of calls says with so much fuel, then they do with
one more unit of it. -/
theorem Image.answers_succ {n : Nat} (h : b.Answers n (Run.invoke b.decls n)) :
    b.Answers (n + 1) (Run.invoke b.decls (n + 1)) := by
  intro d hd ws hlength top σ s hcalled
  obtain ⟨frame, ls, ls', code, s₁, s', hframe, hcode, hknown, hstep, hreaches, hframed, hsits⟩ :=
    hcalled.enter hd
  obtain ⟨scope, env', inner, frame', hdeclares⟩ := b.exists_declares hd
  cases hframe.symm.trans hdeclares.frame
  obtain ⟨ret, hbody⟩ := hdeclares.body
  have hreaches' : Reaches b.items s s' := .step hstep hreaches
  obtain ⟨act, ss, rfl, rfl, rfl, hsite, hready⟩ :=
    hcalled.ready hlength hdeclares hframed hreaches'
  have htextual := (Generate.constants_block hcode).textual
  have hepilogue := hsits.right htextual
  have hexit := hepilogue.left.left.left.left.left.label b.distinct
  have hfind := find?_of_nodup (b.typed.names_nodup rfl) hd
  rw [Run.invoke, hfind]
  refine Course.Meets.of_step hstep (Course.Meets.of_reaches hreaches ?_)
  refine (run_block h hexit hbody hsite (.refl _) hcode hknown hready hsits.left).andThen ?_
  rintro flow σ' ⟨ss', hgoes⟩
  obtain ⟨s₂, hquits⟩ := hgoes.quits
  split
  · next hmain =>
    rw [beq_iff_eq.mpr hmain] at hepilogue
    exact hquits.ends hcalled hframed hready.fp hepilogue n
  · next hmain =>
    rw [beq_eq_false_iff_ne.mpr hmain] at hepilogue
    exact hquits.returned hcalled hframed hready.fp hreaches' hepilogue

/-- Every function does what the interpretation of calls says. -/
theorem Image.answers (b : Image) (n : Nat) : b.Answers n (Run.invoke b.decls n) := by
  induction n with
  | zero =>
    intro d _ ws _ top σ s hcalled
    exact ⟨0, s, Nat.le_refl 0, rfl, hcalled.events⟩
  | succ n ih => exact b.answers_succ ih

end CMinusMinus
