import CMinusMinus.Proofs.Execution.Control

/-!
# Statements on the machine

The code of a statement does what the interpretation of the statement says (`run_stmt`), and so
does that of a block (`run_block`).  A loop takes at least one step of the machine for each of its
rounds, so where the interpretation runs out of fuel the machine has made that many steps
(`run_loop`).
-/

namespace CMinusMinus

open Machine

variable {b : Image} {act : Activation b} {live : List (List Storage)} {scope : Scope Symbol}
  {frame frame' : Frame} {σ σ' : Situation} {s s₁ s₂ : State} {q r : List Item} {ws : List Word}
  {e : Exp} {ls ls' : Generate.Labels} {exit n : Nat} {flow : Flow}
  {call : String → List Word → Situation → Course Unit}

/-! ## Statements without parts -/

theorem Ready.run_exp (h : Ready act live σ s) (hsite : Site act live scope frame)
    (hcall : b.Answers n call) {t : Ty} (he : HasType (Env.ofLive live scope) e t)
    (hcode : Generate.exp ls e = .ok (q, ls')) (hknown : Known b.items ls.strings)
    (hsits : Sits b.items s.pc q) :
    (Run.exp call e σ).Meets b.items n s fun v σ' =>
      v.service = Generate.printer t ∧ Pushes act live s q [] v σ' :=
  CMinusMinus.run_exp hsite hcall he hcode hknown (.refl h) hsits

/-- The code of an expression for the sake of what it does. -/
theorem Ready.run_discard (h : Ready act live σ s) (hsite : Site act live scope frame)
    (hcall : b.Answers n call) {t : Ty} (he : HasType (Env.ofLive live scope) e t)
    (hcode : Generate.exp ls e = .ok (q, ls')) (hknown : Known b.items ls.strings)
    {comment : Option String} (hsits : Sits b.items s.pc (q ++ Asm.pop .t0 comment)) :
    ((Run.exp call e σ).andThen fun _ σ => .done .next σ).Meets b.items n s
      (Goes act live exit s (q ++ Asm.pop .t0 comment)) := by
  refine (h.run_exp hsite hcall he hcode hknown hsits.left).andThen ?_
  rintro v σ₁ ⟨-, w, s₁, -, h₁⟩
  obtain ⟨s₂, h₂, -⟩ := h₁.pop hsits (by decide)
  exact ⟨s₂, h₂⟩

/-- The code of a step changes the word at the location. -/
theorem Ready.run_step (h : Ready act live σ s) (hsite : Site act live scope frame) {st : Storage}
    {m : Nat} {t : Ty} (hloc : Locates (Env.ofLive live scope) e st m (.scalar t)) {op : Opcode}
    {f : Word → Word} (hf : ∀ w, compute? op w (BitVec.ofInt 32 1) = some (f w))
    (hcode : Generate.step op e = .ok q) (hsits : Sits b.items s.pc q) :
    (Run.step f e σ).Meets b.items n s (Goes act live exit s q) := by
  obtain ⟨addr, haddr, rfl⟩ := Generate.step_eq_ok.mp hcode
  unfold Run.step Run.fetch
  cases hread : σ.store.read? e with
  | none => exact trivial
  | some w =>
    obtain ⟨hst, howns⟩ := hsite.located hloc
    obtain ⟨s₁, haddress, hbase, -, hmem⟩ :=
      (After.refl h).address hsite hloc haddr hsits.left.left.left
    have hload := haddress.load hsits.left.left (hbase ▸ (hsite.owns hst howns).1) (by decide)
    rw [hbase, hmem, hsite.read hloc h.tracks hread] at hload
    have hw : compute? op (((s₁.set .t1 w).skip 1).get .t1) (BitVec.ofInt 32 1) = some (f w) := by
      rw [State.get_skip, State.get_set_self (r := .t1) _ (by decide), hf]
    have hcompute := hload.computeImm hsits.left hw (by decide)
    obtain ⟨s₂, hstore, -⟩ := hcompute.store hsite hloc hsits (by
      rw [State.get_skip, State.get_set_of_ne _ (by decide), State.get_skip,
        State.get_set_of_ne _ (by decide), hbase])
    rw [State.get_skip, State.get_set_self (r := .t1) _ (by decide)] at hstore
    exact ⟨s₂, hstore⟩

/-- The code of reading puts a word of the input at the location. -/
theorem Ready.run_read (h : Ready act live σ s) (hsite : Site act live scope frame) {st : Storage}
    {m : Nat} {t : Ty} (hloc : Locates (Env.ofLive live scope) e st m (.scalar t))
    {addr : List Item} (haddr : Generate.address e = .ok addr) {comment : Option String}
    (hsits : Sits b.items s.pc (Asm.syscall Asm.Service.readInt.number comment ++ addr
      ++ Asm.storeWord .v0 (.indexed .t0 0))) :
    (Run.read e σ).Meets b.items n s (Goes act live exit s
      (Asm.syscall Asm.Service.readInt.number comment ++ addr
        ++ Asm.storeWord .v0 (.indexed .t0 0))) := by
  unfold Run.read
  have hstart := After.refl h
  split
  · next w hinput =>
    obtain ⟨s₁, hread⟩ := hstart.readWord hsits.left.left hinput
    obtain ⟨s₂, haddress, hbase, -, -⟩ := hread.address hsite hloc haddr hsits.left
    obtain ⟨s₃, hstore, -⟩ := haddress.store hsite hloc hsits hbase
    rw [haddress.ready.result] at hstore
    exact ⟨s₃, hstore⟩
  · next hinput => exact hstart.readWord_stuck (n := n) hsits.left.left hinput

/-- The machine leaves for the end of the function. -/
theorem After.branch_exit (h : After act live σ s q ws s₁) {target : String}
    (hexit : b.layout.code.lookup target = some exit)
    (hsits : Sits b.items s.pc (q ++ Asm.branch target)) :
    Quits act exit s σ (s₁.goto exit) := by
  have hexecute : execute? b.layout s₁ .b [.label target] =
      (b.layout.code.lookup target).map s₁.goto := rfl
  rw [hexit, Option.map_some] at hexecute
  exact h.quits.goto ((h.sits hsits).step_instr.trans hexecute)

/-! ## Scopes, branches and loops -/

/-- Wherever the code is, it does what the course says. -/
def Does (act : Activation b) (live : List (List Storage)) (exit n : Nat) (q : List Item)
    (course : Situation → Course Flow) : Prop :=
  ∀ ⦃σ s⦄, Ready act live σ s → Sits b.items s.pc q →
    (course σ).Meets b.items n s (Goes act live exit s q)

/-- A block in a scope of its own does what it does in the scope. -/
theorem does_inner {body : Situation → Course Flow}
    (hbody : ∀ {σ : Situation} {s : State}, Ready act ([] :: live) σ s → Sits b.items s.pc q →
      (body σ).Meets b.items n s fun flow σ' => ∃ ss, Goes act (ss :: live) exit s q flow σ') :
    Does act live exit n q (Run.inner body) := by
  intro σ s h hsits
  unfold Run.inner
  refine (hbody h.enter hsits).andThen ?_
  rintro flow σ' ⟨ss, hgoes⟩
  exact hgoes.leave

section Branches

variable {condition : Situation → Course Value} {yes no : Situation → Course Flow}
  {cond code code' : List Item} {other done : String}

/-- The code of a statement that is left out if the condition does not hold. -/
theorem run_option (hcond : (condition σ).Meets b.items n s (Pushes act live s cond []))
    (hyes : Does act live exit n code yes) (htextual : Textual code)
    (hsits : Sits b.items s.pc (cond ++ Generate.onFalse done ++ code ++ Asm.label done)) :
    (Run.test condition yes (fun σ => .done .next σ) σ).Meets b.items n s (Goes act live exit s
      (cond ++ Generate.onFalse done ++ code ++ Asm.label done)) := by
  rw [Run.test]
  refine hcond.word.andThen ?_
  intro w σ₁ hpushes
  obtain ⟨s₁, h₁⟩ := hpushes.after
  split
  · next hw =>
    subst hw
    rw [List.append_assoc cond] at hsits
    obtain ⟨s₂, h₂⟩ := h₁.onFalse_take hsits htextual
    rw [← List.append_assoc] at hsits h₂
    exact ⟨_, h₂.label hsits⟩
  · next hw =>
    obtain ⟨s₂, h₂⟩ := h₁.onFalse_skip hsits.left.left hw
    refine ((hyes h₂.ready (h₂.sits hsits.left)).of_reaches h₂.reaches).imp fun flow σ₂ hgoes => ?_
    exact (Goes.after h₂ hgoes).extend fun s₃ h₃ => ⟨_, h₃.label hsits⟩

/-- The code of two statements of which the condition chooses one. -/
theorem run_choice (hcond : (condition σ).Meets b.items n s (Pushes act live s cond []))
    (hyes : Does act live exit n code yes) (hno : Does act live exit n code' no)
    (htextual : Textual code) (htextual' : Textual code')
    (hsits : Sits b.items s.pc (cond ++ Generate.onFalse other ++ code ++ Asm.branch done
      ++ Asm.label other ++ code' ++ Asm.label done)) :
    (Run.test condition yes no σ).Meets b.items n s (Goes act live exit s
      (cond ++ Generate.onFalse other ++ code ++ Asm.branch done ++ Asm.label other ++ code'
        ++ Asm.label done)) := by
  rw [Run.test]
  refine hcond.word.andThen ?_
  intro w σ₁ hpushes
  obtain ⟨s₁, h₁⟩ := hpushes.after
  split
  · next hw =>
    subst hw
    have hsits₁ : Sits b.items s.pc (cond ++ (Generate.onFalse other ++ (code ++ Asm.branch done))
        ++ Asm.label other) := by
      simpa only [List.append_assoc] using hsits.left.left
    obtain ⟨s₂, h₂⟩ := h₁.onFalse_take hsits₁ (htextual.append rfl)
    simp only [← List.append_assoc] at h₂
    have h₃ := h₂.label hsits.left.left
    refine ((hno h₃.ready (h₃.sits hsits.left)).of_reaches h₃.reaches).imp fun flow σ₂ hgoes => ?_
    exact (Goes.after h₃ hgoes).extend fun s₄ h₄ => ⟨_, h₄.label hsits⟩
  · next hw =>
    have hfront := hsits.left.left.left.left
    obtain ⟨s₂, h₂⟩ := h₁.onFalse_skip hfront.left hw
    refine ((hyes h₂.ready (h₂.sits hfront)).of_reaches h₂.reaches).imp fun flow σ₂ hgoes => ?_
    refine (Goes.after h₂ hgoes).extend fun s₃ h₃ => ?_
    have hsits₃ : Sits b.items s.pc (cond ++ Generate.onFalse other ++ code ++
        (Asm.branch done ++ (Asm.label other ++ code')) ++ Asm.label done) := by
      simpa only [List.append_assoc] using hsits
    have h₄ := h₃.branch hsits₃ (Textual.append rfl (Textual.append rfl htextual'))
    simp only [← List.append_assoc] at h₄
    exact ⟨_, h₄.label hsits⟩

end Branches

/-- The machine jumps back to where it was. -/
theorem After.back (h : After act live σ s q [] s₁) {target : String}
    (hlookup : b.layout.code.lookup target = some s.pc)
    (hsits : Sits b.items s.pc (q ++ Asm.branch target)) :
    step? b.items s₁ = some (s₁.goto s.pc) ∧ After act live σ s [] [] (s₁.goto s.pc) := by
  have hstep : step? b.items s₁ = some (s₁.goto s.pc) := by
    have hexecute : execute? b.layout s₁ .b [.label target] =
        (b.layout.code.lookup target).map s₁.goto := rfl
    rw [hlookup] at hexecute
    exact (h.sits hsits).step_instr.trans hexecute
  have hreaches := Reaches.single hstep
  exact ⟨hstep,
    { h with
      reaches := h.reaches.trans hreaches
      ready := h.ready.congr hreaches (fun _ => rfl) h.ready.tracks h.ready.input h.ready.events rfl
      textual := rfl
      pc := rfl }⟩

/-- The code of a loop does what its interpretation says, with a step for each round. -/
theorem run_loop {condition : Situation → Course Value} {body : Situation → Course Flow}
    {cond code : List Item} {top done : String}
    (hcond : ∀ {σ : Situation} {s s₁ : State} {q : List Item}, After act live σ s q [] s₁ →
      Sits b.items s.pc (q ++ cond) → (condition σ).Meets b.items n s fun v σ' =>
        Pushes act live s (q ++ cond) [] v σ')
    (hbody : Does act live exit n code (Run.inner body)) (htextual : Textual code) {k : Nat}
    (hk : k ≤ n) (h : Ready act live σ s)
    (hsits : Sits b.items s.pc (Asm.label top (some "loop top") ++ cond ++ Generate.onFalse done
      ++ code ++ Asm.branch top ++ Asm.label done)) :
    (Run.loop condition body k σ).Meets b.items k s (Goes act live exit s
      (Asm.label top (some "loop top") ++ cond ++ Generate.onFalse done ++ code ++ Asm.branch top
        ++ Asm.label done)) := by
  induction k generalizing σ s with
  | zero => exact ⟨0, s, Nat.le_refl _, rfl, h.events⟩
  | succ k ih =>
    rw [Run.loop, Run.test]
    have hlabel := (After.refl h).label (q := []) hsits.left.left.left.left.left
    refine ((hcond hlabel hsits.left.left.left.left).of_le hk).word.andThen ?_
    intro w σ₁ hpushes
    obtain ⟨s₁, h₁⟩ := hpushes.after
    split
    · next hw =>
      subst hw
      have hsits' : Sits b.items s.pc (Asm.label top (some "loop top") ++ cond ++
          (Generate.onFalse done ++ (code ++ Asm.branch top)) ++ Asm.label done) := by
        simpa only [List.append_assoc] using hsits
      obtain ⟨s₂, h₂⟩ := h₁.onFalse_take hsits' (htextual.append rfl)
      simp only [← List.append_assoc] at h₂
      exact ⟨_, h₂.label hsits⟩
    · next hw =>
      obtain ⟨s₂, h₂⟩ := h₁.onFalse_skip hsits.left.left.left hw
      have hround := (((hbody h₂.ready (h₂.sits hsits.left.left)).of_le hk).of_reaches
        h₂.reaches).imp fun _ _ => Goes.after h₂
      refine hround.andThen fun flow σ₂ hgoes => ?_
      cases flow with
      | «return» => exact hgoes
      | next =>
        obtain ⟨s₃, h₃⟩ := hgoes
        have hlookup := hsits.left.left.left.left.left.label b.distinct
        obtain ⟨hstep, hback⟩ := h₃.back hlookup hsits.left
        have hrest := ih (Nat.le_of_lt hk) hback.ready hsits
        exact ((hrest.of_step hstep).of_reaches h₃.reaches).imp fun _ _ => Goes.after hback

/-! ## Statements -/

mutual

/-- The code of a statement does what its interpretation says. -/
theorem run_stmt (hcall : b.Answers n call) {fn : String}
    (hexit : b.layout.code.lookup (Generate.exitLabel fn) = some exit) {ret : Ty} :
    ∀ {st : Stmt} {live : List (List Storage)} {frame frame' : Frame},
    StmtTyped ret (Env.ofLive live scope) frame st frame' → Site act live scope frame →
    frame'.Le act.frame → ∀ {ls ls' : Generate.Labels} {q : List Item},
    Generate.stmt fn ls st = .ok (q, ls') → Known b.items ls.strings →
    ∀ {σ : Situation} {s : State}, Ready act live σ s → Sits b.items s.pc q →
    (Run.stmt call n st σ).Meets b.items n s (Goes act live exit s q)
  | .assign _ e, _, _, _, htyped, hsite, _, _, _, _, hcode, hknown, σ, s, h, hsits => by
    cases htyped with
    | assign he =>
      cases Generate.stmt_eq_ok.mp hcode with
      | assign hexp =>
        rw [Run.stmt]
        exact h.run_discard hsite hcall he hexp hknown hsits
  | .increment _ e, _, _, _, htyped, hsite, _, _, _, _, hcode, _, σ, s, h, hsits => by
    cases htyped with
    | increment hloc =>
      cases Generate.stmt_eq_ok.mp hcode with
      | increment hstep =>
        rw [Run.stmt]
        exact h.run_step hsite hloc (fun _ => rfl) hstep hsits
  | .decrement _ e, _, _, _, htyped, hsite, _, _, _, _, hcode, _, σ, s, h, hsits => by
    cases htyped with
    | decrement hloc =>
      cases Generate.stmt_eq_ok.mp hcode with
      | decrement hstep =>
        rw [Run.stmt]
        exact h.run_step hsite hloc (fun _ => rfl) hstep hsits
  | .read _ e, _, _, _, htyped, hsite, _, _, _, _, hcode, _, σ, s, h, hsits => by
    cases htyped with
    | read hloc _ =>
      cases Generate.stmt_eq_ok.mp hcode with
      | read haddr =>
        rw [Run.stmt]
        exact h.run_read hsite hloc haddr hsits
  | .write _ e, _, _, _, htyped, hsite, _, _, _, _, hcode, hknown, σ, s, h, hsits => by
    cases htyped with
    | write he _ htype =>
      cases Generate.stmt_eq_ok.mp hcode with
      | write hexp htype' =>
        cases htype.symm.trans htype'
        rw [Run.stmt]
        refine (h.run_exp hsite hcall he hexp hknown hsits.left.left).andThen ?_
        rintro v σ₁ ⟨hservice, w, s₁, hw, h₁⟩
        rw [← hservice] at hsits ⊢
        obtain ⟨s₂, h₂, ht0, -⟩ := h₁.pop hsits.left (by decide)
        exact h₂.printValue hw ht0 hsits
  | .ifThen _ e body, _, _, _, htyped, hsite, hle, ls, _, _, hcode, hknown, σ, s, h, hsits => by
    cases htyped with
    | ifThen he hbody =>
      cases Generate.stmt_eq_ok.mp hcode with
      | ifThen hcond hblock =>
        have hconstants := Generate.constants_exp hcond
        have hpushes := h.run_exp hsite hcall he hcond hknown hsits.left.left.left
        have hknown₁ := hknown.after hconstants hsits.left.left.left.isInfix
        rw [Run.stmt]
        exact run_option (hpushes.imp fun _ _ h => h.2)
          (does_inner (run_block hcall hexit hbody hsite.enter hle hblock hknown₁))
          (Generate.constants_block hblock).textual hsits
  | .ifElse _ e yes no, _, _, _, htyped, hsite, hle, ls, _, _, hcode, hknown, σ, s, h, hsits => by
    cases htyped with
    | ifElse he hyes hno =>
      cases Generate.stmt_eq_ok.mp hcode with
      | ifElse hcond hblock hblock' =>
        have hconstants := Generate.constants_exp hcond
        have hconstants₁ := Generate.constants_block hblock
        have hfront := hsits.left.left.left.left
        have hpushes := h.run_exp hsite hcall he hcond hknown hfront.left.left
        have hknown₁ := hknown.after hconstants hfront.left.left.isInfix
        have hknown₂ := hknown₁.after hconstants₁
          (hfront.right (hconstants.textual.append rfl)).isInfix
        have hle' := hno.le.trans hle
        rw [Run.stmt]
        exact run_choice (hpushes.imp fun _ _ h => h.2)
          (does_inner (run_block hcall hexit hyes hsite.enter hle' hblock hknown₁))
          (does_inner (run_block hcall hexit hno (hsite.mono hyes.le hle').enter hle hblock'
            hknown₂))
          hconstants₁.textual (Generate.constants_block hblock').textual hsits
  | .while _ e body, _, _, _, htyped, hsite, hle, ls, _, _, hcode, hknown, σ, s, h, hsits => by
    cases htyped with
    | «while» he hbody =>
      cases Generate.stmt_eq_ok.mp hcode with
      | «while» hcond hblock =>
        have hconstants := Generate.constants_exp hcond
        have hsits₁ := hsits.left.left.left.left.right (q := Asm.label _ _) rfl
        have hknown₁ := hknown.after hconstants hsits₁.isInfix
        rw [Run.stmt]
        refine run_loop (fun h₁ hsits₁ => ?_)
          (does_inner (run_block hcall hexit hbody hsite.enter hle hblock hknown₁))
          (Generate.constants_block hblock).textual (Nat.le_refl n) h hsits
        exact (run_exp hsite hcall he hcond hknown h₁ hsits₁).imp fun _ _ hpushes => hpushes.2
  | .call _ e, _, _, _, htyped, hsite, _, _, _, _, hcode, hknown, σ, s, h, hsits => by
    cases htyped with
    | call he =>
      cases Generate.stmt_eq_ok.mp hcode with
      | call hexp =>
        rw [Run.stmt]
        exact h.run_discard hsite hcall he hexp hknown hsits
  | .return _ none, _, _, _, _, _, _, _, _, _, hcode, _, σ, s, h, hsits => by
    cases hcode
    rw [Run.stmt]
    exact ⟨_, (After.refl h).branch_exit hexit hsits⟩
  | .return _ (some e), _, _, _, htyped, hsite, _, _, _, _, hcode, hknown, σ, s, h, hsits => by
    cases htyped with
    | «return» _ he =>
      cases Generate.stmt_eq_ok.mp hcode with
      | «return» hexp =>
        rw [Run.stmt]
        refine (h.run_exp hsite hcall he hexp hknown hsits.left.left).word.andThen ?_
        rintro w σ₁ ⟨-, hpushes⟩
        obtain ⟨s₁, h₁⟩ := hpushes.after
        obtain ⟨s₂, h₂, -⟩ := h₁.pop hsits.left (by decide)
        exact ⟨_, h₂.branch_exit hexit hsits⟩
  | .unknown _, _, _, _, htyped, _, _, _, _, _, _, _, _, _, _, _ => by cases htyped

/-- The code of a block whose scope is open does what its interpretation says. -/
theorem run_block (hcall : b.Answers n call) {fn : String}
    (hexit : b.layout.code.lookup (Generate.exitLabel fn) = some exit) {ret : Ty} :
    ∀ {body : Block Stmt} {ss : List Storage} {live : List (List Storage)} {frame frame' : Frame},
    BlockTyped ret (Env.ofLive (ss :: live) scope) frame body frame' →
    Site act (ss :: live) scope frame → frame'.Le act.frame →
    ∀ {ls ls' : Generate.Labels} {q : List Item}, Generate.block fn ls body = .ok (q, ls') →
    Known b.items ls.strings → ∀ {σ : Situation} {s : State}, Ready act (ss :: live) σ s →
    Sits b.items s.pc q → (Run.block call n body σ).Meets b.items n s fun flow σ' =>
      ∃ ss', Goes act (ss' :: live) exit s q flow σ'
  | ⟨vs, _, ss⟩, _, _, _, _, htyped, hsite, hle, _, _, _, hcode, hknown, σ, s, h, hsits => by
    cases htyped with
    | intro hds hss =>
      obtain ⟨ss', henv, hnames, hhosts⟩ := hds.live hsite.hosts
      have hsound := hds.sound hsite.sound
      subst henv
      rw [Generate.block] at hcode
      rw [Run.block]
      have hsite' : Site act _ scope _ := ⟨hsound, hsite.within, hhosts, hss.le.trans hle⟩
      exact (run_stmts hcall hexit hss hsite' hle hcode hknown (h.declare hnames) hsits).imp
        fun _ _ hgoes => ⟨_, hgoes⟩

/-- The code of statements does what their interpretation says. -/
theorem run_stmts (hcall : b.Answers n call) {fn : String}
    (hexit : b.layout.code.lookup (Generate.exitLabel fn) = some exit) {ret : Ty} :
    ∀ {ss : List Stmt} {live : List (List Storage)} {frame frame' : Frame},
    StmtsTyped ret (Env.ofLive live scope) frame ss frame' → Site act live scope frame →
    frame'.Le act.frame → ∀ {ls ls' : Generate.Labels} {q : List Item},
    Generate.stmts fn ls ss = .ok (q, ls') → Known b.items ls.strings →
    ∀ {σ : Situation} {s : State}, Ready act live σ s → Sits b.items s.pc q →
    (Run.stmts call n ss σ).Meets b.items n s (Goes act live exit s q)
  | [], _, _, _, _, _, _, _, _, _, hcode, _, σ, s, h, _ => by
    cases hcode
    exact ⟨s, .refl h⟩
  | st :: ss, _, _, _, htyped, hsite, hle, _, _, _, hcode, hknown, σ, s, h, hsits => by
    cases htyped with
    | cons hst hss =>
      obtain ⟨first, ls₁, rest, hfirst, hrest, rfl⟩ := Generate.stmts_cons_eq_ok.mp hcode
      have hle₁ := hss.le.trans hle
      have hknown₁ := hknown.after (Generate.constants_stmt hfirst) hsits.left.isInfix
      rw [Run.stmts]
      refine (run_stmt hcall hexit hst hsite hle₁ hfirst hknown h hsits.left).andThen ?_
      intro flow σ₁ hgoes
      cases flow with
      | «return» => exact hgoes
      | next =>
        obtain ⟨s₁, h₁⟩ := hgoes
        have hrun := run_stmts hcall hexit hss (hsite.mono hst.le hle₁) hle hrest hknown₁ h₁.ready
          (h₁.sits hsits)
        exact (hrun.of_reaches h₁.reaches).imp fun _ _ => Goes.after h₁

end

end CMinusMinus
