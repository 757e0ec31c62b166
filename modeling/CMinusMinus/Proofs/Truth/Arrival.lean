import CMinusMinus.Proofs.Execution.Programs
import CMinusMinus.Proofs.Truth.Runs

/-!
# The machine arrives at what is visited

The machine is *poised* for a phrase if it is at the beginning of the code of it, and the variables
in its memory are truthful (`Poised`).  From there it comes to the beginning of the code of whatever
the phrase enters (`Poised.enters`), and so to all that it visits (`Poised.visits`).
-/

namespace CMinusMinus

open Machine Course

variable {b : Image} {act : Activation b} {live : List (List Storage)} {scope : Scope Symbol}
  {frame frame' : Frame} {σ σ' : Situation} {s s₁ : State} {q r : List Item} {e : Exp} {t : Ty}
  {ls ls' : Generate.Labels} {cs cs' : List (String × String)} {ret : Ty} {fn : String} {p : Phrase}

/-! ## States at the beginning of code -/

/-- The state may execute code of the activation in the situation, and its variables are
truthful. -/
structure Standing (act : Activation b) (live : List (List Storage)) (scope : Scope Symbol)
    (frame : Frame) (σ : Situation) (s : State) : Prop where
  site : Site act live scope frame
  ready : Ready act live σ s
  truthful : b.Truthful live scope σ.store

/-- The state is at the beginning of the code, and the string constants that the code may use are
those of the program. -/
structure Coded (b : Image) (cs : List (String × String)) (q : List Item) (s : State) : Prop where
  known : Known b.items cs
  sits : Sits b.items s.pc q

namespace Coded

theorem left (h : Coded b cs (q ++ r) s) : Coded b cs q s := ⟨h.known, h.sits.left⟩

/-- Behind code the state is at the beginning of that which comes after it. -/
theorem right (h : Coded b cs (q ++ r) s) (hq : Constants cs q cs')
    (hpc : s₁.pc = s.pc + q.length) : Coded b cs' r s₁ where
  known := h.known.after hq h.sits.left.isInfix
  sits := hpc ▸ h.sits.right hq.textual

end Coded

/-- The activation is one of the function, with a frame that has room for so much. -/
structure Inside (act : Activation b) (fn : String) (frame : Frame) : Prop where
  le : frame.Le act.frame
  exit : ∃ exit, b.layout.code.lookup (Generate.exitLabel fn) = some exit

/-- The state is at the beginning of the code of the phrase, and its variables are truthful. -/
inductive Poised (b : Image) : Phrase → Situation → State → Prop where
  | exp {act : Activation b} {live : List (List Storage)} {scope : Scope Symbol} {frame : Frame}
    {σ : Situation} {s : State} {e : Exp} {t : Ty} {ls ls' : Generate.Labels} {q : List Item} :
    Standing act live scope frame σ s → HasType (Env.ofLive live scope) e t → e.Told →
    Generate.exp ls e = .ok (q, ls') → Coded b ls.strings q s → Poised b (.exp e) σ s
  | exps {act : Activation b} {live : List (List Storage)} {scope : Scope Symbol} {frame : Frame}
    {σ : Situation} {s : State} {es : List Exp} {ts : List Ty} {ls ls' : Generate.Labels}
    {q : List Item} :
    Standing act live scope frame σ s → HaveTypes (Env.ofLive live scope) es ts →
    (∀ n ∈ Exp.listNodes es, n.Tells) → Generate.exps ls es = .ok (q, ls') →
    Coded b ls.strings q s → Poised b (.exps es) σ s
  | call {d : FnDecl} {name : String} {sig : Signature} {ws : List Word} {top : Nat}
    {σ : Situation} {s : State} :
    d ∈ Decl.functions b.decls → d.name.name = name → FnTypedWithin b.top d sig →
    List.Forall₂ Ty.Admits sig.params ws →
    AlignedScope Storage.Truthful b.globals σ.store.globals → Called b d ws top σ s →
    Poised b (.call name ws) σ s
  | stmt {act : Activation b} {live : List (List Storage)} {scope : Scope Symbol}
    {frame frame' : Frame} {σ : Situation} {s : State} {st : Stmt} {ret : Ty} {fn : String}
    {ls ls' : Generate.Labels} {q : List Item} :
    Standing act live scope frame σ s → StmtTyped ret (Env.ofLive live scope) frame st frame' →
    (∀ e ∈ st.allOperands, e.Told) → Inside act fn frame' →
    Generate.stmt fn ls st = .ok (q, ls') → Coded b ls.strings q s → Poised b (.stmt st) σ s
  | block {act : Activation b} {ss : List Storage} {live : List (List Storage)}
    {scope : Scope Symbol} {frame frame' : Frame} {σ : Situation} {s : State} {body : Block Stmt}
    {ret : Ty} {fn : String} {ls ls' : Generate.Labels} {q : List Item} :
    Standing act (ss :: live) scope frame σ s →
    BlockTyped ret (Env.ofLive (ss :: live) scope) frame body frame' →
    (∀ e ∈ Stmt.blockOperands body, e.Told) → Inside act fn frame' →
    Generate.block fn ls body = .ok (q, ls') → Coded b ls.strings q s → Poised b (.block body) σ s
  | stmts {act : Activation b} {live : List (List Storage)} {scope : Scope Symbol}
    {frame frame' : Frame} {σ : Situation} {s : State} {sts : List Stmt} {ret : Ty} {fn : String}
    {ls ls' : Generate.Labels} {q : List Item} :
    Standing act live scope frame σ s → StmtsTyped ret (Env.ofLive live scope) frame sts frame' →
    (∀ e ∈ Stmt.listOperands sts, e.Told) → Inside act fn frame' →
    Generate.stmts fn ls sts = .ok (q, ls') → Coded b ls.strings q s → Poised b (.stmts sts) σ s

/-! ## Code that was executed -/

/-- Where code has come to its end the state is as before, with what was pushed. -/
theorem Standing.after {ws : List Word} (h : Standing act live scope frame σ s)
    (hafter : After act live σ' s q ws s₁) (htruthful : b.Truthful live scope σ'.store) :
    Standing act live scope frame σ' s₁ :=
  ⟨h.site, hafter.ready, htruthful⟩

/-- The code of an expression whose evaluation comes to its end. -/
theorem Standing.run_exp (htrusts : ∀ n, b.Trusts n) (h : Standing act live scope frame σ s)
    (he : HasType (Env.ofLive live scope) e t) (hfair : (Phrase.exp e).Fair b.decls σ)
    (hcode : Generate.exp ls e = .ok (q, ls')) (hcoded : Coded b ls.strings q s) {v : Value}
    (hrun : e.Gives b.decls σ v σ') :
    v.service = Generate.printer t ∧ (∀ w, v = .word w → t.Admits w) ∧
      ∃ w s₁, b.Represents w v ∧ After act live σ' s q [w] s₁ ∧
        Standing act live scope frame σ' s₁ := by
  obtain ⟨n, hrun⟩ := hrun
  dsimp only at hrun
  obtain ⟨htruthful, hadmits⟩ := h.truthful.exp (htrusts n) he hfair hrun
  have hmeets := h.ready.run_exp h.site (b.answers n) he hcode hcoded.known hcoded.sits
  rw [hrun] at hmeets
  obtain ⟨hservice, w, s₁, hw, hafter⟩ := hmeets
  exact ⟨hservice, hadmits, w, s₁, hw, hafter, h.after hafter htruthful⟩

/-- The code of an expression whose evaluation comes to its end with a word. -/
theorem Standing.run_word (htrusts : ∀ n, b.Trusts n) (h : Standing act live scope frame σ s)
    (he : HasType (Env.ofLive live scope) e t) (hfair : (Phrase.exp e).Fair b.decls σ)
    (hcode : Generate.exp ls e = .ok (q, ls')) (hcoded : Coded b ls.strings q s) {w : Word}
    (hrun : e.Gives b.decls σ (.word w) σ') :
    t.Admits w ∧ ∃ s₁, After act live σ' s q [w] s₁ ∧ Standing act live scope frame σ' s₁ := by
  obtain ⟨-, hadmits, w', s₁, hw, h₁⟩ := h.run_exp htrusts he hfair hcode hcoded hrun
  cases hw
  exact ⟨hadmits w rfl, s₁, h₁⟩

/-! ## Expressions -/

/-- From the code of an expression the machine comes to that of what the expression enters. -/
theorem Standing.enters_exp (htrusts : ∀ n, b.Trusts n) (h : Standing act live scope frame σ s)
    (he : HasType (Env.ofLive live scope) e t) (htold : e.Told)
    (hcode : Generate.exp ls e = .ok (q, ls')) (hcoded : Coded b ls.strings q s)
    (hfair : ∀ ⦃p σ'⦄, e.Enters b.decls σ p σ' → p.Fair b.decls σ')
    (henters : e.Enters b.decls σ p σ') : ∃ s', Reaches b.items s s' ∧ Poised b p σ' s' := by
  cases henters with
  | assign =>
    cases he with
    | location hloc _ => cases hloc.isLocation
    | assign _ _ hr =>
      cases Generate.exp_eq_ok.mp hcode with
      | assign hvalue _ =>
        have htoldr : Exp.Told _ := fun n hn =>
          htold n (List.mem_cons_of_mem _ (List.mem_append_right _ hn))
        exact ⟨s, .refl, .exp h hr htoldr hvalue hcoded.left.left.left.left⟩
  | neg =>
    cases he with
    | location hloc _ => cases hloc.isLocation
    | neg he =>
      cases Generate.exp_eq_ok.mp hcode with
      | neg hvalue =>
        exact ⟨s, .refl, .exp h he (fun n hn => htold n (List.mem_cons_of_mem _ hn)) hvalue
          hcoded.left.left.left⟩
  | not =>
    cases he with
    | location hloc _ => cases hloc.isLocation
    | not he =>
      cases Generate.exp_eq_ok.mp hcode with
      | not hvalue =>
        exact ⟨s, .refl, .exp h he (fun n hn => htold n (List.mem_cons_of_mem _ hn)) hvalue
          hcoded.left.left.left⟩
  | right =>
    cases he with
    | location hloc _ => cases hloc.isLocation
    | binary _ _ hr =>
      cases Generate.exp_eq_ok.mp hcode with
      | binary hright _ _ =>
        have htoldr : Exp.Told _ := fun n hn =>
          htold n (List.mem_cons_of_mem _ (List.mem_append_right _ hn))
        exact ⟨s, .refl, .exp h hr htoldr hright hcoded.left.left.left.left⟩
  | left hrun =>
    cases he with
    | location hloc _ => cases hloc.isLocation
    | binary _ hl hr =>
      cases Generate.exp_eq_ok.mp hcode with
      | binary hright hleft _ =>
        have hfront := hcoded.left.left.left
        obtain ⟨-, s₁, hafter, h₁⟩ := h.run_word htrusts hr (hfair .right) hright hfront.left hrun
        have htoldl : Exp.Told _ := fun n hn =>
          htold n (List.mem_cons_of_mem _ (List.mem_append_left _ hn))
        exact ⟨s₁, hafter.reaches, .exp h₁ hl htoldl hleft
          (hfront.right (Generate.constants_exp hright) hafter.pc)⟩
  | args =>
    cases he with
    | location hloc _ => cases hloc.isLocation
    | call _ _ hargs =>
      cases Generate.exp_eq_ok.mp hcode with
      | call hvalues _ =>
        exact ⟨s, .refl, .exps h hargs
          (fun n hn => htold n (List.mem_cons_of_mem _ (List.mem_cons_of_mem _ hn))) hvalues
          hcoded.left.left⟩
  | call hrun =>
    cases he with
    | location hloc _ => cases hloc.isLocation
    | call hfind _ hargs =>
      cases Generate.exp_eq_ok.mp hcode with
      | call hvalues _ =>
        obtain ⟨n, hrun⟩ := hrun
        dsimp only at hrun
        obtain ⟨htruthful, hws⟩ := h.truthful.exps (htrusts n) hargs (hfair .args) hrun
        have hmeets := run_exps h.site (b.answers n) hargs hvalues hcoded.known (.refl h.ready)
          hcoded.sits.left.left
        rw [hrun] at hmeets
        obtain ⟨hlength, s₁, hafter⟩ := hmeets
        obtain ⟨d, hd, hname, htyped⟩ := b.function_live h.site.within hfind
        rw [← hname] at hcoded
        obtain ⟨pc, hlookup, hreaches⟩ := hafter.jump hd hcoded.sits.left
        exact ⟨_, hafter.reaches.trans hreaches, .call hd hname htyped hws htruthful.globals
          (hafter.called hlookup hreaches)⟩

/-! ## Statements -/

theorem Inside.before (h : Inside act fn frame') (hle : frame.Le frame') : Inside act fn frame :=
  ⟨hle.trans h.le, h.exit⟩

theorem Stmt.mem_allOperands_of_operand? {st : Stmt} (h : st.operand? = some e) :
    e ∈ st.allOperands := by
  cases st with
  | assign | write | ifThen | ifElse | «while» =>
    cases h
    exact List.mem_cons_self
  | «return» _ e' =>
    cases e' with
    | none => cases h
    | some =>
      cases h
      exact List.mem_cons_self
  | _ => cases h

theorem StmtTyped.operand {env : Env} {st : Stmt} (h : StmtTyped ret env frame st frame')
    (he : st.operand? = some e) : ∃ t, HasType env e t := by
  cases h with
  | assign h | write h | ifThen h | ifElse h | «while» h | «return» _ h =>
    cases he
    exact ⟨_, h⟩
  | _ => cases he

/-- The code of a statement begins with that of its operand, but for the label of a loop. -/
theorem Generate.stmt_operand {st : Stmt} (h : st.operand? = some e)
    (hcode : Generate.stmt fn ls st = .ok (q, ls')) :
    ∃ front code ls₁ ls₂, front ++ code <+: q ∧ Inert front ∧
      Constants ls.strings front ls₁.strings ∧ Generate.exp ls₁ e = .ok (code, ls₂) := by
  have hnil : Inert [] := List.forall_mem_nil _
  cases Generate.stmt_eq_ok.mp hcode with
  | assign hexp =>
    cases h
    exact ⟨[], _, ls, _, List.prefix_append _ _, hnil, .none rfl, hexp⟩
  | write hexp | «return» hexp =>
    cases h
    exact ⟨[], _, ls, _, (List.prefix_append _ _).trans (List.prefix_append _ _), hnil,
      .none rfl, hexp⟩
  | ifThen hcond =>
    cases h
    refine ⟨[], _, ls.fresh.2, _, ?_, hnil, .none rfl, hcond⟩
    simp only [List.append_assoc, List.nil_append, List.prefix_append]
  | ifElse hcond =>
    cases h
    refine ⟨[], _, ls.fresh.2.fresh.2, _, ?_, hnil, .none rfl, hcond⟩
    simp only [List.append_assoc, List.nil_append, List.prefix_append]
  | «while» hcond =>
    cases h
    refine ⟨Asm.label ls.fresh.1 (some "loop top"), _, ls.fresh.2.fresh.2, _, ?_,
      by simp [Inert, Asm.label], .none rfl, hcond⟩
    exact ⟨_, by simp only [List.append_assoc]; rfl⟩
  | _ => cases h

namespace Standing

theorem enter (h : Standing act live scope frame σ s) :
    Standing act ([] :: live) scope frame (σ.within σ.store.locals.enter) s :=
  ⟨h.site.enter, h.ready.enter, h.truthful.enter⟩

theorem mono (h : Standing act live scope frame σ s) (hle : frame.Le frame')
    (hle' : frame'.Le act.frame) : Standing act live scope frame' σ s :=
  ⟨h.site.mono hle hle', h.ready, h.truthful⟩

/-- From the code of a statement the machine comes to that of its operand. -/
theorem enters_operand (h : Standing act live scope frame σ s) {st : Stmt}
    (htyped : StmtTyped ret (Env.ofLive live scope) frame st frame')
    (htold : ∀ e ∈ st.allOperands, e.Told) (hcode : Generate.stmt fn ls st = .ok (q, ls'))
    (hcoded : Coded b ls.strings q s) (he : st.operand? = some e) :
    ∃ s', Reaches b.items s s' ∧ Poised b (.exp e) σ s' := by
  obtain ⟨t, hetyped⟩ := htyped.operand he
  obtain ⟨front, code, ls₁, ls₂, ⟨rest, rfl⟩, hinert, hconstants, hexp⟩ :=
    Generate.stmt_operand he hcode
  have hskip := (After.refl h.ready).inert (q := []) hcoded.left.left.sits hinert hconstants.textual
  exact ⟨_, hskip.reaches, .exp (h.after hskip h.truthful) hetyped
    (htold e (Stmt.mem_allOperands_of_operand? he)) hexp (hcoded.left.right hconstants hskip.pc)⟩

/-- The code of a condition that holds, behind labels. -/
theorem holds (htrusts : ∀ n, b.Trusts n) (h : Standing act live scope frame σ s)
    (he : HasType (Env.ofLive live scope) e .bool) (hfair : (Phrase.exp e).Fair b.decls σ)
    {front cond : List Item} {target : String} (hinert : Inert front) (htextual : Textual front)
    (hcode : Generate.exp ls e = .ok (cond, ls'))
    (hcoded : Coded b ls.strings (front ++ cond ++ Generate.onFalse target) s) {w : Word}
    (hrun : e.Gives b.decls σ (.word w) σ') (hw : w ≠ 0) :
    ∃ s₁, After act live σ' s (front ++ cond ++ Generate.onFalse target) [] s₁ ∧
      Standing act live scope frame σ' s₁ := by
  have hskip := (After.refl h.ready).inert (q := []) hcoded.left.left.sits hinert htextual
  obtain ⟨-, s₁, hafter, h₁⟩ := (h.after hskip h.truthful).run_word htrusts he hfair hcode
    (hcoded.left.right (.none htextual) hskip.pc) hrun
  obtain ⟨s₂, h₂⟩ := (hskip.append hafter).onFalse_skip hcoded.sits hw
  exact ⟨s₂, h₂, h.after h₂ h₁.truthful⟩

/-- The code of a condition that does not hold, up to the statement for that case. -/
theorem fails (htrusts : ∀ n, b.Trusts n) (h : Standing act live scope frame σ s)
    (he : HasType (Env.ofLive live scope) e .bool) (hfair : (Phrase.exp e).Fair b.decls σ)
    {cond yes : List Item} {other done : String} (htextual : Textual yes)
    (hcode : Generate.exp ls e = .ok (cond, ls'))
    (hcoded : Coded b ls.strings
      (cond ++ Generate.onFalse other ++ yes ++ Asm.branch done ++ Asm.label other) s)
    (hrun : e.Gives b.decls σ (.word 0) σ') :
    ∃ s₁, After act live σ' s
        (cond ++ Generate.onFalse other ++ yes ++ Asm.branch done ++ Asm.label other) [] s₁ ∧
      Standing act live scope frame σ' s₁ := by
  obtain ⟨-, s₁, hafter, h₁⟩ := h.run_word htrusts he hfair hcode hcoded.left.left.left.left hrun
  have hsits : Sits b.items s.pc
      (cond ++ (Generate.onFalse other ++ (yes ++ Asm.branch done)) ++ Asm.label other) := by
    simpa only [List.append_assoc] using hcoded.sits
  obtain ⟨s₂, h₂⟩ := hafter.onFalse_take hsits (htextual.append rfl)
  simp only [← List.append_assoc] at h₂
  have hlabel := h₂.label hcoded.sits
  exact ⟨_, hlabel, h.after hlabel h₁.truthful⟩

/-- From the code of a statement the machine comes to that of the block that the condition
chooses. -/
theorem enters_chosen (htrusts : ∀ n, b.Trusts n) (h : Standing act live scope frame σ s)
    {st : Stmt} (htyped : StmtTyped ret (Env.ofLive live scope) frame st frame')
    (htold : ∀ e ∈ st.allOperands, e.Told) (hinside : Inside act fn frame')
    (hcode : Generate.stmt fn ls st = .ok (q, ls')) (hcoded : Coded b ls.strings q s)
    (he : st.operand? = some e) (hfair : (Phrase.exp e).Fair b.decls σ) {w : Word}
    (hrun : e.Gives b.decls σ (.word w) σ') {body : Block Stmt} (hbody : st.chosen? w = some body) :
    ∃ s', Reaches b.items s s' ∧ Poised b (.block body) (σ'.within σ'.store.locals.enter) s' := by
  have hnil : Inert [] := List.forall_mem_nil _
  cases htyped with
  | ifThen hcond hblock =>
    cases he
    cases Generate.stmt_eq_ok.mp hcode with
    | ifThen hcondcode hblockcode =>
      rw [Stmt.chosen?] at hbody
      split at hbody
      · cases hbody
      · next hw =>
        cases hbody
        obtain ⟨s₁, hafter, h₁⟩ :=
          h.holds htrusts hcond hfair hnil rfl hcondcode hcoded.left.left hrun hw
        exact ⟨s₁, hafter.reaches, .block h₁.enter hblock (List.forall_mem_cons.mp htold).2 hinside
          hblockcode
          (hcoded.left.right ((Generate.constants_exp hcondcode).code (by rfl)) hafter.pc)⟩
  | ifElse hcond hyes hno =>
    cases he
    cases Generate.stmt_eq_ok.mp hcode with
    | ifElse hcondcode hyescode hnocode =>
      obtain ⟨htoldyes, htoldno⟩ := List.forall_mem_append.mp (List.forall_mem_cons.mp htold).2
      have hconstants :=
        (Generate.constants_exp hcondcode).code (r := Generate.onFalse ls.fresh.1) (by rfl)
      have hinside₁ := hinside.before hno.le
      rw [Stmt.chosen?] at hbody
      split at hbody
      · next hw =>
        cases hbody
        subst hw
        have hyesconstants := Generate.constants_block hyescode
        obtain ⟨s₁, hafter, h₁⟩ :=
          h.fails htrusts hcond hfair hyesconstants.textual hcondcode hcoded.left.left hrun
        exact ⟨s₁, hafter.reaches, .block (h₁.enter.mono hyes.le hinside₁.le) hno htoldno hinside
          hnocode (hcoded.left.right
            (((hconstants.append hyesconstants).code (by rfl)).code (by rfl)) hafter.pc)⟩
      · next hw =>
        cases hbody
        have hfront := hcoded.left.left.left.left
        obtain ⟨s₁, hafter, h₁⟩ :=
          h.holds htrusts hcond hfair hnil rfl hcondcode hfront.left hrun hw
        exact ⟨s₁, hafter.reaches, .block h₁.enter hyes htoldyes hinside₁ hyescode
          (hfront.right hconstants hafter.pc)⟩
  | «while» hcond hblock =>
    cases he
    cases Generate.stmt_eq_ok.mp hcode with
    | «while» hcondcode hblockcode =>
      rw [Stmt.chosen?] at hbody
      split at hbody
      · cases hbody
      · next hw =>
        cases hbody
        have htop : Inert (Asm.label ls.fresh.1 (some "loop top")) := by simp [Inert, Asm.label]
        have hfront := hcoded.left.left
        obtain ⟨s₁, hafter, h₁⟩ :=
          h.holds htrusts hcond hfair htop rfl hcondcode hfront.left hrun hw
        have hlabel : Constants ls.strings (Asm.label ls.fresh.1 (some "loop top")) ls.strings :=
          .none rfl
        have hconstants := Generate.constants_exp hcondcode
        replace hconstants := (hlabel.append hconstants).code
          (r := Generate.onFalse ls.fresh.2.fresh.1) (by rfl)
        exact ⟨s₁, hafter.reaches, .block h₁.enter hblock (List.forall_mem_cons.mp htold).2 hinside
          hblockcode (hfront.right hconstants hafter.pc)⟩
  | assign | write | «return» => cases hbody
  | _ => cases he

/-- After a round of a loop the machine is at the beginning of its code again. -/
theorem enters_again (htrusts : ∀ n, b.Trusts n) (h : Standing act live scope frame σ s)
    {sp : Option Span} {body : Block Stmt}
    (htyped : StmtTyped ret (Env.ofLive live scope) frame (.while sp e body) frame')
    (htold : ∀ e' ∈ (Stmt.while sp e body).allOperands, e'.Told) (hinside : Inside act fn frame')
    (hcode : Generate.stmt fn ls (.while sp e body) = .ok (q, ls'))
    (hcoded : Coded b ls.strings q s) (hfair : (Phrase.stmt (.while sp e body)).Fair b.decls σ)
    {σ₁ σ₂ : Situation} {w : Word} (hrun : e.Gives b.decls σ (.word w) σ₁) (hw : w ≠ 0)
    (hround : Finishes (fun n => Run.inner (Run.block (Run.invoke b.decls n) n body) σ₁) .next σ₂) :
    ∃ s', Reaches b.items s s' ∧ Poised b (.stmt (.while sp e body)) σ₂ s' := by
  obtain ⟨n, hround⟩ := hround
  dsimp only at hround
  obtain ⟨exit, hexit⟩ := hinside.exit
  have hblock := hfair.enters (.chosen rfl hrun (if_neg hw))
  cases htyped with
  | «while» hcond hbody =>
  cases Generate.stmt_eq_ok.mp hcode with
  | «while» hcondcode hblockcode =>
    have htop : Inert (Asm.label ls.fresh.1 (some "loop top")) := by simp [Inert, Asm.label]
    have hfront := hcoded.left.left.left
    obtain ⟨s₁, hafter, h₁⟩ :=
      h.holds htrusts hcond (hfair.enters (.operand rfl)) htop rfl hcondcode hfront hrun hw
    have hconstants := Generate.constants_exp hcondcode
    have hknown := hfront.known.after hconstants
      (hfront.left.sits.right (q := Asm.label _ _) rfl).isInfix
    have hmeets := does_inner (run_block (b.answers n) hexit hbody h₁.site.enter hinside.le
      hblockcode hknown) h₁.ready (hafter.sits hcoded.left.left.sits)
    rw [hround] at hmeets
    obtain ⟨s₂, h₂⟩ := hmeets
    have hlookup := hfront.left.left.sits.label b.distinct
    obtain ⟨-, hback⟩ := (hafter.append h₂).back hlookup hcoded.left.sits
    obtain ⟨htruthful, -⟩ := h₁.truthful.inner
      (fun h₁ => h₁.block (htrusts n) hbody (List.forall_mem_cons.mp htold).2) hblock hround
    exact ⟨_, hback.reaches, .stmt ⟨h.site, hback.ready, htruthful⟩ (.while hcond hbody) htold
      hinside hcode ⟨hcoded.known, hcoded.sits⟩⟩

end Standing

/-! ## Functions -/

theorem Storage.entries_injective : Function.Injective Storage.entries :=
  List.map_injective_iff.mpr fun _ _ h => Symbol.storage.inj (Prod.mk.inj h).2

/-- From the beginning of a function the machine comes to the code of its statements. -/
theorem Called.enters_body {d : FnDecl} {sig : Signature} {ws : List Word} {top : Nat}
    (h : Called b d ws top σ s) (hd : d ∈ Decl.functions b.decls)
    (htold : ∀ e ∈ Stmt.blockOperands d.body, e.Told) (htyped : FnTypedWithin b.top d sig)
    (hws : List.Forall₂ Ty.Admits sig.params ws)
    (hglobals : AlignedScope Storage.Truthful b.globals σ.store.globals) :
    ∃ s', Reaches b.items s s' ∧
      Poised b (.block d.body) (σ.within [d.formals.bind ws]) s' := by
  obtain ⟨env, hsound, hwithin, hone, hf⟩ := htyped
  obtain ⟨env', inner, frame, hformals, hbody, hframe⟩ := hf.body
  obtain ⟨scope, rfl⟩ := List.length_eq_one_iff.mp hone
  obtain ⟨ss, henv, htruthful⟩ :=
    Image.Truthful.of_formals hsound hwithin hformals hws hglobals
  have hdeclares : b.Declares d scope env' inner frame :=
    ⟨hsound, hwithin, ⟨_, hformals⟩, ⟨_, hbody⟩, hframe⟩
  have hlength : ws.length = d.formals.items.length := by
    cases hf.signature_sound with
    | function _ harity => exact hws.length_eq.symm.trans (harity.trans hf.arity)
  obtain ⟨frame', ls, ls', code, s₁, s', hframe', hcode, hknown, hstep, hreaches, hframed, hsits⟩ :=
    h.enter hd
  cases hframe'.symm.trans hframe
  have hreaches' : Reaches b.items s s' := .step hstep hreaches
  obtain ⟨act, ss', rfl, -, henv', hsite, hready⟩ := h.ready hlength hdeclares hframed hreaches'
  -- the storages that the machine has for the formals are those with truthful contents
  cases Storage.entries_injective (List.cons.inj (henv.symm.trans henv')).1
  subst henv
  have hepilogue := hsits.right (Generate.constants_block hcode).textual
  have hexit := hepilogue.left.left.left.left.left.label b.distinct
  exact ⟨s', hreaches', .block ⟨hsite, hready, htruthful⟩ hbody htold ⟨.refl _, _, hexit⟩ hcode
    ⟨hknown, hsits.left⟩⟩

/-! ## Phrases -/

/-- From the code of a phrase the machine comes to that of what the phrase enters. -/
theorem Poised.enters
    (htold : ∀ d ∈ Decl.functions b.decls, ∀ e ∈ Stmt.blockOperands d.body, e.Told)
    (h : Poised b p σ s) (hfair : p.Fair b.decls σ) {p' : Phrase}
    (henters : p.Enters b.decls σ p' σ') : ∃ s', Reaches b.items s s' ∧ Poised b p' σ' s' := by
  have htrusts := Image.trusts htold
  cases henters with
  | exp henters =>
    cases h with
    | exp h he htold hcode hcoded =>
      exact h.enters_exp htrusts he htold hcode hcoded
        (fun _ _ henters => hfair.enters (.exp henters)) henters
  | head =>
    cases h with
    | exps h hes htold hcode hcoded =>
      obtain ⟨first, ls₁, rest, hfirst, -, rfl⟩ := Generate.exps_cons_eq_ok.mp hcode
      cases hes with
      | cons he _ =>
        exact ⟨s, .refl, .exp h he (fun n hn => htold n (List.mem_append_left _ hn)) hfirst
          hcoded.left⟩
  | tail hrun =>
    cases h with
    | exps h hes htold hcode hcoded =>
      obtain ⟨first, ls₁, rest, hfirst, hrest, rfl⟩ := Generate.exps_cons_eq_ok.mp hcode
      cases hes with
      | cons he hes =>
        obtain ⟨-, s₁, hafter, h₁⟩ :=
          h.run_word htrusts he (hfair.enters .head) hfirst hcoded.left hrun
        exact ⟨s₁, hafter.reaches, .exps h₁ hes (fun n hn => htold n (List.mem_append_right _ hn))
          hrest (hcoded.right (Generate.constants_exp hfirst) hafter.pc)⟩
  | body hd hname =>
    cases h with
    | call hd' hname' htyped hws hglobals hcalled =>
      cases List.inj_on_of_nodup_map (b.typed.names_nodup rfl) hd' hd (hname'.trans hname.symm)
      exact hcalled.enters_body hd (htold _ hd) htyped hws hglobals
  | operand he =>
    cases h with
    | stmt h htyped htold _ hcode hcoded =>
      exact h.enters_operand htyped htold hcode hcoded he
  | chosen he hrun hbody =>
    cases h with
    | stmt h htyped htold hinside hcode hcoded =>
      exact h.enters_chosen htrusts htyped htold hinside hcode hcoded he
        (hfair.enters (.operand he)) hrun hbody
  | again hrun hw hround =>
    cases h with
    | stmt h htyped htold hinside hcode hcoded =>
      exact h.enters_again htrusts htyped htold hinside hcode hcoded hfair hrun hw hround
  | call henters =>
    cases h with
    | stmt h htyped htold _ hcode hcoded =>
      cases Generate.stmt_eq_ok.mp hcode with
      | call hexp =>
      cases htyped with
      | call he =>
        exact h.enters_exp htrusts he (List.forall_mem_singleton.mp htold) hexp hcoded.left
          (fun _ _ henters => hfair.enters (.call henters)) henters
  | value =>
    cases h with
    | stmt h htyped htold _ hcode hcoded =>
      cases Generate.stmt_eq_ok.mp hcode with
      | call hexp =>
      cases htyped with
      | call he =>
        exact ⟨s, .refl, .exp h he (List.forall_mem_singleton.mp htold) hexp hcoded.left⟩
  | block =>
    cases h with
    | block h htyped htold hinside hcode hcoded =>
      cases htyped with
      | intro hds hss =>
        obtain ⟨ss', henv, hnames, hhosts⟩ := hds.live h.site.hosts
        have hsound := hds.sound h.site.sound
        subst henv
        have hsite : Site _ _ _ _ := ⟨hsound, h.site.within, hhosts, hss.le.trans hinside.le⟩
        exact ⟨s, .refl, .stmts ⟨hsite, h.ready.declare hnames, h.truthful.declare hsound hnames⟩
          hss htold hinside hcode hcoded⟩
  | first =>
    cases h with
    | stmts h htyped htold hinside hcode hcoded =>
      obtain ⟨first, ls₁, rest, hfirst, -, rfl⟩ := Generate.stmts_cons_eq_ok.mp hcode
      cases htyped with
      | cons hst hsts =>
        exact ⟨s, .refl, .stmt h hst (List.forall_mem_append.mp htold).1 (hinside.before hsts.le)
          hfirst hcoded.left⟩
  | rest hrun =>
    cases h with
    | stmts h htyped htold hinside hcode hcoded =>
      obtain ⟨first, ls₁, rest, hfirst, hrest, rfl⟩ := Generate.stmts_cons_eq_ok.mp hcode
      cases htyped with
      | cons hst hsts =>
        obtain ⟨htoldfirst, htoldrest⟩ := List.forall_mem_append.mp htold
        have hinside₁ := hinside.before hsts.le
        obtain ⟨n, hrun⟩ := hrun
        dsimp only at hrun
        obtain ⟨exit, hexit⟩ := hinside.exit
        obtain ⟨htruthful, -⟩ :=
          h.truthful.stmt (htrusts n) hst htoldfirst (hfair.enters .first) hrun
        have hmeets := run_stmt (b.answers n) hexit hst h.site hinside₁.le hfirst hcoded.known
          h.ready hcoded.sits.left
        rw [hrun] at hmeets
        obtain ⟨s₁, hafter⟩ := hmeets
        exact ⟨s₁, hafter.reaches, .stmts ((h.after hafter htruthful).mono hst.le hinside₁.le) hsts
          htoldrest hinside hrest (hcoded.right (Generate.constants_stmt hfirst) hafter.pc)⟩

/-- From the code of a fair phrase the machine comes to that of all that the phrase visits. -/
theorem Poised.visits
    (htold : ∀ d ∈ Decl.functions b.decls, ∀ e ∈ Stmt.blockOperands d.body, e.Told)
    (h : Poised b p σ s) (hfair : p.Fair b.decls σ) {p' : Phrase}
    (hvisits : p.Visits b.decls σ p' σ') : ∃ s', Reaches b.items s s' ∧ Poised b p' σ' s' := by
  induction hvisits generalizing s with
  | refl => exact ⟨s, .refl, h⟩
  | step henters _ ih =>
    obtain ⟨s₁, hreaches, h₁⟩ := h.enters htold hfair henters
    obtain ⟨s₂, hreaches', h₂⟩ := ih h₁ (hfair.enters henters)
    exact ⟨s₂, hreaches.trans hreaches', h₂⟩

end CMinusMinus
