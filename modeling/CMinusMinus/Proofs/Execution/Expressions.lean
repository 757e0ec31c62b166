import CMinusMinus.Proofs.Execution.Calls
import CMinusMinus.Proofs.Execution.Operators

/-!
# Expressions on the machine

The code of an expression does what the interpretation of the expression says, and pushes a word
that stands for the value (`run_exp`), as long as the functions do what the interpretation of
calls says.  The value is of the kind that values of the type are printed as.
-/

namespace CMinusMinus

open Machine

variable {b : Image} {act : Activation b} {live : List (List Storage)} {scope : Scope Symbol}
  {frame : Frame} {σ : Situation} {s s₁ : State} {q q' : List Item} {ws : List Word} {e : Exp}
  {ls ls' : Generate.Labels} {n : Nat}

/-! ## Pieces of code -/

namespace After

/-- Labels and directives are passed over. -/
theorem inert (h : After act live σ s q ws s₁) (hsits : Sits b.items s.pc (q ++ q'))
    (hq : Inert q') (htextual : Textual q') :
    After act live σ s (q ++ q') ws (s₁.skip q'.length) := by
  have hreaches := (h.sits hsits).reaches_inert hq
  exact h.extend hreaches rfl (fun _ _ => rfl)
    (h.ready.congr hreaches (fun _ => rfl) h.ready.tracks h.ready.input h.ready.events rfl)
    htextual rfl

/-- What was put into `$t0` is pushed. -/
theorem push_set {w : Word} (h : After act live σ s q ws ((s₁.set .t0 w).skip 1))
    (hsite : Site act live scope frame) (hsits : Sits b.items s.pc (q ++ Asm.push .t0)) :
    ∃ s₂, After act live σ s (q ++ Asm.push .t0) (ws ++ [w]) s₂ := by
  obtain ⟨s₂, hpush, -⟩ := h.push hsite hsits
  rw [State.get_skip, State.get_set_self (r := .t0) _ (by decide)] at hpush
  exact ⟨s₂, hpush⟩

/-- The address of a string constant is put into `$t0`. -/
theorem constant (h : After act live σ s q ws s₁) (hknown : Known b.items ls.strings)
    {text : String} (hsits : Sits b.items s.pc (q ++ ((ls.constant text).2.1 ++
      Asm.loadAddress .t0 (.label (ls.constant text).1)))) :
    ∃ (w : Word) (s₂ : State), b.Represents w (.text text) ∧
      After act live σ s (q ++ ((ls.constant text).2.1 ++
      Asm.loadAddress .t0 (.label (ls.constant text).1))) ws ((s₂.set .t0 w).skip 1) := by
  have hinfix : Asm.stringConstant (ls.constant text).1 text <:+: b.items := by
    have hcode := (h.sits hsits).left.isInfix
    rw [Generate.Labels.constant] at hcode ⊢
    split
    · next label hlabel =>
      split at hlabel
      · exact hknown _ (Scope.mem_of_find? hlabel)
      · cases hlabel
    · next hnone =>
      rw [hnone] at hcode
      exact hcode
  have hinert : Inert (ls.constant text).2.1 ∧ Textual (ls.constant text).2.1 := by
    rw [Generate.Labels.constant]
    split
    · exact ⟨by simp [Inert], rfl⟩
    · exact ⟨by simp [Inert, Asm.stringConstant], rfl⟩
  obtain ⟨a, hlookup, htext, ha⟩ := constant_of_infix b.distinct hinfix
  have hlow := h.ready.free.1
  have hlt := (s₁.get .sp).isLt
  have hword : (BitVec.ofNat 32 a).toNat = a := by
    rw [BitVec.toNat_ofNat]
    unfold Image.dataEnd Image.layout at hlow
    omega
  rw [← List.append_assoc] at hsits ⊢
  have hskip := h.inert hsits.left hinert.1 hinert.2
  have hexecute : ∀ s₂ : State, execute? b.layout s₂ .la
      [.reg .t0, .label (ls.constant text).1] = some ((s₂.set .t0 (BitVec.ofNat 32 a)).skip 1) := by
    intro s₂
    rw [execute?_transfer, transfer?, State.address?, Image.layout, hlookup, Option.map_some,
      Option.map_some]
  refine ⟨BitVec.ofNat 32 a, _, ?_, hskip.set hsits (hexecute _) (by decide)⟩
  rw [Image.Represents, hword]
  exact htext

/-- The word of a variable is put into `$t0`. -/
theorem fetch (h : After act live σ s q ws s₁) (hsite : Site act live scope frame) {st : Storage}
    (hst : st ∈ (live ++ [b.globals]).flatten) {operand : Operand}
    (hoperand : Generate.placeOperand? st = some operand)
    (howns : b.Owns act.fp st (b.base act.fp st))
    {comment : Option String} (hsits : Sits b.items s.pc (q ++ Asm.loadWord .t0 operand comment)) :
    After act live σ s (q ++ Asm.loadWord .t0 operand comment) ws
      ((s₁.set .t0 (s₁.mem (b.base act.fp st))).skip 1) := by
  obtain ⟨w, hw, hbase⟩ := hsite.address? hst h.ready.fp hoperand
  have hexecute : execute? b.layout s₁ .lw [.reg .t0, operand] =
      some ((s₁.set .t0 (s₁.mem (b.base act.fp st))).skip 1) := by
    rw [execute?_transfer, transfer?, hw, Option.bind_some,
      aligned?_of_dvd (hbase ▸ (hsite.owns hst howns).1), Option.map_some, hbase]
  exact h.set hsits hexecute (by decide)

/-- The word that a location holds is pushed. -/
theorem location (h : After act live σ s q ws s₁) (hsite : Site act live scope frame)
    {st : Storage} {m : Nat} {t : Ty} (hloc : Locates (Env.ofLive live scope) e st m (.scalar t))
    (hcode : Generate.exp ls e = .ok (q', ls')) (hsits : Sits b.items s.pc (q ++ q')) {w : Word}
    (hread : σ.store.read? e = some w) :
    ∃ s₂, After act live σ s (q ++ q') (ws ++ [w]) s₂ := by
  have hmem := hsite.read hloc h.ready.tracks hread
  obtain ⟨hst, howns⟩ := hsite.located hloc
  cases e with
  | ident x =>
    obtain ⟨operand, hoperand⟩ := Generate.placeOperand_of_placed (hloc.root hsite.sound).1
    generalize hsh : Shape.scalar t = sh at hloc
    cases hloc with
    | ident hfind hbound =>
      rw [Generate.exp, Generate.load, Generate.storageOf_of_bound hbound hoperand] at hcode
      simp only [bind, Except.bind, ← hsh] at hcode
      cases hcode
      rw [← List.append_assoc] at hsits ⊢
      have hfetch := h.fetch hsite hst hoperand howns hsits.left
      rw [show s₁.mem (b.base act.fp st) = w from hmem] at hfetch
      exact hfetch.push_set hsite hsits
  | access i k loc f =>
    cases Generate.exp_eq_ok.mp hcode with
    | access haddr =>
      simp only [← List.append_assoc] at hsits ⊢
      obtain ⟨s₂, haddress, hbase, -, hmem'⟩ := h.address hsite hloc haddr hsits.left.left
      have hload := haddress.load hsits.left (hbase ▸ (hsite.owns hst howns).1) (by decide)
      rw [hbase, hmem', hmem] at hload
      exact hload.push_set hsite hsits
  | _ => cases hloc.isLocation

end After

/-! ## Expressions -/

/-- Values of the type of a word are printed as numbers. -/
theorem Generate.printer_of_isWord {t : Ty} (h : t.IsWord ∨ t = .void) :
    Generate.printer t = .printInt := by
  obtain (rfl | rfl) | rfl := h <;> rfl

/-- A function that is called is one of the program, and takes as many words as there are
arguments. -/
theorem Site.callee (hsite : Site act live scope frame) {name : String} {sig : Signature}
    (hfind : (Env.ofLive live scope).find? name = some (.function sig)) :
    (∃ d ∈ Decl.functions b.decls, d.name.name = name ∧
      sig.params.length = d.formals.items.length) ∧ (sig.returns.IsWord ∨ sig.returns = .void) := by
  obtain ⟨harity, hreturns⟩ : sig.params.length = sig.arity ∧
      (sig.returns.IsWord ∨ sig.returns = .void) := by
    cases hsite.sound.find? hfind with
    | function _ harity _ hreturns => exact ⟨harity, hreturns⟩
  obtain ⟨d, hd, hname, _, -, -, -, hf⟩ := b.function_live hsite.within hfind
  exact ⟨⟨d, hd, hname, harity.trans hf.arity⟩, hreturns⟩

theorem BinOp.Types.printer {op : BinOp} {t t' : Ty} (h : op.Types t t') :
    Generate.printer t' = .printInt := by
  cases op with
  | other => exact h.elim
  | _ =>
    rw [h.2]
    rfl

mutual

/-- The code of an expression does what its interpretation says. -/
theorem run_exp (hsite : Site act live scope frame)
    {call : String → List Word → Situation → Course Unit} (hcall : b.Answers n call) :
    ∀ {e : Exp} {t : Ty}, HasType (Env.ofLive live scope) e t →
    ∀ {ls ls' : Generate.Labels} {q' : List Item}, Generate.exp ls e = .ok (q', ls') →
    Known b.items ls.strings → ∀ {σ : Situation} {s s₁ : State} {q : List Item} {ws : List Word},
    After act live σ s q ws s₁ → Sits b.items s.pc (q ++ q') →
    (Run.exp call e σ).Meets b.items n s fun v σ' =>
      v.service = Generate.printer t ∧ Pushes act live s (q ++ q') ws v σ'
  | _, _, .int, _, _, _, hcode, _, _, _, _, _, _, h, hsits => by
    cases hcode
    rw [← List.append_assoc] at hsits ⊢
    obtain ⟨s₂, hpush⟩ := (h.loadImm hsits.left (by decide)).push_set hsite hsits
    exact ⟨rfl, _, s₂, rfl, hpush⟩
  | .bool i c, _, .bool, _, _, _, hcode, _, _, _, _, _, _, h, hsits => by
    cases hcode
    rw [← List.append_assoc] at hsits ⊢
    obtain ⟨s₂, hpush⟩ := (h.loadImm hsits.left (by decide)).push_set hsite hsits
    exact ⟨rfl, _, s₂, by cases c <;> rfl, hpush⟩
  | _, _, .string, _, _, _, hcode, hknown, _, _, _, _, _, h, hsits => by
    cases hcode
    rw [← List.append_assoc] at hsits ⊢
    obtain ⟨w, s₂, htext, hconstant⟩ := h.constant hknown hsits.left
    obtain ⟨s₃, hpush⟩ := hconstant.push_set hsite hsits
    exact ⟨rfl, w, s₃, htext, hpush⟩
  | e, t, .location hloc ht, _, _, _, hcode, _, σ, _, _, _, _, h, hsits => by
    rw [Run.exp_of_isLocation call hloc.isLocation, Run.fetch]
    split
    · next w hread =>
      obtain ⟨s₂, hpush⟩ := h.location hsite hloc hcode hsits hread
      exact ⟨(Generate.printer_of_isWord (.inl ht)).symm, w, s₂, rfl, hpush⟩
    · exact trivial
  | .assign i l r, t, .assign hl ht hr, _, _, _, hcode, hknown, σ, s, _, _, _, h, hsits => by
    cases Generate.exp_eq_ok.mp hcode with
    | assign hvalue haddr =>
      simp only [← List.append_assoc] at hsits ⊢
      refine (run_exp hsite hcall hr hvalue hknown h hsits.left.left.left.left).word.andThen ?_
      rintro w σ₁ ⟨-, hpushes⟩
      obtain ⟨s₂, h₂⟩ := hpushes.after
      obtain ⟨s₃, haddress, hbase, -, -⟩ := h₂.address hsite hl haddr hsits.left.left.left
      obtain ⟨s₄, hpop, hw, hkept⟩ := haddress.pop hsits.left.left (by decide)
      obtain ⟨s₅, hstore, hregs⟩ := hpop.store hsite hl hsits.left
        ((congrArg BitVec.toNat (hkept .t0 (by decide) (by decide))).trans hbase)
      obtain ⟨s₆, hpush, -⟩ := hstore.push hsite hsits
      rw [hregs, hw] at hpush
      exact ⟨(Generate.printer_of_isWord (.inl ht)).symm, w, s₆, rfl, hpush⟩
  | .call i f sp args, _, .call hfind hbound hargs, _, _, _, hcode, hknown, σ, s, _, _, ws, h,
    hsits => by
    cases Generate.exp_eq_ok.mp hcode with
    | call hvalues =>
      obtain ⟨⟨d, hd, hname, harity⟩, hreturns⟩ := hsite.callee hfind
      rw [← hname] at hsits ⊢
      simp only [← List.append_assoc] at hsits ⊢
      refine (run_exps hsite hcall hargs hvalues hknown h hsits.left.left).andThen ?_
      rintro vs σ₁ ⟨hlength, s₂, h₂⟩
      rw [← hname]
      refine (h₂.call hsite hcall hd (hlength.trans harity) hsits.left).andThen ?_
      rintro _ σ₂ ⟨s₃, h₃⟩
      obtain ⟨s₄, hpush, -⟩ := h₃.push hsite hsits
      rw [h₃.ready.result] at hpush
      exact ⟨(Generate.printer_of_isWord hreturns).symm, _, s₄, rfl, hpush⟩
  | .neg i e, _, .neg he, _, _, _, hcode, hknown, σ, s, _, _, _, h, hsits => by
    cases Generate.exp_eq_ok.mp hcode with
    | neg hvalue =>
      simp only [← List.append_assoc] at hsits ⊢
      refine (run_exp hsite hcall he hvalue hknown h hsits.left.left.left).word.andThen ?_
      rintro w σ₁ ⟨-, hpushes⟩
      obtain ⟨s₂, h₂⟩ := hpushes.after
      obtain ⟨s₃, hpop, hw, -⟩ := h₂.pop hsits.left.left (by decide)
      have hneg : compute? .sub (s₃.get .zero) (s₃.get .t0) = some (-w) := by
        rw [hw]
        exact congrArg some (BitVec.zero_sub w)
      obtain ⟨s₄, hpush⟩ := (hpop.compute hsits.left hneg (by decide)).push_set hsite hsits
      exact ⟨rfl, -w, s₄, rfl, hpush⟩
  | .not i e, _, .not he, _, _, _, hcode, hknown, σ, s, _, _, _, h, hsits => by
    cases Generate.exp_eq_ok.mp hcode with
    | not hvalue =>
      simp only [← List.append_assoc] at hsits ⊢
      refine (run_exp hsite hcall he hvalue hknown h hsits.left.left.left).word.andThen ?_
      rintro w σ₁ ⟨-, hpushes⟩
      obtain ⟨s₂, h₂⟩ := hpushes.after
      obtain ⟨s₃, hpop, hw, -⟩ := h₂.pop hsits.left.left (by decide)
      have hnot : compute? .xori (s₃.get .t0) (BitVec.ofInt 32 1) = some (w ^^^ 1) := by
        rw [hw]
        rfl
      obtain ⟨s₄, hpush⟩ := (hpop.computeImm hsits.left hnot (by decide)).push_set hsite hsits
      exact ⟨rfl, w ^^^ 1, s₄, rfl, hpush⟩
  | .binary i op l r, _, .binary hop hl hr, _, _, _, hcode, hknown, σ, s, _, _, ws, h, hsits => by
    cases Generate.exp_eq_ok.mp hcode with
    | binary hright hleft hresult =>
      simp only [← List.append_assoc] at hsits ⊢
      have hsits₂ := hsits.left.left.left
      have hknown₁ := hknown.after (Generate.constants_exp hright) (h.sits hsits₂.left).isInfix
      refine (run_exp hsite hcall hr hright hknown h hsits₂.left).word.andThen ?_
      rintro y σ₁ ⟨-, hpushes⟩
      obtain ⟨s₁, h₁⟩ := hpushes.after
      refine (run_exp hsite hcall hl hleft hknown₁ h₁ hsits₂).word.andThen ?_
      rintro x σ₂ ⟨-, hpushes⟩
      obtain ⟨s₂, h₂⟩ := hpushes.after
      obtain ⟨s₃, hpop, hx, -⟩ := h₂.pop hsits.left.left (by decide)
      obtain ⟨s₄, hpop', hy, hkept⟩ := hpop.pop hsits.left (by decide)
      have hoperate := hpop'.operate hsite hresult hsits n
      rw [hkept .t0 (by decide) (by decide), hx, hy] at hoperate
      rw [hop.printer]
      exact hoperate

/-- The code of expressions does what their interpretation says. -/
theorem run_exps (hsite : Site act live scope frame)
    {call : String → List Word → Situation → Course Unit} (hcall : b.Answers n call) :
    ∀ {es : List Exp} {ts : List Ty}, HaveTypes (Env.ofLive live scope) es ts →
    ∀ {ls ls' : Generate.Labels} {q' : List Item}, Generate.exps ls es = .ok (q', ls') →
    Known b.items ls.strings → ∀ {σ : Situation} {s s₁ : State} {q : List Item} {ws : List Word},
    After act live σ s q ws s₁ → Sits b.items s.pc (q ++ q') →
    (Run.exps call es σ).Meets b.items n s fun vs σ' => vs.length = ts.length ∧
      ∃ s₂, After act live σ' s (q ++ q') (ws ++ vs) s₂
  | _, _, .nil, _, _, _, hcode, _, σ, _, s₁, q, ws, h, _ => by
    cases hcode
    rw [List.append_nil]
    exact ⟨rfl, s₁, by rwa [List.append_nil]⟩
  | e :: es, _, .cons he hes, _, _, _, hcode, hknown, σ, s, _, q, ws, h, hsits => by
    obtain ⟨first, ls₁, rest, hfirst, hrest, rfl⟩ := Generate.exps_cons_eq_ok.mp hcode
    simp only [← List.append_assoc] at hsits ⊢
    have hknown₁ := hknown.after (Generate.constants_exp hfirst) (h.sits hsits.left).isInfix
    refine (run_exp hsite hcall he hfirst hknown h hsits.left).word.andThen ?_
    rintro w σ₁ ⟨-, hpushes⟩
    obtain ⟨s₁, h₁⟩ := hpushes.after
    refine (run_exps hsite hcall hes hrest hknown₁ h₁ hsits).andThen ?_
    rintro vs σ₂ ⟨hlength, s₂, h₂⟩
    rw [List.append_assoc ws] at h₂
    exact ⟨congrArg (· + 1) hlength, s₂, h₂⟩

end

end CMinusMinus
