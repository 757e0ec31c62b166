import CMinusMinus.Proofs.Truth

/-!
# Fair runs keep variables truthful

Where a fair phrase comes to its end the variables are truthful if they were so before, and what an
expression is worth stands for a value of its type (`Image.Truthful.exp`).  So does what a function
returns (`Image.trusts`).
-/

namespace CMinusMinus

/-! ## Courses that come to their end -/

namespace Course

variable {α β : Type} {c : Course α} {σ' : Situation}

theorem andThen_eq_done {f : α → Situation → Course β} {x : β} :
    c.andThen f = .done x σ' ↔ ∃ a σ, c = .done a σ ∧ f a σ = .done x σ' := by
  cases c with
  | done a σ => exact ⟨fun h => ⟨a, σ, rfl, h⟩, by rintro ⟨_, _, ⟨⟩, h⟩; exact h⟩
  | halted | undefined => exact ⟨nofun, by rintro ⟨_, _, ⟨⟩, _⟩⟩

theorem word_eq_done {c : Course Value} {w : Word} :
    c.word = .done w σ' ↔ c = .done (.word w) σ' := by
  rw [word, andThen_eq_done]
  constructor
  · rintro ⟨v, σ, rfl, h⟩
    cases v with
    | word =>
      cases h
      rfl
    | text => cases h
  · rintro rfl
    exact ⟨_, _, rfl, rfl⟩

end Course

open Course

variable {b : Image} {live : List (List Storage)} {scope : Scope Symbol} {n : Nat}

/-! ## Calls -/

/-- Every function that is called with words for values of the types of its formals leaves the
globals truthful, and its result stands for a value if it returns a word. -/
def Image.Trusts (b : Image) (n : Nat) : Prop :=
  ∀ ⦃d sig⦄, d ∈ Decl.functions b.decls → FnTypedWithin b.top d sig → ∀ ⦃ws σ σ'⦄,
    List.Forall₂ Ty.Admits sig.params ws →
    AlignedScope Storage.Truthful b.globals σ.store.globals →
    (Phrase.call d.name.name ws).Fair b.decls σ →
    Run.invoke b.decls n d.name.name ws σ = .done () σ' →
    σ'.store.locals = σ.store.locals ∧
      AlignedScope Storage.Truthful b.globals σ'.store.globals ∧
      (d.ReturnsWord b.decls ws σ → sig.returns.Admits σ'.result)

namespace Image.Truthful

/-- The call of a function, given what its arguments do. -/
theorem of_call (hcall : b.Trusts n) {σ σ' : Situation} (h : b.Truthful live scope σ.store)
    {i : Info} {f : Ident} {sp : Option Span} {args : List Exp} {sig : Signature} {v : Value}
    (hfind : (Env.ofLive live scope).find? f.name = some (.function sig))
    (hargs : ∀ {ws σ₁}, Run.exps (Run.invoke b.decls n) args σ = .done ws σ₁ →
      b.Truthful live scope σ₁.store ∧ List.Forall₂ Ty.Admits sig.params ws)
    (hfair : ∀ {ws σ₁}, Run.exps (Run.invoke b.decls n) args σ = .done ws σ₁ →
      (Phrase.call f.name ws).Fair b.decls σ₁)
    (hrun : Run.exp (Run.invoke b.decls n) (.call i f sp args) σ = .done v σ') :
    b.Truthful live scope σ'.store ∧ ((Phrase.exp (.call i f sp args)).Decent b.decls σ →
      ∀ w, v = .word w → sig.returns.Admits w) := by
  rw [Run.exp] at hrun
  obtain ⟨ws, σ₁, hrunargs, hrun⟩ := andThen_eq_done.mp hrun
  obtain ⟨_, σ₂, hinvoke, hrun⟩ := andThen_eq_done.mp hrun
  cases hrun
  obtain ⟨h₁, hws⟩ := hargs hrunargs
  have hcalled := hfair hrunargs
  obtain ⟨d, hd, hname, htyped⟩ := b.function_live h.within hfind
  rw [← hname] at hinvoke hcalled
  obtain ⟨hlocals, hglobals, hresult⟩ := hcall hd htyped hws h₁.globals hcalled hinvoke
  refine ⟨h₁.congr hlocals hglobals, fun hdecent w hw => ?_⟩
  cases hw
  exact hresult (hdecent ws σ₁ ⟨n, hrunargs⟩ d hd hname)

mutual

/-- The evaluation of an expression keeps variables truthful, and its value stands for one of its
type. -/
theorem exp (hcall : b.Trusts n) : ∀ {e : Exp} {t : Ty}, HasType (Env.ofLive live scope) e t →
    ∀ {σ σ' : Situation} {v : Value}, b.Truthful live scope σ.store →
    (Phrase.exp e).Fair b.decls σ → Run.exp (Run.invoke b.decls n) e σ = .done v σ' →
    b.Truthful live scope σ'.store ∧ ∀ w, v = .word w → t.Admits w
  | _, _, .int, _, _, _, h, _, hrun => by
    cases hrun
    exact ⟨h, fun w _ => Ty.admits_of_ne (by decide) w⟩
  | _, _, .string, _, _, _, h, _, hrun => by
    cases hrun
    exact ⟨h, nofun⟩
  | .bool _ c, _, .bool, _, _, _, h, _, hrun => by
    cases hrun
    refine ⟨h, fun w hw => ?_⟩
    cases hw
    exact Ty.admits_ofBool _ c
  | e, _, .location hloc _, σ, _, _, h, _, hrun => by
    rw [Run.exp_of_isLocation _ hloc.isLocation, Run.fetch] at hrun
    split at hrun
    · next w hread =>
      cases hrun
      refine ⟨h, fun w' hw' => ?_⟩
      cases hw'
      exact h.read hloc hread
    · cases hrun
  | .assign _ l r, _, .assign hl _ hr, _, _, _, h, hfair, hrun => by
    rw [Run.exp] at hrun
    obtain ⟨w, σ₁, hvalue, hrun⟩ := andThen_eq_done.mp hrun
    cases hrun
    obtain ⟨h₁, hw⟩ := exp hcall hr h (hfair.enters (.exp .assign)) (word_eq_done.mp hvalue)
    refine ⟨h₁.write hl (hw w rfl), fun w' hw' => ?_⟩
    cases hw'
    exact hw w rfl
  | .call i f sp args, _, .call hfind _ hargs, σ, _, _, h, hfair, hrun => by
    obtain ⟨h', hresult⟩ := h.of_call hcall hfind
      (fun hrunargs => exps hcall hargs h (hfair.enters (.exp .args)) hrunargs)
      (fun hrunargs => hfair.enters (.exp (.call ⟨n, hrunargs⟩))) hrun
    exact ⟨h', hresult hfair.decent⟩
  | .neg _ e, _, .neg he, _, _, _, h, hfair, hrun => by
    rw [Run.exp] at hrun
    obtain ⟨w, σ₁, hvalue, hrun⟩ := andThen_eq_done.mp hrun
    cases hrun
    obtain ⟨h₁, -⟩ := exp hcall he h (hfair.enters (.exp .neg)) (word_eq_done.mp hvalue)
    exact ⟨h₁, fun w _ => Ty.admits_of_ne (by decide) w⟩
  | .not _ e, _, .not he, _, _, _, h, hfair, hrun => by
    rw [Run.exp] at hrun
    obtain ⟨w, σ₁, hvalue, hrun⟩ := andThen_eq_done.mp hrun
    cases hrun
    obtain ⟨h₁, hw⟩ := exp hcall he h (hfair.enters (.exp .not)) (word_eq_done.mp hvalue)
    refine ⟨h₁, fun w' hw' => ?_⟩
    cases hw'
    exact (hw w rfl).not
  | .binary _ op l r, _, .binary htypes hl hr, _, _, _, h, hfair, hrun => by
    rw [Run.exp] at hrun
    obtain ⟨y, σ₁, hright, hrun⟩ := andThen_eq_done.mp hrun
    obtain ⟨x, σ₂, hleft, hrun⟩ := andThen_eq_done.mp hrun
    have hright := word_eq_done.mp hright
    obtain ⟨h₁, hy⟩ := exp hcall hr h (hfair.enters (.exp .right)) hright
    obtain ⟨h₂, hx⟩ := exp hcall hl h₁ (hfair.enters (.exp (.left ⟨n, hright⟩)))
      (word_eq_done.mp hleft)
    rw [Run.operate] at hrun
    split at hrun
    · next z hz =>
      cases hrun
      refine ⟨h₂, fun w hw => ?_⟩
      cases hw
      exact htypes.admits (hx x rfl) (hy y rfl) hz
    · cases hrun

/-- The evaluation of expressions keeps variables truthful, and their words stand for values of
their types. -/
theorem exps (hcall : b.Trusts n) : ∀ {es : List Exp} {ts : List Ty},
    HaveTypes (Env.ofLive live scope) es ts → ∀ {σ σ' : Situation} {ws : List Word},
    b.Truthful live scope σ.store → (Phrase.exps es).Fair b.decls σ →
    Run.exps (Run.invoke b.decls n) es σ = .done ws σ' →
    b.Truthful live scope σ'.store ∧ List.Forall₂ Ty.Admits ts ws
  | _, _, .nil, _, _, _, h, _, hrun => by
    cases hrun
    exact ⟨h, .nil⟩
  | _ :: _, _, .cons he hes, _, _, _, h, hfair, hrun => by
    rw [Run.exps] at hrun
    obtain ⟨w, σ₁, hfirst, hrun⟩ := andThen_eq_done.mp hrun
    obtain ⟨ws, σ₂, hrest, hrun⟩ := andThen_eq_done.mp hrun
    cases hrun
    have hfirst := word_eq_done.mp hfirst
    obtain ⟨h₁, hw⟩ := exp hcall he h (hfair.enters .head) hfirst
    obtain ⟨h₂, hws⟩ := exps hcall hes h₁ (hfair.enters (.tail ⟨n, hfirst⟩)) hrest
    exact ⟨h₂, .cons (hw w rfl) hws⟩

end

/-! ## Statements -/

end Image.Truthful

/-- A word that is returned is the result, and it stands for a value of the type. -/
def Flow.Fits (flow : Flow) (ret : Ty) (σ : Situation) : Prop :=
  ∀ w, flow = .return (some w) → σ.result = w ∧ ret.Admits w

theorem Flow.fits_next (ret : Ty) (σ : Situation) : Flow.next.Fits ret σ := nofun

namespace Image.Truthful

variable {σ σ' : Situation} {flow : Flow} {ret : Ty}

/-- A block in a scope of its own keeps variables truthful if it does so in the scope. -/
theorem inner {body : Situation → Course Flow} {fair : Situation → Prop}
    (hbody : ∀ {σ σ' flow}, b.Truthful ([] :: live) scope σ.store → fair σ →
      body σ = .done flow σ' → ∃ ss, b.Truthful (ss :: live) scope σ'.store ∧ flow.Fits ret σ')
    (h : b.Truthful live scope σ.store) (hfair : fair (σ.within σ.store.locals.enter))
    (hrun : Run.inner body σ = .done flow σ') :
    b.Truthful live scope σ'.store ∧ flow.Fits ret σ' := by
  rw [Run.inner] at hrun
  obtain ⟨flow, σ₁, hinner, hdone⟩ := andThen_eq_done.mp hrun
  cases hdone
  obtain ⟨ss, h₁, hfits⟩ := hbody h.enter hfair hinner
  exact ⟨h₁.leave, hfits⟩

/-- A loop keeps variables truthful if its body does so. -/
theorem loop (hcall : b.Trusts n) {sp : Option Span} {e : Exp} {body : Block Stmt}
    (he : HasType (Env.ofLive live scope) e .bool)
    (hbody : ∀ {σ σ' flow}, b.Truthful live scope σ.store →
      (Phrase.block body).Fair b.decls (σ.within σ.store.locals.enter) →
      Run.inner (Run.block (Run.invoke b.decls n) n body) σ = .done flow σ' →
      b.Truthful live scope σ'.store ∧ flow.Fits ret σ') {k : Nat}
    (h : b.Truthful live scope σ.store)
    (hfair : (Phrase.stmt (.while sp e body)).Fair b.decls σ)
    (hrun : Run.loop (Run.exp (Run.invoke b.decls n) e)
      (Run.block (Run.invoke b.decls n) n body) k σ = .done flow σ') :
    b.Truthful live scope σ'.store ∧ flow.Fits ret σ' := by
  induction k generalizing σ with
  | zero => cases hrun
  | succ k ih =>
    rw [Run.loop] at hrun
    obtain ⟨w, σ₁, hcond, hrun⟩ := andThen_eq_done.mp hrun
    have hcond := word_eq_done.mp hcond
    obtain ⟨h₁, -⟩ := h.exp hcall he (hfair.enters (.operand rfl)) hcond
    split at hrun
    · cases hrun
      exact ⟨h₁, Flow.fits_next _ _⟩
    · next hw =>
      obtain ⟨flow₁, σ₂, hround, hrun⟩ := andThen_eq_done.mp hrun
      obtain ⟨h₂, hfits⟩ :=
        hbody h₁ (hfair.enters (.chosen rfl ⟨n, hcond⟩ (if_neg hw))) hround
      cases flow₁ with
      | next => exact ih h₂ (hfair.enters (.again ⟨n, hcond⟩ hw ⟨n, hround⟩)) hrun
      | «return» =>
        cases hrun
        exact ⟨h₂, hfits⟩

/-- A step from one number to another keeps variables truthful. -/
theorem step {e : Exp} {s : Storage} {m : Nat} {f : Word → Word} (h : b.Truthful live scope σ.store)
    (hloc : Locates (Env.ofLive live scope) e s m (.scalar .int))
    (hrun : Run.step f e σ = .done flow σ') :
    b.Truthful live scope σ'.store ∧ flow.Fits ret σ' := by
  obtain ⟨w, σ₁, hfetch, hdone⟩ := andThen_eq_done.mp hrun
  cases hdone
  have hfetch := word_eq_done.mp hfetch
  rw [Run.fetch] at hfetch
  split at hfetch
  · cases hfetch
    exact ⟨h.write hloc (Ty.admits_of_ne (by decide) _), Flow.fits_next _ _⟩
  · cases hfetch

mutual

/-- A statement keeps variables truthful, and a word that it returns stands for a value. -/
theorem stmt (hcall : b.Trusts n) : ∀ {st : Stmt} {live : List (List Storage)}
    {frame frame' : Frame}, StmtTyped ret (Env.ofLive live scope) frame st frame' →
    (∀ e ∈ st.allOperands, e.Told) → ∀ {σ σ' : Situation} {flow : Flow},
    b.Truthful live scope σ.store → (Phrase.stmt st).Fair b.decls σ →
    Run.stmt (Run.invoke b.decls n) n st σ = .done flow σ' →
    b.Truthful live scope σ'.store ∧ flow.Fits ret σ'
  | .assign _ _, _, _, _, .assign he, _, _, _, _, h, hfair, hrun
  | .write _ _, _, _, _, .write he _ _, _, _, _, _, h, hfair, hrun => by
    rw [Run.stmt] at hrun
    obtain ⟨v, σ₁, hvalue, hdone⟩ := andThen_eq_done.mp hrun
    cases hdone
    obtain ⟨h₁, -⟩ := h.exp hcall he (hfair.enters (.operand rfl)) hvalue
    exact ⟨⟨h₁.sound, h₁.within, h₁.contents⟩, Flow.fits_next _ _⟩
  | .increment _ _, _, _, _, .increment hloc, _, _, _, _, h, _, hrun
  | .decrement _ _, _, _, _, .decrement hloc, _, _, _, _, h, _, hrun => h.step hloc hrun
  | .read _ e, _, _, _, .read hloc hword, htold, σ, _, _, h, hfair, hrun => by
    rw [Run.stmt, Run.read] at hrun
    split at hrun
    · next w hinput =>
      cases hrun
      have htake : b.Truthful _ scope (σ.take w).store := ⟨h.sound, h.within, h.contents⟩
      refine ⟨htake.write hloc fun ht => ?_, Flow.fits_next _ _⟩
      subst ht
      have htype := (List.forall_mem_singleton.mp htold).tells (.location hloc hword)
      exact hfair.decent htype w hinput
    · cases hrun
  | .ifThen _ e body, _, _, _, .ifThen he hbody, htold, _, _, _, h, hfair, hrun => by
    rw [Run.stmt] at hrun
    obtain ⟨w, σ₁, hcond, hrun⟩ := andThen_eq_done.mp hrun
    have hcond := word_eq_done.mp hcond
    obtain ⟨h₁, -⟩ := h.exp hcall he (hfair.enters (.operand rfl)) hcond
    split at hrun
    · cases hrun
      exact ⟨h₁, Flow.fits_next _ _⟩
    · next hw =>
      exact h₁.inner (fun h₁ => block hcall h₁ hbody (List.forall_mem_cons.mp htold).2)
        (hfair.enters (.chosen rfl ⟨n, hcond⟩ (if_neg hw))) hrun
  | .ifElse _ e yes no, _, _, _, .ifElse he hyes hno, htold, _, _, _, h, hfair, hrun => by
    rw [Run.stmt] at hrun
    obtain ⟨w, σ₁, hcond, hrun⟩ := andThen_eq_done.mp hrun
    have hcond := word_eq_done.mp hcond
    obtain ⟨h₁, -⟩ := h.exp hcall he (hfair.enters (.operand rfl)) hcond
    obtain ⟨htoldyes, htoldno⟩ := List.forall_mem_append.mp (List.forall_mem_cons.mp htold).2
    split at hrun
    · next hw =>
      exact h₁.inner (fun h₁ => block hcall h₁ hno htoldno)
        (hfair.enters (.chosen rfl ⟨n, hcond⟩ (if_pos hw))) hrun
    · next hw =>
      exact h₁.inner (fun h₁ => block hcall h₁ hyes htoldyes)
        (hfair.enters (.chosen rfl ⟨n, hcond⟩ (if_neg hw))) hrun
  | .while _ e body, _, _, _, .while he hbody, htold, _, _, _, h, hfair, hrun =>
    h.loop hcall he
      (fun h₁ => h₁.inner fun h₁ => block hcall h₁ hbody (List.forall_mem_cons.mp htold).2)
      hfair hrun
  | .call _ _, _, _, _, .call (.call hfind _ hargs), _, _, _, _, h, hfair, hrun => by
    rw [Run.stmt] at hrun
    obtain ⟨v, σ₁, hvalue, hdone⟩ := andThen_eq_done.mp hrun
    cases hdone
    obtain ⟨h₁, -⟩ := h.of_call hcall hfind
      (fun hrunargs => h.exps hcall hargs (hfair.enters (.call .args)) hrunargs)
      (fun hrunargs => hfair.enters (.call (.call ⟨n, hrunargs⟩))) hvalue
    exact ⟨h₁, Flow.fits_next _ _⟩
  | .return _ none, _, _, _, _, _, _, _, _, h, _, hrun => by
    cases hrun
    exact ⟨h, nofun⟩
  | .return _ (some e), _, _, _, .return _ he, _, _, _, _, h, hfair, hrun => by
    rw [Run.stmt] at hrun
    obtain ⟨w, σ₁, hvalue, hdone⟩ := andThen_eq_done.mp hrun
    cases hdone
    obtain ⟨h₁, hw⟩ := h.exp hcall he (hfair.enters (.operand rfl)) (word_eq_done.mp hvalue)
    refine ⟨h₁, fun w' hw' => ?_⟩
    cases hw'
    exact ⟨rfl, hw w rfl⟩

/-- A block whose scope is open keeps variables truthful, those that it declares included. -/
theorem block (hcall : b.Trusts n) : ∀ {body : Block Stmt} {ss : List Storage}
    {live : List (List Storage)} {σ : Situation}, b.Truthful (ss :: live) scope σ.store →
    ∀ {frame frame' : Frame}, BlockTyped ret (Env.ofLive (ss :: live) scope) frame body frame' →
    (∀ e ∈ Stmt.blockOperands body, e.Told) → ∀ {σ' : Situation} {flow : Flow},
    (Phrase.block body).Fair b.decls σ → Run.block (Run.invoke b.decls n) n body σ = .done flow σ' →
    ∃ ss', b.Truthful (ss' :: live) scope σ'.store ∧ flow.Fits ret σ'
  | ⟨_, _, _⟩, _, _, _, h, _, _, .intro hds hss, htold, _, _, hfair, hrun => by
    obtain ⟨ss', henv, hnames⟩ := hds.names
    have hsound := hds.sound h.sound
    subst henv
    exact ⟨_, stmts hcall hss htold (h.declare hsound hnames) (hfair.enters .block) hrun⟩

/-- Statements keep variables truthful, and a word that they return stands for a value. -/
theorem stmts (hcall : b.Trusts n) : ∀ {sts : List Stmt} {live : List (List Storage)}
    {frame frame' : Frame}, StmtsTyped ret (Env.ofLive live scope) frame sts frame' →
    (∀ e ∈ Stmt.listOperands sts, e.Told) → ∀ {σ σ' : Situation} {flow : Flow},
    b.Truthful live scope σ.store → (Phrase.stmts sts).Fair b.decls σ →
    Run.stmts (Run.invoke b.decls n) n sts σ = .done flow σ' →
    b.Truthful live scope σ'.store ∧ flow.Fits ret σ'
  | [], _, _, _, _, _, _, _, _, h, _, hrun => by
    cases hrun
    exact ⟨h, Flow.fits_next _ _⟩
  | st :: sts, _, _, _, .cons hst hsts, htold, _, _, _, h, hfair, hrun => by
    obtain ⟨htoldfirst, htoldrest⟩ := List.forall_mem_append.mp htold
    rw [Run.stmts] at hrun
    obtain ⟨flow₁, σ₁, hfirst, hrun⟩ := andThen_eq_done.mp hrun
    obtain ⟨h₁, hfits⟩ := stmt hcall hst htoldfirst h (hfair.enters .first) hfirst
    cases flow₁ with
    | next => exact stmts hcall hsts htoldrest h₁ (hfair.enters (.rest ⟨n, hfirst⟩)) hrun
    | «return» =>
      cases hrun
      exact ⟨h₁, hfits⟩

end

/-! ## Functions -/

/-- The variables of a function that is called with words for values of the types of its formals. -/
theorem of_formals {d : FnDecl} {params : List Ty} {env' : Env} {inner : Frame} {ws : List Word}
    (hsound : Env.Sound [scope]) (hwithin : Env.Within [scope] b.top)
    (hformals : FormalsTyped (Env.ofLive [[]] scope) {} d.formals.items params env' inner)
    (hws : List.Forall₂ Ty.Admits params ws) {σ : Store}
    (hglobals : AlignedScope Storage.Truthful b.globals σ.globals) :
    ∃ ss, env' = Env.ofLive [ss] scope ∧ b.Truthful [ss] scope (σ.within [d.formals.bind ws]) := by
  obtain ⟨ss, henv, htruthful⟩ := hformals.truthful hws
  rw [List.nil_append] at henv
  refine ⟨ss, henv, ?_, hwithin, .cons htruthful (.cons hglobals .nil)⟩
  rw [← henv]
  exact hformals.sound hsound.enter

end Image.Truthful

/-- Fair calls leave the globals truthful, and return words for values of their types. -/
theorem Image.trusts (htold : ∀ d ∈ Decl.functions b.decls, ∀ e ∈ Stmt.blockOperands d.body, e.Told)
    (n : Nat) : b.Trusts n := by
  induction n with
  | zero =>
    intro d sig _ _ ws σ σ' _ _ _ hrun
    cases hrun
  | succ n ih =>
    intro d sig hd htyped ws σ σ' hws hglobals hfair hrun
    obtain ⟨env, hsound, hwithin, hone, hf⟩ := htyped
    obtain ⟨env', inner, frame, hformals, hbody, -⟩ := hf.body
    obtain ⟨scope, rfl⟩ := List.length_eq_one_iff.mp hone
    obtain ⟨ss, rfl, htruthful⟩ := Image.Truthful.of_formals hsound hwithin hformals hws hglobals
    rw [Run.invoke, find?_of_nodup (b.typed.names_nodup rfl) hd] at hrun
    obtain ⟨flow, σ₁, hblock, hrun⟩ := andThen_eq_done.mp hrun
    obtain ⟨ss', h₁, hfits⟩ :=
      Image.Truthful.block ih htruthful hbody (htold d hd) (hfair.enters (.body hd rfl)) hblock
    split at hrun
    · cases hrun
    · cases hrun
      refine ⟨rfl, h₁.globals, fun hreturns => ?_⟩
      obtain ⟨w, rfl⟩ := hreturns flow σ₁ ⟨n, hblock⟩
      obtain ⟨hresult, hw⟩ := hfits w rfl
      exact hresult ▸ hw

end CMinusMinus
