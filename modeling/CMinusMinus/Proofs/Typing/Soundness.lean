import CMinusMinus.Proofs.Typing.Expressions

/-!
# Programs without reports are typed

If neither pass reports anything of a program that was read, what they leave of it is typed
(`Program.Formed.typed`).  The walk follows the scopes: each declaration that is accepted
extends them by a sound symbol, so whatever is looked up later is sound.
-/

namespace CMinusMinus

open Outcome

/-! ## Declarations of variables -/

namespace Resolve

/-- A type without reports has storage of a shape that is laid out, and whose size can be
written. -/
theorem shape_of_silent {env : Env} (henv : env.Sound) {d : VarDecl} (h : (shape env d).Silent) :
    ∃ type sh, (shape env d).value = (type, some sh) ∧ sh.Laid ∧
      Text.isWritten sh.size = true ∧
      (d.type.isWordType = true → sh = .scalar (paramType d.type)) := by
  have hword : Text.isWritten ((4 : Nat) : Int) = true := by decide
  unfold shape at h ⊢
  split
  · next hd => exact ⟨_, _, rfl, .scalar (.inl rfl), hword, fun _ => by rw [hd]; rfl⟩
  · next hd => exact ⟨_, _, rfl, .scalar (.inr rfl), hword, fun _ => by rw [hd]; rfl⟩
  · next hd =>
    rw [hd] at h
    cases h.reports
  · next hd =>
    rw [hd] at h
    dsimp only at h
    split
    · next layout hlayout =>
      cases henv.outer? hlayout with
      | struct hlaid hwritten =>
        exact ⟨_, _, rfl, .struct hlaid, hwritten, fun hw => by rw [hd] at hw; cases hw⟩
    · next hnone =>
      split at h
      · next layout hlayout => exact absurd hlayout (hnone layout)
      · cases h.reports
  · next hd =>
    rw [hd] at h
    cases h.fault

/-- A declaration without reports is accepted. -/
theorem declare_of_silent {env : Env} (henv : env.Sound) {taken : Option NameCause}
    {place : Shape StructDef → Place} {d : VarDecl} (h : (declare env taken place d).Silent) :
    taken = none ∧ ∃ d' s, (declare env taken place d).value = (d', some s) ∧
      d'.role = d.role ∧ d'.name = d.name.bind (.storage s) ∧ s.name = d.name.name ∧
      s.place = place s.shape ∧ s.shape.Laid ∧ Text.isWritten s.shape.size = true ∧
      (d.type.isWordType = true → s.shape = .scalar (paramType d.type)) := by
  unfold declare at h ⊢
  rw [silent_andThen] at h
  obtain ⟨type, sh, hvalue, hlaid, hwritten, hword⟩ := shape_of_silent henv h.1
  rw [value_andThen h.1.fault]
  rw [hvalue] at h ⊢
  cases taken with
  | some cause => cases h.2.reports
  | none => exact ⟨rfl, _, _, rfl, rfl, rfl, rfl, rfl, hlaid, hwritten, hword⟩

theorem taken_eq_none {env : Env} {name : String} (h : taken env name = none) :
    env.inner? name = none :=
  Option.map_eq_none_iff.mp h

theorem localsTyped_of_silent {env : Env} (henv : env.Sound) {frame : Frame}
    {ds : List VarDecl} (h : (localVars env frame ds).Silent) :
    LocalsTyped env frame (localVars env frame ds).value.1 (localVars env frame ds).value.2.1
        (localVars env frame ds).value.2.2 ∧
      Env.Sound (localVars env frame ds).value.2.1 := by
  induction ds generalizing env frame with
  | nil => exact ⟨.nil, henv⟩
  | cons d ds ih =>
    rw [localVars, silent_andThen, silent_map] at h
    obtain ⟨hd, hds⟩ := h
    have hdeclare := hd
    rw [localVar, silent_andThen] at hdeclare
    obtain ⟨htaken, d', s, hvalue, -, hname, hsname, hplace, hlaid, -⟩ :=
      declare_of_silent henv hdeclare.1
    rw [localVars, value_andThen hd.fault]
    simp only [value_map, value_localVar, hvalue] at hds ⊢
    have hsound : Symbol.Sound s.name (.storage s) :=
      .storage rfl (Storage.placed_of_frame hplace) hlaid
    obtain ⟨htail, henv'⟩ := ih (henv.insert hsound) hds
    have hintro : Introduces env d' s :=
      { binding := by rw [hname]; rfl
        name := by rw [hname, hsname]; rfl
        laid := hlaid
        fresh := by rw [hsname]; exact taken_eq_none htaken }
    exact ⟨.cons hintro hplace htail, henv'⟩

theorem formalsTyped_of_silent {env : Env} (henv : env.Sound) {frame : Frame}
    {ds : List VarDecl} (hds : ∀ d ∈ ds, d.FormedFormal) (h : (formals env frame ds).Silent) :
    FormalsTyped env frame (formals env frame ds).value.1 (ds.map (paramType ·.type))
        (formals env frame ds).value.2.1 (formals env frame ds).value.2.2 ∧
      Env.Sound (formals env frame ds).value.2.1 := by
  induction ds generalizing env frame with
  | nil => exact ⟨.nil, henv⟩
  | cons d ds ih =>
    obtain ⟨hd, hds⟩ := List.forall_mem_cons.mp hds
    rw [formals, silent_andThen, silent_map] at h
    rw [formals, value_andThen h.1.fault]
    obtain ⟨htaken, d', s, hvalue, -, hname, hsname, hplace, hlaid, -, hword⟩ :=
      declare_of_silent henv h.1
    simp only [value_map, hvalue] at h ⊢
    have hsound : Symbol.Sound s.name (.storage s) :=
      .storage rfl (Storage.placed_of_frame hplace) hlaid
    obtain ⟨htail, henv'⟩ := ih (henv.insert hsound) hds h.2
    have hintro : Introduces env d' s :=
      { binding := by rw [hname]; rfl
        name := by rw [hname, hsname]; rfl
        laid := hlaid
        fresh := by rw [hsname]; exact taken_eq_none htaken }
    have hshape := hword hd.type
    rw [hshape] at hlaid
    exact ⟨.cons hintro hplace hshape hlaid.scalar_isWord htail, henv'⟩

theorem laid_of_silent {env : Env} (henv : env.Sound) {before : List (Field StructDef)}
    {size : Nat} (hbefore : FieldsLaid before size) {ds : List VarDecl}
    (h : (fields env before size ds).Silent) :
    FieldsLaid (fields env before size ds).value.2.1 (fields env before size ds).value.2.2 := by
  induction ds generalizing before size with
  | nil => exact hbefore
  | cons d ds ih =>
    rw [fields, silent_andThen, silent_map] at h
    rw [fields, value_andThen h.1.fault]
    obtain ⟨htaken, d', s, hvalue, -, -, hsname, -, hlaid, -⟩ := declare_of_silent henv h.1
    simp only [value_map, hvalue] at h ⊢
    have hfresh : ∀ g ∈ before, g.name ≠ s.name := by
      intro g hg hname
      unfold takenField at htaken
      rw [if_pos] at htaken
      · cases htaken
      · exact List.any_eq_true.mpr ⟨g, hg, beq_iff_eq.mpr (hname.trans hsname)⟩
    exact ih (.snoc hbefore hfresh rfl hlaid) h.2

end Resolve

/-! ## Statements -/

theorem Check.silent_operand {e : Exp} {complain : Part → List Report} :
    (operand e complain).Silent ↔ (exp e).Silent ∧ complain (exp e).value = [] := by
  rw [operand, silent_andThen, silent_reporting]

theorem Check.value_operand {e : Exp} {complain : Part → List Report} :
    (operand e complain).value = (exp e).value.exp := by
  rw [operand]
  unfold andThen
  split <;> rfl

/-- A part that is wanted to be a word is one. -/
theorem Given.of_want {env : Env} (henv : env.Sound) {p : Check.Part} {t : Ty}
    {cause : TypeCause} (h : Given env p.exp p.type) (ht : t.IsWord)
    (hwant : Check.want t cause p = []) : HasType env p.exp t := by
  rw [Check.want_eq_nil (h.ne_error henv) hwant] at h
  exact h.hasType_of_isWord ht

theorem Check.reportIf_eq_nil {cause : Option TypeCause} {e : Exp} (h : reportIf cause e = []) :
    cause = none := by
  cases cause with
  | none => rfl
  | some c => cases h

/-- A location that may be read into holds a word. -/
theorem Given.of_readable {env : Env} {e : Exp} {t : Ty} (h : Given env e t)
    (he : e.isLocation = true) (hread : Check.notReadable t = none) :
    ∃ s n, Locates env e s n (.scalar t) ∧ t.IsWord := by
  cases h with
  | value h => exact h.locates he
  | struct => cases hread
  | name _ hs => rcases hs with hs | hs <;> rw [hs] at hread <;> cases hread

/-- What may be written is a word or a text. -/
theorem Given.of_writable {env : Env} (henv : env.Sound) {e : Exp} {t : Ty}
    (h : Given env e t) (hwrite : Check.notWritable t = none) :
    HasType env e t ∧ (t.IsWord ∨ t = .string) := by
  cases h with
  | value h =>
    refine ⟨h, ?_⟩
    rcases h.cases_type henv with hw | hs | rfl
    · exact .inl hw
    · exact .inr hs
    · cases hwrite
  | struct => cases hwrite
  | name _ hs => rcases hs with hs | hs <;> rw [hs] at hwrite <;> cases hwrite

/-- What may be returned is of the type of the result. -/
theorem Given.of_returned {env : Env} (henv : env.Sound) {ret : Ty}
    (hret : ret.IsWord ∨ ret = .void) {p : Check.Part} (h : Given env p.exp p.type)
    (hreturn : Check.returned ret p = []) : ret.IsWord ∧ HasType env p.exp ret := by
  unfold Check.returned at hreturn
  split at hreturn
  · cases hreturn
  · next hvoid =>
    have hword := hret.resolve_right hvoid
    split at hreturn
    · next hor =>
      have hagree := (Ty.agrees_iff.mp (hor.resolve_left (h.ne_error henv))).1
      rw [hagree] at h
      exact ⟨hword, h.hasType_of_isWord hword⟩
    · cases hreturn

/-- An assignment is one after type checking too. -/
theorem Check.assign_exp (env : Env) {e : Exp} (h : e.isAssignment = true) :
    ∃ i l r, (Check.exp (Resolve.exp env e).value).value.exp = .assign i l r := by
  cases e with
  | assign i l r =>
    rw [Resolve.exp]
    unfold andThen
    split <;> (dsimp only [map]; rw [Check.exp]; unfold andThen; split)
    · exact ⟨_, _, _, rfl⟩
    · dsimp only
      split <;> exact ⟨_, _, _, rfl⟩
    · exact ⟨_, _, _, rfl⟩
    · dsimp only
      split <;> exact ⟨_, _, _, rfl⟩
  | _ => cases h

/-- A call is one after type checking too. -/
theorem Check.call_exp (env : Env) {e : Exp} (h : e.isCall = true) :
    ∃ i f sp args, (Check.exp (Resolve.exp env e).value).value.exp = .call i f sp args := by
  cases e with
  | call i f sp args =>
    rw [Resolve.exp]
    unfold andThen
    split <;> (dsimp only [map]; rw [Check.exp]; unfold andThen; split)
    · exact ⟨_, _, _, _, rfl⟩
    · dsimp only
      split <;> exact ⟨_, _, _, _, rfl⟩
    · exact ⟨_, _, _, _, rfl⟩
    · dsimp only
      split <;> exact ⟨_, _, _, _, rfl⟩
  | _ => cases h

mutual

/-- A statement without reports is typed after both passes. -/
theorem stmtTyped_of_silent {ret : Ty} (hret : ret.IsWord ∨ ret = .void) {env : Env}
    (henv : env.Sound) (frame : Frame) : ∀ {s : Stmt}, s.Formed →
    (Resolve.stmt env frame s).Silent →
    (Check.stmt ret (Resolve.stmt env frame s).value.1).Silent →
    StmtTyped ret env frame (Check.stmt ret (Resolve.stmt env frame s).value.1).value
      (Resolve.stmt env frame s).value.2
  | .assign _ e, h, hr, hc => by
    rw [Resolve.stmt, silent_map] at hr
    rw [Resolve.stmt, value_map] at hc ⊢
    rw [Check.stmt, silent_map, Check.silent_operand] at hc
    rw [Check.stmt, value_map, Check.value_operand]
    have hgiven := given_exp henv h.2 hr hc.1
    obtain ⟨i, l, r, he⟩ := Check.assign_exp env h.1
    rw [he] at hgiven ⊢
    exact .assign (hgiven.hasType_of_not_isLocation rfl)
  | .increment _ e, h, hr, hc => by
    rw [Resolve.stmt, silent_map] at hr
    rw [Resolve.stmt, value_map] at hc ⊢
    rw [Check.stmt, silent_map, Check.silent_operand] at hc
    rw [Check.stmt, value_map, Check.value_operand]
    have hgiven := given_exp henv h.2 hr hc.1
    have hloc := ((Check.isLocation_exp _).trans (Resolve.isLocation_exp env e)).trans h.1
    obtain ⟨s, n, hlocated, -⟩ := (hgiven.of_want henv (.inl rfl) hc.2).locates hloc
    exact .increment hlocated
  | .decrement _ e, h, hr, hc => by
    rw [Resolve.stmt, silent_map] at hr
    rw [Resolve.stmt, value_map] at hc ⊢
    rw [Check.stmt, silent_map, Check.silent_operand] at hc
    rw [Check.stmt, value_map, Check.value_operand]
    have hgiven := given_exp henv h.2 hr hc.1
    have hloc := ((Check.isLocation_exp _).trans (Resolve.isLocation_exp env e)).trans h.1
    obtain ⟨s, n, hlocated, -⟩ := (hgiven.of_want henv (.inl rfl) hc.2).locates hloc
    exact .decrement hlocated
  | .read _ e, h, hr, hc => by
    rw [Resolve.stmt, silent_map] at hr
    rw [Resolve.stmt, value_map] at hc ⊢
    rw [Check.stmt, silent_map, Check.silent_operand] at hc
    rw [Check.stmt, value_map, Check.value_operand]
    have hgiven := given_exp henv h.2 hr hc.1
    have hloc := ((Check.isLocation_exp _).trans (Resolve.isLocation_exp env e)).trans h.1
    obtain ⟨s, n, hlocated, ht⟩ := hgiven.of_readable hloc (Check.reportIf_eq_nil hc.2)
    exact .read hlocated ht
  | .write _ e, h, hr, hc => by
    rw [Resolve.stmt, silent_map] at hr
    rw [Resolve.stmt, value_map] at hc ⊢
    rw [Check.stmt, silent_map, Check.silent_operand] at hc
    rw [Check.stmt, value_map, Check.value_operand]
    have hgiven := given_exp henv (e := e) h hr hc.1
    obtain ⟨ht, hcases⟩ := hgiven.of_writable henv (Check.reportIf_eq_nil hc.2)
    exact .write ht hcases (Check.type_exp hc.1.fault)
  | .ifThen _ e b, h, hr, hc => by
    rw [Resolve.stmt, silent_andThen, silent_map] at hr
    rw [Resolve.stmt, value_andThen hr.1.fault, value_map] at hc ⊢
    rw [Check.stmt, silent_andThen, silent_map, Check.silent_operand] at hc
    rw [Check.stmt, value_andThen (Check.silent_operand.mpr hc.1).fault, value_map,
      Check.value_operand]
    have hcond := (given_exp henv h.1 hr.1 hc.1.1).of_want henv (.inr rfl) hc.1.2
    exact .ifThen hcond (blockTyped_of_silent hret henv.enter frame h.2 hr.2 hc.2)
  | .ifElse _ e b₁ b₂, h, hr, hc => by
    rw [Resolve.stmt, silent_andThen, silent_andThen, silent_map] at hr
    rw [Resolve.stmt, value_andThen hr.1.fault, value_andThen hr.2.1.fault, value_map] at hc ⊢
    rw [Check.stmt, silent_andThen, silent_andThen, silent_map, Check.silent_operand] at hc
    rw [Check.stmt, value_andThen (Check.silent_operand.mpr hc.1).fault,
      value_andThen hc.2.1.fault, value_map, Check.value_operand]
    have hcond := (given_exp henv h.1 hr.1 hc.1.1).of_want henv (.inr rfl) hc.1.2
    exact .ifElse hcond (blockTyped_of_silent hret henv.enter frame h.2.1 hr.2.1 hc.2.1)
      (blockTyped_of_silent hret henv.enter _ h.2.2 hr.2.2 hc.2.2)
  | .while _ e b, h, hr, hc => by
    rw [Resolve.stmt, silent_andThen, silent_map] at hr
    rw [Resolve.stmt, value_andThen hr.1.fault, value_map] at hc ⊢
    rw [Check.stmt, silent_andThen, silent_map, Check.silent_operand] at hc
    rw [Check.stmt, value_andThen (Check.silent_operand.mpr hc.1).fault, value_map,
      Check.value_operand]
    have hcond := (given_exp henv h.1 hr.1 hc.1.1).of_want henv (.inr rfl) hc.1.2
    exact .while hcond (blockTyped_of_silent hret henv.enter frame h.2 hr.2 hc.2)
  | .call _ e, h, hr, hc => by
    rw [Resolve.stmt, silent_map] at hr
    rw [Resolve.stmt, value_map] at hc ⊢
    rw [Check.stmt, silent_map, Check.silent_operand] at hc
    rw [Check.stmt, value_map, Check.value_operand]
    have hgiven := given_exp henv h.2 hr hc.1
    obtain ⟨i, f, sp, args, he⟩ := Check.call_exp env h.1
    rw [he] at hgiven ⊢
    exact .call (hgiven.hasType_of_not_isLocation rfl)
  | .return _ none, _, _, hc => by
    refine .exit ?_
    have hreports := hc.reports
    rw [Resolve.stmt, value_pure, Check.stmt, reports_reporting] at hreports
    split at hreports
    · assumption
    · cases hreports
  | .return _ (some e), h, hr, hc => by
    rw [Resolve.stmt, silent_map] at hr
    rw [Resolve.stmt, value_map] at hc ⊢
    rw [Check.stmt, silent_map, Check.silent_operand] at hc
    rw [Check.stmt, value_map, Check.value_operand]
    have hgiven := given_exp henv (e := e) h hr hc.1
    obtain ⟨hword, ht⟩ := hgiven.of_returned henv hret hc.2
    exact .return hword ht

theorem blockTyped_of_silent {ret : Ty} (hret : ret.IsWord ∨ ret = .void) {env : Env}
    (henv : env.Sound) (frame : Frame) : ∀ {b : Block Stmt}, Stmt.BlockFormed b →
    (Resolve.block env frame b).Silent →
    (Check.block ret (Resolve.block env frame b).value.1).Silent →
    BlockTyped ret env frame (Check.block ret (Resolve.block env frame b).value.1).value
      (Resolve.block env frame b).value.2
  | ⟨ds, _, ss⟩, h, hr, hc => by
    rw [Resolve.block, silent_andThen, silent_map] at hr
    rw [Resolve.block, value_andThen hr.1.fault, value_map] at hc ⊢
    rw [Check.block, silent_map] at hc
    rw [Check.block, value_map]
    obtain ⟨hlocals, henv'⟩ := Resolve.localsTyped_of_silent henv hr.1
    exact .intro hlocals (stmtsTyped_of_silent hret henv' _ h.2 hr.2 hc)

theorem stmtsTyped_of_silent {ret : Ty} (hret : ret.IsWord ∨ ret = .void) {env : Env}
    (henv : env.Sound) (frame : Frame) : ∀ {ss : List Stmt}, Stmt.AllFormed ss →
    (Resolve.stmts env frame ss).Silent →
    (Check.stmts ret (Resolve.stmts env frame ss).value.1).Silent →
    StmtsTyped ret env frame (Check.stmts ret (Resolve.stmts env frame ss).value.1).value
      (Resolve.stmts env frame ss).value.2
  | [], _, _, _ => .nil
  | s :: ss, h, hr, hc => by
    rw [Resolve.stmts, silent_andThen, silent_map] at hr
    rw [Resolve.stmts, value_andThen hr.1.fault, value_map] at hc ⊢
    rw [Check.stmts, silent_andThen, silent_map] at hc
    rw [Check.stmts, value_andThen hc.1.fault, value_map]
    exact .cons (stmtTyped_of_silent hret henv frame h.1 hr.1 hc.1)
      (stmtsTyped_of_silent hret henv _ h.2 hr.2 hc.2)

end

/-! ## Programs -/

namespace Resolve

theorem name_of_silent {env : Env} {x : Ident} {s : Symbol} (h : (name env x s).Silent) :
    env.inner? x.name = none ∧ (name env x s).value = (x.bind s, env.insert x.name s) := by
  unfold name at h ⊢
  split
  · next cause hcause =>
    rw [hcause] at h
    cases h.reports
  · next hnone => exact ⟨taken_eq_none hnone, rfl⟩

/-- The formals of a function without reports are words. -/
theorem isWord_of_silent {env : Env} {frame : Frame} {ds : List VarDecl}
    (hds : ∀ d ∈ ds, d.FormedFormal) (h : (formals env frame ds).Silent) :
    ∀ t ∈ ds.map (paramType ·.type), t.IsWord := by
  induction ds generalizing env frame with
  | nil => intro t ht; cases ht
  | cons d ds ih =>
    obtain ⟨hd, hds⟩ := List.forall_mem_cons.mp hds
    rw [formals, silent_andThen, silent_map] at h
    refine List.forall_mem_cons.mpr ⟨?_, ih hds h.2⟩
    have hshape := h.1
    unfold declare at hshape
    rw [silent_andThen] at hshape
    have hword := hd.type
    unfold shape at hshape
    show (paramType d.type).IsWord
    cases htype : d.type with
    | int => exact .inl rfl
    | bool => exact .inr rfl
    | void =>
      simp only [htype] at hshape
      cases hshape.1.reports
    | struct =>
      rw [htype] at hword
      cases hword
    | unknown =>
      rw [htype] at hword
      cases hword

theorem paramTypes_of_formed {ds : List VarDecl} (hds : ∀ d ∈ ds, d.FormedFormal) :
    paramTypes ds = ds.map (paramType ·.type) := by
  refine if_pos (List.all_eq_true.mpr fun d hd => ?_)
  obtain ⟨t, ht, -⟩ := TypeNode.type_of_isWordType (hds d hd).type
  rw [ht]

/-- A function without reports is typed, in the scopes that have it. -/
theorem fnTyped_of_silent {env : Env} (henv : env.Sound) {d : FnDecl} (hd : d.Formed)
    (hr : (fnDecl env d).Silent) (hc : (Check.fnDecl (fnDecl env d).value.1).Silent) :
    ∃ sig, env.inner? sig.name = none ∧
      FnTyped (env.insert sig.name (.function sig))
        (Check.fnDecl (fnDecl env d).value.1).value sig ∧
      (fnDecl env d).value.2 = env.insert sig.name (.function sig) ∧
      Symbol.Sound sig.name (.function sig) := by
  obtain ⟨returns, hreturns, hcases⟩ := TypeNode.type_of_isWordType hd.returns
  have hresult : returns.IsWord ∨ returns = .void := by
    rcases hcases with h | h | h
    · exact .inl (.inl h)
    · exact .inl (.inr h)
    · exact .inr h
  rw [(fnDecl_of_formed hd hreturns hr.fault).2] at hc ⊢
  unfold fnDecl at hr
  rw [hreturns] at hr
  dsimp only at hr
  rw [silent_andThen, silent_andThen, silent_andThen] at hr
  obtain ⟨hname, hformals, hbody, -⟩ := hr
  obtain ⟨hfresh, hnamed⟩ := name_of_silent hname
  rw [hnamed] at hformals hbody hc ⊢
  dsimp only at hformals hbody hc ⊢
  have hparams := paramTypes_of_formed hd.formals
  have hsound : Symbol.Sound d.name.name (.function (signature d returns)) := by
    refine .function rfl ?_ ?_ hresult
    · show (paramTypes d.formals.items).length = _
      rw [hparams, List.length_map]
      rfl
    · show ∀ t ∈ paramTypes d.formals.items, t.IsWord
      rw [hparams]
      exact isWord_of_silent hd.formals hformals
  unfold Check.fnDecl at hc ⊢
  simp only [hreturns] at hc ⊢
  rw [silent_map] at hc
  rw [value_map]
  have henv' := (henv.insert hsound).enter
  obtain ⟨hftyped, henv''⟩ := formalsTyped_of_silent henv' hd.formals hformals
  have hbtyped := blockTyped_of_silent hresult henv'' _ hd.body hbody hc
  refine ⟨signature d returns, hfresh, ?_, rfl, hsound⟩
  rw [← hparams] at hftyped
  have hlength := (placed_formals (env.insert d.name.name (.function (signature d returns))).enter
    {} hd.formals).1
  exact
    { named := hd.name
      name := rfl
      returns := hreturns
      result := hresult
      arity := hlength.symm
      body := ⟨_, _, _, hftyped, hbtyped, rfl⟩ }

/-- A struct without reports is laid out, and its size can be written. -/
theorem structDecl_of_silent {env : Env} (henv : env.Sound) {d : StructDecl}
    (h : (structDecl env d).Silent) :
    ∃ d' layout, (structDecl env d).value =
        (d', env.insert d'.name.name (.struct layout)) ∧
      env.inner? d'.name.name = none ∧ layout.Laid ∧ Text.isWritten layout.size = true := by
  unfold structDecl at h ⊢
  rw [silent_andThen, silent_reporting, silent_andThen] at h
  obtain ⟨htaken, hfields, hlogged⟩ := h
  rw [value_andThen rfl, value_andThen hfields.fault]
  cases hcause : taken env d.name.name with
  | some cause =>
    rw [hcause] at htaken
    cases htaken
  | none =>
    rw [hcause] at hlogged
    exact ⟨_, _, value_logged _ _, taken_eq_none hcause, laid_of_silent henv .nil hfields,
      isWritten_of_logged hlogged.fault⟩

end Resolve

/-- Declarations without reports are typed after both passes. -/
theorem declsTyped_of_silent {env : Env} (henv : env.Sound) {ds : List Decl}
    (h : ∀ d ∈ ds, d.Formed) (hr : (Resolve.decls env ds).Silent)
    (hc : (Check.decls (Resolve.decls env ds).value.1).Silent) :
    DeclsTyped env (Check.decls (Resolve.decls env ds).value.1).value
      (Resolve.decls env ds).value.2.1 := by
  induction ds generalizing env with
  | nil => exact .nil
  | cons d ds ih =>
    obtain ⟨hd, hds⟩ := List.forall_mem_cons.mp h
    rw [Resolve.decls, silent_andThen, silent_map] at hr
    rw [Resolve.decls, value_andThen hr.1.fault] at hc ⊢
    simp only [value_map] at hc ⊢
    rw [Check.decls, silent_andThen, silent_map] at hc
    rw [Check.decls, value_andThen hc.1.fault, value_map]
    have htail := fun henv' => ih henv' hds hr.2 hc.2
    have hhead := hr.1
    have hchead := hc.1
    cases d with
    | unknown => exact hd.elim
    | var d =>
      rw [Decl.Formed] at hd
      simp only [Resolve.decl, hd.role, silent_map, value_map] at hhead htail ⊢
      obtain ⟨htaken, d', s, hvalue, hrole, hname, hsname, hplace, hlaid, hwritten, -⟩ :=
        Resolve.declare_of_silent henv hhead
      simp only [hvalue] at htail ⊢
      refine .var (hrole.trans hd.role) (hname ▸ hd.name) ?_ hplace hwritten
        (htail (henv.insert ?_))
      · exact
          { binding := by rw [hname]; rfl
            name := by rw [hname, hsname]; rfl
            laid := hlaid
            fresh := by rw [hsname]; exact Resolve.taken_eq_none htaken }
      · exact .storage rfl (Storage.placed_of_static hplace) hlaid
    | fn d =>
      rw [Decl.Formed] at hd
      simp only [Resolve.decl, Check.decl, silent_map, value_map] at hhead hchead htail ⊢
      obtain ⟨sig, hfresh, htyped, henv', hsound⟩ :=
        Resolve.fnTyped_of_silent henv hd hhead hchead
      rw [henv'] at htail ⊢
      exact .fn hfresh htyped (htail (henv.insert hsound))
    | struct d =>
      rw [Decl.Formed] at hd
      simp only [Resolve.decl, silent_map, value_map] at hhead htail ⊢
      obtain ⟨d', layout, hvalue, hfresh, hlaid, hwritten⟩ :=
        Resolve.structDecl_of_silent henv hhead
      simp only [hvalue] at htail ⊢
      exact .struct hfresh hlaid hwritten (htail (henv.insert (.struct hlaid hwritten)))

theorem Env.sound_empty : Env.Sound [[]] := by
  intro scope hscope d hd
  cases List.mem_singleton.mp hscope
  cases hd

/-- A program that was read is typed after both passes if they come to their end and report nothing
of it. -/
theorem Program.Formed.typed {p : Program} (h : p.Formed) (hfault : p.resolve.fault = none)
    {hasMain : Bool} (hr : p.resolve.reports = [])
    (hc : (p.resolve.program.check hasMain).reports = []) :
    ∃ env, (p.resolve.program.check hasMain).value.Typed env ∧ hasMain = true := by
  obtain ⟨hresolve, hcheck⟩ := h.silent hfault hr hc
  rw [Program.check, silent_andThen, silent_reporting] at hcheck
  refine ⟨(Resolve.decls (Scopes.enter []) p.decls).value.2.1, ?_, ?_⟩
  · rw [Program.check, value_andThen hcheck.1.fault]
    exact declsTyped_of_silent Env.sound_empty h hresolve hcheck.1
  · cases hasMain with
    | true => rfl
    | false => cases hcheck.2

end CMinusMinus
