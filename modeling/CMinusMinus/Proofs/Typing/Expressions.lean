import CMinusMinus.Proofs.Typing

/-!
# Expressions without reports have types

If neither pass reports anything of an expression, what they leave of it satisfies the
judgements (`given_exp`).  The judgements speak of values and of locations only, but a part of an
expression may also be a struct variable, the name of a function or that of a struct; `Given`
covers these too, and it is the rules of the nodes around them that refuse them.
-/

namespace CMinusMinus

open Outcome

/-! ## Scopes -/

theorem Scope.mem_of_find? {σ : Type} {scope : Scope σ} {name : String} {x : σ}
    (h : scope.find? name = some x) : (name, x) ∈ scope := by
  induction scope with
  | nil => cases h
  | cons d scope ih =>
    obtain ⟨n, y⟩ := d
    rw [Scope.find?, List.lookup_cons] at h
    split at h
    · next heq =>
      cases h
      rw [eq_of_beq heq]
      exact List.mem_cons_self
    · exact List.mem_cons_of_mem _ (ih h)

namespace Env.Sound

variable {env : Env} (h : env.Sound)
include h

theorem find? {name : String} {s : Symbol} (hs : env.find? name = some s) : s.Sound name := by
  obtain ⟨scope, hscope, hfind⟩ := List.exists_of_findSome?_eq_some hs
  exact h scope hscope _ (Scope.mem_of_find? hfind)

theorem outer? {name : String} {s : Symbol} (hs : env.outer? name = some s) :
    s.Sound name := by
  obtain ⟨scope, hscope, hfind⟩ := Option.bind_eq_some_iff.mp hs
  exact h scope (List.mem_of_getLast? hscope) _ (Scope.mem_of_find? hfind)

theorem enter : Env.Sound env.enter := by
  intro scope hscope
  rcases List.mem_cons.mp hscope with rfl | hscope
  · intro d hd
    cases hd
  · exact h scope hscope

theorem insert {name : String} {s : Symbol} (hs : s.Sound name) :
    Env.Sound (env.insert name s) := by
  cases env with
  | nil => exact h
  | cons scope outer =>
    intro scope' hscope' d hd
    rcases List.mem_cons.mp hscope' with rfl | hscope'
    · rcases List.mem_append.mp hd with hd | hd
      · exact h scope List.mem_cons_self d hd
      · cases List.mem_singleton.mp hd
        exact hs
    · exact h scope' (List.mem_cons_of_mem _ hscope') d hd

end Env.Sound

/-! ## Locations -/

theorem FieldsLaid.of_mem : ∀ {fs : List (Field StructDef)} {size : Nat},
    FieldsLaid fs size → ∀ {f : Field StructDef}, f ∈ fs → f.shape.Laid
  | _, _, .nil, _, hf => by cases hf
  | _, _, .snoc hfs _ _ hshape, _, hf => by
    rcases List.mem_append.mp hf with hf | hf
    · exact hfs.of_mem hf
    · cases List.mem_singleton.mp hf
      exact hshape

theorem StructDef.Laid.field {d : StructDef} (h : d.Laid) {name : String}
    {f : Field StructDef} (hf : d.field? name = some f) : f.shape.Laid :=
  FieldsLaid.of_mem h (List.mem_of_find?_eq_some hf)

theorem Shape.Laid.scalar_isWord {t : Ty} (h : Shape.Laid (.scalar t)) : t.IsWord := by
  cases h with
  | scalar ht => exact ht

namespace Locates

variable {env : Env} {e : Exp} {s : Storage} {n : Nat} {sh : Shape StructDef}

theorem isLocation (h : Locates env e s n sh) : e.isLocation = true := by
  cases h <;> rfl

/-- The storage that a location lies in is sound. -/
theorem root (h : Locates env e s n sh) (henv : env.Sound) :
    s.place ≠ .unplaced ∧ s.shape.Laid := by
  induction h with
  | ident hfind _ =>
    cases henv.find? hfind with
    | storage _ hplace hlaid => exact ⟨hplace, hlaid⟩
  | access _ _ _ ih => exact ih

theorem laid (h : Locates env e s n sh) (henv : env.Sound) : sh.Laid := by
  induction h with
  | ident hfind hbound => exact (Locates.ident hfind hbound).root henv |>.2
  | access _ hfield _ ih =>
    cases ih with
    | struct hd => exact StructDef.Laid.field hd hfield

/-- What a field is asked of, if it is asked of the location. -/
theorem base (h : Locates env e s n sh) (d : StructDef) : e.base = .struct d ↔ sh = .struct d := by
  cases h with
  | ident _ hbound =>
    rw [Exp.base, hbound]
    cases s with
    | mk name site place shape => cases shape <;> simp
  | access hloc hfield hbound =>
    rw [Exp.base]
    rename_i g
    cases hg : g.shape with
    | scalar t => simp [Shape.struct?]
    | struct d' => simp [Shape.struct?]

theorem base_ne_failed (h : Locates env e s n sh) : e.base ≠ .failed := by
  cases h with
  | ident _ hbound =>
    rw [Exp.base, hbound]
    split <;> simp_all
  | access =>
    rw [Exp.base]
    dsimp only
    split <;> simp_all
    split <;> simp

end Locates

/-! ## Types of expressions -/

theorem BinOp.Types.isWord_result {op : BinOp} {s t : Ty} (h : op.Types s t) : t.IsWord := by
  cases op with
  | other => exact h.elim
  | add | sub | mul | div => exact .inl h.2
  | _ => exact .inr h.2

theorem HasType.locates {env : Env} {e : Exp} {t : Ty} (h : HasType env e t)
    (he : e.isLocation = true) : ∃ s n, Locates env e s n (.scalar t) ∧ t.IsWord := by
  cases h with
  | location hloc ht => exact ⟨_, _, hloc, ht⟩
  | _ => cases he

/-- The type of an expression that has one is that of a value, or `void`. -/
theorem HasType.cases_type {env : Env} (henv : env.Sound) {e : Exp} {t : Ty}
    (h : HasType env e t) : t.IsWord ∨ t = .string ∨ t = .void := by
  cases h with
  | int => exact .inl (.inl rfl)
  | string => exact .inr (.inl rfl)
  | bool => exact .inl (.inr rfl)
  | location _ ht => exact .inl ht
  | assign _ ht _ => exact .inl ht
  | call hfind _ _ =>
    cases henv.find? hfind with
    | function _ _ _ hret => exact hret.imp_right .inr
  | neg => exact .inl (.inl rfl)
  | not => exact .inl (.inr rfl)
  | binary hop _ _ => exact .inl hop.isWord_result

/-- What is known of a part of an expression: it has a type, or is a struct variable, or is the
name of a function or of a struct. -/
inductive Given (env : Env) : Exp → Ty → Prop where
  | value {e : Exp} {t : Ty} : HasType env e t → Given env e t
  | struct {e : Exp} {s : Storage} {n : Nat} {d : StructDef} :
    Locates env e s n (.struct d) → Given env e (.struct d.name)
  | name {x : Ident} {s : Symbol} :
    x.binding = .bound s → s.type = .function ∨ s.type = .definition → Given env (.ident x) s.type

namespace Given

variable {env : Env} {e : Exp} {t : Ty}

theorem ne_error (henv : env.Sound) (h : Given env e t) : t ≠ .error := by
  cases h with
  | value h =>
    rcases h.cases_type henv with (rfl | rfl) | rfl | rfl <;> intro hx <;> cases hx
  | struct => intro hx; cases hx
  | name _ hs =>
    intro hx
    rw [hx] at hs
    rcases hs with hs | hs <;> cases hs

theorem hasType (h : Given env e t) (hs : ∀ name, t ≠ .struct name) (hf : t ≠ .function)
    (hd : t ≠ .definition) : HasType env e t := by
  cases h with
  | value h => exact h
  | struct => exact absurd rfl (hs _)
  | name _ ht => exact absurd ht (not_or_intro hf hd)

theorem hasType_of_isWord (h : Given env e t) (ht : t.IsWord) : HasType env e t := by
  rcases ht with rfl | rfl
  · exact h.hasType (by intro _ hx; cases hx) (by intro hx; cases hx) (by intro hx; cases hx)
  · exact h.hasType (by intro _ hx; cases hx) (by intro hx; cases hx) (by intro hx; cases hx)

theorem hasType_of_not_isLocation (h : Given env e t) (he : e.isLocation = false) :
    HasType env e t := by
  cases h with
  | value h => exact h
  | struct hloc => cases he.symm.trans hloc.isLocation
  | name => cases he

/-- A location is known with what it lies in. -/
theorem of_locates (henv : env.Sound) {s : Storage} {n : Nat} {sh : Shape StructDef}
    (h : Locates env e s n sh) : Given env e sh.type := by
  cases sh with
  | scalar t => exact .value (.location h (h.laid henv).scalar_isWord)
  | struct d => exact .struct h

/-- A location that is a struct is known as one. -/
theorem locates (h : Given env e t) (he : e.isLocation = true) {d : StructDef}
    (hd : e.base = .struct d) : ∃ s n, Locates env e s n (.struct d) := by
  cases h with
  | value h =>
    obtain ⟨s, n, hloc, -⟩ := h.locates he
    cases (hloc.base d).mp hd
  | struct hloc =>
    cases (hloc.base d).mp hd
    exact ⟨_, _, hloc⟩
  | name hbound hs =>
    rw [Exp.base, hbound] at hd
    rename_i s
    cases s with
    | storage st =>
      obtain ⟨_, _, _, shape⟩ := st
      cases shape with
      | scalar => cases hd
      | struct => rcases hs with hs | hs <;> cases hs
    | function => cases hd
    | struct => cases hd

/-- A location that is known did not fail. -/
theorem base_ne_failed (h : Given env e t) (he : e.isLocation = true) : e.base ≠ .failed := by
  cases h with
  | value h =>
    obtain ⟨s, n, hloc, -⟩ := h.locates he
    exact hloc.base_ne_failed
  | struct hloc => exact hloc.base_ne_failed
  | name hbound _ =>
    rw [Exp.base, hbound]
    split <;> simp_all

end Given

/-! ## Rules -/

namespace Check

theorem want_eq_nil {type : Ty} {cause : TypeCause} {p : Part} (hp : p.type ≠ .error)
    (h : want type cause p = []) : p.type = type := by
  unfold want at h
  split at h
  · next hor => exact hor.resolve_left hp
  · cases h

theorem of_uniform {type result : Ty} {cause : TypeCause} {ps : List Part}
    (hps : ∀ p ∈ ps, p.type ≠ .error) (h : (uniform type result cause ps).2 = []) :
    (∀ p ∈ ps, p.type = type) ∧ (uniform type result cause ps).1 = result := by
  have hall : ∀ p ∈ ps, p.type = type := fun p hp =>
    want_eq_nil (hps p hp) (List.flatMap_eq_nil_iff.mp h p hp)
  refine ⟨hall, if_pos (List.all_eq_true.mpr fun p hp => ?_)⟩
  exact beq_iff_eq.mpr (hall p hp)

theorem of_pair {cause : Option TypeCause} {result : Ty} {whole : Exp} {l r : Ty}
    (hl : l ≠ .error) (hr : r ≠ .error) (h : (pair cause result whole l r).2 = []) :
    cause = none ∧ l = r ∧ (pair cause result whole l r).1 = result := by
  unfold pair at h ⊢
  rw [if_neg (not_or_intro hl hr)] at h ⊢
  cases cause with
  | some c => cases h
  | none =>
    dsimp only at h ⊢
    split at h
    · next hagree =>
      rw [if_pos hagree]
      exact ⟨rfl, (Ty.agrees_iff.mp hagree).1, rfl⟩
    · cases h

section

variable {env : Env} (henv : env.Sound)
include henv

/-- An operator whose rule reports nothing has operands of its types. -/
theorem of_binary {op : BinOp} (hop : op ∈ BinOp.all) {whole : Exp} {l r : Part}
    (hl : Given env l.exp l.type) (hr : Given env r.exp r.type)
    (h : (binary op whole l r).2 = []) :
    ∃ s, op.Types s (binary op whole l r).1 ∧ HasType env l.exp s ∧ HasType env r.exp s := by
  have hword : ∀ (type result : Ty) (cause : TypeCause), type.IsWord →
      (uniform type result cause [l, r]).2 = [] →
      (uniform type result cause [l, r]).1 = result ∧ HasType env l.exp type ∧
        HasType env r.exp type := by
    intro type result cause htype hsilent
    obtain ⟨htypes, hresult⟩ := of_uniform (by
      intro p hp
      rcases List.mem_cons.mp hp with rfl | hp
      · exact hl.ne_error henv
      · cases List.mem_singleton.mp hp
        exact hr.ne_error henv) hsilent
    obtain ⟨hlt, hrt⟩ := List.forall_mem_cons.mp htypes
    have hrt := List.forall_mem_singleton.mp hrt
    rw [hlt] at hl
    rw [hrt] at hr
    exact ⟨hresult, hl.hasType_of_isWord htype, hr.hasType_of_isWord htype⟩
  have hequal : ∀ (hsilent : (pair (notComparable l.type r.type) .bool whole l.type r.type).2 = []),
      ∃ s, ((s.IsWord ∨ s = .string) ∧
          (pair (notComparable l.type r.type) .bool whole l.type r.type).1 = .bool) ∧
        HasType env l.exp s ∧ HasType env r.exp s := by
    intro hsilent
    obtain ⟨hcause, hsame, hresult⟩ := of_pair (hl.ne_error henv) (hr.ne_error henv) hsilent
    rw [← hsame] at hr hcause
    have hne : (∀ name, l.type ≠ .struct name) ∧ l.type ≠ .function ∧ l.type ≠ .definition ∧
        l.type ≠ .void := by
      refine ⟨fun name hx => ?_, fun hx => ?_, fun hx => ?_, fun hx => ?_⟩ <;>
        rw [hx] at hcause <;> cases hcause
    have hl' := hl.hasType hne.1 hne.2.1 hne.2.2.1
    refine ⟨l.type, ⟨?_, hresult⟩, hl', hr.hasType hne.1 hne.2.1 hne.2.2.1⟩
    rcases hl'.cases_type henv with hw | hstring | hvoid
    · exact .inl hw
    · exact .inr hstring
    · exact absurd hvoid hne.2.2.2
  cases op with
  | other => simp [BinOp.all] at hop
  | equal | notEqual => exact hequal h
  | add | sub | mul | div =>
    obtain ⟨hresult, hl', hr'⟩ := hword .int .int .arithmetic (.inl rfl) h
    exact ⟨.int, ⟨rfl, hresult⟩, hl', hr'⟩
  | and | or =>
    obtain ⟨hresult, hl', hr'⟩ := hword .bool .bool .logical (.inr rfl) h
    exact ⟨.bool, ⟨rfl, hresult⟩, hl', hr'⟩
  | less | greater | lessEq | greaterEq =>
    obtain ⟨hresult, hl', hr'⟩ := hword .int .bool .relational (.inl rfl) h
    exact ⟨.int, ⟨rfl, hresult⟩, hl', hr'⟩

/-- An assignment whose rule reports nothing stores a word. -/
theorem of_assign {i : Info} {whole : Exp} {l r : Part} (hloc : l.exp.isLocation = true)
    (hl : Given env l.exp l.type) (hr : Given env r.exp r.type)
    (h : (assign whole l.type r.type).2 = []) :
    HasType env (.assign i l.exp r.exp) (assign whole l.type r.type).1 := by
  obtain ⟨hcause, hsame, hresult⟩ := of_pair (hl.ne_error henv) (hr.ne_error henv) h
  rw [← hsame] at hr hcause
  have hne : (∀ name, l.type ≠ .struct name) ∧ l.type ≠ .function ∧ l.type ≠ .definition := by
    refine ⟨fun name hx => ?_, fun hx => ?_, fun hx => ?_⟩ <;> rw [hx] at hcause <;> cases hcause
  obtain ⟨s, n, hl', ht⟩ := (hl.hasType hne.1 hne.2.1 hne.2.2).locates hloc
  rw [assign, hresult]
  exact .assign hl' ht (hr.hasType_of_isWord ht)

theorem of_arguments {ps : List Part} {ts : List Ty} (hlength : ps.length = ts.length)
    (hps : ∀ p ∈ ps, Given env p.exp p.type) (hts : ∀ t ∈ ts, t.IsWord)
    (h : arguments ps ts = []) : HaveTypes env (ps.map Part.exp) ts := by
  induction ps generalizing ts with
  | nil =>
    cases List.length_eq_zero_iff.mp hlength.symm
    exact .nil
  | cons p ps ih =>
    cases ts with
    | nil => cases hlength
    | cons t ts =>
      obtain ⟨hp, hps⟩ := List.forall_mem_cons.mp hps
      obtain ⟨ht, hts⟩ := List.forall_mem_cons.mp hts
      rw [arguments, List.zip_cons_cons, List.flatMap_cons, List.append_eq_nil_iff] at h
      have htype : p.type = t := by
        have hfirst := h.1
        dsimp only at hfirst
        split at hfirst
        · next hor =>
          rcases hor with herror | herror | hagree
          · exact absurd herror (hp.ne_error henv)
          · rcases ht with rfl | rfl <;> cases herror
          · exact (Ty.agrees_iff.mp hagree).1
        · cases hfirst
      rw [htype] at hp
      exact .cons (hp.hasType_of_isWord ht) (ih (Nat.succ.inj hlength) hps hts h.2)

/-- A call whose rule reports nothing is of a function, with arguments of the types of its
formals. -/
theorem of_call {i : Info} {f : Ident} {sp : Option Span} {ps : List Part} {s : Symbol}
    (hfind : env.find? f.name = some s) (hbound : f.binding = .bound s)
    (hps : ∀ p ∈ ps, Given env p.exp p.type) (h : (call f ps).2 = []) :
    HasType env (.call i f sp (ps.map Part.exp)) (call f ps).1 := by
  unfold call at h ⊢
  rw [hbound] at h ⊢
  cases s with
  | function sig =>
    cases henv.find? hfind with
    | function _ harity hwords _ =>
      dsimp only at h ⊢
      split at h
      · next hlength =>
        exact .call hfind hbound
          (of_arguments henv (hlength.trans harity.symm) hps hwords h)
      · cases h
  | storage st =>
    have hlaid : st.shape.Laid := by
      cases henv.find? hfind with
      | storage _ _ hlaid => exact hlaid
    have hne : st.shape.type ≠ .error := by
      cases hshape : st.shape with
      | scalar t =>
        rw [hshape] at hlaid
        intro hx
        rcases hlaid.scalar_isWord with ht | ht <;> cases ht.symm.trans hx
      | struct d => intro hx; cases hx
    dsimp only at h
    rw [Symbol.type, if_neg hne] at h
    cases h
  | struct d => cases h

end

/-! ## What type checking keeps -/

/-- Type checking leaves a location where it found one. -/
theorem isLocation_exp (e : Exp) : (exp e).value.exp.isLocation = e.isLocation := by
  cases e with
  | int | string | bool | unknown => rfl
  | ident x =>
    rw [exp, value_map]
    rfl
  | access i k loc f =>
    rw [exp]
    unfold andThen
    split
    · rfl
    · dsimp only
      split <;> rfl
  | assign i l r =>
    rw [exp]
    unfold andThen
    split
    · rfl
    · dsimp only
      split <;> rfl
  | call i f s args =>
    rw [exp]
    unfold andThen
    split
    · rfl
    · dsimp only
      split <;> rfl
  | neg i e | not i e =>
    rw [exp]
    unfold andThen
    split <;> rfl
  | binary i op l r =>
    by_cases hop : op ∈ BinOp.all
    · rw [exp_binary hop]
      unfold andThen
      split
      · rfl
      · dsimp only
        split <;> rfl
    · cases op with
      | other => rfl
      | _ => exact absurd (by decide) hop

/-- Type checking keeps what an identifier is bound to and its place. -/
theorem ident_keeps (x : Ident) :
    (ident x).value.1.binding = x.binding ∧ (ident x).value.1.info.span = x.info.span := by
  obtain ⟨name, info, binding⟩ := x
  cases binding <;> exact ⟨rfl, rfl⟩

/-- Type checking keeps what a field would be asked of. -/
theorem base_exp {e : Exp} (h : (exp e).fault = none) (he : e.isLocation = true) :
    (exp e).value.exp.base = e.base := by
  cases e with
  | ident x =>
    obtain ⟨hbinding, hspan⟩ := ident_keeps x
    rw [exp, value_map]
    show Exp.base (.ident (ident x).value.1) = Exp.base (.ident x)
    rw [Exp.base, Exp.base, hbinding, hspan]
  | access i k loc f =>
    obtain ⟨-, hspan⟩ := ident_keeps f
    rw [exp, fault_andThen, fault_andThen] at h
    rw [exp, value_andThen h.1, value_andThen h.2.1]
    show Exp.base (.access _ k _ (ident f).value.1) = Exp.base (.access i k loc f)
    rw [Exp.base, Exp.base, hspan]
  | _ => cases he

/-- An expression that was checked has its type recorded. -/
theorem type_exp {e : Exp} (h : (exp e).fault = none) :
    (exp e).value.exp.info.type = some (exp e).value.type := by
  cases e with
  | int | string | bool => rfl
  | ident x =>
    rw [exp, fault_map] at h
    rw [exp, value_map]
    unfold ident at h ⊢
    cases hx : x.binding with
    | pending =>
      rw [hx] at h
      cases h
    | bound s => rfl
    | unresolved => rfl
  | access i k loc f =>
    rw [exp, fault_andThen, fault_andThen] at h
    rw [exp, value_andThen h.1, value_andThen h.2.1]
    rfl
  | assign i l r =>
    rw [exp, fault_andThen, fault_andThen] at h
    rw [exp, value_andThen h.1, value_andThen h.2.1]
    rfl
  | call i f s args =>
    rw [exp, fault_andThen, fault_andThen] at h
    rw [exp, value_andThen h.1, value_andThen h.2.1]
    rfl
  | neg i e | not i e =>
    rw [exp, fault_andThen] at h
    rw [exp, value_andThen h.1]
    rfl
  | binary i op l r =>
    by_cases hop : op ∈ BinOp.all
    · rw [exp_binary hop, fault_andThen, fault_andThen] at h
      rw [exp_binary hop, value_andThen h.1, value_andThen h.2.1]
      rfl
    · cases op with
      | other => cases h
      | _ => exact absurd (by decide) hop
  | unknown => cases h

theorem ident_of_bound {x : Ident} {s : Symbol} (h : x.binding = .bound s) :
    ident x = .pure ({ x with info := { x.info with type := some s.type } }, s.type) := by
  unfold ident
  rw [h]

end Check

/-! ## Expressions -/

/-- A field access without reports finds its field in the struct it is asked of. -/
theorem Resolve.access_of_silent {i : Info} {loc : Exp} {f : Ident} (hbase : loc.base ≠ .failed)
    (h : (access i loc f).Silent) :
    ∃ d g, loc.base = .struct d ∧ d.field? f.name = some g ∧
      (access i loc f).value = .access i { owner := some d, target := g.shape.struct? } loc
        (f.bind (.storage g.storage)) := by
  unfold access at h ⊢
  split
  · next d hd =>
    rw [hd] at h
    unfold fieldOf at h ⊢
    dsimp only at h
    split
    · next g hg => exact ⟨d, g, hd, hg, rfl⟩
    · next hg =>
      rw [hg] at h
      cases h.reports
  · next hfailed => exact absurd hfailed hbase
  · next hb =>
    rw [hb] at h
    cases h.reports
  · next hb =>
    rw [hb] at h
    cases h.fault

/-- An identifier that name resolution reports nothing of is bound by the open scopes. -/
theorem Ident.bound_of_silent {env : Env} {x : Ident} (h : (x.resolve env).Silent) :
    ∃ s, env.find? x.name = some s ∧ (x.resolve env).value = x.bind s := by
  unfold Ident.resolve at h ⊢
  split
  · next s hs => exact ⟨s, hs, rfl⟩
  · next hs =>
    rw [hs] at h
    cases h.reports

mutual

/-- An expression without reports is known after both passes. -/
theorem given_exp {env : Env} (henv : env.Sound) :
    ∀ {e : Exp}, e.Formed → (Resolve.exp env e).Silent →
    (Check.exp (Resolve.exp env e).value).Silent →
    Given env (Check.exp (Resolve.exp env e).value).value.exp
      (Check.exp (Resolve.exp env e).value).value.type
  | .int .., _, _, _ => .value .int
  | .string .., _, _, _ => .value .string
  | .bool .., _, _, _ => .value .bool
  | .ident x, _, hr, _ => by
    rw [Resolve.exp, silent_map] at hr
    obtain ⟨s, hfind, hbound⟩ := Ident.bound_of_silent hr
    rw [Resolve.exp, value_map, hbound, Check.exp, Check.ident_of_bound rfl]
    cases s with
    | storage st => exact .of_locates henv (.ident hfind rfl)
    | function sig => exact .name (s := .function sig) rfl (.inl rfl)
    | struct d => exact .name (s := .struct d) rfl (.inr rfl)
  | .access i _ loc f, h, hr, hc => by
    rw [Resolve.exp, silent_andThen] at hr
    rw [Resolve.exp, value_andThen hr.1.fault] at hc ⊢
    have hisLocation := (Resolve.isLocation_exp env loc).trans h.1
    obtain ⟨k, f', -, hvalue, -⟩ := Resolve.access_of_isLocation i hisLocation f
    -- the base is read off the resolved location, and the judgement holds of the checked one
    have hcloc : (Check.exp (Resolve.exp env loc).value).Silent := by
      rw [hvalue, Check.exp, silent_andThen] at hc
      exact hc.1
    have hgiven := given_exp henv h.2.1 hr.1 hcloc
    have hbase := Check.base_exp hcloc.fault hisLocation
    obtain ⟨d, g, hd, hfield, haccess⟩ := Resolve.access_of_silent
      (hbase ▸ hgiven.base_ne_failed ((Check.isLocation_exp _).trans hisLocation)) hr.2
    obtain ⟨s, n, hloc⟩ := hgiven.locates ((Check.isLocation_exp _).trans hisLocation)
      (hbase.trans hd)
    rw [haccess, Check.exp, value_andThen hcloc.fault, Check.ident_of_bound rfl, pure_andThen]
    exact .of_locates henv (.access hloc hfield rfl)
  | .assign i l r, h, hr, hc => by
    rw [Resolve.exp, silent_andThen, silent_map] at hr
    rw [Resolve.exp, value_andThen hr.1.fault, value_map] at hc ⊢
    rw [Check.exp, silent_andThen, silent_andThen] at hc
    rw [Check.exp, value_andThen hc.1.fault, value_andThen hc.2.1.fault]
    have hl := given_exp henv h.2.1 hr.1 hc.1
    have hrr := given_exp henv h.2.2 hr.2 hc.2.1
    have hloc := ((Check.isLocation_exp _).trans (Resolve.isLocation_exp env l)).trans h.1
    exact .value (Check.of_assign henv hloc hl hrr hc.2.2.reports)
  | .call i f s args, h, hr, hc => by
    rw [Resolve.exp, silent_andThen, silent_map] at hr
    obtain ⟨sym, hfind, hbound⟩ := Ident.bound_of_silent hr.1
    rw [Resolve.exp, value_andThen hr.1.fault, value_map, hbound] at hc ⊢
    rw [Check.exp, Check.ident_of_bound rfl, pure_andThen, silent_andThen] at hc
    rw [Check.exp, Check.ident_of_bound rfl, pure_andThen, value_andThen hc.1.fault]
    have hargs := given_exps henv h.2 hr.2 hc.1
    exact .value (Check.of_call henv hfind rfl hargs hc.2.reports)
  | .neg i e, h, hr, hc => by
    rw [Resolve.exp, silent_map] at hr
    rw [Resolve.exp, value_map] at hc ⊢
    rw [Check.exp, silent_andThen] at hc
    rw [Check.exp, value_andThen hc.1.fault]
    have he := given_exp henv (e := e) h hr hc.1
    obtain ⟨htypes, hresult⟩ := Check.of_uniform
      (List.forall_mem_singleton.mpr (he.ne_error henv)) hc.2.reports
    rw [List.forall_mem_singleton.mp htypes] at he
    rw [Check.conclude, hresult]
    exact .value (.neg (he.hasType_of_isWord (.inl rfl)))
  | .not i e, h, hr, hc => by
    rw [Resolve.exp, silent_map] at hr
    rw [Resolve.exp, value_map] at hc ⊢
    rw [Check.exp, silent_andThen] at hc
    rw [Check.exp, value_andThen hc.1.fault]
    have he := given_exp henv (e := e) h hr hc.1
    obtain ⟨htypes, hresult⟩ := Check.of_uniform
      (List.forall_mem_singleton.mpr (he.ne_error henv)) hc.2.reports
    rw [List.forall_mem_singleton.mp htypes] at he
    rw [Check.conclude, hresult]
    exact .value (.not (he.hasType_of_isWord (.inr rfl)))
  | .binary i op l r, h, hr, hc => by
    rw [Resolve.exp, silent_andThen, silent_map] at hr
    rw [Resolve.exp, value_andThen hr.1.fault, value_map] at hc ⊢
    rw [Check.exp_binary h.1, silent_andThen, silent_andThen] at hc
    rw [Check.exp_binary h.1, value_andThen hc.1.fault, value_andThen hc.2.1.fault]
    have hl := given_exp henv h.2.1 hr.1 hc.1
    have hrr := given_exp henv h.2.2 hr.2 hc.2.1
    obtain ⟨s, hop, hl', hr'⟩ := Check.of_binary henv h.1 hl hrr hc.2.2.reports
    exact .value (.binary hop hl' hr')

theorem given_exps {env : Env} (henv : env.Sound) : ∀ {es : List Exp}, Exp.AllFormed es →
    (Resolve.exps env es).Silent →
    (Check.exps (Resolve.exps env es).value).Silent →
    ∀ p ∈ (Check.exps (Resolve.exps env es).value).value, Given env p.exp p.type
  | [], _, _, _ => by
    intro p hp
    cases hp
  | e :: es, h, hr, hc => by
    rw [Resolve.exps, silent_andThen, silent_map] at hr
    rw [Resolve.exps, value_andThen hr.1.fault, value_map] at hc ⊢
    rw [Check.exps, silent_andThen, silent_map] at hc
    rw [Check.exps, value_andThen hc.1.fault, value_map]
    exact List.forall_mem_cons.mpr ⟨given_exp henv h.1 hr.1 hc.1, given_exps henv h.2 hr.2 hc.2⟩

end

end CMinusMinus
