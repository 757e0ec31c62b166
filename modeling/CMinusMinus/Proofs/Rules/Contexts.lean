import CMinusMinus.Proofs.Rules
import CMinusMinus.Proofs.Typing.Functions
import CMinusMinus.Proofs.Typing.Soundness

/-!
# Scopes as contexts

The scopes of name resolution tell what each name is declared as, and so are a context of the rules
(`Env.context`).  The rules look a struct up by its name where the passes have the struct itself;
that the two agree is what `Env.Closed` is for, which holds of the scopes wherever nothing was
reported.

The verdicts of type checking are silent on parts of just those types that the rules ask for.
-/

namespace CMinusMinus

open Outcome

/-! ## Scopes as contexts -/

/-- What a symbol's name is declared as. -/
def Symbol.entity : Symbol → Entity
  | .storage s => .var s.shape.type
  | .function f => .fn f.params f.returns
  | .struct d => .struct (d.fields.map fun f => (f.name, f.shape.type))

@[simp] theorem Symbol.type_entity (s : Symbol) : s.entity.type = s.type := by
  cases s <;> rfl

/-- What each name in the scopes is declared as. -/
def Env.context (env : Env) : Context := env.map fun scope => scope.map fun d => (d.1, d.2.entity)

section Context

variable (env : Env)

theorem Scope.find?_entity (scope : Scope Symbol) (name : String) :
    Scope.find? (scope.map fun d => (d.1, d.2.entity)) name =
      (scope.find? name).map Symbol.entity := by
  induction scope with
  | nil => rfl
  | cons d scope ih =>
    obtain ⟨n, x⟩ := d
    simp only [Scope.find?, List.map_cons, List.lookup_cons] at ih ⊢
    split
    · rfl
    · exact ih

theorem Env.find?_context (name : String) :
    env.context.find? name = (env.find? name).map Symbol.entity := by
  induction env with
  | nil => rfl
  | cons scope env ih =>
    rw [Env.context] at ih ⊢
    rw [List.map_cons, Scopes.find?_cons, Scopes.find?_cons, ih, Scope.find?_entity]
    cases scope.find? name <;> rfl

theorem Env.outer?_context (name : String) :
    env.context.outer? name = (env.outer? name).map Symbol.entity := by
  rw [Scopes.outer?, Scopes.outer?, Env.context, List.getLast?_map]
  cases env.getLast? with
  | none => rfl
  | some scope => exact Scope.find?_entity scope name

theorem Env.inner?_context (name : String) :
    env.context.inner? name = (env.inner? name).map Symbol.entity := by
  rw [Scopes.inner?, Scopes.inner?, Env.context, List.head?_map]
  cases env.head? with
  | none => rfl
  | some scope => exact Scope.find?_entity scope name

theorem Env.inner?_context_eq_none {name : String} :
    env.context.inner? name = none ↔ env.inner? name = none := by
  rw [Env.inner?_context, Option.map_eq_none_iff]

theorem Env.context_enter : Env.context env.enter = env.context.enter := rfl

theorem Env.context_insert (name : String) (s : Symbol) :
    Env.context (env.insert name s) = env.context.insert name s.entity := by
  cases env with
  | nil => rfl
  | cons scope env => simp [Env.context, Scopes.insert]

end Context

/-! ## Structs that are known -/

/-- The shape is a word, or that of a struct that is declared at the top. -/
def Shape.Known (env : Env) : Shape StructDef → Prop
  | .scalar _ => True
  | .struct d => env.outer? d.name = some (.struct d)

/-- All shapes that a symbol speaks of are known. -/
def Symbol.Known (env : Env) (name : String) : Symbol → Prop
  | .storage s => s.shape.Known env
  | .function _ => True
  | .struct d => d.name = name ∧ ∀ f ∈ d.fields, f.shape.Known env

/-- Some scope is open, what the scopes declare is sound, and all structs that they speak of are
declared at the top. -/
structure Env.Closed (env : Env) : Prop where
  ne_nil : env ≠ []
  sound : env.Sound
  find : ∀ ⦃name s⦄, env.find? name = some s → s.Known env name
  outer : ∀ ⦃name s⦄, env.outer? name = some s → s.Known env name

namespace Scopes

variable {σ : Type} {s : Scopes σ}

/-- A declaration of a new name is the only one that the outermost scope may gain. -/
theorem outer?_insert (hs : s ≠ []) {name : String} (hfresh : s.inner? name = none) (x : σ)
    (n : String) :
    (s.insert name x).outer? n = s.outer? n ∨
      n = name ∧ s.outer? n = none ∧ (s.insert name x).outer? n = some x := by
  cases s with
  | nil => exact absurd rfl hs
  | cons scope outer =>
    cases outer with
    | cons scope' outer => exact .inl rfl
    | nil =>
      replace hfresh : scope.find? name = none := hfresh
      show Scope.find? (scope ++ [(name, x)]) n = scope.find? n ∨ n = name ∧ scope.find? n = none ∧
        Scope.find? (scope ++ [(name, x)]) n = some x
      rw [Scope.find?_append]
      by_cases hn : n = name
      · subst hn
        rw [hfresh]
        exact .inr ⟨rfl, rfl, by simp [Scope.find?]⟩
      · have hlast : Scope.find? [(name, x)] n = none := by
          rw [Scope.find?, List.lookup_cons, beq_false_of_ne hn]
          rfl
        rw [hlast, Option.or_none]
        exact .inl rfl

end Scopes

theorem Shape.Known.mono {env env' : Env}
    (henv : ∀ ⦃name s⦄, env.outer? name = some s → env'.outer? name = some s)
    {sh : Shape StructDef} (h : sh.Known env) : sh.Known env' := by
  cases sh with
  | scalar => trivial
  | struct d => exact henv h

theorem Symbol.Known.mono {env env' : Env}
    (henv : ∀ ⦃name s⦄, env.outer? name = some s → env'.outer? name = some s) {name : String}
    {s : Symbol} (h : s.Known env name) : s.Known env' name := by
  cases s with
  | storage s => exact Shape.Known.mono henv h
  | function => trivial
  | struct d => exact ⟨h.1, fun f hf => (h.2 f hf).mono henv⟩

namespace Env.Closed

variable {env : Env} (h : env.Closed)
include h

theorem context_ne_nil : env.context ≠ [] := fun hnil => h.ne_nil (List.map_eq_nil_iff.mp hnil)

theorem enter : Env.Closed env.enter where
  ne_nil := List.cons_ne_nil _ _
  sound := h.sound.enter
  find := fun _ _ hfind =>
    (h.find hfind).mono fun _ _ houter => (Scopes.outer?_cons h.ne_nil [] _).trans houter
  outer := fun _ _ hfind =>
    (h.outer ((Scopes.outer?_cons h.ne_nil [] _).symm.trans hfind)).mono
      fun _ _ houter => (Scopes.outer?_cons h.ne_nil [] _).trans houter

theorem insert {name : String} {s : Symbol} (hfresh : env.inner? name = none)
    (hsound : s.Sound name) (hknown : s.Known env name) : Env.Closed (env.insert name s) := by
  have hgrow : ∀ ⦃n s'⦄, env.outer? n = some s' → (env.insert name s).outer? n = some s' := by
    intro n s' houter
    rcases Scopes.outer?_insert h.ne_nil hfresh s n with hsame | ⟨-, hnone, -⟩
    · exact hsame.trans houter
    · cases hnone.symm.trans houter
  refine ⟨Scopes.insert_ne_nil h.ne_nil _ _, h.sound.insert hsound, fun n s' hfind => ?_,
    fun n s' hfind => ?_⟩
  · rw [Scopes.find?_insert h.ne_nil hfresh] at hfind
    split at hfind
    · next hn =>
      cases hfind
      rw [hn]
      exact hknown.mono hgrow
    · exact (h.find hfind).mono hgrow
  · rcases Scopes.outer?_insert h.ne_nil hfresh s n with hsame | ⟨rfl, -, hnew⟩
    · exact (h.outer (hsame.symm.trans hfind)).mono hgrow
    · cases hnew.symm.trans hfind
      exact hknown.mono hgrow

/-- A location of a struct is of one that is declared at the top. -/
theorem known {e : Exp} {s : Storage} {n : Nat} {sh : Shape StructDef}
    (hloc : Locates env e s n sh) : sh.Known env := by
  induction hloc with
  | ident hfind _ => exact h.find hfind
  | access _ hfield _ ih => exact (h.outer ih).2 _ (List.mem_of_find?_eq_some hfield)

end Env.Closed

theorem StructDef.lookup_entity (d : StructDef) (name : String) :
    (d.fields.map fun f => (f.name, f.shape.type)).lookup name =
      (d.field? name).map (·.shape.type) := Field.lookup_map d.fields (·.shape.type) name

/-! ## Verdicts -/

/-- The type may be that of an expression without reports. -/
def Ty.isGiven : Ty → Bool
  | .named _ | .error | .absent => false
  | _ => true

theorem Ty.ne_error_of_isGiven {t : Ty} (h : t.isGiven = true) : t ≠ .error := by
  rintro rfl
  cases h

theorem Ty.IsWord.isGiven {t : Ty} (h : t.IsWord) : t.isGiven = true := by
  rcases h with rfl | rfl <;> rfl

theorem Given.isGiven {env : Env} (henv : env.Sound) {e : Exp} {t : Ty} (h : Given env e t) :
    t.isGiven = true := by
  cases h with
  | value h => rcases h.cases_type henv with hword | rfl | rfl <;> first | exact hword.isGiven | rfl
  | struct => rfl
  | name _ hs => rcases hs with hs | hs <;> rw [hs] <;> rfl

namespace Check

theorem uniform_of_types {type result : Ty} {cause : TypeCause} {ps : List Part}
    (h : ∀ p ∈ ps, p.type = type) : uniform type result cause ps = (result, []) := by
  refine Prod.ext (if_pos (List.all_eq_true.mpr fun p hp => ?_)) ?_
  · exact beq_iff_eq.mpr (h p hp)
  · exact List.flatMap_eq_nil_iff.mpr fun p hp => if_pos (.inr (h p hp))

theorem pair_of_types {cause : Option TypeCause} {result : Ty} {whole : Exp} {t : Ty}
    (ht : t ≠ .error) (hcause : cause = none) : pair cause result whole t t = (result, []) := by
  unfold pair
  rw [if_neg (not_or_intro ht ht), hcause]
  exact if_pos (Ty.agrees_iff.mpr ⟨rfl, ht⟩)

/-- The rule of an operator reports nothing of operands of its types. -/
theorem binary_of_types {op : BinOp} {s t : Ty} (h : op.Types s t) {whole : Exp} {l r : Part}
    (hl : l.type = s) (hr : r.type = s) : binary op whole l r = (t, []) := by
  have hparts : ∀ p ∈ [l, r], p.type = s :=
    List.forall_mem_cons.mpr ⟨hl, List.forall_mem_singleton.mpr hr⟩
  have hequal : (s.IsWord ∨ s = .string) →
      pair (notComparable l.type r.type) .bool whole l.type r.type = (.bool, []) := by
    intro hs
    rw [hl, hr]
    rcases hs with (rfl | rfl) | rfl <;> exact pair_of_types (by simp) rfl
  cases op with
  | other => exact h.elim
  | equal | notEqual => rw [h.2]; exact hequal h.1
  | _ =>
    obtain ⟨rfl, rfl⟩ := h
    exact uniform_of_types hparts

theorem comparable_of_isGiven {t : Ty} (h : t.isGiven = true) (hcause : notComparable t t = none) :
    t.IsWord ∨ t = .string := by
  cases t with
  | int => exact .inl (.inl rfl)
  | bool => exact .inl (.inr rfl)
  | string => exact .inr rfl
  | named | error | absent => cases h
  | void | struct | function | definition => cases hcause

/-- An operator whose rule reports nothing has operands of its types. -/
theorem types_of_binary {op : BinOp} (hop : op ∈ BinOp.all) {whole : Exp} {l r : Part}
    (hl : l.type.isGiven = true) (hr : r.type.isGiven = true) (h : (binary op whole l r).2 = []) :
    op.Types l.type (binary op whole l r).1 ∧ r.type = l.type := by
  have huniform : ∀ {type result : Ty} {cause : TypeCause},
      (uniform type result cause [l, r]).2 = [] →
      l.type = type ∧ r.type = type ∧ (uniform type result cause [l, r]).1 = result := by
    intro type result cause hsilent
    obtain ⟨htypes, hresult⟩ := of_uniform (List.forall_mem_cons.mpr
      ⟨Ty.ne_error_of_isGiven hl, List.forall_mem_singleton.mpr (Ty.ne_error_of_isGiven hr)⟩)
      hsilent
    obtain ⟨hlt, hrt⟩ := List.forall_mem_cons.mp htypes
    exact ⟨hlt, hrt r List.mem_cons_self, hresult⟩
  have hequal : (pair (notComparable l.type r.type) .bool whole l.type r.type).2 = [] →
      ((l.type.IsWord ∨ l.type = .string) ∧
        (pair (notComparable l.type r.type) .bool whole l.type r.type).1 = .bool) ∧
      r.type = l.type := by
    intro hsilent
    obtain ⟨hcause, hsame, hresult⟩ := of_pair (Ty.ne_error_of_isGiven hl)
      (Ty.ne_error_of_isGiven hr) hsilent
    rw [← hsame] at hcause
    exact ⟨⟨comparable_of_isGiven hl hcause, hresult⟩, hsame.symm⟩
  cases op with
  | other => simp [BinOp.all] at hop
  | equal | notEqual => exact hequal h
  | _ =>
    obtain ⟨hlt, hrt, hresult⟩ := huniform h
    exact ⟨⟨hlt, hresult⟩, hrt.trans hlt.symm⟩

theorem arguments_of_types {ps : List Part} (hps : ∀ p ∈ ps, p.type.isGiven = true) :
    arguments ps (ps.map Part.type) = [] := by
  induction ps with
  | nil => rfl
  | cons p ps ih =>
    obtain ⟨hp, hps⟩ := List.forall_mem_cons.mp hps
    rw [arguments, List.map_cons, List.zip_cons_cons, List.flatMap_cons, List.append_eq_nil_iff]
    refine ⟨if_pos (.inr (.inr ?_)), ih hps⟩
    exact Ty.agrees_iff.mpr ⟨rfl, Ty.ne_error_of_isGiven hp⟩

/-- Arguments that the rule of calls reports nothing of are of the types of the formals. -/
theorem types_of_arguments {ps : List Part} {ts : List Ty} (hlength : ps.length = ts.length)
    (hps : ∀ p ∈ ps, p.type.isGiven = true) (hts : ∀ t ∈ ts, t.IsWord)
    (h : arguments ps ts = []) : ps.map Part.type = ts := by
  induction ps generalizing ts with
  | nil => exact (List.length_eq_zero_iff.mp hlength.symm).symm
  | cons p ps ih =>
    cases ts with
    | nil => cases hlength
    | cons t ts =>
      obtain ⟨hp, hps⟩ := List.forall_mem_cons.mp hps
      obtain ⟨ht, hts⟩ := List.forall_mem_cons.mp hts
      rw [arguments, List.zip_cons_cons, List.flatMap_cons, List.append_eq_nil_iff] at h
      rw [List.map_cons, ih (Nat.succ.inj hlength) hps hts h.2]
      congr 1
      have hfirst := h.1
      dsimp only at hfirst
      split at hfirst
      · next hor =>
        rcases hor with herror | herror | hagree
        · exact absurd herror (Ty.ne_error_of_isGiven hp)
        · exact absurd herror (Ty.ne_error_of_isGiven ht.isGiven)
        · exact (Ty.agrees_iff.mp hagree).1
      · cases hfirst

end Check

end CMinusMinus
