import CMinusMinus.Proofs.Renaming.Code

/-!
# Renaming and types

A renamed expression has the type of the expression, except that a struct may have another name.  No
rule accepts a struct where the name of it would tell, so an expression that is checked without a
report is checked without one after the renaming, and has the same code (`Check.renamed_exp`).  What
is called is a function then, and functions keep their names.
-/

namespace CMinusMinus

open Outcome

variable {ρ : Renaming}

/-! ## Types -/

/-- The same type, or both the types of structs. -/
def Ty.Alike (t t' : Ty) : Prop := t' = t ∨ t.isStruct = true ∧ t'.isStruct = true

namespace Ty

theorem Alike.refl (t : Ty) : t.Alike t := .inl rfl

/-- What is no struct has the same type. -/
theorem Alike.eq {t t' : Ty} (h : t.Alike t') (ht : t.isStruct = false) : t' = t := by
  rcases h with h | ⟨h, -⟩
  · exact h
  · rw [ht] at h
    cases h

theorem Alike.eq_error {t t' : Ty} (h : t.Alike t') (ht : t = .error) : t' = .error :=
  (h.eq (ht ▸ rfl)).trans ht

/-- Types that are alike are the same type, or both are of structs. -/
theorem Alike.cases {t t' : Ty} (h : t.Alike t') :
    t' = t ∨ ∃ n n', t = .struct n ∧ t' = .struct n' := by
  rcases h with h | ⟨h, h'⟩
  · exact .inl h
  · cases t with
    | struct n =>
      cases t' with
      | struct n' => exact .inr ⟨n, n', rfl, rfl⟩
      | _ => cases h'
    | _ => cases h

end Ty

theorem Shape.Renamed.type {shape shape' : Shape StructDef} (h : shape.Renamed ρ shape') :
    shape.type ≠ .error ∧ shape.type.Alike shape'.type := by
  cases shape with
  | scalar t =>
    obtain ⟨hne, rfl⟩ := (h : t ≠ .error ∧ shape' = .scalar t)
    exact ⟨hne, .refl t⟩
  | struct d =>
    obtain ⟨d', rfl, -⟩ := (h : ∃ d', shape' = .struct d' ∧ d.Renamed ρ d')
    exact ⟨nofun, .inr ⟨rfl, rfl⟩⟩

theorem Symbol.Renamed.type {s s' : Symbol} (h : s.Renamed ρ s') : s.type.Alike s'.type := by
  cases h with
  | storage h => exact h.shape.type.2
  | function | struct => exact .refl _

/-- Recording a type changes no name. -/
theorem Exp.Renamed.record {e e' : Exp} (h : e.Renamed ρ e') (t t' : Ty) :
    (e.record t).Renamed ρ (e'.record t') := by
  cases h with
  | int => exact .int
  | string => exact .string
  | bool => exact .bool
  | ident h =>
    obtain ⟨hx, hx', hname, hs⟩ := h
    exact .ident (.bound hx hx' hname hs)
  | access hloc hlink hf => exact .access hloc hlink hf
  | assign hl hr => exact .assign hl hr
  | call hf hargs => exact .call hf hargs
  | neg h => exact .neg h
  | not h => exact .not h
  | binary hl hr => exact .binary hl hr

namespace Check

/-- The parts differ in names only, their types in names of structs only, and their code in comments
only. -/
structure Part.Renamed (ρ : Renaming) (p p' : Part) : Prop where
  exp : p.exp.Renamed ρ p'.exp
  type : p.type.Alike p'.type
  code : p'.exp.sketch.bare = p.exp.sketch.bare

theorem Part.listRenamed {ps ps' : List Part} (h : List.Forall₂ (Part.Renamed ρ) ps ps') :
    Exp.ListRenamed ρ (ps.map Part.exp) (ps'.map Part.exp) ∧
      (Exp.listSketch (ps'.map Part.exp)).bare = (Exp.listSketch (ps.map Part.exp)).bare := by
  induction h with
  | nil => exact ⟨.nil, rfl⟩
  | cons h _ ih =>
    refine ⟨.cons h.exp ih.1, ?_⟩
    rw [List.map_cons, List.map_cons, Exp.listSketch, Exp.listSketch, Sketch.bare_append,
      Sketch.bare_append, h.code, ih.2]

/-! ## Rules -/

theorem want_renamed {p p' : Part} (hp : p.Renamed ρ p') {type : Ty} (htype : type.isStruct = false)
    {cause : TypeCause} (h : want type cause p = []) : want type cause p' = [] := by
  unfold want at h ⊢
  split at h
  · next hor =>
    have hsame : p'.type = p.type := by
      refine hp.type.eq ?_
      rcases hor with heq | heq <;> rw [heq]
      · rfl
      · exact htype
    rw [hsame, if_pos hor]
  · cases h

theorem uniform_renamed {ps ps' : List Part} (hps : List.Forall₂ (Part.Renamed ρ) ps ps')
    {type result : Ty} (htype : type.isStruct = false) {cause : TypeCause}
    (h : (uniform type result cause ps).2 = []) :
    (uniform type result cause ps').2 = [] ∧
      (uniform type result cause ps').1 = (uniform type result cause ps).1 := by
  have hall : ps.flatMap (want type cause) = [] → ps'.flatMap (want type cause) = [] ∧
      ps'.all (·.type == type) = ps.all (·.type == type) := by
    clear h
    induction hps with
    | nil => exact fun _ => ⟨rfl, rfl⟩
    | @cons p p' ps ps' hp _ ih =>
      intro h
      rw [List.flatMap_cons, List.append_eq_nil_iff] at h
      obtain ⟨hps', hall⟩ := ih h.2
      have hsame : (p'.type == type) = (p.type == type) := by
        rcases hp.type.cases with heq | ⟨n, n', heq, heq'⟩
        · rw [heq]
        · have hne : ∀ n, Ty.struct n ≠ type := fun n h => by
            rw [← h] at htype
            cases htype
          rw [heq, heq', beq_false_of_ne (hne n), beq_false_of_ne (hne n')]
      rw [List.flatMap_cons, want_renamed hp htype h.1, hps', List.all_cons, List.all_cons, hsame,
        hall]
      exact ⟨rfl, rfl⟩
  obtain ⟨hnone, hsame⟩ := hall h
  rw [uniform, uniform, hnone, hsame]
  exact ⟨rfl, rfl⟩

/-- A pair without a report: a side was reported, or no side is a struct. -/
theorem pair_renamed (cause : Ty → Ty → Option TypeCause)
    (hcause : ∀ n m, (cause (.struct n) (.struct m)).isSome) {result result' : Ty}
    (hresult : result.Alike result') {whole whole' : Exp} {l l' r r' : Ty} (hl : l.Alike l')
    (hr : r.Alike r') (h : (pair (cause l r) result whole l r).2 = []) :
    (pair (cause l' r') result' whole' l' r').2 = [] ∧
      (pair (cause l r) result whole l r).1.Alike (pair (cause l' r') result' whole' l' r').1 := by
  by_cases herror : l = .error ∨ r = .error
  · have herror' := herror.imp hl.eq_error hr.eq_error
    unfold pair
    rw [if_pos herror, if_pos herror']
    exact ⟨rfl, .refl _⟩
  unfold pair at h ⊢
  rw [if_neg herror] at h
  cases hpair : cause l r with
  | some c =>
    rw [hpair] at h
    cases h
  | none =>
    rw [hpair] at h
    dsimp only at h
    split at h
    · next hagree =>
      -- the sides are of one type, and had it been that of a struct there would be a cause
      obtain ⟨hsame, -⟩ := Ty.agrees_iff.mp hagree
      subst hsame
      have hword : l.isStruct = false := by
        cases l with
        | struct n =>
          have := hcause n n
          rw [hpair] at this
          cases this
        | _ => rfl
      rw [hl.eq hword, hr.eq hword, if_neg herror, if_neg herror, hpair]
      dsimp only
      rw [if_pos hagree, if_pos hagree]
      exact ⟨rfl, hresult⟩
    · cases h

theorem binary_renamed {op : BinOp} {whole whole' : Exp} {l l' r r' : Part} (hl : l.Renamed ρ l')
    (hr : r.Renamed ρ r') (h : (binary op whole l r).2 = []) :
    (binary op whole' l' r').2 = [] ∧
      (binary op whole l r).1.Alike (binary op whole' l' r').1 := by
  have hboth : List.Forall₂ (Part.Renamed ρ) [l, r] [l', r'] := .cons hl (.cons hr .nil)
  cases op with
  | other => exact ⟨rfl, .refl _⟩
  | equal | notEqual =>
    exact pair_renamed notComparable (fun _ _ => rfl) (.refl _) hl.type hr.type h
  | _ =>
    obtain ⟨hnone, hsame⟩ := uniform_renamed hboth rfl h
    exact ⟨hnone, .inl hsame⟩

/-- Arguments for formals that are words. -/
theorem arguments_renamed {ps ps' : List Part} (hps : List.Forall₂ (Part.Renamed ρ) ps ps')
    {ts : List Ty} (hts : ∀ t ∈ ts, t.isStruct = false) (h : arguments ps ts = []) :
    arguments ps' ts = [] := by
  induction hps generalizing ts with
  | nil => rfl
  | @cons p p' ps ps' hp _ ih =>
    cases ts with
    | nil => rfl
    | cons t ts =>
      obtain ⟨ht, hts⟩ := List.forall_mem_cons.mp hts
      rw [arguments, List.zip_cons_cons, List.flatMap_cons, List.append_eq_nil_iff] at h ⊢
      refine ⟨?_, ih hts h.2⟩
      dsimp only at h ⊢
      split at h
      · next hor =>
        rcases hor with herror | herror | hagree
        · rw [if_pos (.inl (hp.type.eq_error herror))]
        · rw [if_pos (.inr (.inl herror))]
        · have hsame := (Ty.agrees_iff.mp hagree).1
          rw [hp.type.eq (hsame ▸ ht), if_pos (.inr (.inr hagree))]
      · cases h.1

/-- A call without a report: what is called is a function, which keeps its name. -/
theorem call_renamed {f f' : Ident} (hf : f.Renamed ρ f') {ps ps' : List Part}
    (hps : List.Forall₂ (Part.Renamed ρ) ps ps') (h : (call f ps).2 = []) :
    (call f' ps').2 = [] ∧ (call f ps).1.Alike (call f' ps').1 ∧ f'.name = f.name := by
  obtain ⟨hbound, hbound', hname, hs⟩ := hf
  unfold call at h ⊢
  rw [hbound] at h ⊢
  rw [hbound']
  cases hs with
  | @function sig sig' hsig =>
    dsimp only at h ⊢
    rw [hsig.returns, hsig.arity, hsig.params]
    refine ⟨?_, .refl _, hname.trans (Renaming.spell_of_ne hsig.site _)⟩
    split at h
    · next hlength =>
      rw [if_pos (hps.length_eq ▸ hlength)]
      exact arguments_renamed hps hsig.words.2 h
    · cases h
  | struct =>
    dsimp only at h
    rw [if_neg nofun] at h
    cases h
  | @storage s s' hs =>
    have hne : (Symbol.storage s).type ≠ .error := hs.shape.type.1
    dsimp only at h
    rw [if_neg hne] at h
    cases h

theorem returned_renamed {p p' : Part} (hp : p.Renamed ρ p') {returns : Ty}
    (hword : returns.isStruct = false) (h : returned returns p = []) :
    returned returns p' = [] := by
  unfold returned at h ⊢
  split at h
  · cases h
  · next hvoid =>
    rw [if_neg hvoid]
    split at h
    · next hor =>
      have hsame : p'.type = p.type := by
        refine hp.type.eq ?_
        rcases hor with herror | hagree
        · rw [herror]
          rfl
        · rw [(Ty.agrees_iff.mp hagree).1]
          exact hword
      rw [hsame, if_pos hor]
    · cases h

/-! ## Expressions -/

theorem name_ident (x : Ident) : (ident x).value.1.name = x.name := by
  obtain ⟨name, info, binding⟩ := x
  cases binding <;> rfl

theorem renamed_ident {x x' : Ident} (h : x.Renamed ρ x') : (ident x).Silent ∧ (ident x').Silent ∧
    (ident x).value.1.Renamed ρ (ident x').value.1 ∧
      (ident x).value.2.Alike (ident x').value.2 := by
  obtain ⟨hbound, hbound', hname, hs⟩ := h
  rw [ident_of_bound hbound, ident_of_bound hbound']
  exact ⟨silent_pure _, silent_pure _, .bound hbound hbound' hname hs, hs.type⟩

/-- Recording a type changes no code. -/
theorem sketch_record (e : Exp) (t : Ty) : (e.record t).sketch = e.sketch := by cases e <;> rfl

theorem renamed_record {e e' : Exp} (he : e.Renamed ρ e') (hcode : e'.sketch.bare = e.sketch.bare)
    {t t' : Ty} (ht : t.Alike t') : Part.Renamed ρ (record e t) (record e' t') := by
  refine ⟨he.record t t', ht, ?_⟩
  show (e'.record t').sketch.bare = (e.record t).sketch.bare
  rw [sketch_record, sketch_record, hcode]

theorem renamed_conclude {e e' : Exp} (he : e.Renamed ρ e') (hcode : e'.sketch.bare = e.sketch.bare)
    {v v' : Verdict} (hv : v.2 = [] → v'.2 = [] ∧ v.1.Alike v'.1) (hs : (conclude e v).Silent) :
    (conclude e' v').Silent ∧ (conclude e v).value.Renamed ρ (conclude e' v').value := by
  obtain ⟨hnone, htype⟩ := hv (silent_reporting.mp hs)
  exact ⟨silent_reporting.mpr hnone, renamed_record he hcode htype⟩

mutual

/-- An expression that is checked without a report, and the renamed one. -/
theorem renamed_exp : ∀ {e e' : Exp}, e.Renamed ρ e' → (exp e).Silent →
    (exp e').Silent ∧ (exp e).value.Renamed ρ (exp e').value
  | _, _, .int, _ => ⟨silent_pure _, .int, .refl _, rfl⟩
  | _, _, .string, _ => ⟨silent_pure _, .string, .refl _, rfl⟩
  | _, _, .bool, _ => ⟨silent_pure _, .bool, .refl _, rfl⟩
  | _, _, .ident h, hs => by
    obtain ⟨-, hs', hrelated, htype⟩ := renamed_ident h
    rw [exp, exp, silent_map, value_map, value_map]
    exact ⟨hs', .ident hrelated, htype, (Generate.load_renamed hrelated).code.items⟩
  | _, _, @Exp.Renamed.access _ i i' k k' loc loc' f f' hloc hlink hf, hs => by
    rw [exp, silent_andThen, silent_andThen] at hs
    obtain ⟨hsloc, hrloc⟩ := renamed_exp hloc hs.1
    obtain ⟨hsf, hsf', hrf, htype⟩ := renamed_ident hf
    have hrelated : Exp.Renamed ρ (.access i k (exp loc).value.exp (ident f).value.1)
        (.access i' k' (exp loc').value.exp (ident f').value.1) :=
      .access hrloc.exp (by rwa [name_ident, name_ident]) hrf
    rw [exp, exp, silent_andThen, silent_andThen, value_andThen hs.1.fault, value_andThen hsf.fault,
      value_andThen hsloc.fault, value_andThen hsf'.fault]
    exact ⟨⟨hsloc, hsf', silent_pure _⟩,
      renamed_record hrelated (Exp.sketch_access_renamed hrelated) htype⟩
  | _, _, .assign hl hr, hs => by
    rw [exp, silent_andThen, silent_andThen] at hs
    obtain ⟨hsl, hrl⟩ := renamed_exp hl hs.1
    obtain ⟨hsr, hrr⟩ := renamed_exp hr hs.2.1
    obtain ⟨hsilent, hrelated⟩ := renamed_conclude (.assign hrl.exp hrr.exp)
      (Exp.sketch_assign_renamed hrl.exp hrr.code)
      (pair_renamed notAssignable (fun _ _ => rfl) hrl.type hrl.type hrr.type) hs.2.2
    rw [exp, exp, silent_andThen, silent_andThen, value_andThen hs.1.fault,
      value_andThen hs.2.1.fault,
      value_andThen hsl.fault, value_andThen hsr.fault]
    exact ⟨⟨hsl, hsr, hsilent⟩, hrelated⟩
  | _, _, .call hf hargs, hs => by
    obtain ⟨hsf, hsf', hrf, -⟩ := renamed_ident hf
    rw [exp, silent_andThen, silent_andThen] at hs
    obtain ⟨hsargs, hrargs⟩ := renamed_exps hargs hs.2.1
    obtain ⟨hrexps, hcode⟩ := Part.listRenamed hrargs
    obtain ⟨hnone, htype, hname⟩ := call_renamed hrf hrargs (silent_reporting.mp hs.2.2)
    obtain ⟨hsilent, hrelated⟩ := renamed_conclude (.call hrf hrexps)
      (Exp.sketch_call_renamed hname hcode) (fun _ => ⟨hnone, htype⟩) hs.2.2
    rw [exp, exp, silent_andThen, silent_andThen, value_andThen hs.1.fault,
      value_andThen hs.2.1.fault,
      value_andThen hsf'.fault, value_andThen hsargs.fault]
    exact ⟨⟨hsf', hsargs, hsilent⟩, hrelated⟩
  | _, _, .neg h, hs => by
    rw [exp, silent_andThen] at hs
    obtain ⟨hse, hre⟩ := renamed_exp h hs.1
    obtain ⟨hsilent, hrelated⟩ := renamed_conclude (.neg hre.exp) (congrArg (· ++ _) hre.code)
      (fun h => (uniform_renamed (.cons hre .nil) rfl h).imp_right .inl) hs.2
    rw [exp, exp, silent_andThen, value_andThen hs.1.fault, value_andThen hse.fault]
    exact ⟨⟨hse, hsilent⟩, hrelated⟩
  | _, _, .not h, hs => by
    rw [exp, silent_andThen] at hs
    obtain ⟨hse, hre⟩ := renamed_exp h hs.1
    obtain ⟨hsilent, hrelated⟩ := renamed_conclude (.not hre.exp) (congrArg (· ++ _) hre.code)
      (fun h => (uniform_renamed (.cons hre .nil) rfl h).imp_right .inl) hs.2
    rw [exp, exp, silent_andThen, value_andThen hs.1.fault, value_andThen hse.fault]
    exact ⟨⟨hse, hsilent⟩, hrelated⟩
  | _, _, @Exp.Renamed.binary _ i i' op l l' r r' hl hr, hs => by
    by_cases hop : op ∈ BinOp.all
    · rw [exp_binary hop, silent_andThen, silent_andThen] at hs
      obtain ⟨hsl, hrl⟩ := renamed_exp hl hs.1
      obtain ⟨hsr, hrr⟩ := renamed_exp hr hs.2.1
      obtain ⟨hsilent, hrelated⟩ := renamed_conclude (.binary hrl.exp hrr.exp)
        (Exp.sketch_binary_renamed hrl.code hrr.code) (binary_renamed hrl hrr) hs.2.2
      rw [exp_binary hop, exp_binary hop, silent_andThen, silent_andThen, value_andThen hs.1.fault,
        value_andThen hs.2.1.fault, value_andThen hsl.fault, value_andThen hsr.fault]
      exact ⟨⟨hsl, hsr, hsilent⟩, hrelated⟩
    · cases op with
      | other => exact absurd hs (not_silent_stop _ _)
      | _ => exact absurd (by decide) hop

theorem renamed_exps : ∀ {es es' : List Exp}, Exp.ListRenamed ρ es es' → (exps es).Silent →
    (exps es').Silent ∧ List.Forall₂ (Part.Renamed ρ) (exps es).value (exps es').value
  | _, _, .nil, _ => ⟨silent_pure _, .nil⟩
  | _, _, .cons h hs, hsilent => by
    rw [exps, silent_andThen, silent_map] at hsilent
    obtain ⟨hse, hre⟩ := renamed_exp h hsilent.1
    obtain ⟨hses, hres⟩ := renamed_exps hs hsilent.2
    rw [exps, exps, silent_andThen, silent_map, value_andThen hsilent.1.fault, value_map,
      value_andThen hse.fault, value_map]
    exact ⟨⟨hse, hses⟩, .cons hre hres⟩

end

end Check

end CMinusMinus
