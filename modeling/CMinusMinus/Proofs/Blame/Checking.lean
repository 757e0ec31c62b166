import CMinusMinus.Proofs.Blame
import CMinusMinus.Proofs.Places.Checking

/-!
# Types are accounted for

Type checking records a type at every expression, and what it gives the error type is to blame:
either with a report of its own, or with the one of a part that it was given for
(`Check.accounted_exp`).  The name of a field is reported with the access that it is in.
-/

namespace CMinusMinus

open Outcome

/-! ## Expressions of a tree -/

mutual

/-- An expression and the expressions in it.  Names of functions count, those of fields do not. -/
def Exp.nodes : Exp → List Exp
  | .int i v => [.int i v]
  | .string i s => [.string i s]
  | .bool i b => [.bool i b]
  | .ident x => [.ident x]
  | .access i k loc f => .access i k loc f :: loc.nodes
  | .assign i l r => .assign i l r :: (l.nodes ++ r.nodes)
  | .call i f s args => .call i f s args :: .ident f :: Exp.listNodes args
  | .neg i e => .neg i e :: e.nodes
  | .not i e => .not i e :: e.nodes
  | .binary i op l r => .binary i op l r :: (l.nodes ++ r.nodes)
  | .unknown i => [.unknown i]
termination_by structural e => e

/-- Expressions and the expressions in them. -/
def Exp.listNodes : List Exp → List Exp
  | [] => []
  | e :: es => e.nodes ++ Exp.listNodes es
termination_by structural es => es

end

mutual

/-- The names of fields in an expression. -/
def Exp.fieldNames : Exp → List Ident
  | .int .. | .string .. | .bool .. | .ident _ | .unknown _ => []
  | .access _ _ loc f => loc.fieldNames ++ [f]
  | .assign _ l r | .binary _ _ l r => l.fieldNames ++ r.fieldNames
  | .call _ _ _ args => Exp.listFieldNames args
  | .neg _ e | .not _ e => e.fieldNames
termination_by structural e => e

/-- The names of fields in expressions. -/
def Exp.listFieldNames : List Exp → List Ident
  | [] => []
  | e :: es => e.fieldNames ++ Exp.listFieldNames es
termination_by structural es => es

end

theorem Exp.mem_nodes_self (e : Exp) : e ∈ e.nodes := by
  cases e <;> exact List.mem_cons_self

/-- Every expression has a type recorded, and what is of the error type is to blame. -/
structure Exp.Accounted (rs : List Report) (e : Exp) : Prop where
  nodes : ∀ n ∈ e.nodes, ∃ t, n.info.type = some t ∧ (t = .error → n.Blamed rs)
  fields : ∀ f ∈ e.fieldNames, ∃ t, f.info.type = some t

theorem Exp.Accounted.blamed {rs : List Report} {e : Exp} (h : e.Accounted rs)
    (htype : e.info.type = some .error) : e.Blamed rs := by
  obtain ⟨t, ht, hblamed⟩ := h.nodes e e.mem_nodes_self
  cases htype.symm.trans ht
  exact hblamed rfl

namespace Check

variable {rs : List Report}

theorem blamed_of_report {c : TypeCause} {e : Exp} (h : c.report e ∈ rs) : e.Blamed rs :=
  ⟨_, h, _, e.anchor_mem_leaves, rfl⟩

/-! ## Rules -/

/-- What makes the type of a node the error type is to blame. -/
theorem blamed_of_uniform {type result : Ty} {cause : TypeCause} {ps : List Part}
    (hps : ∀ p ∈ ps, p.type = .error → p.exp.Blamed rs) (hresult : result ≠ .error)
    (hrs : (uniform type result cause ps).2 ⊆ rs)
    (h : (uniform type result cause ps).1 = .error) : ∃ p ∈ ps, p.exp.Blamed rs := by
  have hall : ¬ ps.all (·.type == type) = true := fun hall => hresult ((if_pos hall).symm.trans h)
  simp only [List.all_eq_true, not_forall] at hall
  obtain ⟨p, hp, htype⟩ := hall
  refine ⟨p, hp, ?_⟩
  by_cases herror : p.type = .error
  · exact hps p hp herror
  · have hwant : want type cause p = [cause.report p.exp] :=
      if_neg (not_or_intro herror fun heq => htype (beq_iff_eq.mpr heq))
    have hmem : cause.report p.exp ∈ want type cause p := by
      rw [hwant]
      exact List.mem_singleton_self _
    exact blamed_of_report (hrs (List.mem_flatMap.mpr ⟨p, hp, hmem⟩))

theorem blamed_of_pair {cause : Option TypeCause} {result l r : Ty} {whole : Exp}
    (hsides : l = .error ∨ r = .error → whole.Blamed rs) (hresult : result = .error → l = .error)
    (hrs : (pair cause result whole l r).2 ⊆ rs)
    (h : (pair cause result whole l r).1 = .error) : whole.Blamed rs := by
  unfold pair at hrs h
  split at h
  · next herror => exact hsides herror
  · next herror =>
    rw [if_neg herror] at hrs
    split at h
    · exact blamed_of_report (hrs (List.mem_singleton_self _))
    · split at h
      · exact hsides (.inl (hresult h))
      · next hagree =>
        dsimp only at hrs
        rw [if_neg hagree] at hrs
        exact blamed_of_report (hrs (List.mem_singleton_self _))

theorem blamed_of_binary {op : BinOp} (hop : op ∈ BinOp.all) {i : Info} {l r : Part}
    (hl : l.type = .error → l.exp.Blamed rs) (hr : r.type = .error → r.exp.Blamed rs)
    (hrs : (binary op (.binary i op l.exp r.exp) l r).2 ⊆ rs)
    (h : (binary op (.binary i op l.exp r.exp) l r).1 = .error) :
    (Exp.binary i op l.exp r.exp).Blamed rs := by
  have hleft : l.exp.Blamed rs → (Exp.binary i op l.exp r.exp).Blamed rs := fun hblamed =>
    hblamed.mono (List.subset_append_left _ _)
  have hright : r.exp.Blamed rs → (Exp.binary i op l.exp r.exp).Blamed rs := fun hblamed =>
    hblamed.mono (List.subset_append_right _ _)
  have hparts : ∀ p ∈ [l, r], p.type = .error → p.exp.Blamed rs :=
    List.forall_mem_cons.mpr ⟨hl, List.forall_mem_singleton.mpr hr⟩
  have huniform : (∃ p ∈ [l, r], p.exp.Blamed rs) → (Exp.binary i op l.exp r.exp).Blamed rs := by
    rintro ⟨p, hp, hblamed⟩
    rcases List.mem_cons.mp hp with rfl | hp
    · exact hleft hblamed
    · cases List.mem_singleton.mp hp
      exact hright hblamed
  cases op with
  | add | sub | mul | div | and | or | less | greater | lessEq | greaterEq =>
    exact huniform (blamed_of_uniform hparts (by exact nofun) hrs h)
  | equal | notEqual =>
    refine blamed_of_pair (fun hsides => ?_) (by exact nofun) hrs h
    exact hsides.elim (fun hside => hleft (hl hside)) fun hside => hright (hr hside)
  | other => simp [BinOp.all] at hop

theorem blamed_of_call {f : Ident} (hf : f.Answered rs) {i : Info} {s : Option Span}
    {ps : List Part} (hrs : (call f ps).2 ⊆ rs) (h : (call f ps).1 = .error) :
    (Exp.call i f s (ps.map Part.exp)).Blamed rs := by
  rcases hf with ⟨symbol, hbinding, herrorless⟩ | ⟨-, hblamed⟩
  · unfold call at hrs h
    rw [hbinding] at hrs h
    have hcallee : TypeCause.callee.reportAt f.info.span ∈ rs →
        (Exp.call i f s (ps.map Part.exp)).Blamed rs := fun hmem =>
      ⟨_, hmem, _, List.mem_cons_self, rfl⟩
    cases symbol with
    | function sig => exact absurd h herrorless
    | storage st =>
      dsimp only at hrs
      rw [if_neg herrorless.type_ne_error] at hrs
      exact hcallee (hrs (List.mem_singleton_self _))
    | struct d => exact hcallee (hrs (List.mem_singleton_self _))
  · exact hblamed.mono (List.cons_subset_cons _ (List.nil_subset _))

/-! ## Expressions -/

theorem blamed_exp {e : Exp} (h : e.Blamed rs) : (exp e).value.exp.Blamed rs :=
  h.mono (leaves_exp e ▸ List.Subset.refl _)

/-- A name is given a type, and only one that is to blame is given the error type. -/
theorem accounted_ident {x : Ident} (h : x.Answered rs) :
    (ident x).value.1.info.type = some (ident x).value.2 ∧ (ident x).value.1.Answered rs ∧
      ((ident x).value.2 = .error → (Exp.ident (ident x).value.1).Blamed rs) := by
  rcases h with ⟨s, hbinding, herrorless⟩ | ⟨hbinding, hblamed⟩
  · rw [ident_of_bound hbinding]
    exact ⟨rfl, .inl ⟨s, hbinding, herrorless⟩,
      fun herror => absurd herror herrorless.type_ne_error⟩
  · have hident : ident x =
        .pure ({ x with info := { x.info with type := some .error } }, .error) := by
      unfold ident
      rw [hbinding]
    rw [hident]
    exact ⟨rfl, .inr ⟨hbinding, hblamed⟩, fun _ => hblamed⟩

/-- The type that a rule gives is accounted for with those of the expressions in the node. -/
theorem accounted_conclude {e : Exp} {v : Verdict} {ns : List Exp} {fs : List Ident}
    (hnodes : (e.record v.1).nodes = e.record v.1 :: ns) (hfields : (e.record v.1).fieldNames = fs)
    (h : v.1 = .error → e.Blamed rs)
    (hns : ∀ n ∈ ns, ∃ t, n.info.type = some t ∧ (t = .error → n.Blamed rs))
    (hfs : ∀ f ∈ fs, ∃ t, f.info.type = some t) : (conclude e v).value.exp.Accounted rs where
  nodes := by
    show ∀ n ∈ (e.record v.1).nodes, _
    rw [hnodes]
    refine List.forall_mem_cons.mpr ⟨⟨v.1, ?_, fun ht => (h ht).mono ?_⟩, hns⟩
    · cases e <;> rfl
    · rw [Exp.leaves_record]
      exact List.Subset.refl _
  fields := by
    show ∀ f ∈ (e.record v.1).fieldNames, _
    rw [hfields]
    exact hfs

mutual

/-- Every expression is given a type, and only what is to blame is given the error type. -/
theorem accounted_exp : ∀ {e : Exp}, e.Answered rs → (exp e).fault = none →
    (exp e).reports ⊆ rs → (exp e).value.exp.Accounted rs
  | .int .., _, _, _ => ⟨List.forall_mem_singleton.mpr ⟨.int, rfl, nofun⟩, List.forall_mem_nil _⟩
  | .string .., _, _, _ =>
    ⟨List.forall_mem_singleton.mpr ⟨.string, rfl, nofun⟩, List.forall_mem_nil _⟩
  | .bool .., _, _, _ => ⟨List.forall_mem_singleton.mpr ⟨.bool, rfl, nofun⟩, List.forall_mem_nil _⟩
  | .unknown _, _, h, _ => by cases h
  | .ident x, hanswered, _, _ => by
    obtain ⟨htype, -, hblamed⟩ := accounted_ident hanswered
    exact ⟨List.forall_mem_singleton.mpr ⟨_, htype, hblamed⟩, List.forall_mem_nil _⟩
  | .access i k loc f, hanswered, h, hrs => by
    have hloc := hanswered.1
    have hwhole : (Exp.access i k loc f).Blamed rs → _ := blamed_exp
    rw [exp] at h hrs hwhole ⊢
    obtain ⟨hl, hf⟩ := fault_andThen.mp h
    obtain ⟨hrl, -⟩ := Resolve.reports_subset hl hrs
    rw [value_andThen hl, value_andThen (fault_andThen.mp hf).1] at hwhole ⊢
    obtain ⟨hnodes, hfields⟩ := accounted_exp hloc hl hrl
    have htyped : (ident f).value.1.info.type = some (ident f).value.2 ∧
        ((ident f).value.2 = .error → (Exp.access i k loc f).Blamed rs) := by
      rcases hanswered.2 with ⟨s, hbinding, herrorless, -, -⟩ | ⟨hbinding, -, hblamed⟩
      · rw [ident_of_bound hbinding]
        exact ⟨rfl, fun herror => absurd herror herrorless.type_ne_error⟩
      · unfold ident
        rw [hbinding]
        exact ⟨rfl, fun _ => hblamed⟩
    refine ⟨List.forall_mem_cons.mpr ⟨⟨_, rfl, fun herror => ?_⟩, hnodes⟩, ?_⟩
    · exact hwhole (htyped.2 herror)
    · exact List.forall_mem_append.mpr
        ⟨hfields, List.forall_mem_singleton.mpr ⟨_, htyped.1⟩⟩
  | .assign i l r, hanswered, h, hrs => by
    rw [exp] at h hrs ⊢
    obtain ⟨hl, hr⟩ := fault_andThen.mp h
    obtain ⟨hrl, hrs⟩ := Resolve.reports_subset hl hrs
    obtain ⟨hr, -⟩ := fault_andThen.mp hr
    obtain ⟨hrr, hrs⟩ := Resolve.reports_subset hr hrs
    have hleft := accounted_exp hanswered.1 hl hrl
    have hright := accounted_exp hanswered.2 hr hrr
    rw [value_andThen hl, value_andThen hr]
    refine accounted_conclude rfl rfl ?_
      (List.forall_mem_append.mpr ⟨hleft.nodes, hright.nodes⟩)
      (List.forall_mem_append.mpr ⟨hleft.fields, hright.fields⟩)
    refine blamed_of_pair (fun hsides => ?_) id hrs
    rcases hsides with hside | hside
    · refine (hleft.blamed ?_).mono (List.subset_append_left _ _)
      rw [type_exp hl, hside]
    · refine (hright.blamed ?_).mono (List.subset_append_right _ _)
      rw [type_exp hr, hside]
  | .call i f s args, hanswered, h, hrs => by
    rw [exp] at h hrs ⊢
    obtain ⟨hf, hargs⟩ := fault_andThen.mp h
    obtain ⟨-, hrs⟩ := Resolve.reports_subset hf hrs
    obtain ⟨hargs, -⟩ := fault_andThen.mp hargs
    obtain ⟨hra, hrs⟩ := Resolve.reports_subset hargs hrs
    obtain ⟨hnodes, hfields⟩ := accounted_exps hanswered.2 hargs hra
    obtain ⟨htype, hbound, hblamed⟩ := accounted_ident hanswered.1
    rw [value_andThen hf, value_andThen hargs]
    exact accounted_conclude rfl rfl (blamed_of_call hbound hrs)
      (List.forall_mem_cons.mpr ⟨⟨_, htype, hblamed⟩, hnodes⟩) hfields
  | .neg i e, hanswered, h, hrs | .not i e, hanswered, h, hrs => by
    rw [exp] at h hrs ⊢
    obtain ⟨he, -⟩ := fault_andThen.mp h
    obtain ⟨hre, hrs⟩ := Resolve.reports_subset he hrs
    have hoperand := accounted_exp (e := e) hanswered he hre
    have hpart : ∀ p ∈ [(exp e).value], p.type = .error → p.exp.Blamed rs := by
      refine List.forall_mem_singleton.mpr fun herror => hoperand.blamed ?_
      rw [type_exp he, herror]
    rw [value_andThen he]
    refine accounted_conclude rfl rfl (fun herror => ?_) hoperand.nodes hoperand.fields
    obtain ⟨p, hp, hblamed⟩ := blamed_of_uniform hpart (by exact nofun) hrs herror
    cases List.mem_singleton.mp hp
    exact hblamed
  | .binary i op l r, hanswered, h, hrs => by
    by_cases hop : op ∈ BinOp.all
    · rw [exp_binary hop] at h hrs ⊢
      obtain ⟨hl, hr⟩ := fault_andThen.mp h
      obtain ⟨hrl, hrs⟩ := Resolve.reports_subset hl hrs
      obtain ⟨hr, -⟩ := fault_andThen.mp hr
      obtain ⟨hrr, hrs⟩ := Resolve.reports_subset hr hrs
      have hleft := accounted_exp hanswered.1 hl hrl
      have hright := accounted_exp hanswered.2 hr hrr
      rw [value_andThen hl, value_andThen hr]
      refine accounted_conclude rfl rfl (blamed_of_binary hop (fun herror => hleft.blamed ?_)
        (fun herror => hright.blamed ?_) hrs)
        (List.forall_mem_append.mpr ⟨hleft.nodes, hright.nodes⟩)
        (List.forall_mem_append.mpr ⟨hleft.fields, hright.fields⟩)
      · rw [type_exp hl, herror]
      · rw [type_exp hr, herror]
    · cases op with
      | other => cases h
      | _ => exact absurd (by decide) hop

theorem accounted_exps : ∀ {es : List Exp}, Exp.ListAnswered rs es → (exps es).fault = none →
    (exps es).reports ⊆ rs →
    (∀ n ∈ Exp.listNodes ((exps es).value.map Part.exp),
      ∃ t, n.info.type = some t ∧ (t = .error → n.Blamed rs)) ∧
    ∀ f ∈ Exp.listFieldNames ((exps es).value.map Part.exp), ∃ t, f.info.type = some t
  | [], _, _, _ => ⟨List.forall_mem_nil _, List.forall_mem_nil _⟩
  | e :: es, hanswered, h, hrs => by
    rw [exps] at h hrs ⊢
    obtain ⟨he, hes⟩ := fault_andThen.mp h
    obtain ⟨hre, hres⟩ := Resolve.reports_subset he hrs
    obtain ⟨hnodes, hfields⟩ := accounted_exp hanswered.1 he hre
    obtain ⟨hnodes', hfields'⟩ := accounted_exps hanswered.2 hes hres
    rw [value_andThen he, value_map]
    exact ⟨List.forall_mem_append.mpr ⟨hnodes, hnodes'⟩,
      List.forall_mem_append.mpr ⟨hfields, hfields'⟩⟩

end

end Check

end CMinusMinus
