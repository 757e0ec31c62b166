import CMinusMinus.Proofs.History.Openings

/-!
# Answers told by histories

The scopes that are open after some operations are what the open scopes of their history declare
(`Explains`), and every operation keeps it that way (`Explains.next`).  So an operation is answered
as the history says (`Explains.answers`), which says one thing only (`Explains.answer_eq`).

No operation touches the scopes outside the innermost one.  Operations that exit only the scopes
that they enter leave all scopes outside as they are (`run_append_outer`), so once the scope around
them is exited, all is as it was before it was entered (`run_of_balanced`).
-/

namespace CMinusMinus

variable {σ : Type}

theorem Scope.find?_eq_none_iff {scope : Scope σ} {name : String} :
    scope.find? name = none ↔ ∀ x, (name, x) ∉ scope := by
  rw [find?, List.lookup_eq_none_iff]
  simp only [bne_iff_ne]
  exact ⟨fun h x hmem => h _ hmem rfl, fun h p hmem heq => h p.2 (heq ▸ hmem)⟩

theorem Scope.find?_eq_some_iff {scope : Scope σ} (hnodup : (scope.map Prod.fst).Nodup)
    {name : String} {x : σ} : scope.find? name = some x ↔ (name, x) ∈ scope := by
  constructor
  · intro h
    obtain ⟨before, after, rfl, -⟩ := List.lookup_eq_some_iff.mp h
    exact List.mem_append_right _ List.mem_cons_self
  · intro hmem
    cases hfind : scope.find? name with
    | none => exact absurd hmem (find?_eq_none_iff.mp hfind x)
    | some y =>
      obtain ⟨before, after, rfl, -⟩ := List.lookup_eq_some_iff.mp hfind
      have hmem' := List.mem_append_right before (List.mem_cons_self (a := (name, y)) (l := after))
      cases List.inj_on_of_nodup_map hnodup hmem hmem' rfl
      rfl

namespace Scopes

variable {s : Scopes σ} {scope : Scope σ} {outer : Scopes σ} {op : Operation σ}

/-! ## Transcripts -/

theorem run_append (s : Scopes σ) (ops ops' : List (Operation σ)) :
    s.run (ops ++ ops') = (s.run ops).run ops' :=
  List.foldl_append

theorem transcript_concat (s : Scopes σ) (ops : List (Operation σ)) (op : Operation σ) :
    s.transcript (ops ++ [op]) = s.transcript ops ++ [(op, (s.run ops).answer op)] := by
  induction ops generalizing s with
  | nil => rfl
  | cons op' ops ih => exact congrArg _ (ih (s.next op'))

/-! ## Operations -/

theorem perform_of_refusal {cause : FaultCause} (h : op.refusal = some cause) :
    perform ([] : Scopes σ) op = .error ⟨cause, none⟩ := by
  cases op <;> cases h <;> rfl

theorem answer_of_refusal {cause : FaultCause} (h : op.refusal = some cause) :
    answer ([] : Scopes σ) op = .error ⟨cause, none⟩ := by
  rw [answer, perform_of_refusal h]
  rfl

theorem perform_declare_of_some {name : String} {y : σ} (h : scope.find? name = some y) (x : σ) :
    perform (scope :: outer) (.declare name x) = .ok (.declared .duplicate, scope :: outer) := by
  have hinner : inner? (scope :: outer) name = some y := h
  simp only [perform, declare, hinner, checked, Except.map]

theorem perform_declare_of_none {name : String} (h : scope.find? name = none) (x : σ) :
    perform (scope :: outer) (.declare name x) =
      .ok (.declared .accepted, (scope ++ [(name, x)]) :: outer) := by
  have hinner : inner? (scope :: outer) name = none := h
  simp only [perform, declare, hinner, checked, Except.map, insert]

theorem answer_resolveLexical (hs : s ≠ []) (name : String) :
    s.answer (.resolveLexical name) = .ok (.found (s.find? name)) := by
  obtain ⟨scope, outer, rfl⟩ := List.exists_cons_of_ne_nil hs
  rfl

theorem answer_resolveGlobal (hs : s ≠ []) (name : String) :
    s.answer (.resolveGlobal name) = .ok (.found (s.outer? name)) := by
  obtain ⟨scope, outer, rfl⟩ := List.exists_cons_of_ne_nil hs
  rfl

theorem outer?_concat (inner : Scopes σ) (scope : Scope σ) (name : String) :
    outer? (inner ++ [scope]) name = scope.find? name := by
  rw [outer?, List.getLast?_concat, Option.bind_some]

/-- An operation that is refused changes nothing. -/
theorem next_of_error {fault : Fault} (h : s.answer op = .error fault) : s.next op = s := by
  rw [answer] at h
  rw [next]
  cases hperform : s.perform op with
  | error fault => rfl
  | ok p =>
    rw [hperform] at h
    cases h

/-! ## Scopes and their history -/

open History

variable {h after : History σ} {inner : Scopes σ}

/-- The open scopes are what the history says that they declare, each name once. -/
structure Explains (h : History σ) (s : Scopes σ) : Prop where
  scopes : (openings h).map successes = s
  nodup : ∀ scope ∈ s, (scope.map Prod.fst).Nodup

namespace Explains

theorem nil : Explains ([] : History σ) [] := ⟨rfl, fun _ hmem => nomatch hmem⟩

/-- Records that enter and exit nothing and declare nothing. -/
theorem unchanged (hs : Explains h s) {r : Record σ} (hchange : r.change = 0)
    (hsuccess : r.success = none) : Explains (h ++ [r]) s where
  scopes := by
    rw [openings_concat]
    rcases Record.trichotomy r with ⟨reply, rfl⟩ | ⟨reply, rfl⟩ | ⟨-, -, htrack⟩
    · cases hchange
    · cases hchange
    · rw [htrack, List.map_map, ← hs.scopes]
      exact List.map_congr_left fun after _ => successes_concat_of_none after hsuccess
  nodup := hs.nodup

theorem enter (hs : Explains h s) (reply : Reply σ) :
    Explains (h ++ [(.enter, .ok reply)]) ([] :: s) where
  scopes := by
    rw [openings_concat, track, List.map_cons, List.map_map, ← hs.scopes]
    exact congrArg _ (List.map_congr_left fun after _ => successes_concat_of_none after rfl)
  nodup := List.forall_mem_cons.mpr ⟨List.nodup_nil, hs.nodup⟩

theorem exit (hs : Explains h (scope :: outer)) (reply : Reply σ) :
    Explains (h ++ [(.exit, .ok reply)]) outer where
  scopes := by
    have htail := congrArg List.tail hs.scopes
    rw [← List.map_tail, List.tail_cons] at htail
    rw [openings_concat, track, List.map_map, ← htail]
    exact List.map_congr_left fun after _ => successes_concat_of_none after rfl
  nodup := (List.forall_mem_cons.mp hs.nodup).2

theorem declare (hs : Explains h (scope :: outer)) {name : String} (x : σ)
    (hname : scope.find? name = none) :
    Explains (h ++ [(.declare name x, .ok (.declared .accepted))])
      ((scope ++ [(name, x)]) :: outer) where
  scopes := by
    obtain ⟨inner, os, hh, rfl, rfl⟩ := List.map_eq_cons_iff.mp hs.scopes
    rw [openings_concat, hh]
    -- within the scopes outside there is at least one more open, so none of them takes it
    refine congrArg₂ List.cons ?_ ?_
    · show successes (inner ++ [_]) = _
      rw [successes_concat, if_pos (balance_head hh)]
      rfl
    · refine (List.map_map ..).trans (List.map_congr_left fun after hmem => ?_)
      have hpos := balance_tail hh after hmem
      show successes (after ++ [_]) = _
      rw [successes_concat, if_neg (by omega), Option.toList_none, List.append_nil]
  nodup := by
    obtain ⟨hscope, houter⟩ := List.forall_mem_cons.mp hs.nodup
    refine List.forall_mem_cons.mpr ⟨?_, houter⟩
    rw [List.map_append, List.nodup_append]
    refine ⟨hscope, List.nodup_singleton _, ?_⟩
    rintro _ hmem _ hmem' rfl
    obtain ⟨d, hd, rfl⟩ := List.mem_map.mp hmem
    rw [List.map_singleton, List.mem_singleton] at hmem'
    have hd' : (d.1, d.2) ∈ scope := hd
    rw [hmem'] at hd'
    exact Scope.find?_eq_none_iff.mp hname d.2 hd'

/-- Every operation is recorded. -/
theorem next (hs : Explains h s) (op : Operation σ) :
    Explains (h ++ [(op, s.answer op)]) (s.next op) := by
  cases s with
  | nil =>
    cases hop : op.refusal with
    | none =>
      cases op with
      | enter => exact hs.enter _
      | _ => cases hop
    | some cause =>
      have hanswer := answer_of_refusal (σ := σ) hop
      rw [hanswer, next_of_error hanswer]
      exact hs.unchanged rfl (by cases op <;> rfl)
  | cons scope outer =>
    cases op with
    | enter => exact hs.enter _
    | exit => exact hs.exit _
    | declare name x =>
      cases hname : scope.find? name with
      | none =>
        rw [answer, Scopes.next, perform_declare_of_none hname]
        exact hs.declare x hname
      | some y =>
        rw [answer, Scopes.next, perform_declare_of_some hname]
        exact hs.unchanged rfl rfl
    | resolveLocal | resolveLexical | resolveGlobal | items => exact hs.unchanged rfl rfl

/-- The history of operations explains the scopes that are open after them. -/
theorem transcript (ops : List (Operation σ)) :
    Explains (Scopes.transcript [] ops) (run [] ops) := by
  induction ops using List.reverseRecOn with
  | nil => exact nil
  | append_singleton ops op ih =>
    rw [transcript_concat, run_append]
    exact ih.next op

/-! ## Answers -/

theorem means_iff (hnodup : ((successes after).map Prod.fst).Nodup) {name : String} {x : Option σ} :
    Means after name x ↔ (successes after).find? name = x := by
  cases x with
  | none => exact Scope.find?_eq_none_iff.symm
  | some x => exact (Scope.find?_eq_some_iff hnodup).symm

theorem means_of_open (hs : Explains h s) (hopen : Open h after) {name : String} {x : Option σ} :
    Means after name x ↔ (successes after).find? name = x :=
  means_iff (hs.nodup _ (hs.scopes ▸ List.mem_map_of_mem (mem_openings.mpr hopen)))

theorem not_open (hs : Explains h ([] : Scopes σ)) : ∀ after, ¬ Open h after :=
  History.not_open (List.map_eq_nil_iff.mp hs.scopes)

theorem ne_nil_of_open (hs : Explains h s) (hopen : Open h after) : s ≠ [] := by
  rintro rfl
  exact hs.not_open after hopen

theorem innermost (hs : Explains h (scope :: outer)) :
    ∃ after, Innermost h after ∧ successes after = scope := by
  obtain ⟨after, os, hh, rfl, rfl⟩ := List.map_eq_cons_iff.mp hs.scopes
  exact ⟨after, (innermost_iff hh).mpr rfl, rfl⟩

theorem outermost (hs : Explains h (inner ++ [scope])) :
    ∃ after, Outermost h after ∧ successes after = scope := by
  obtain ⟨os, os', hh, -, hlast⟩ := List.map_eq_append_iff.mp hs.scopes
  obtain ⟨after, rfl, rfl⟩ := List.map_eq_singleton_iff.mp hlast
  exact ⟨after, (outermost_iff hh).mpr rfl, rfl⟩

/-- Less has happened since the scopes within a scope were entered. -/
theorem openScope (hs : Explains h (inner ++ scope :: outer)) :
    ∃ after, Open h after ∧ successes after = scope ∧
      ∀ after', Open h after' → after'.length < after.length → successes after' ∈ inner := by
  obtain ⟨os, os', hh, rfl, hrest⟩ := List.map_eq_append_iff.mp hs.scopes
  obtain ⟨after, os'', rfl, rfl, rfl⟩ := List.map_eq_cons_iff.mp hrest
  have hpairwise := pairwise_openings h
  rw [hh, List.pairwise_append] at hpairwise
  refine ⟨after, mem_openings.mp (hh ▸ List.mem_append_right _ List.mem_cons_self), rfl, ?_⟩
  intro after' hopen hlt
  rw [← mem_openings, hh] at hopen
  rcases List.mem_append.mp hopen with hmem | hmem
  · exact List.mem_map_of_mem hmem
  · rcases List.mem_cons.mp hmem with rfl | hmem
    · exact absurd hlt (Nat.lt_irrefl _)
    · have hgt := List.rel_of_pairwise_cons hpairwise.2.1 hmem
      omega

theorem of_innermost (hs : Explains h s) (hinner : Innermost h after) :
    ∃ outer, s = successes after :: outer := by
  cases hh : openings h with
  | nil => exact absurd hinner.1 (History.not_open hh after)
  | cons inner os =>
    rw [(innermost_iff hh).mp hinner, ← hs.scopes, hh]
    exact ⟨_, rfl⟩

theorem of_outermost (hs : Explains h s) (houter : Outermost h after) :
    ∃ inner, s = inner ++ [successes after] := by
  rcases List.eq_nil_or_concat' (openings h) with hh | ⟨os, outer, hh⟩
  · exact absurd houter.1 (History.not_open hh after)
  · rw [(outermost_iff hh).mp houter, ← hs.scopes, hh, List.map_append]
    exact ⟨_, rfl⟩

theorem of_open (hs : Explains h s) (hopen : Open h after) :
    ∃ inner outer, s = inner ++ successes after :: outer ∧
      ∀ scope ∈ inner, ∃ after', Open h after' ∧ after'.length < after.length ∧
        successes after' = scope := by
  obtain ⟨os, os', hh⟩ := List.append_of_mem (mem_openings.mpr hopen)
  have hpairwise := pairwise_openings h
  rw [hh, List.pairwise_append] at hpairwise
  refine ⟨os.map successes, os'.map successes, ?_, fun scope hmem => ?_⟩
  · rw [← hs.scopes, hh, List.map_append, List.map_cons]
  · obtain ⟨after', hmem', rfl⟩ := List.mem_map.mp hmem
    exact ⟨after', mem_openings.mp (hh ▸ List.mem_append_left _ hmem'),
      hpairwise.2.2 after' hmem' after List.mem_cons_self, rfl⟩

theorem answers_resolveLexical (hs : Explains h s) (hne : s ≠ []) (name : String) :
    Answers h (.resolveLexical name) (.ok (.found (s.find? name))) := by
  cases hfind : s.find? name with
  | none =>
    obtain ⟨scope, outer, rfl⟩ := List.exists_cons_of_ne_nil hne
    obtain ⟨after, hinner, -⟩ := hs.innermost
    refine .unresolved hinner.1 fun after' hopen => (hs.means_of_open hopen).mpr ?_
    obtain ⟨within, outside, heq, -⟩ := hs.of_open hopen
    rw [heq] at hfind
    exact List.findSome?_eq_none_iff.mp hfind _ (List.mem_append_right _ List.mem_cons_self)
  | some x =>
    obtain ⟨within, scope, outside, rfl, hscope, hnone⟩ := List.findSome?_eq_some_iff.mp hfind
    obtain ⟨after, hopen, rfl, hwithin⟩ := hs.openScope
    refine .resolveLexical hopen ((hs.means_of_open hopen).mpr hscope) fun after' hopen' hlt => ?_
    exact (hs.means_of_open hopen').mpr (hnone _ (hwithin after' hopen' hlt))

theorem answers_resolveGlobal (hs : Explains h s) (hne : s ≠ []) (name : String) :
    Answers h (.resolveGlobal name) (.ok (.found (s.outer? name))) := by
  obtain ⟨inner, scope, rfl⟩ := (List.eq_nil_or_concat' s).resolve_left hne
  obtain ⟨after, houter, rfl⟩ := hs.outermost
  exact .resolveGlobal houter ((hs.means_of_open houter.1).mpr (outer?_concat _ _ _).symm)

/-- The scopes answer as the history says. -/
theorem answers (hs : Explains h s) (op : Operation σ) : Answers h op (s.answer op) := by
  cases s with
  | nil =>
    cases hop : op.refusal with
    | none =>
      cases op with
      | enter => exact .enter
      | _ => cases hop
    | some cause =>
      rw [answer_of_refusal hop]
      exact .refused hop hs.not_open
  | cons scope outer =>
    obtain ⟨after, hinner, rfl⟩ := hs.innermost
    have hmeans {name : String} {x : Option σ} : Means after name x ↔ _ :=
      hs.means_of_open hinner.1
    cases op with
    | enter => exact .enter
    | exit => exact .exit hinner
    | items => exact .items hinner
    | declare name x =>
      cases hname : (successes after).find? name with
      | none =>
        rw [answer, perform_declare_of_none hname]
        exact .accepted hinner (hmeans.mpr hname)
      | some y =>
        rw [answer, perform_declare_of_some hname]
        exact .duplicate hinner (hmeans.mpr hname)
    | resolveLocal name => exact .resolveLocal hinner (hmeans.mpr rfl)
    | resolveLexical => exact hs.answers_resolveLexical (List.cons_ne_nil _ _) _
    | resolveGlobal => exact hs.answers_resolveGlobal (List.cons_ne_nil _ _) _

/-- The history determines one answer at most. -/
theorem answer_eq (hs : Explains h s) {a : Except Fault (Reply σ)} (ha : Answers h op a) :
    s.answer op = a := by
  cases ha with
  | enter => rfl
  | refused hop hnone =>
    have hh : openings h = [] := List.eq_nil_iff_forall_not_mem.mpr fun after hmem =>
      hnone after (mem_openings.mp hmem)
    rw [← hs.scopes, hh]
    exact answer_of_refusal hop
  | exit hinner | items hinner =>
    obtain ⟨outer, rfl⟩ := hs.of_innermost hinner
    rfl
  | duplicate hinner hmeans =>
    have hname := (hs.means_of_open hinner.1).mp hmeans
    obtain ⟨outer, rfl⟩ := hs.of_innermost hinner
    rw [answer, perform_declare_of_some hname]
    rfl
  | accepted hinner hmeans =>
    have hname := (hs.means_of_open hinner.1).mp hmeans
    obtain ⟨outer, rfl⟩ := hs.of_innermost hinner
    rw [answer, perform_declare_of_none hname]
    rfl
  | resolveLocal hinner hmeans =>
    have hname := (hs.means_of_open hinner.1).mp hmeans
    obtain ⟨outer, rfl⟩ := hs.of_innermost hinner
    rw [← hname]
    rfl
  | @resolveLexical _ name x hopen hmeans hwithin =>
    have hname := (hs.means_of_open hopen).mp hmeans
    obtain ⟨inner, outer, heq, hinner⟩ := hs.of_open hopen
    have hnone : ∀ scope ∈ inner, scope.find? name = none := by
      intro scope hmem
      obtain ⟨after', hopen', hlt, rfl⟩ := hinner scope hmem
      exact (hs.means_of_open hopen').mp (hwithin after' hopen' hlt)
    have hfind : s.find? name = some x :=
      List.findSome?_eq_some_iff.mpr ⟨inner, _, outer, heq, hname, hnone⟩
    rw [answer_resolveLexical (hs.ne_nil_of_open hopen), hfind]
  | @unresolved _ name hopen hnone =>
    have hfind : s.find? name = none := by
      refine List.findSome?_eq_none_iff.mpr fun scope hmem => ?_
      rw [← hs.scopes] at hmem
      obtain ⟨after', hmem', rfl⟩ := List.mem_map.mp hmem
      have hopen' := mem_openings.mp hmem'
      exact (hs.means_of_open hopen').mp (hnone after' hopen')
    rw [answer_resolveLexical (hs.ne_nil_of_open hopen), hfind]
  | resolveGlobal houter hmeans =>
    have hname := (hs.means_of_open houter.1).mp hmeans
    rw [answer_resolveGlobal (hs.ne_nil_of_open houter.1)]
    obtain ⟨inner, rfl⟩ := hs.of_outermost houter
    rw [outer?_concat, hname]

end Explains

/-! ## Balanced operations -/

/-- No operation touches the scopes outside the innermost one. -/
theorem next_append_outer {inner : Scopes σ} (hinner : inner ≠ []) (outer : Scopes σ)
    (op : Operation σ) : ∃ inner' : Scopes σ, next (inner ++ outer) op = inner' ++ outer ∧
      (inner'.length : Int) = inner.length + op.change := by
  obtain ⟨scope, rest, rfl⟩ := List.exists_cons_of_ne_nil hinner
  cases op with
  | enter => exact ⟨[] :: scope :: rest, rfl, rfl⟩
  | exit => exact ⟨rest, rfl, (Int.add_sub_cancel _ 1).symm⟩
  | declare name x =>
    cases hname : scope.find? name with
    | none =>
      refine ⟨(scope ++ [(name, x)]) :: rest, ?_, (Int.add_zero _).symm⟩
      rw [next, List.cons_append, perform_declare_of_none hname]
      rfl
    | some y =>
      refine ⟨scope :: rest, ?_, (Int.add_zero _).symm⟩
      rw [next, List.cons_append, perform_declare_of_some hname]
  | resolveLocal | resolveLexical | resolveGlobal | items =>
    exact ⟨scope :: rest, rfl, (Int.add_zero _).symm⟩

/-- Operations that never exit the last of some scopes touch none outside. -/
theorem run_append_outer {ops : List (Operation σ)} {inner : Scopes σ}
    (hops : ∀ p, p <+: ops → 0 < inner.length + (p.map Operation.change).sum) (outer : Scopes σ) :
    ∃ inner' : Scopes σ, run (inner ++ outer) ops = inner' ++ outer ∧
      (inner'.length : Int) = inner.length + (ops.map Operation.change).sum := by
  induction ops generalizing inner with
  | nil => exact ⟨inner, rfl, (Int.add_zero _).symm⟩
  | cons op ops ih =>
    have hinner : inner ≠ [] := by
      rintro rfl
      exact absurd (hops [] List.nil_prefix) (Int.lt_irrefl 0)
    obtain ⟨inner₁, hnext, hlength⟩ := next_append_outer hinner outer op
    have hops₁ : ∀ p, p <+: ops → 0 < (inner₁.length : Int) + (p.map Operation.change).sum := by
      intro p hp
      have h := hops (op :: p) (List.cons_prefix_cons.mpr ⟨rfl, hp⟩)
      rwa [List.map_cons, List.sum_cons, ← Int.add_assoc, ← hlength] at h
    obtain ⟨inner', hrun, hlength'⟩ := ih hops₁
    refine ⟨inner', ?_, ?_⟩
    · rw [← hrun, ← hnext]
      rfl
    · rw [hlength', hlength, List.map_cons, List.sum_cons, Int.add_assoc]

/-- A scope is entered and exited, and the operations in between are balanced. -/
theorem run_of_balanced {between : List (Operation σ)} (h : Operation.Balanced between)
    (s : Scopes σ) : run s (.enter :: between ++ [.exit]) = s := by
  have hkept : ∀ p, p <+: between →
      0 < (([[]] : Scopes σ).length : Int) + (p.map Operation.change).sum := by
    intro p hp
    have hkept := h.kept p hp
    rw [List.length_singleton]
    omega
  obtain ⟨inner, hrun, hlength⟩ := run_append_outer hkept s
  rw [h.level] at hlength
  obtain ⟨scope, rfl⟩ := List.length_eq_one_iff.mp (Int.ofNat.inj hlength)
  have henter : run s (.enter :: between) = run ([[]] ++ s) between := rfl
  rw [run_append, henter, hrun]
  rfl

/-! ## The answers -/

/-- An accepted declaration is visible. -/
theorem resolveLexical_of_accepted {name : String} {x : σ}
    (h : s.answer (.declare name x) = .ok (.declared .accepted)) :
    (s.next (.declare name x)).answer (.resolveLexical name) = .ok (.found (some x)) := by
  cases s with
  | nil => cases h
  | cons scope outer =>
    cases hname : scope.find? name with
    | some y =>
      rw [answer, perform_declare_of_some hname] at h
      cases h
    | none =>
      have hself : Scope.find? [(name, x)] name = some x := List.lookup_cons_self
      rw [next, perform_declare_of_none hname, answer_resolveLexical (List.cons_ne_nil _ _),
        find?_cons, Scope.find?_append, hname, hself]
      rfl

/-- Whatever operations there were, the answer to the next one is what the history determines.  An
accepted declaration is visible, a refused operation changes nothing, and once a scope is exited
all is as it was before it was entered. -/
theorem answers_determined :
    (∀ (ops : List (Operation σ)) op a,
      (run [] ops).answer op = a ↔ Answers (transcript [] ops) op a) ∧
    (∀ (ops : List (Operation σ)) name x,
      (run [] ops).answer (.declare name x) = .ok (.declared .accepted) →
      (run [] (ops ++ [.declare name x])).answer (.resolveLexical name) = .ok (.found (some x))) ∧
    (∀ (ops : List (Operation σ)) op fault, (run [] ops).answer op = .error fault →
      run [] (ops ++ [op]) = run [] ops) ∧
    (∀ ops between : List (Operation σ), Operation.Balanced between →
      run [] (ops ++ .enter :: between ++ [.exit]) = run [] ops) := by
  refine ⟨fun ops op a => ?_, fun ops name x h => ?_, fun ops op fault h => ?_,
    fun ops between h => ?_⟩
  · have hexplains := Explains.transcript ops
    exact ⟨fun heq => heq ▸ hexplains.answers op, hexplains.answer_eq⟩
  · rw [run_append]
    exact resolveLexical_of_accepted h
  · rw [run_append]
    exact next_of_error h
  · rw [List.append_assoc, run_append]
    exact run_of_balanced h _

theorem answers_determined_of_shadowing :
    let ops : List (Operation Nat) := [.enter, .declare "x" 1, .enter]
    let between : List (Operation Nat) := [.declare "x" 2, .enter, .declare "x" 3, .exit]
    (Answers (transcript [] ops) (.declare "x" 2) (.ok (.declared .accepted)) ∧
      (run [] (ops ++ [.declare "x" 2])).answer (.resolveLexical "x") = .ok (.found (some 2))) ∧
    run ([] : Scopes Nat) ([] ++ [.exit]) = [] ∧
    run [] (ops ++ .enter :: between ++ [.exit]) = run [] ops := by
  obtain ⟨hanswers, hvisible, hrefused, hbalanced⟩ := answers_determined (σ := Nat)
  refine ⟨⟨(hanswers _ _ _).mp rfl, hvisible _ _ _ rfl⟩, hrefused [] .exit _ rfl,
    hbalanced _ _ ⟨fun p hp => ?_, rfl⟩⟩
  have hinits : ∀ p ∈ List.inits ([.declare "x" 2, .enter, .declare "x" 3, .exit] :
      List (Operation Nat)), 0 ≤ (p.map Operation.change).sum := by decide
  exact hinits p ((List.mem_inits p _).mpr hp)

end Scopes

end CMinusMinus
