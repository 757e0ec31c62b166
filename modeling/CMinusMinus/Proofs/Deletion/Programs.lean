import CMinusMinus.Proofs.Compilation
import CMinusMinus.Proofs.Deletion.Resolving
import CMinusMinus.Proofs.Locality.Reports

/-!
# Programs without a rejected declaration

A declaration of a variable that name resolution rejects can be deleted: nothing changes in what the
passes make of the rest of the program, nor in what is reported outside of the declaration
(`Compilation.analyze_without`).
-/

namespace CMinusMinus

open Outcome

variable {v w : VarDecl}

/-! ## Type checking -/

namespace Check

theorem stmts_eq_traverse (returns : Ty) (ss : List Stmt) :
    (stmts returns ss).map (fun ss => (ss, ())) =
      Outcome.traverse (fun (_ : Unit) s => (stmt returns s).map fun s => (s, ())) () ss := by
  induction ss with
  | nil => rfl
  | cons s ss ih =>
    cases hfault : (stmt returns s).fault with
    | some => simp only [stmts, Outcome.traverse, Outcome.andThen, Outcome.map, hfault]
    | none =>
      rw [stmts, andThen_of_fault_none hfault, traverse_cons (by exact hfault)]
      dsimp only [value_map]
      rw [← ih]
      rfl

/-- Type checking of a statement comes to its block, and another block with the same reports makes
no difference to the rest of the statement. -/
theorem stmt_focus {returns : Ty} {second : Bool} {s : Stmt} {b b' : Block Stmt}
    (h : (stmt returns s).fault = none) (hb : s.body? second = some b) :
    (block returns b).fault = none ∧
      (stmt returns s).value.body? second = some (block returns b).value ∧
      ((block returns b').fault = none → (block returns b').reports = (block returns b).reports →
        stmt returns (s.withBody second b') =
          reporting ((stmt returns s).value.withBody second (block returns b').value)
            (stmt returns s).reports) := by
  cases s with
  | ifThen sp e b | «while» sp e b =>
    cases second with
    | true => cases hb
    | false =>
      cases hb
      rw [stmt, fault_andThen, fault_map] at h
      obtain ⟨he, hblock⟩ := h
      refine ⟨hblock, ?_, fun hfault hreports => ?_⟩
      · rw [stmt, value_andThen he]
        rfl
      · rw [Stmt.withBody, stmt, stmt, andThen_of_fault_none he, andThen_of_fault_none he]
        dsimp only [Outcome.map, reporting, Stmt.withBody]
        rw [hfault, hreports]
  | ifElse sp e b₁ b₂ =>
    rw [stmt, fault_andThen, fault_andThen, fault_map] at h
    obtain ⟨he, hb₁, hb₂⟩ := h
    cases second with
    | false =>
      obtain rfl : b₁ = b := Option.some.inj hb
      refine ⟨hb₁, ?_, fun hfault hreports => ?_⟩
      · rw [stmt, value_andThen he, value_andThen hb₁]
        rfl
      · rw [Stmt.withBody, if_neg Bool.false_ne_true, stmt, stmt, andThen_of_fault_none he,
          andThen_of_fault_none he, andThen_of_fault_none hb₁, andThen_of_fault_none hfault]
        dsimp only [Outcome.map, reporting, Stmt.withBody]
        rw [hb₂, hreports]
        rfl
    | true =>
      obtain rfl : b₂ = b := Option.some.inj hb
      refine ⟨hb₂, ?_, fun hfault hreports => ?_⟩
      · rw [stmt, value_andThen he, value_andThen hb₁]
        rfl
      · rw [Stmt.withBody, if_pos rfl, stmt, stmt, andThen_of_fault_none he,
          andThen_of_fault_none he, andThen_of_fault_none hb₁, andThen_of_fault_none hb₁]
        dsimp only [Outcome.map, reporting, Stmt.withBody]
        rw [hfault, hreports]
        rfl
  | _ => cases hb

/-- Type checking of a block does not see what the block declares. -/
theorem block_without {returns : Ty} {spot : Block.Spot} : ∀ {b b' : Block Stmt},
    (block returns b).fault = none → Stmt.blockWithout spot b = some (w, b') →
    (block returns b').fault = none ∧ (block returns b').reports = (block returns b).reports ∧
      Stmt.blockWithout spot (block returns b).value = some (w, (block returns b').value) := by
  induction spot with
  | decl i =>
    rintro ⟨ds, sp, ss⟩ b' h hb
    obtain ⟨⟨_, ds'⟩, hds, heq⟩ := Option.map_eq_some_iff.mp hb
    cases heq
    refine ⟨h, rfl, ?_⟩
    rw [block, value_map, Stmt.blockWithout, hds]
    rfl
  | inner i second spot ih =>
    rintro ⟨ds, sp, ss⟩ b' h hb
    obtain ⟨s, body, body', hs, hbody, hwithout, rfl⟩ := Stmt.blockWithout_inner hb
    have hstmts := stmts_eq_traverse returns ss
    obtain ⟨_, xs, zs, hfault, hvalue, hreports, hset, -⟩ :=
      traverse_focus (by rw [← hstmts]; exact h) hs
    obtain ⟨hblock, hbody₁, hset'⟩ := stmt_focus hfault hbody
    obtain ⟨hfault', hreports', hwithout'⟩ := ih hblock hwithout
    have hset := hset _ _ _ (congrArg (Outcome.map fun s => (s, ())) (hset' hfault' hreports'))
    rw [← hstmts] at hvalue hset hreports
    rw [← stmts_eq_traverse] at hset
    have hs₁ : (stmts returns ss).value[i]? = some (stmt returns s).value := hvalue
    have hvalue' : (stmts returns (ss.set i (s.withBody second body'))).value =
        (stmts returns ss).value.set i ((stmt returns s).value.withBody second _) :=
      congrArg (·.value.1) hset
    refine ⟨congrArg Outcome.fault hset, (congrArg Outcome.reports hset).trans hreports.symm, ?_⟩
    simp only [block, value_map, Stmt.blockWithout, hs₁, hbody₁, hwithout', hvalue',
      Option.bind_some, Option.map_some]

/-- Type checking of a declaration does not see what is declared in it. -/
theorem decl_without {spot : Decl.Spot} {d d' : Decl} (h : (decl d).fault = none)
    (hd : d.without spot = some (w, d')) :
    (decl d').fault = none ∧ (decl d').reports = (decl d).reports ∧
      (decl d).value.without spot = some (w, (decl d').value) := by
  rcases Decl.without_eq_some hd with
    ⟨i, s, fields, rfl, rfl, hfields, rfl⟩ | ⟨spot, f, body, rfl, rfl, hbody, rfl⟩
  · exact ⟨rfl, rfl, hd⟩
  · have hfn : (fnDecl f).fault = none := h
    unfold fnDecl at hfn
    cases htype : f.returns.type with
    | error =>
      rw [htype] at hfn
      cases hfn
    | ok returns =>
      rw [htype] at hfn
      obtain ⟨hfault, hreports, hwithout⟩ := block_without hfn hbody
      simp only [decl, fnDecl, htype, Outcome.map, Decl.without, hwithout, Option.map_some]
      exact ⟨hfault, hreports, trivial⟩

end Check

/-! ## Programs -/

namespace Resolve

/-- Name resolution comes to a declaration at the top in some scopes.  It matters to the others only
through the scopes that it leaves. -/
theorem outcomes_focus (env : Env) {ds : List Decl} {i : Nat} {d : Decl} (hd : ds[i]? = some d) :
    ∃ env', (outcomes env ds)[i]? = some (decl env' d) ∧
      ((decl env' d).value.2 = env' →
        outcomes env (ds.eraseIdx i) = (outcomes env ds).eraseIdx i ∧
          scopes env (ds.eraseIdx i) = scopes env ds) ∧
      ∀ d', (decl env' d').value.2 = (decl env' d).value.2 →
        outcomes env (ds.set i d') = (outcomes env ds).set i (decl env' d') ∧
          scopes env (ds.set i d') = scopes env ds := by
  induction ds generalizing env i with
  | nil => cases hd
  | cons d₀ ds ih =>
    cases i with
    | zero =>
      obtain rfl : d₀ = d := Option.some.inj hd
      refine ⟨env, rfl, fun henv => ?_, fun d' henv => ?_⟩
      · rw [List.eraseIdx_cons_zero, outcomes, List.eraseIdx_cons_zero, scopes, scopes,
          List.foldl_cons, henv]
        exact ⟨rfl, rfl⟩
      · rw [List.set_cons_zero, outcomes, outcomes, List.set_cons_zero, scopes, scopes,
          List.foldl_cons, List.foldl_cons, henv]
        exact ⟨rfl, rfl⟩
    | succ i =>
      obtain ⟨env', houtcome, herase, hset⟩ := ih (decl env d₀).value.2 hd
      refine ⟨env', houtcome, fun henv => ?_, fun d' henv => ?_⟩
      · exact (herase henv).imp_left (congrArg (decl env d₀ :: ·))
      · exact (hset d' henv).imp_left (congrArg (decl env d₀ :: ·))

end Resolve

theorem Decl.isMain_without {spot : Decl.Spot} {d d' : Decl} (h : d.without spot = some (v, d')) :
    Resolve.isMain d' = Resolve.isMain d := by
  rcases Decl.without_eq_some h with
    ⟨i, s, fields, rfl, rfl, hfields, rfl⟩ | ⟨spot, f, body, rfl, rfl, hbody, rfl⟩ <;> rfl

namespace Program

/-- What is left of the passes over a program without a declaration. -/
structure Sheds (spot : Spot) (v w : VarDecl) (p p' : Program) : Prop where
  passed : p'.Passed
  names : p.resolve.program.without spot = some (w, p'.resolve.program)
  types : ∀ m, (p.resolve.program.check m).value.without spot =
    some (w, (p'.resolve.program.check m).value)
  globals : p'.resolve.globals = p.resolve.globals
  hasMain : p'.resolve.hasMain = p.resolve.hasMain
  named : ∃ ys, Cut ys p.resolve.reports p'.resolve.reports ∧ ∀ y ∈ ys, y.At (· ∈ v.leaves)
  typed : ∀ m, (p'.resolve.program.check m).reports = (p.resolve.program.check m).reports

variable {p p' r : Program}

/-- The passes change nothing of a program but its declarations. -/
theorem resolve_program_eq {ds ds' : List Decl} (hp' : p' = { p with decls := ds })
    (hds' : p'.resolve.program.decls = ds') :
    p'.resolve.program = { p.resolve.program with decls := ds' } := by
  subst hp' hds'
  rfl

theorem value_check_eq {m : Bool} {ds ds' : List Decl} (hp' : p' = { p with decls := ds })
    (hds' : (p'.resolve.program.check m).value.decls = ds') :
    (p'.resolve.program.check m).value =
      { (p.resolve.program.check m).value with decls := ds' } := by
  have hvalue : ∀ q : Program, (q.check m).value = { q with decls := (q.check m).value.decls } := by
    intro q
    unfold check Outcome.andThen
    split <;> rfl
  subst hp' hds'
  rw [hvalue, hvalue p.resolve.program]
  rfl

/-- A program without a variable at the top that is rejected. -/
theorem sheds_global {i : Nat} (h : p.Passed) (hv : p.decls[i]? = some (.var v))
    (hw : p.resolve.program.decls[i]? = some (.var w)) (hrejected : w.name.binding = .unresolved)
    (hp' : p' = { p with decls := p.decls.eraseIdx i }) : Sheds (.global i) v w p p' := by
  obtain ⟨env, ho, herase, -⟩ := Resolve.outcomes_focus (Scopes.enter []) hv
  have ho : p.outcomes[i]? = some (Resolve.decl env (.var v)) := ho
  have hfaults := passed_iff.mp h
  obtain ⟨hdecls, hglobals, hmain, hreports, hcheck⟩ := h.passes
  have hvalue : (Resolve.decl env (.var v)).value.1 = .var w := by
    rw [hdecls, List.getElem?_map, ho] at hw
    exact Option.some.inj hw
  have hchecked : checked (Resolve.decl env (.var v)) = Outcome.pure (.var w) := by
    rw [checked, hvalue]
    rfl
  obtain ⟨henv, hat⟩ := Resolve.decl_of_rejected (d := .var v) (w := w) rfl
    (hfaults _ (List.mem_of_getElem? ho)).1 (by rw [hvalue]; rfl) hrejected
  obtain ⟨houtcomes, hscopes⟩ := herase henv
  have houtcomes : p'.outcomes = p.outcomes.eraseIdx i := by
    rw [hp']
    exact houtcomes
  have hpassed : p'.Passed := passed_iff.mpr fun o ho' => by
    rw [houtcomes] at ho'
    exact hfaults o (List.mem_of_mem_eraseIdx ho')
  obtain ⟨hdecls', hglobals', hmain', hreports', hcheck'⟩ := hpassed.passes
  have hw' : ∀ m, (p.resolve.program.check m).value.decls[i]? = some (.var w) := fun m => by
    rw [(hcheck m).1, List.getElem?_map, ho, Option.map_some, hchecked]
    rfl
  refine ⟨hpassed, ?_, fun m => ?_, ?_, ?_, ⟨_, ?_, hat⟩, fun m => ?_⟩
  · rw [houtcomes, ← List.eraseIdx_map, ← hdecls] at hdecls'
    rw [without, hw, resolve_program_eq hp' hdecls']
    rfl
  · have hdecls' := (hcheck' m).1
    rw [houtcomes, ← List.eraseIdx_map, ← (hcheck m).1] at hdecls'
    rw [without, hw' m, value_check_eq hp' hdecls']
    rfl
  · rw [hglobals', hglobals, hp', ← hscopes]
  · obtain ⟨ds, ds', hds, herase, -⟩ := exists_around hv
    rw [hmain', hmain, hp']
    dsimp only
    rw [herase, hds, List.any_append, List.any_append]
    rfl
  · rw [hreports, hreports', houtcomes]
    exact cut_flatMap_eraseIdx ho _
  · have hcut := cut_flatMap_eraseIdx ho fun o => (checked o).reports
    rw [hchecked] at hcut
    have hsame := hcut.eq_of_nil
    rw [(hcheck m).2, (hcheck' m).2, houtcomes]
    exact congrArg (· ++ _) hsame

/-- A program without a field or a local that is rejected. -/
theorem sheds_inner {i : Nat} {spot : Decl.Spot} {d d' e r : Decl} (h : p.Passed)
    (hd : p.decls[i]? = some d) (hd' : d.without spot = some (v, d'))
    (he : p.resolve.program.decls[i]? = some e) (hr : e.without spot = some (w, r))
    (hrejected : w.name.binding = .unresolved) (hp' : p' = { p with decls := p.decls.set i d' }) :
    Sheds (.inner i spot) v w p p' := by
  obtain ⟨env, ho, -, hset⟩ := Resolve.outcomes_focus (Scopes.enter []) hd
  have ho : p.outcomes[i]? = some (Resolve.decl env d) := ho
  have hfaults := passed_iff.mp h
  obtain ⟨hdecls, hglobals, hmain, hreports, hcheck⟩ := h.passes
  obtain rfl : (Resolve.decl env d).value.1 = e := by
    rw [hdecls, List.getElem?_map, ho] at he
    exact Option.some.inj he
  obtain ⟨hfault, hfaultChecked⟩ := hfaults _ (List.mem_of_getElem? ho)
  obtain ⟨ys, rs, hsheds, hcut, hys⟩ := Resolve.sheds_decl hfault hd' hr hrejected
  obtain ⟨hfaultChecked', hreportsChecked, hchecked⟩ := Check.decl_without hfaultChecked hr
  obtain ⟨houtcomes, hscopes⟩ := hset d' (by rw [hsheds]; rfl)
  have hvalue : (Resolve.decl env d').value.1 = r := by
    rw [hsheds]
    rfl
  have houtcomes : p'.outcomes = p.outcomes.set i (Resolve.decl env d') := by
    rw [hp']
    exact houtcomes
  have hpassed : p'.Passed := passed_iff.mpr fun o ho' => by
    rw [houtcomes] at ho'
    rcases List.mem_or_eq_of_mem_set ho' with ho' | rfl
    · exact hfaults o ho'
    · refine ⟨by rw [hsheds]; rfl, ?_⟩
      rw [checked, hvalue]
      exact hfaultChecked'
  obtain ⟨hdecls', hglobals', hmain', hreports', hcheck'⟩ := hpassed.passes
  have he' : ∀ m, (p.resolve.program.check m).value.decls[i]? =
      some (checked (Resolve.decl env d)).value := fun m => by
    rw [(hcheck m).1, List.getElem?_map, ho]
    rfl
  refine ⟨hpassed, ?_, fun m => ?_, ?_, ?_, ⟨ys, ?_, hys⟩, fun m => ?_⟩
  · rw [houtcomes, List.map_set, hvalue, ← hdecls] at hdecls'
    rw [without, he, Option.bind_some, hr, resolve_program_eq hp' hdecls']
    rfl
  · have hdecls' := (hcheck' m).1
    rw [houtcomes, List.map_set, checked, hvalue, ← (hcheck m).1] at hdecls'
    rw [without, he' m, Option.bind_some, checked, hchecked, value_check_eq hp' hdecls']
    rfl
  · rw [hglobals', hglobals, hp', ← hscopes]
  · obtain ⟨ds, ds', hds, -, hset⟩ := exists_around hd
    rw [hmain', hmain, hp']
    dsimp only
    rw [hset, hds, List.any_append, List.any_append, List.any_cons, List.any_cons,
      Decl.isMain_without hd']
  · rw [hreports, hreports', houtcomes]
    refine cut_flatMap_set ho ?_
    rw [hsheds]
    exact hcut
  · have hcut : Cut [] (checked (Resolve.decl env d)).reports
        (checked (Resolve.decl env d')).reports := by
      rw [checked, checked, hvalue, hreportsChecked]
      exact ⟨[], _, rfl, rfl⟩
    have hsame := (cut_flatMap_set ho (f := fun o => (checked o).reports) hcut).eq_of_nil
    rw [(hcheck m).2, (hcheck' m).2, houtcomes]
    exact congrArg (· ++ _) hsame

/-- Whether name resolution rejects the declaration at the spot: its name is bound to nothing. -/
def rejects (p : Program) (spot : Spot) : Bool :=
  match p.resolve.program.without spot with
  | some (w, _) => (w.name.binding matches .unresolved)
  | none => false

/-- A program without a declaration of a variable that is rejected. -/
theorem Passed.sheds {spot : Spot} (h : p.Passed) (hv : p.without spot = some (v, p'))
    (hrejects : p.rejects spot = true) : ∃ w, Sheds spot v w p p' := by
  unfold rejects at hrejects
  split at hrejects
  · next w r hr =>
    have hrejected : w.name.binding = .unresolved := by
      split at hrejects
      · assumption
      · cases hrejects
    refine ⟨w, ?_⟩
    rcases without_eq_some hv with ⟨i, rfl, hd, hp'⟩ | ⟨i, spot, d, d', rfl, hd, hd', hp'⟩
    · rcases without_eq_some hr with ⟨i, ⟨⟩, hw, -⟩ | ⟨_, _, _, _, ⟨⟩, _⟩
      exact sheds_global h hd hw hrejected hp'
    · rcases without_eq_some hr with ⟨_, ⟨⟩, _⟩ | ⟨i, spot, e, r, ⟨⟩, he, hr, -⟩
      exact sheds_inner h hd hd' he hr hrejected hp'
  · cases hrejects

/-! ## Places of reports -/

theorem covers_decls {tss : List (List Token)} {ds : List Decl}
    (h : List.Forall₂ Token.Reads tss ds) : Token.Covers tss.flatten (ds.flatMap Decl.pieces) := by
  induction h with
  | nil => exact .nil
  | cons hread _ ih => exact hread.covers.append ih

/-- The declaration of a variable is read from tokens of its own: its names are within its span, and
what else the program tells places of is not. -/
theorem beginsIn_without {file : Option String} {source : String} {spot : Spot}
    (h : Program.parse file source = .ok p) (hv : p.without spot = some (v, p')) :
    (∀ s ∈ v.leaves, (Locus.ofSpan? s).beginsIn v.span = true) ∧
      Check.noMain.locus.beginsIn v.span = false ∧
      ∀ d ∈ p'.decls, (∀ s ∈ d.leaves, (Locus.ofSpan? s).beginsIn v.span = false) ∧
        ∀ s ∈ d.bareReturns, (Locus.ofSpan? s).beginsIn v.span = false := by
  obtain ⟨tokens, tss, -, -, htss⟩ := exists_stretches h
  obtain ⟨ps, qs, hpieces, hpieces'⟩ := Program.cut_pieces hv
  have hcovers := covers_decls htss.reads
  rw [hpieces, List.append_assoc] at hcovers
  obtain ⟨ts, us, vs, hflatten, hts, hus, (hvs : Token.Covers vs qs)⟩ := hcovers.exists_declares
  have hordered := htss.ordered
  have hapart := htss.apart
  rw [hflatten] at hordered hapart
  obtain ⟨hbefore, -, -⟩ := List.pairwise_append.mp hordered
  obtain ⟨-, huses, hbefore⟩ := List.pairwise_append.mp hbefore
  obtain ⟨-, -, hafter⟩ := List.pairwise_append.mp hapart
  have hmem : ∀ t ∈ us, t ∈ tss.flatten := fun t ht => by
    rw [hflatten]
    exact List.mem_append_left _ (List.mem_append_right _ ht)
  have hspan := hus.span huses
  have houtside : ∀ s, Token.BeginsAmong (ts ++ vs) s →
      (Locus.ofSpan? s).beginsIn v.span = false := by
    intro s hs
    obtain ⟨t, ht, hstart⟩ := List.mem_map.mp hs
    obtain ⟨a, rfl, ha⟩ := Option.map_eq_some_iff.mp hstart.symm
    rcases List.mem_append.mp ht with ht | ht
    · exact hspan.not_beginsIn_of_before (hbefore t ht) ha
    · exact hspan.not_beginsIn_of_after
        (fun u hu => hafter u (List.mem_append_right _ hu) t ht) ha
  obtain ⟨hleaves, hreturns⟩ := (hts.append hvs).beginsAmong
  rw [← hpieces'] at hleaves hreturns
  refine ⟨fun s hs => ?_, hspan.beginsIn_noMain fun t ht => htss.line t (hmem t ht),
    fun d hd => ⟨fun s hs => houtside s (hleaves s ?_), fun s hs => houtside s (hreturns s ?_)⟩⟩
  · obtain ⟨t, ht, -, rfl⟩ := hus.leaves.exists_token hs
    exact hspan.beginsIn huses (fun t ht => htss.spelled t (hmem t ht)) ht rfl
  · rw [List.flatMap_assoc]
    exact List.mem_flatMap.mpr ⟨d, hd, by rwa [d.places_pieces.1]⟩
  · rw [List.flatMap_assoc]
    exact List.mem_flatMap.mpr ⟨d, hd, by rwa [d.places_pieces.2]⟩

/-- What the passes report of a program without a declaration is reported outside of it. -/
theorem outside_without {file : Option String} {source : String} {spot : Spot}
    (h : Program.parse file source = .ok p) (hv : p.without spot = some (v, p'))
    (hpassed : p'.Passed) (m : Bool) :
    ∀ x ∈ p'.resolve.reports ++ (p'.resolve.program.check m).reports,
      x.locus.beginsIn v.span = false := by
  obtain ⟨-, hnoMain, houtside⟩ := beginsIn_without h hv
  have hat : ∀ x : Report, x.At (fun s => (Locus.ofSpan? s).beginsIn v.span = false) →
      x.locus.beginsIn v.span = false := by
    rintro x ⟨s, hs, hlocus⟩
    rw [hlocus]
    exact hs
  refine hpassed.forall_reports (fun d hd env => ?_) hnoMain m
  obtain ⟨hleaves, hreturns⟩ := houtside d hd
  exact ⟨fun x hx => hat x (Resolve.at_decl env hleaves x hx),
    fun x hx => hat x (Check.at_decl_resolve env hleaves hreturns x hx)⟩

end Program

namespace Compilation

/-- The passes over a program whose passes come to their end. -/
theorem analysis_of_passed {p : Program} (h : p.Passed) (file : Option String) :
    ({ file, program := some p } : Compilation).resolve.result = .ok (analysis file p).globals ∧
      ({ file, program := some p } : Compilation).resolve.after.check =
        ⟨analysis file p, .ok ()⟩ := by
  have hnames := h.names
  have hresolve : (p.resolveIn []).fault = none := by simp [Program.resolveIn, hnames]
  have hglobals : ∃ globals, (p.resolveIn []).globals = some globals := by
    simp [Program.resolveIn, hnames]
  obtain ⟨globals, hglobals⟩ := hglobals
  have hcheck : ((p.resolveIn []).program.check (p.resolveIn []).hasMain).fault = none := by
    rw [Program.check, fault_andThen]
    exact ⟨h.types, rfl⟩
  simp only [resolve, resolveIn, hresolve, hglobals, check, hcheck, report, Bool.false_or, analysis,
    Program.resolve, List.nil_append, List.map_append, Option.getD_some, and_self]

/-- A declaration of a variable that name resolution rejects makes no difference to the rest of a
program that is analyzed.  Without it the program has the same names with the same symbols, the
same frames, structs and globals, the same types, and the same diagnostics in the same order but
for those within the declaration. -/
theorem analyze_without {file : Option String} {source : String} {p p' : Program}
    {spot : Program.Spot} {v : VarDecl} {c : Compilation} (h : Program.parse file source = .ok p)
    (hv : p.without spot = some (v, p')) (hrejects : p.rejects spot = true)
    (hc : analyze file source = .ok c) :
    ∃ c' q q' w,
      ({ file, program := some p' } : Compilation).resolve.result = .ok c'.globals ∧
      ({ file, program := some p' } : Compilation).resolve.after.check = ⟨c', .ok ()⟩ ∧
      c.program = some q ∧ c'.program = some q' ∧ q.without spot = some (w, q') ∧
      c'.globals = c.globals ∧ c'.hasMain = c.hasMain ∧
      c'.diagnostics = c.diagnostics.filter (!·.locus.beginsIn v.span) := by
  obtain ⟨hfault, rfl⟩ := analysis_of_parse h hc
  obtain ⟨w, hsheds⟩ := ((Program.parse_formed h).passed hfault).sheds hv hrejects
  obtain ⟨hresult, hcheck⟩ := analysis_of_passed hsheds.passed file
  refine ⟨analysis file p', _, _, w, hresult, hcheck, rfl, rfl, ?_, ?_, hsheds.hasMain, ?_⟩
  · rw [hsheds.hasMain]
    exact hsheds.types _
  · exact congrArg (Option.getD · []) hsheds.globals
  · obtain ⟨ys, hcut, hys⟩ := hsheds.named
    obtain ⟨hinside, -, -⟩ := Program.beginsIn_without h hv
    have houtside := Program.outside_without h hv hsheds.passed p'.resolve.hasMain
    have hfilter := (hcut.before (p'.resolve.program.check p'.resolve.hasMain).reports).eq_filter
      (p := fun x => !x.locus.beginsIn v.span) (fun y hy => ?_) fun x hx => ?_
    · rw [hsheds.hasMain, hsheds.typed] at hfilter
      simp only [analysis, hsheds.hasMain, hsheds.typed]
      rw [hfilter, List.filter_map]
      rfl
    · obtain ⟨s, hs, hlocus⟩ := hys y hy
      rw [hlocus, hinside s hs]
      rfl
    · rw [houtside x hx]
      rfl

set_option maxRecDepth 100000 in
/-- A second `x` of another type in an inner block: the first one is meant after it. -/
theorem analyze_without_of_inner : ∃ p p' v c c' q q' w,
    Program.parse none
      "int x; void main() { while (x < 2) { int x; bool x; int y; y = x + z; } }" =
        .ok p ∧
    p.without (.inner 1 (.local (.inner 0 false (.decl 1)))) = some (v, p') ∧
    p.rejects (.inner 1 (.local (.inner 0 false (.decl 1)))) = true ∧
    analyze none
      "int x; void main() { while (x < 2) { int x; bool x; int y; y = x + z; } }" =
        .ok c ∧
    ({ file := none, program := some p' } : Compilation).resolve.result = .ok c'.globals ∧
    ({ file := none, program := some p' } : Compilation).resolve.after.check = ⟨c', .ok ()⟩ ∧
    c.program = some q ∧ c'.program = some q' ∧
    q.without (.inner 1 (.local (.inner 0 false (.decl 1)))) = some (w, q') ∧
    c'.globals = c.globals ∧ c'.hasMain = c.hasMain ∧
    c'.diagnostics = c.diagnostics.filter (!·.locus.beginsIn v.span) := by
  obtain ⟨p, hp, hsome, hrejects, hfault⟩ : ∃ p, Program.parse none
      "int x; void main() { while (x < 2) { int x; bool x; int y; y = x + z; } }" = .ok p ∧
      (p.without (.inner 1 (.local (.inner 0 false (.decl 1))))).isSome = true ∧
      p.rejects (.inner 1 (.local (.inner 0 false (.decl 1)))) = true ∧
      p.resolve.fault.isNone = true :=
    Program.exists_parse rfl (by decide +kernel)
  obtain ⟨⟨v, p'⟩, hv⟩ := Option.isSome_iff_exists.mp hsome
  have hc := analyze_of_parse hp (Option.isNone_iff_eq_none.mp hfault)
  obtain ⟨c', q, q', w, hanalyze⟩ := analyze_without hp hv hrejects hc
  exact ⟨p, p', v, _, c', q, q', w, hp, hv, hrejects, hc, hanalyze⟩

end Compilation

end CMinusMinus
