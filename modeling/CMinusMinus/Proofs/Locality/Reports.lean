import CMinusMinus.Proofs.Locality
import CMinusMinus.Proofs.Places.Stretches
import CMinusMinus.Proofs.Spans.Programs

/-!
# Reports of declarations

What the passes report within the span of a declaration is what they report of this declaration
(`Program.filter_reports`), whatever is wrong with the others.
-/

namespace CMinusMinus

open Outcome

open Token (Reads Stretches)

/-! ## Places of reports -/

/-- The place begins with one of the tokens. -/
def Token.BeginsAmong (ts : List Token) (s : Option Span) : Prop :=
  s.map Span.start ∈ ts.map (some ·.position)

open Token (BeginsAmong)

/-- The places of pieces begin with tokens that they stand among. -/
theorem Token.Covers.beginsAmong {ts : List Token} {ps : List Piece} (h : Covers ts ps) :
    (∀ s ∈ ps.flatMap Piece.leaves, BeginsAmong ts s) ∧
      ∀ s ∈ ps.flatMap Piece.bareReturns, BeginsAmong ts s := by
  refine ⟨fun s hs => ?_, fun s hs => h.returns.subset (List.mem_map_of_mem hs)⟩
  obtain ⟨t, ht, -, rfl⟩ := h.leaves.exists_token hs
  exact List.mem_map_of_mem ht

/-- The places of a declaration begin with tokens that it is read from. -/
theorem Token.Reads.beginsAmong {ts : List Token} {d : Decl} (h : Reads ts d) :
    (∀ s ∈ d.leaves, BeginsAmong ts s) ∧ ∀ s ∈ d.bareReturns, BeginsAmong ts s := by
  have hcovers := h.covers.beginsAmong
  rwa [d.places_pieces.1, d.places_pieces.2] at hcovers

/-- That `main` is missing is reported within no span of tokens. -/
theorem Token.Spans.beginsIn_noMain {ts : List Token} {span : Option Span} (h : Spans ts span)
    (hline : ∀ t ∈ ts, 0 < t.line) : Check.noMain.locus.beginsIn span = false := by
  obtain ⟨t, -, -, s, ht, -, -, rfl, hstart, -⟩ := h
  have hline := hline t (List.mem_of_head? ht)
  have hs : s.startLine = t.line := congrArg Position.line hstart
  simp only [Check.noMain, Locus.beginsIn, decide_eq_false_iff_not]
  omega

variable {tss : List (List Token)} {ds : List Decl} {i j : Nat} {vs : List Token} {d : Decl}

/-- What is reported at a token is reported within the span of the declaration that the token
belongs to, and within no other. -/
theorem Token.Stretches.beginsIn_iff (h : Stretches tss ds) (hd : ds[i]? = some d)
    (hvs : tss[j]? = some vs) {x : Report} (hx : x.At (BeginsAmong vs)) :
    x.locus.beginsIn d.span = true ↔ j = i := by
  obtain ⟨s, hs, hlocus⟩ := hx
  obtain ⟨t, ht, hstart⟩ := List.mem_map.mp hs
  obtain ⟨a, rfl, ha⟩ := Option.map_eq_some_iff.mp hstart.symm
  rw [hlocus]
  exact h.within_iff hd hvs ht ha

/-- That `main` is missing is reported within no declaration. -/
theorem Token.Stretches.beginsIn_noMain (h : Stretches tss ds) (hd : ds[i]? = some d) :
    Check.noMain.locus.beginsIn d.span = false := by
  obtain ⟨hlength, hreads⟩ := List.forall₂_iff_get.mp h.reads
  obtain ⟨hid, rfl⟩ := List.getElem?_eq_some_iff.mp hd
  have hi : i < tss.length := hlength ▸ hid
  exact (hreads i hi hid).span.beginsIn_noMain fun t ht =>
    h.line t (List.mem_flatten_of_mem (List.getElem_mem hi) ht)

/-! ## Reports of programs -/

/-- A filter that tells the members of one list from those of the others leaves this list. -/
theorem filter_flatten_of_iff {α : Type} {p : α → Bool} {xss : List (List α)} {i : Nat}
    (h : ∀ j xs, xss[j]? = some xs → ∀ x ∈ xs, (p x = true ↔ j = i)) :
    xss.flatten.filter p = (xss[i]?).getD [] := by
  induction xss generalizing i with
  | nil => rfl
  | cons xs xss ih =>
    rw [List.flatten_cons, List.filter_append]
    cases i with
    | zero =>
      have hrest : xss.flatten.filter p = [] := by
        refine List.filter_eq_nil_iff.mpr fun x hx hp => ?_
        obtain ⟨ys, hys, hx⟩ := List.mem_flatten.mp hx
        obtain ⟨j, hj⟩ := List.mem_iff_getElem?.mp hys
        exact Nat.succ_ne_zero j ((h (j + 1) ys hj x hx).mp hp)
      rw [hrest, List.append_nil]
      exact List.filter_eq_self.mpr fun x hx => (h 0 xs rfl x hx).mpr rfl
    | succ i =>
      have hfirst : xs.filter p = [] :=
        List.filter_eq_nil_iff.mpr fun x hx hp =>
          Nat.succ_ne_zero i ((h 0 xs rfl x hx).mp hp).symm
      rw [hfirst, List.nil_append]
      exact ih fun j ys hys x hx => (h (j + 1) ys hys x hx).trans Nat.succ_inj

namespace Program

variable {p : Program} {o : Resolved (Decl × Env)}

/-- The reports of a declaration stand at tokens that it is read from. -/
theorem at_outcome (h : Stretches tss p.decls) (ho : p.outcomes[j]? = some o) :
    ∃ vs, tss[j]? = some vs ∧ o.Only (Report.At (BeginsAmong vs)) ∧
      (checked o).Only (Report.At (BeginsAmong vs)) := by
  obtain ⟨d, env, hd, rfl⟩ := Resolve.exists_of_outcomes ho
  obtain ⟨hlength, hreads⟩ := List.forall₂_iff_get.mp h.reads
  obtain ⟨hjd, rfl⟩ := List.getElem?_eq_some_iff.mp hd
  have hj : j < tss.length := hlength ▸ hjd
  obtain ⟨hleaves, hreturns⟩ := (hreads j hj hjd).beginsAmong
  exact ⟨_, List.getElem?_eq_getElem hj, Resolve.at_decl env hleaves,
    Check.at_decl_resolve env hleaves hreturns⟩

/-- What holds of all reports of declarations, and of that `main` is missing, holds of the reports
of a program. -/
theorem Passed.forall_reports {Q : Report → Prop} (h : p.Passed)
    (hdecls : ∀ d ∈ p.decls, ∀ env, (Resolve.decl env d).Only Q ∧
      (Check.decl (Resolve.decl env d).value.1).Only Q)
    (hnoMain : Q Check.noMain) (hasMain : Bool) :
    ∀ x ∈ p.resolve.reports ++ (p.resolve.program.check hasMain).reports, Q x := by
  obtain ⟨-, -, -, hresolve, hcheck⟩ := h.passes
  have houtcome : ∀ o ∈ p.outcomes, o.Only Q ∧ (checked o).Only Q := by
    intro o ho
    obtain ⟨i, ho⟩ := List.mem_iff_getElem?.mp ho
    obtain ⟨d, env, hd, rfl⟩ := Resolve.exists_of_outcomes ho
    exact hdecls d (List.mem_of_getElem? hd) env
  intro x hx
  rw [hresolve, (hcheck hasMain).2, List.mem_append, List.mem_append] at hx
  rcases hx with hx | hx | hx
  · obtain ⟨_, hxs, hx⟩ := List.mem_flatten.mp hx
    obtain ⟨o, ho, rfl⟩ := List.mem_map.mp hxs
    exact (houtcome o ho).1 x hx
  · obtain ⟨_, hxs, hx⟩ := List.mem_flatten.mp hx
    obtain ⟨o, ho, rfl⟩ := List.mem_map.mp hxs
    exact (houtcome o ho).2 x hx
  · cases hasMain with
    | true => cases hx
    | false =>
      rw [List.mem_singleton.mp hx]
      exact hnoMain

/-- What one of the passes reports within a declaration is what it reports of this declaration. -/
theorem filter_outcomes (h : Stretches tss p.decls) (hd : p.decls[i]? = some d)
    (ho : p.outcomes[i]? = some o) {reports : Resolved (Decl × Env) → List Report}
    (hreports : ∀ {j : Nat} {o vs}, p.outcomes[j]? = some o → tss[j]? = some vs →
      ∀ x ∈ reports o, x.At (BeginsAmong vs)) :
    (p.outcomes.map reports).flatten.filter (·.locus.beginsIn d.span) = reports o := by
  rw [filter_flatten_of_iff (i := i), List.getElem?_map, ho]
  · rfl
  · intro j xs hxs x hx
    rw [List.getElem?_map] at hxs
    obtain ⟨o', ho', rfl⟩ := Option.map_eq_some_iff.mp hxs
    obtain ⟨vs, hvs, -⟩ := at_outcome h ho'
    exact h.beginsIn_iff hd hvs (hreports ho' hvs x hx)

/-- What the passes report within the span of a declaration is what they report of it. -/
theorem filter_reports {file : Option String} {source : String}
    (h : Program.parse file source = .ok p) (hfault : p.resolve.fault = none)
    (hd : p.decls[i]? = some d) (ho : p.outcomes[i]? = some o) (hasMain : Bool) :
    (p.resolve.reports ++ (p.resolve.program.check hasMain).reports).filter
      (·.locus.beginsIn d.span) = o.reports ++ (checked o).reports := by
  obtain ⟨-, tss, -, -, htss⟩ := exists_stretches h
  obtain ⟨-, -, -, hresolve, hcheck⟩ := ((parse_formed h).passed hfault).passes
  have hnoMain :
      (if hasMain then [] else [Check.noMain]).filter (·.locus.beginsIn d.span) = [] := by
    have hnone := htss.beginsIn_noMain hd
    cases hasMain with
    | true => rfl
    | false => exact List.filter_eq_nil_iff.mpr (List.forall_mem_singleton.mpr (by simp [hnone]))
  rw [hresolve, (hcheck hasMain).2, List.filter_append, List.filter_append, hnoMain,
    List.append_nil, filter_outcomes htss hd ho, filter_outcomes htss hd ho]
  · intro j o vs ho hvs
    obtain ⟨_, hvs', -, honly⟩ := at_outcome htss ho
    cases hvs.symm.trans hvs'
    exact honly
  · intro j o vs ho hvs
    obtain ⟨_, hvs', honly, -⟩ := at_outcome htss ho
    cases hvs.symm.trans hvs'
    exact honly

end Program

end CMinusMinus
