import CMinusMinus.Proofs.Locality.Code
import CMinusMinus.Proofs.Locality.Reports
import CMinusMinus.Proofs.Spans.Words

/-!
# Programs that differ in one body

The body of a function matters to no other declaration of a program (`Compilation.analyze_apart`).
Programs may have other spans where they are the same: `r` and `r'` say what becomes of the spans of
each, so that the rest can be compared.
-/

namespace CMinusMinus

open Asm Outcome

variable {r r' : Option Span → Option Span} {k i : Nat} {p p' : Program}

namespace Program

theorem checked_respan (o : Resolved (Decl × Env)) :
    checked (o.respan r (Prod.map (Decl.respan r) (Env.respan r))) =
      (checked o).respan r (Decl.respan r) :=
  Check.decl_respan o.value.1

theorem outcomes_respan (p : Program) : (p.respan r).outcomes =
    p.outcomes.map (Outcome.respan r (Prod.map (Decl.respan r) (Env.respan r))) :=
  Resolve.outcomes_respan (Scopes.enter []) p.decls

theorem getElem?_outcomes {d : Decl} (hd : p.decls[i]? = some d) :
    ∃ o, p.outcomes[i]? = some o := by
  have hi := (List.getElem?_eq_some_iff.mp hd).1
  rw [← Resolve.length_outcomes (Scopes.enter []) p.decls] at hi
  exact ⟨_, List.getElem?_eq_getElem hi⟩

theorem any_isMain_respan (p : Program) :
    (p.respan r).decls.any Resolve.isMain = p.decls.any Resolve.isMain := by
  have hmain : ∀ d : Decl, Resolve.isMain (d.respan r) = Resolve.isMain d := fun d => by
    cases d <;> rfl
  rw [respan, List.any_map]
  exact congrArg (List.any p.decls) (funext hmain)

end Program

/-- Declarations that are the same but for spans have the same code. -/
theorem Decl.sketch_eq_of_respan {d d' : Option Decl}
    (hd : d.map (Decl.respan r) = d'.map (Decl.respan r')) :
    d.map Decl.sketch = d'.map Decl.sketch := by
  have hview : ∀ (r : Option Span → Option Span) (d : Option Decl),
      d.map Decl.sketch = (d.map (Decl.respan r)).map Decl.sketch := by
    rintro r (_ | d)
    · rfl
    · exact congrArg some d.sketch_respan.symm
  rw [hview r d, hview r' d', hd]

namespace Decl.Apart

variable (h : Apart k (p.respan r).decls (p'.respan r').decls)
include h

/-- What the passes leave of another declaration is the same. -/
theorem outcomes_eq (hi : i ≠ k) :
    (p.outcomes[i]?).map (Outcome.respan r (Prod.map (Decl.respan r) (Env.respan r))) =
      (p'.outcomes[i]?).map (Outcome.respan r' (Prod.map (Decl.respan r') (Env.respan r'))) := by
  rw [← List.getElem?_map, ← List.getElem?_map, ← p.outcomes_respan, ← p'.outcomes_respan]
  exact Resolve.outcomes_apart h _ hi

theorem hasMain_eq (hp : p.Passed) (hp' : p'.Passed) : p.resolve.hasMain = p'.resolve.hasMain := by
  rw [hp.passes.2.2.1, hp'.passes.2.2.1, ← p.any_isMain_respan (r := r),
    ← p'.any_isMain_respan (r := r')]
  exact Resolve.any_isMain_apart h

/-- The symbols of the program are the same. -/
theorem globals_eq (hp : p.Passed) (hp' : p'.Passed) :
    (p.resolve.globals.getD []).respan r = (p'.resolve.globals.getD []).respan r' := by
  have hhead : ∀ (r : Option Span → Option Span) (env : Env),
      (env.headD []).respan r = (env.respan r).headD [] := by
    rintro r (_ | ⟨scope, env⟩) <;> rfl
  have hscopes := Resolve.scopes_apart h (Scopes.enter [])
  have hrespan := Resolve.scopes_respan (r := r) (Scopes.enter []) p.decls
  have hrespan' := Resolve.scopes_respan (r := r') (Scopes.enter []) p'.decls
  rw [hp.passes.2.1, hp'.passes.2.1, Option.getD_some, Option.getD_some, hhead,
    hhead, ← hrespan, ← hrespan']
  exact congrArg (List.headD · []) hscopes

/-- What the passes make of another declaration is the same. -/
theorem decls_eq (hp : p.Passed) (hp' : p'.Passed) (hi : i ≠ k) (main main' : Bool) :
    ((p.resolve.program.check main).value.decls[i]?).map (Decl.respan r) =
      ((p'.resolve.program.check main').value.decls[i]?).map (Decl.respan r') := by
  have hview : ∀ (r : Option Span → Option Span) (o : Option (Resolved (Decl × Env))),
      (o.map fun o => (Program.checked o).value).map (Decl.respan r) =
        (o.map (Outcome.respan r (Prod.map (Decl.respan r) (Env.respan r)))).map
          fun o => (Program.checked o).value := by
    rintro r (_ | o)
    · rfl
    · exact congrArg some (congrArg Outcome.value (Program.checked_respan o)).symm
  rw [(hp.passes.2.2.2.2 main).1, (hp'.passes.2.2.2.2 main').1, List.getElem?_map,
    List.getElem?_map, hview, hview, h.outcomes_eq hi]

theorem length_eq (hp : p.Passed) (hp' : p'.Passed) (main main' : Bool) :
    (p.resolve.program.check main).value.decls.length =
      (p'.resolve.program.check main').value.decls.length := by
  have houtcomes : ∀ q : Program, q.outcomes.length = q.decls.length := fun q =>
    Resolve.length_outcomes _ _
  rw [(hp.passes.2.2.2.2 main).1, (hp'.passes.2.2.2.2 main').1, List.length_map,
    List.length_map, houtcomes, houtcomes]
  have hlength := h.length
  rwa [Program.respan, Program.respan, List.length_map, List.length_map] at hlength

end Decl.Apart

namespace Compilation

/-- What is reported of a declaration is what the passes report of it. -/
theorem filter_diagnostics {file : Option String} {source : String}
    (h : Program.parse file source = .ok p) (hfault : p.resolve.fault = none) {d : Decl}
    (hd : p.decls[i]? = some d) {o : Resolved (Decl × Env)} (ho : p.outcomes[i]? = some o) :
    (((analysis file p).diagnostics.filter (·.locus.beginsIn d.span)).map (Diagnostic.respan r)) =
      ((o.respan r (Prod.map (Decl.respan r) (Env.respan r))).reports ++
        (Program.checked (o.respan r (Prod.map (Decl.respan r) (Env.respan r)))).reports).map
          (Diagnostic.ofReport file) := by
  have hreports := Program.filter_reports h hfault hd ho p.resolve.hasMain
  rw [Program.checked_respan]
  dsimp only [analysis, Outcome.respan]
  rw [List.filter_map, ← List.map_append, ← hreports, List.map_map, List.map_map]
  rfl

/-- The body of a function matters to no other declaration of the program.  In two programs that
are analyzed and differ in such a body only, the names and the types of all other declarations are
the same, with their symbols and the layouts of frames and structs; so is what is reported of them;
and so is their code, unless string constants are shared, but for the numbers of the labels in the
declarations after the function, which are shifted alike. -/
theorem analyze_apart {file : Option String} {source source' : String} {c c' : Compilation}
    (h : Program.parse file source = .ok p) (h' : Program.parse file source' = .ok p')
    (hc : analyze file source = .ok c) (hc' : analyze file source' = .ok c')
    (hapart : Decl.Apart k (p.respan r).decls (p'.respan r').decls) :
    ∃ q q', c.program = some q ∧ c'.program = some q' ∧ c.hasMain = c'.hasMain ∧
      c.globals.respan r = c'.globals.respan r' ∧
      (∀ i, i ≠ k → (q.decls[i]?).map (Decl.respan r) = (q'.decls[i]?).map (Decl.respan r')) ∧
      (∀ i d d', i ≠ k → p.decls[i]? = some d → p'.decls[i]? = some d' →
        (c.diagnostics.filter (·.locus.beginsIn d.span)).map (Diagnostic.respan r) =
          (c'.diagnostics.filter (·.locus.beginsIn d'.span)).map (Diagnostic.respan r')) ∧
      (c.hasErrors = false → c'.hasErrors = false → ∀ o : CodeOptions, o.pool = false →
        ∃ qs qs' δ, Generate.Pieces o { pool := o.pool } q.decls qs ∧
          Generate.Pieces o { pool := o.pool } q'.decls qs' ∧
          (c.emit o).result = .ok qs.flatten ∧ (c'.emit o).result = .ok qs'.flatten ∧
          ∀ i, (i < k → qs'[i]? = qs[i]?) ∧
            (k < i → qs'[i]? = (qs[i]?).map (List.map (Item.rename (shift δ))))) := by
  obtain ⟨hfault, rfl⟩ := analysis_of_parse h hc
  obtain ⟨hfault', rfl⟩ := analysis_of_parse h' hc'
  have hp := (Program.parse_formed h).passed hfault
  have hp' := (Program.parse_formed h').passed hfault'
  have hdecls : ∀ i, i ≠ k → _ := fun i hi =>
    hapart.decls_eq hp hp' hi p.resolve.hasMain p'.resolve.hasMain
  refine ⟨_, _, rfl, rfl, hapart.hasMain_eq hp hp', hapart.globals_eq hp hp', hdecls,
    fun i d d' hi hd hd' => ?_, fun hnone hnone' o ho => ?_⟩
  · obtain ⟨x, hx⟩ := Program.getElem?_outcomes hd
    obtain ⟨x', hx'⟩ := Program.getElem?_outcomes hd'
    have hsame := hapart.outcomes_eq hi
    rw [hx, hx'] at hsame
    rw [filter_diagnostics h hfault hd hx, filter_diagnostics h' hfault' hd' hx',
      Option.some.inj hsame]
  · obtain ⟨q, -, hq, -, hemit⟩ := emit_sketch (Program.parse_formed h) hfault hnone
    obtain ⟨q', -, hq', -, hemit'⟩ := emit_sketch (Program.parse_formed h') hfault' hnone'
    cases hq
    cases hq'
    obtain ⟨_, hraw, hitems⟩ := hemit o
    obtain ⟨_, hraw', hitems'⟩ := hemit' o
    obtain ⟨qs, hqs, hflat⟩ := Generate.pieces_of_decls (o := o) hraw
    obtain ⟨qs', hqs', hflat'⟩ := Generate.pieces_of_decls (o := o) hraw'
    obtain ⟨δ, hδ⟩ := Generate.pieces_apart ho hqs hqs' (hapart.length_eq hp hp' _ _)
      fun i hi => Decl.sketch_eq_of_respan (hdecls i hi)
    rw [hflat] at hitems
    rw [hflat'] at hitems'
    exact ⟨qs, qs', δ, hqs, hqs', hitems, hitems', hδ⟩

set_option maxRecDepth 100000 in
/-- A branch in the body of `f` shifts the labels of `main`. -/
theorem analyze_apart_of_branch : ∃ source source' p p' c c' q q' qs qs' δ,
    source = "bool g; int f() \x7b return 1; \x7d void main() \x7b while (g) \x7b f(); \x7d \x7d" ∧
    source' = "bool g; int f() \x7b if (g) \x7b g = false; \x7d return 1; \x7d
      void main() \x7b while (g) \x7b f(); \x7d \x7d" ∧
    Program.parse none source = .ok p ∧ Program.parse none source' = .ok p' ∧
    Decl.Apart 1 (p.respan Span.forget).decls (p'.respan Span.forget).decls ∧
    analyze none source = .ok c ∧ analyze none source' = .ok c' ∧
    c.program = some q ∧ c'.program = some q' ∧
    Generate.Pieces {} { pool := false } q.decls qs ∧
    Generate.Pieces {} { pool := false } q'.decls qs' ∧
    (c.emit {}).result = .ok qs.flatten ∧ (c'.emit {}).result = .ok qs'.flatten ∧
    qs'[0]? = qs[0]? ∧ qs'[2]? = (qs[2]?).map (List.map (Item.rename (shift δ))) := by
  have hdecls : (Program.parse none
      "bool g; int f() \x7b return 1; \x7d void main() \x7b while (g) \x7b f(); \x7d \x7d").map
        (fun p => (p.respan Span.forget).decls) = .ok
      [.var ⟨.variable, none, .bool none, { name := "g" }⟩,
       .fn
        { span := none, returns := .int none, name := { name := "f" }, formals := ⟨none, []⟩
          bodySpan := none, body := ⟨⟨none, []⟩, none, [.return none (some (.int {} 1))]⟩ },
       .fn
        { span := none, returns := .void none, name := { name := "main" }, formals := ⟨none, []⟩
          bodySpan := none
          body := ⟨⟨none, []⟩, none, [.while none (.ident { name := "g" })
            ⟨⟨none, []⟩, none, [.call none (.call {} { name := "f" } none [])]⟩]⟩ }] := by
    cbv
  have hdecls' : (Program.parse none
      "bool g; int f() \x7b if (g) \x7b g = false; \x7d return 1; \x7d
      void main() \x7b while (g) \x7b f(); \x7d \x7d").map
        (fun p => (p.respan Span.forget).decls) = .ok
      [.var ⟨.variable, none, .bool none, { name := "g" }⟩,
       .fn
        { span := none, returns := .int none, name := { name := "f" }, formals := ⟨none, []⟩
          bodySpan := none
          body := ⟨⟨none, []⟩, none, [.ifThen none (.ident { name := "g" })
            ⟨⟨none, []⟩, none,
              [.assign none (.assign {} (.ident { name := "g" }) (.bool {} false))]⟩,
            .return none (some (.int {} 1))]⟩ },
       .fn
        { span := none, returns := .void none, name := { name := "main" }, formals := ⟨none, []⟩
          bodySpan := none
          body := ⟨⟨none, []⟩, none, [.while none (.ident { name := "g" })
            ⟨⟨none, []⟩, none, [.call none (.call {} { name := "f" } none [])]⟩]⟩ }] := by
    cbv
  have haccepts : accepts
      "bool g; int f() \x7b return 1; \x7d void main() \x7b while (g) \x7b f(); \x7d \x7d" = true :=
    accepts_of_chars rfl (by decide +kernel)
  have haccepts' : accepts
      "bool g; int f() \x7b if (g) \x7b g = false; \x7d return 1; \x7d
      void main() \x7b while (g) \x7b f(); \x7d \x7d" = true :=
    accepts_of_chars rfl (by decide +kernel)
  obtain ⟨p, hp⟩ := parse_of_accepts haccepts
  obtain ⟨p', hp'⟩ := parse_of_accepts haccepts'
  rw [hp] at hdecls
  rw [hp'] at hdecls'
  replace hdecls : (p.respan Span.forget).decls = _ := Except.ok.inj hdecls
  replace hdecls' : (p'.respan Span.forget).decls = _ := Except.ok.inj hdecls'
  have hapart : Decl.Apart 1 (p.respan Span.forget).decls (p'.respan Span.forget).decls := by
    rw [hdecls, hdecls']
    exact .cons _ (.fn _ rfl)
  obtain ⟨c, hc, -⟩ := analyze_of_accepts haccepts
  obtain ⟨c', hc', -⟩ := analyze_of_accepts haccepts'
  obtain ⟨q, q', hq, hq', -, -, -, -, hcode⟩ := analyze_apart hp hp' hc hc' hapart
  obtain ⟨qs, qs', δ, hqs, hqs', hitems, hitems', hδ⟩ :=
    hcode (hasErrors_of_accepts haccepts hc) (hasErrors_of_accepts haccepts' hc') {} rfl
  exact ⟨_, _, p, p', c, c', q, q', qs, qs', δ, rfl, rfl, hp, hp', hapart, hc, hc', hq, hq', hqs,
    hqs', hitems, hitems', (hδ 0).1 Nat.zero_lt_one, (hδ 2).2 Nat.one_lt_two⟩

end Compilation

end CMinusMinus
