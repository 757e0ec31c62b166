import Mathlib
import CMinusMinus.Compilation
import CMinusMinus.Proofs.Generation
import CMinusMinus.Proofs.Grammar.Reading
import CMinusMinus.Proofs.Typing.Soundness

/-!
# Compilations come to their end

Where name resolution of a program comes to its end, so does its analysis, whatever is reported
(`analyze_of_parse`), and if nothing is reported, so does code generation (`compile_of_analysis`).
-/

namespace CMinusMinus

open Outcome

namespace Compilation

/-- The analysis of a program that was read. -/
def analysis (file : Option String) (p : Program) : Compilation :=
  let r := p.resolve
  let o := r.program.check r.hasMain
  { file
    program := some o.value
    globals := r.globals.getD []
    hasMain := r.hasMain
    diagnostics := (r.reports ++ o.reports).map (Diagnostic.ofReport file) }

theorem analyze_of_parse {file : Option String} {source : String} {p : Program}
    (h : Program.parse file source = .ok p) (hfault : p.resolve.fault = none) :
    analyze file source = .ok (analysis file p) := by
  have hdecls := Program.fault_resolve.symm.trans hfault
  have hglobals : ∃ globals, p.resolve.globals = some globals := by
    simp [Program.resolve, Program.resolveIn, hdecls]
  obtain ⟨globals, hglobals⟩ := hglobals
  have hcheck := (Program.parse_formed h).total_check hfault p.resolve.hasMain
  unfold Program.resolve at hfault hglobals hcheck
  simp only [analyze, h, resolve, resolveIn, hfault, hglobals, check, hcheck, report,
    Bool.false_or, analysis, Program.resolve, List.nil_append, List.map_append, Option.getD_some]

/-- Where name resolution stops, so does the analysis. -/
theorem analyze_of_fault {file : Option String} {source : String} {p : Program}
    (h : Program.parse file source = .ok p) {fault : Fault}
    (hfault : p.resolve.fault = some fault) :
    analyze file source = .error (.ofFault fault) := by
  unfold Program.resolve at hfault
  simp only [analyze, h, resolve, resolveIn, hfault]

/-- What is analyzed of a program that was read is what the passes leave of it, which came to their
end. -/
theorem analysis_of_parse {file : Option String} {source : String} {p : Program} {c : Compilation}
    (hp : Program.parse file source = .ok p) (hc : analyze file source = .ok c) :
    p.resolve.fault = none ∧ c = analysis file p := by
  cases hfault : p.resolve.fault with
  | none => exact ⟨rfl, (Except.ok.inj ((analyze_of_parse hp hfault).symm.trans hc)).symm⟩
  | some fault => cases (analyze_of_fault hp hfault).symm.trans hc

/-- What is analyzed without errors was read. -/
theorem analysis_of_analyze {file : Option String} {source : String} {c : Compilation}
    (h : analyze file source = .ok c) (herrors : c.hasErrors = false) :
    ∃ p, Program.parse file source = .ok p ∧ p.resolve.fault = none ∧ c = analysis file p := by
  cases hp : Program.parse file source with
  | ok p => exact ⟨p, rfl, analysis_of_parse hp h⟩
  | error e =>
    rw [analyze, hp] at h
    cases e with
    | syntactic e =>
      cases h
      cases herrors
    | scan e =>
      cases e with
      | unreadable digits => cases h
      | refused e =>
        cases h
        cases herrors

/-- Every report is an error. -/
theorem reports_of_hasErrors {file : Option String} {p : Program}
    (h : (analysis file p).hasErrors = false) :
    p.resolve.reports = [] ∧ (p.resolve.program.check p.resolve.hasMain).reports = [] := by
  have hnone : ∀ r : Report, (Diagnostic.ofReport file r).isError = true := fun _ => rfl
  have hall : ∀ rs : List Report, (rs.map (Diagnostic.ofReport file)).any Diagnostic.isError = false
      → rs = [] := by
    intro rs hrs
    cases rs with
    | nil => rfl
    | cons r rs =>
      rw [List.map_cons, List.any_cons, hnone r] at hrs
      cases hrs
  exact List.append_eq_nil_iff.mp (hall _ h)

/-- The program of an analysis without errors is typed. -/
theorem typed_of_analysis {file : Option String} {p : Program} (hp : p.Formed)
    (hfault : p.resolve.fault = none) (h : (analysis file p).hasErrors = false) :
    ∃ q env, (analysis file p).program = some q ∧ q.Typed env ∧ p.resolve.hasMain = true := by
  obtain ⟨hresolve, hcheck⟩ := reports_of_hasErrors h
  obtain ⟨env, htyped, hmain⟩ := hp.typed hfault hresolve hcheck
  exact ⟨_, env, rfl, htyped, hmain⟩

end Compilation

theorem Program.Typed.generateFrom {p : Program} {env : Env} (h : p.Typed env) (o : CodeOptions)
    (current : Option String) : ∃ r, p.generateFrom o current = .ok r := by
  obtain ⟨⟨items, current'⟩, hitems⟩ :=
    Generate.decls_of_typed h Env.sound_empty { pool := o.pool } current
  rw [Program.generateFrom]
  exact exists_bind hitems ⟨_, rfl⟩

namespace Compilation

/-- What is emitted for a program is the code of its declarations, as the options want it. -/
theorem emit_of_decls {c : Compilation} {q : Program} {raw : List Item} {current : Option String}
    {o : CodeOptions} (hq : c.program = some q)
    (hraw : Generate.decls { pool := o.pool } c.current q.decls = .ok (raw, current)) :
    (c.emit o).result = .ok (o.finish raw) := by
  simp only [emit, hq, Program.generateFrom, hraw, bind, Except.bind]

/-- Code is generated for an analysis without errors, with any options, if name resolution came to
its end. -/
theorem compile_of_analysis {file : Option String} {source : String} {p : Program}
    (h : Program.parse file source = .ok p) (hfault : p.resolve.fault = none)
    (herrors : (analysis file p).hasErrors = false) (o : CodeOptions) :
    ∃ items, ((analysis file p).emit o).result = .ok items ∧
      compile o file source = .ok (((analysis file p).emit o).after, some items) := by
  obtain ⟨q, env, hq, htyped, -⟩ := typed_of_analysis (Program.parse_formed h) hfault herrors
  obtain ⟨⟨items, current⟩, hitems⟩ := htyped.generateFrom o none
  have hemit : (analysis file p).emit o =
      ⟨{ analysis file p with current }, .ok items⟩ := by
    have hcurrent : (analysis file p).current = none := rfl
    simp only [emit, hq, hcurrent, hitems]
  refine ⟨items, by rw [hemit], ?_⟩
  have hsound : (analysis file p).isSound = true := by
    rw [isSound, hq, herrors]
    rfl
  simp only [compile, analyze_of_parse h hfault, generate, hsound, if_true, hemit, Except.map]

/-- Whether a text is a program without errors. -/
def accepts (source : String) : Bool :=
  match analyze none source with
  | .ok c => !c.hasErrors
  | .error _ => false

theorem hasErrors_of_accepts {source : String} (h : accepts source = true) {c : Compilation}
    (hc : analyze none source = .ok c) : c.hasErrors = false := by
  rw [accepts, hc] at h
  simpa using h

theorem analyze_of_accepts {source : String} (h : accepts source = true) :
    ∃ c, analyze none source = .ok c ∧ c.hasErrors = false := by
  cases hc : analyze none source with
  | ok c => exact ⟨c, rfl, hasErrors_of_accepts h hc⟩
  | error e =>
    rw [accepts, hc] at h
    cases h

theorem parse_of_accepts {source : String} (h : accepts source = true) :
    ∃ p, Program.parse none source = .ok p := by
  obtain ⟨c, hc, herrors⟩ := analyze_of_accepts h
  obtain ⟨p, hp, -⟩ := analysis_of_analyze hc herrors
  exact ⟨p, hp⟩

/-! ## Compiling by evaluation -/

/-- A text is a program whose analysis has some property if the evaluation of its characters says
so. -/
theorem exists_analyze {P : Compilation → Prop} [DecidablePred P] {file : Option String}
    {source : String} {cs : List Char} (hsource : source = String.ofList cs)
    (h : (Program.ofChars? file cs).any (fun p => p.resolve.fault.isNone &&
      decide (P (analysis file p))) = true) :
    ∃ c, analyze file source = .ok c ∧ P c := by
  obtain ⟨p, hp, hfault, hP⟩ := Program.exists_parse
    (P := fun p => p.resolve.fault.isNone ∧ P (analysis file p)) hsource
    (by simpa only [Bool.decide_and, Bool.decide_eq_true] using h)
  exact ⟨_, analyze_of_parse hp (Option.isNone_iff_eq_none.mp hfault), hP⟩

theorem accepts_of_chars {source : String} {cs : List Char} (hsource : source = String.ofList cs)
    (h : (Program.ofChars? none cs).any (fun p => p.resolve.fault.isNone &&
      decide ((analysis none p).hasErrors = false)) = true) :
    accepts source = true := by
  obtain ⟨c, hc, herrors⟩ := exists_analyze (P := (·.hasErrors = false)) hsource h
  rw [accepts, hc]
  simpa using herrors

/-- Code with some property is emitted for a text if the evaluation of its characters says so. -/
theorem exists_emit {P : List Item → Prop} [DecidablePred P] {file : Option String}
    {source : String} {cs : List Char} {o : CodeOptions} (hsource : source = String.ofList cs)
    (h : (Program.ofChars? file cs).any (fun p => p.resolve.fault.isNone &&
      decide ((analysis file p).hasErrors = false ∧
        ((analysis file p).emit o).result.toOption.any (fun items => decide (P items)) = true)) =
          true) :
    ∃ c items, analyze file source = .ok c ∧ c.hasErrors = false ∧ (c.emit o).result = .ok items ∧
      P items := by
  obtain ⟨c, hc, herrors, hany⟩ := exists_analyze (P := fun c => c.hasErrors = false ∧
    (c.emit o).result.toOption.any (fun items => decide (P items)) = true) hsource h
  obtain ⟨items, hitems, hP⟩ := (Option.any_eq_true _ _).mp hany
  refine ⟨c, items, hc, herrors, ?_, of_decide_eq_true hP⟩
  cases hresult : (c.emit o).result with
  | error =>
    rw [hresult] at hitems
    cases hitems
  | ok =>
    rw [hresult] at hitems
    exact congrArg Except.ok (Option.some.inj hitems)

end Compilation

end CMinusMinus
