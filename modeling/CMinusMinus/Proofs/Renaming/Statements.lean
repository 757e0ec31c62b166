import CMinusMinus.Proofs.Renaming.Checking
import CMinusMinus.Proofs.Renaming.Declarations

/-!
# Renaming and code

Type checking and code generation follow the tree, so what holds of a renamed expression holds of
renamed statements and declarations: they are checked without a report, and their code differs in
comments only (`Check.renamed_decls`).
-/

namespace CMinusMinus

open Outcome Asm Generate

variable {ρ : Renaming}

namespace Check

/-! ## Statements -/

/-- An expression of a statement.  What the statement asks of it must not tell structs apart. -/
theorem renamed_operand {complain : Part → List Report}
    (hcomplain : ∀ {p p' : Part}, p.Renamed ρ p' → complain p = [] → complain p' = [])
    {e e' : Exp} (he : e.Renamed ρ e') (hs : (operand e complain).Silent) :
    (operand e' complain).Silent ∧
      Part.Renamed ρ (exp e).value (exp e').value := by
  rw [silent_operand] at hs ⊢
  obtain ⟨hse, hre⟩ := renamed_exp he hs.1
  exact ⟨⟨hse, hcomplain hre hs.2⟩, hre⟩

theorem readable_renamed {p p' : Part} (hp : p.Renamed ρ p')
    (h : reportIf (notReadable p.type) p.exp = []) :
    reportIf (notReadable p'.type) p'.exp = [] := by
  have hnone := reportIf_eq_nil h
  rcases hp.type.cases with hsame | ⟨n, n', hstruct, -⟩
  · rw [hsame, hnone]
    rfl
  · rw [hstruct] at hnone
    cases hnone

/-- What may be written has the same type. -/
theorem writable_renamed {p p' : Part} (hp : p.Renamed ρ p')
    (h : reportIf (notWritable p.type) p.exp = []) :
    reportIf (notWritable p'.type) p'.exp = [] ∧ p'.type = p.type := by
  have hnone := reportIf_eq_nil h
  rcases hp.type.cases with hsame | ⟨n, n', hstruct, -⟩
  · rw [hsame, hnone]
    exact ⟨rfl, rfl⟩
  · rw [hstruct] at hnone
    cases hnone

end Check

namespace Stmt

theorem sketch_step_renamed (op : Opcode) {e e' : Exp} (h : e.Renamed ρ e') :
    (stepSketch op e').bare = (stepSketch op e).bare :=
  (step_renamed op h).code.items

theorem sketch_read_renamed {fn : String} {s s' : Option Span} {e e' : Exp} (h : e.Renamed ρ e') :
    (sketch fn (.read s' e')).bare = (sketch fn (.read s e)).bare := by
  have hcode := ((Bare.refl (syscall Service.readInt.number (some "read int"))).append
    (address_renamed h).code).append (.refl (storeWord .v0 (.indexed .t0 0)))
  rw [sketch, sketch, hcode.items]

end Stmt

namespace Check

mutual

/-- A statement that is checked without a report, and the renamed one. -/
theorem renamed_stmt {returns : Ty} (hword : returns.isStruct = false) (fn : String) :
    ∀ {s s' : Stmt}, s.Renamed ρ s' → (stmt returns s).Silent →
      (stmt returns s').Silent ∧
        ((stmt returns s').value.sketch fn).bare = ((stmt returns s).value.sketch fn).bare
  | _, _, .assign he, hs | _, _, .call he, hs => by
    rw [stmt, silent_map] at hs
    obtain ⟨hse, hre⟩ := renamed_operand (fun _ _ => rfl) he hs
    rw [stmt, stmt, silent_map, value_map, value_map, value_operand, value_operand]
    refine ⟨hse, ?_⟩
    rw [Stmt.sketch, Stmt.sketch, Sketch.bare_append, Sketch.bare_append, hre.code]
  | _, _, .increment he, hs | _, _, .decrement he, hs => by
    rw [stmt, silent_map] at hs
    obtain ⟨hse, hre⟩ := renamed_operand (fun hp => want_renamed hp rfl) he hs
    rw [stmt, stmt, silent_map, value_map, value_map, value_operand, value_operand]
    exact ⟨hse, Stmt.sketch_step_renamed _ hre.exp⟩
  | _, _, .read he, hs => by
    rw [stmt, silent_map] at hs
    obtain ⟨hse, hre⟩ := renamed_operand readable_renamed he hs
    rw [stmt, stmt, silent_map, value_map, value_map, value_operand, value_operand]
    exact ⟨hse, Stmt.sketch_read_renamed hre.exp⟩
  | _, _, .write he, hs => by
    rw [stmt, silent_map] at hs
    obtain ⟨hse, hre⟩ := renamed_operand (fun hp h => (writable_renamed hp h).1) he hs
    rw [stmt, stmt, silent_map, value_map, value_map, value_operand, value_operand]
    refine ⟨hse, ?_⟩
    -- the type chooses the service that prints the value
    obtain ⟨-, hsame⟩ := writable_renamed hre (silent_operand.mp hs).2
    rw [Stmt.sketch, Stmt.sketch, type_exp (silent_operand.mp hs).1.fault,
      type_exp (silent_operand.mp hse).1.fault, hsame, Sketch.bare_append, Sketch.bare_append,
      hre.code]
  | _, _, .ifThen he hb, hs => by
    rw [stmt, silent_andThen, silent_map] at hs
    obtain ⟨hse, hre⟩ := renamed_operand (fun hp => want_renamed hp rfl) he hs.1
    obtain ⟨hsb, hrb⟩ := renamed_block hword fn hb hs.2
    rw [stmt, stmt, silent_andThen, silent_map, value_andThen hs.1.fault, value_andThen hse.fault,
      value_map, value_map, value_operand, value_operand]
    refine ⟨⟨hse, hsb⟩, ?_⟩
    simp only [Stmt.sketch, Sketch.bare, Sketch.bare_append, hre.code, hrb]
  | _, _, .ifElse he hb₁ hb₂, hs => by
    rw [stmt, silent_andThen, silent_andThen, silent_map] at hs
    obtain ⟨hse, hre⟩ := renamed_operand (fun hp => want_renamed hp rfl) he hs.1
    obtain ⟨hsb₁, hrb₁⟩ := renamed_block hword fn hb₁ hs.2.1
    obtain ⟨hsb₂, hrb₂⟩ := renamed_block hword fn hb₂ hs.2.2
    rw [stmt, stmt, silent_andThen, silent_andThen, silent_map, value_andThen hs.1.fault,
      value_andThen hse.fault, value_andThen hs.2.1.fault, value_andThen hsb₁.fault, value_map,
      value_map, value_operand, value_operand]
    refine ⟨⟨hse, hsb₁, hsb₂⟩, ?_⟩
    simp only [Stmt.sketch, Sketch.bare, Sketch.bare_append, hre.code, hrb₁, hrb₂]
  | _, _, .while he hb, hs => by
    rw [stmt, silent_andThen, silent_map] at hs
    obtain ⟨hse, hre⟩ := renamed_operand (fun hp => want_renamed hp rfl) he hs.1
    obtain ⟨hsb, hrb⟩ := renamed_block hword fn hb hs.2
    rw [stmt, stmt, silent_andThen, silent_map, value_andThen hs.1.fault, value_andThen hse.fault,
      value_map, value_map, value_operand, value_operand]
    refine ⟨⟨hse, hsb⟩, ?_⟩
    simp only [Stmt.sketch, Sketch.bare, Sketch.bare_append, hre.code, hrb]
  | _, _, .exit, hs => by
    rw [stmt, silent_reporting] at hs
    rw [stmt, stmt, silent_reporting]
    refine ⟨?_, rfl⟩
    split at hs
    · next hvoid => rw [if_pos hvoid]
    · cases hs
  | _, _, .return he, hs => by
    rw [stmt, silent_map] at hs
    obtain ⟨hse, hre⟩ := renamed_operand (fun hp => returned_renamed hp hword) he hs
    rw [stmt, stmt, silent_map, value_map, value_map, value_operand, value_operand]
    refine ⟨hse, ?_⟩
    rw [Stmt.sketch, Stmt.sketch, Sketch.bare_append, Sketch.bare_append, hre.code]

theorem renamed_block {returns : Ty} (hword : returns.isStruct = false) (fn : String) :
    ∀ {b b' : Block Stmt}, Stmt.BlockRenamed ρ b b' → (block returns b).Silent →
      (block returns b').Silent ∧ (Stmt.blockSketch fn (block returns b').value).bare =
        (Stmt.blockSketch fn (block returns b).value).bare
  | _, _, .intro _ hss, hs => by
    rw [block, silent_map] at hs
    rw [block, block, silent_map, value_map, value_map, Stmt.blockSketch, Stmt.blockSketch]
    exact renamed_stmts hword fn hss hs

theorem renamed_stmts {returns : Ty} (hword : returns.isStruct = false) (fn : String) :
    ∀ {ss ss' : List Stmt}, Stmt.ListRenamed ρ ss ss' → (stmts returns ss).Silent →
      (stmts returns ss').Silent ∧ (Stmt.listSketch fn (stmts returns ss').value).bare =
        (Stmt.listSketch fn (stmts returns ss).value).bare
  | _, _, .nil, _ => ⟨silent_pure _, rfl⟩
  | _, _, .cons hs hss, hsilent => by
    rw [stmts, silent_andThen, silent_map] at hsilent
    obtain ⟨hsfirst, hfirst⟩ := renamed_stmt hword fn hs hsilent.1
    obtain ⟨hsrest, hrest⟩ := renamed_stmts hword fn hss hsilent.2
    rw [stmts, stmts, silent_andThen, silent_map, value_andThen hsilent.1.fault,
      value_andThen hsfirst.fault, value_map, value_map]
    refine ⟨⟨hsfirst, hsrest⟩, ?_⟩
    rw [Stmt.listSketch, Stmt.listSketch, Sketch.bare_append, Sketch.bare_append, hfirst, hrest]

end

/-! ## Declarations -/

/-- A function that is checked without a report, and the renamed one. -/
theorem renamed_fnDecl {d d' : FnDecl} (h : d.Renamed ρ d') (hs : (fnDecl d).Silent) :
    (fnDecl d').Silent ∧ (fnDecl d').value.sketch.bare = (fnDecl d).value.sketch.bare := by
  obtain ⟨hname, ⟨returns, hreturns, hreturns', hword⟩, -, hbody, hframe⟩ := h
  unfold fnDecl at hs ⊢
  rw [hreturns] at hs ⊢
  rw [hreturns']
  rw [silent_map] at hs
  obtain ⟨hsb, hcode⟩ := renamed_block hword d.name.name hbody hs
  refine ⟨silent_map.mpr hsb, ?_⟩
  dsimp only [value_map]
  simp only [FnDecl.sketch, front, Sketch.bare_append, hname, hframe, hcode]

theorem renamed_decl {d d' : Decl} (h : d.Renamed ρ d') (hs : (decl d).Silent) :
    (decl d').Silent ∧ (decl d').value.sketch.bare = (decl d).value.sketch.bare := by
  cases h with
  | var h hbinding hsite =>
    exact ⟨silent_pure _, (global_renamed h hbinding hsite).code.items⟩
  | fn h =>
    rw [decl, silent_map] at hs
    rw [decl, decl, silent_map, value_map, value_map]
    exact renamed_fnDecl h hs
  | struct => exact ⟨silent_pure _, rfl⟩

/-- Declarations that are checked without a report, and the renamed ones. -/
theorem renamed_decls {ds ds' : List Decl} (h : List.Forall₂ (Decl.Renamed ρ) ds ds')
    (hs : (decls ds).Silent) :
    (decls ds').Silent ∧
      (Decl.listSketch (decls ds').value).bare = (Decl.listSketch (decls ds).value).bare := by
  induction h with
  | nil => exact ⟨silent_pure _, rfl⟩
  | cons hd _ ih =>
    rw [decls, silent_andThen, silent_map] at hs
    obtain ⟨hsd, hcode⟩ := renamed_decl hd hs.1
    obtain ⟨hsds, hrest⟩ := ih hs.2
    rw [decls, decls, silent_andThen, silent_map, value_andThen hs.1.fault, value_andThen hsd.fault,
      value_map, value_map]
    refine ⟨⟨hsd, hsds⟩, ?_⟩
    rw [Decl.listSketch, Decl.listSketch, Sketch.bare_append, Sketch.bare_append, hcode, hrest]

end Check

end CMinusMinus
