import CMinusMinus.Proofs.Grammar
import CMinusMinus.Proofs.Reporting

/-!
# Names in reports

A report of name resolution speaks of at most one name, which stands in the tree.  In a formed tree
it is therefore spelled like a name (`Program.Formed.named_reports`).
-/

namespace CMinusMinus

open Outcome

/-- The name that a cause speaks of, if it speaks of one. -/
def NameCause.name? : NameCause → Option String
  | .voidVariable | .notStruct => none
  | .unknownStruct name | .duplicate name | .duplicateField name | .undeclared name
  | .noField name => some name

/-- The name that the cause speaks of is spelled like one. -/
def NameCause.Named (c : NameCause) : Prop := ∀ name, c.name? = some name → IsName name

/-- The report is about a name that is spelled like one. -/
def Report.Named (r : Report) : Prop := ∃ c : NameCause, r.cause = .naming c ∧ c.Named

theorem NameCause.named_of_name? {c : NameCause} {x : Ident} (hx : x.Named)
    (h : c.name? = some x.name) : c.Named := by
  intro name hname
  rw [h] at hname
  cases hname
  exact hx

theorem NameCause.named_of_none {c : NameCause} (h : c.name? = none) : c.Named := by
  intro name hname
  rw [h] at hname
  cases hname

theorem NameCause.Named.report {c : NameCause} (h : c.Named) (span : Option Span) :
    (c.report span).Named := ⟨c, rfl, h⟩

namespace Resolve

/-! ## Expressions -/

theorem named_ident (env : Env) {x : Ident} (hx : x.Named) :
    (x.resolve env).Only Report.Named := by
  unfold Ident.resolve
  split
  · exact only_pure _
  · exact only_singleton ((NameCause.named_of_name? hx rfl).report _)

theorem named_access (i : Info) (loc : Exp) {f : Ident} (hf : f.Named) :
    (access i loc f).Only Report.Named := by
  unfold access fieldOf
  split
  · split
    · exact only_pure _
    · exact only_singleton ((NameCause.named_of_name? hf rfl).report _)
  · exact only_pure _
  · exact only_singleton ((NameCause.named_of_none rfl).report _)
  · exact only_stop _ _

mutual

theorem named_exp (env : Env) : ∀ {e : Exp}, e.Formed → (exp env e).Only Report.Named
  | .int .., _ | .string .., _ | .bool .., _ => only_pure _
  | .ident _, hx => (named_ident env hx).map _
  | .access .., ⟨_, hloc, hf⟩ =>
    (named_exp env hloc).andThen (fun _ => named_access _ _ hf) _
  | .assign .., ⟨_, hl, hr⟩ | .binary .., ⟨_, hl, hr⟩ =>
    (named_exp env hl).andThen (fun _ => (named_exp env hr).map _) _
  | .call .., ⟨hf, hargs⟩ =>
    (named_ident env hf).andThen (fun _ => (named_exps env hargs).map _) _
  | .neg _ e, h | .not _ e, h => (named_exp env (e := e) h).map _

theorem named_exps (env : Env) : ∀ {es : List Exp}, Exp.AllFormed es →
    (exps env es).Only Report.Named
  | [], _ => only_pure _
  | _ :: _, ⟨he, hes⟩ => (named_exp env he).andThen (fun _ => (named_exps env hes).map _) _

end

/-! ## Declarations of variables -/

theorem named_shape (env : Env) {d : VarDecl} (htype : d.type.Formed) :
    (shape env d).Only Report.Named := by
  unfold shape
  split
  · exact only_pure _
  · exact only_pure _
  · exact only_singleton ((NameCause.named_of_none rfl).report _)
  · next h =>
    rw [h] at htype
    split
    · exact only_pure _
    · exact only_singleton ((NameCause.named_of_name? htype rfl).report _)
  · exact only_stop _ _

theorem named_declare (env : Env) {taken : Option NameCause} (place : Shape StructDef → Place)
    {d : VarDecl} (htype : d.type.Formed) (htaken : ∀ c ∈ taken, c.Named) :
    (declare env taken place d).Only Report.Named := by
  refine (named_shape env htype).andThen (fun _ => ?_) _
  dsimp only
  split
  · exact only_singleton ((htaken _ rfl).report _)
  · exact only_pure _
  · exact only_pure _

theorem named_taken (env : Env) {x : Ident} (hx : x.Named) : ∀ c ∈ taken env x.name, c.Named := by
  intro c hc
  obtain ⟨s, -, rfl⟩ := Option.map_eq_some_iff.mp hc
  exact NameCause.named_of_name? hx rfl

theorem named_takenField (before : List (Field StructDef)) {x : Ident} (hx : x.Named) :
    ∀ c ∈ takenField before x.name, c.Named := by
  intro c hc
  unfold takenField at hc
  split at hc
  · cases hc
    exact NameCause.named_of_name? hx rfl
  · cases hc

theorem named_localVars (env : Env) (frame : Frame) {ds : List VarDecl} (h : ∀ d ∈ ds, d.Formed) :
    (localVars env frame ds).Only Report.Named := by
  induction ds generalizing env frame with
  | nil => exact only_pure _
  | cons d ds ih =>
    obtain ⟨hd, hds⟩ := List.forall_mem_cons.mp h
    exact ((named_declare _ _ hd.type (named_taken _ hd.name)).andThen
      (fun _ => only_logged _ _) _).andThen (fun _ => (ih _ _ hds).map _) _

theorem named_formals (env : Env) (frame : Frame) {ds : List VarDecl}
    (h : ∀ d ∈ ds, d.FormedFormal) : (formals env frame ds).Only Report.Named := by
  induction ds generalizing env frame with
  | nil => exact only_pure _
  | cons d ds ih =>
    obtain ⟨hd, hds⟩ := List.forall_mem_cons.mp h
    exact (named_declare _ _ (TypeNode.formed_of_isWordType hd.type)
      (named_taken _ hd.name)).andThen (fun _ => (ih _ _ hds).map _) _

theorem named_fields (env : Env) (before : List (Field StructDef)) (size : Nat)
    {ds : List VarDecl} (h : ∀ d ∈ ds, d.Formed) :
    (fields env before size ds).Only Report.Named := by
  induction ds generalizing before size with
  | nil => exact only_pure _
  | cons d ds ih =>
    obtain ⟨hd, hds⟩ := List.forall_mem_cons.mp h
    exact (named_declare _ _ hd.type (named_takenField _ hd.name)).andThen
      (fun _ => (ih _ _ hds).map _) _

/-! ## Statements -/

mutual

theorem named_stmt (env : Env) (frame : Frame) : ∀ {s : Stmt}, s.Formed →
    (stmt env frame s).Only Report.Named
  | .assign _ e, ⟨_, h⟩ | .increment _ e, ⟨_, h⟩ | .decrement _ e, ⟨_, h⟩ | .read _ e, ⟨_, h⟩
  | .call _ e, ⟨_, h⟩ => (named_exp env (e := e) h).map _
  | .write _ e, h | .return _ (some e), h => (named_exp env (e := e) h).map _
  | .ifThen .., ⟨he, hb⟩ | .while .., ⟨he, hb⟩ =>
    (named_exp env he).andThen (fun _ => (named_block _ frame hb).map _) _
  | .ifElse .., ⟨he, hyes, hno⟩ =>
    (named_exp env he).andThen (fun _ => (named_block _ frame hyes).andThen
      (fun _ => (named_block _ _ hno).map _) _) _
  | .return _ none, _ => only_pure _

theorem named_block (env : Env) (frame : Frame) : ∀ {b : Block Stmt}, Stmt.BlockFormed b →
    (block env frame b).Only Report.Named
  | ⟨_, _, _⟩, ⟨hds, hss⟩ =>
    (named_localVars env frame hds).andThen (fun _ => (named_stmts _ _ hss).map _) _

theorem named_stmts (env : Env) (frame : Frame) : ∀ {ss : List Stmt}, Stmt.AllFormed ss →
    (stmts env frame ss).Only Report.Named
  | [], _ => only_pure _
  | _ :: _, ⟨hs, hss⟩ =>
    (named_stmt env frame hs).andThen (fun _ => (named_stmts env _ hss).map _) _

end

/-! ## Declarations -/

theorem named_name (env : Env) {x : Ident} (hx : x.Named) (symbol : Symbol) :
    (name env x symbol).Only Report.Named := by
  unfold name
  split
  · next h => exact only_singleton ((named_taken env hx _ h).report _)
  · exact only_pure _

theorem named_fnDecl (env : Env) {d : FnDecl} (h : d.Formed) :
    (fnDecl env d).Only Report.Named := by
  unfold fnDecl
  split
  · exact only_stop _ _
  · exact (named_name env h.name _).andThen (fun _ => (named_formals _ _ h.formals).andThen
      (fun _ => (named_block _ _ h.body).andThen (fun _ => only_pure _) _) _) _

theorem named_structDecl (env : Env) {d : StructDecl} (h : d.Formed) :
    (structDecl env d).Only Report.Named := by
  have hname : ∀ cause : Option NameCause, (∀ c ∈ cause, c.Named) → (Outcome.reporting ()
      (cause.map (·.report d.name.info.span)).toList : Resolved Unit).Only Report.Named := by
    intro cause hcause
    cases cause with
    | none => exact only_pure _
    | some cause => exact only_singleton ((hcause _ rfl).report _)
  rw [structDecl]
  refine (hname _ (named_taken env h.name)).andThen
    (fun _ => (named_fields _ _ _ h.fields).andThen (fun _ => ?_) _) _
  dsimp only
  split
  · exact only_pure _
  · exact only_logged _ _

theorem named_decl (env : Env) : ∀ {d : Decl}, d.Formed → (decl env d).Only Report.Named
  | .var _, h => by
    rw [decl]
    split
    · exact only_stop _ _
    · exact (named_declare _ _ h.type (named_taken _ h.name)).map _
  | .fn _, h => (named_fnDecl env h).map _
  | .struct _, h => (named_structDecl env h).map _

theorem named_decls (env : Env) {ds : List Decl} (h : ∀ d ∈ ds, d.Formed) :
    (decls env ds).Only Report.Named := by
  induction ds generalizing env with
  | nil => exact only_pure _
  | cons d ds ih =>
    obtain ⟨hd, hds⟩ := List.forall_mem_cons.mp h
    exact (named_decl env hd).andThen (fun _ => (ih _ hds).map _) _

end Resolve

/-- What name resolution reports of a formed program is about names that are spelled like names. -/
theorem Program.Formed.named_reports {p : Program} (h : p.Formed) :
    ∀ r ∈ p.resolve.reports, r.Named :=
  Resolve.named_decls _ h

end CMinusMinus
