import CMinusMinus.Proofs.Scoping.Declarations

/-!
# Statements are scoped

What stands in a resolved block, however deep, was resolved in scopes that are what the blocks
around it declare (`Resolve.nested_block`).  What is reported of a block is told by what is not
bound in it (`Stmt.BlockFormed.complaints`).
-/

namespace CMinusMinus

open Outcome

/-! ## What stands in a block -/

namespace Resolve

variable {env : Env}

/-- The statement is what a formed one is resolved to in the scopes. -/
def IsStmt (env : Env) (s : Stmt) : Prop :=
  ∃ s₀ frame, s₀.Formed ∧ (stmt env frame s₀).fault = none ∧ s = (stmt env frame s₀).value.1

/-- The block is what a formed one is resolved to in the scopes, the innermost of which is its
own. -/
def IsBlock (env : Env) (b : Block Stmt) : Prop :=
  ∃ b₀ frame, Stmt.BlockFormed b₀ ∧ (block env frame b₀).fault = none ∧
    b = (block env frame b₀).value.1

theorem isStmt_of_mem {ss : List Stmt} (h : Stmt.AllFormed ss) {frame : Frame}
    (hfault : (stmts env frame ss).fault = none) :
    ∀ s ∈ (stmts env frame ss).value.1, IsStmt env s := by
  induction ss generalizing frame with
  | nil => exact nofun
  | cons s ss ih =>
    rw [stmts, fault_andThen, fault_map] at hfault
    rw [stmts, value_andThen hfault.1, value_map]
    exact List.forall_mem_cons.mpr ⟨⟨s, frame, h.1, hfault.1, rfl⟩, ih h.2 hfault.2⟩

/-- The expressions of a resolved statement are bound in its scopes. -/
theorem IsStmt.scoped {s : Stmt} (h : IsStmt env s) : ∀ e ∈ s.operands, e.Scoped env.find? := by
  obtain ⟨s, frame, hs, hfault, rfl⟩ := h
  have hscoped : ∀ {e : Exp}, e.Formed → ∀ e' ∈ [(exp env e).value], e'.Scoped env.find? :=
    fun he => List.forall_mem_singleton.mpr (he.scoped env).1
  cases s with
  | assign _ e | increment _ e | decrement _ e | read _ e | call _ e =>
    rw [stmt, value_map]
    exact hscoped hs.2
  | write _ e =>
    rw [stmt, value_map]
    exact hscoped hs
  | ifThen _ e b | «while» _ e b =>
    rw [stmt, fault_andThen] at hfault
    rw [stmt, value_andThen hfault.1, value_map]
    exact hscoped hs.1
  | ifElse _ e b₁ b₂ =>
    rw [stmt, fault_andThen, fault_andThen] at hfault
    rw [stmt, value_andThen hfault.1, value_andThen hfault.2.1, value_map]
    exact hscoped hs.1
  | «return» _ e =>
    cases e with
    | none => exact nofun
    | some e =>
      rw [stmt, value_map]
      exact hscoped hs
  | unknown => exact hs.elim

/-- The blocks of a resolved statement have a scope of their own. -/
theorem IsStmt.blocks {s : Stmt} (h : IsStmt env s) : ∀ b ∈ s.blocks, IsBlock env.enter b := by
  obtain ⟨s, frame, hs, hfault, rfl⟩ := h
  cases s with
  | assign | increment | decrement | read | call | write =>
    rw [stmt, value_map]
    exact nofun
  | ifThen _ e b | «while» _ e b =>
    rw [stmt, fault_andThen, fault_map] at hfault
    rw [stmt, value_andThen hfault.1, value_map]
    exact List.forall_mem_singleton.mpr ⟨b, _, hs.2, hfault.2, rfl⟩
  | ifElse _ e b₁ b₂ =>
    rw [stmt, fault_andThen, fault_andThen, fault_map] at hfault
    obtain ⟨he, hb₁, hb₂⟩ := hfault
    rw [stmt, value_andThen he, value_andThen hb₁, value_map]
    exact List.forall_mem_cons.mpr
      ⟨⟨b₁, _, hs.2.1, hb₁, rfl⟩, List.forall_mem_singleton.mpr ⟨b₂, _, hs.2.2, hb₂, rfl⟩⟩
  | «return» _ e =>
    cases e with
    | none => exact nofun
    | some e =>
      rw [stmt, value_map]
      exact nofun
  | unknown => exact hs.elim

variable {globals : Scope Symbol} {outer : Env} (houter : outer ≠ [])
  (hglobals : StructsOf outer globals)
include houter hglobals

/-- The variables of a resolved block are settled, and its statements are resolved in the scope that
they make up. -/
theorem IsBlock.settled {scope : Scope Symbol} {b : Block Stmt}
    (h : IsBlock (scope :: outer) b) : VarDecl.SettledAfter globals scope b.decls.items ∧
      ∀ s ∈ b.stmts, IsStmt ((scope ++ VarDecl.declared b.decls.items) :: outer) s := by
  obtain ⟨⟨ds, sp, ss⟩, frame, hb, hfault, rfl⟩ := h
  rw [block, fault_andThen, fault_map] at hfault
  obtain ⟨ds', frame', hlocals, hsettled⟩ := sequence_localVars.settled houter hglobals
    (fun d hd => (hb.1 d hd).type) hfault.1
  rw [hlocals] at hfault
  rw [block, hlocals, value_andThen rfl, value_reporting, value_map]
  exact ⟨hsettled, isStmt_of_mem hb.2 hfault.2⟩

end Resolve

/-! ## What blocks declare -/

/-- The scopes that blocks make up. -/
def Block.scopes (bs : List (Block Stmt)) : Env := bs.map fun b => VarDecl.declared b.decls.items

theorem Block.find?_scopes (bs : List (Block Stmt)) (outer : Env) (name : String) :
    Scopes.find? (Block.scopes bs ++ outer) name =
      (bs.findSome? fun b => (VarDecl.declared b.decls.items).find? name).or
        (Scopes.find? outer name) := by
  rw [Scopes.find?, List.findSome?_append, Block.scopes, List.findSome?_map]
  rfl

namespace Resolve

variable {globals : Scope Symbol} {outer : Env} (houter : outer ≠ [])
  (hglobals : StructsOf outer globals) {scope : Scope Symbol} {body : Block Stmt}
  (hbody : IsBlock (scope :: outer) body)
include houter hglobals hbody

/-- The statements of a block that lies in a resolved one are resolved in the scopes of the blocks
around it, and its variables are settled. -/
theorem nested_block {bs : List (Block Stmt)} (h : Stmt.Nested body bs) :
    (∀ s ∈ (bs.headD body).stmts, IsStmt
      (Block.scopes bs ++ (scope ++ VarDecl.declared body.decls.items) :: outer) s) ∧
      ∀ b ∈ bs, VarDecl.ListSettled globals b.decls.items := by
  induction h with
  | nil => exact ⟨(hbody.settled houter hglobals).2, nofun⟩
  | @cons b bs s hnested hs hb ih =>
    obtain ⟨hstmts, hsettled⟩ := ih
    have hne := List.cons_ne_nil (scope ++ VarDecl.declared body.decls.items) outer
    have hstructs := hglobals.cons houter (scope ++ VarDecl.declared body.decls.items)
    obtain ⟨hvars, hinner⟩ := ((hstmts s hs).blocks b hb).settled
      (List.append_ne_nil_of_right_ne_nil _ hne) (hstructs.append hne (Block.scopes bs))
    exact ⟨hinner, List.forall_mem_cons.mpr ⟨hvars, hsettled⟩⟩

end Resolve

/-! ## Complaints -/

theorem Stmt.blockComplaints_eq (b : Block Stmt) : Stmt.blockComplaints b =
    VarDecl.listComplaints .duplicate [] b.decls.items ++ Stmt.listComplaints b.stmts := by
  cases b
  rfl

mutual

/-- What is reported of a statement is told by what is not bound in it. -/
theorem Stmt.Formed.complaints {globals : Scope Symbol} {env : Env} (henv : env ≠ [])
    (hglobals : Resolve.StructsOf env globals) {frame : Frame} : ∀ {s : Stmt}, s.Formed →
    (Resolve.stmt env frame s).fault = none →
      (Resolve.stmt env frame s).reports = (Resolve.stmt env frame s).value.1.complaints
  | .assign _ e, h, _ | .increment _ e, h, _ | .decrement _ e, h, _ | .read _ e, h, _
  | .call _ e, h, _ => by
    rw [Resolve.stmt, reports_map, value_map, (h.2.scoped env).2]
    rfl
  | .write _ e, h, _ | .return _ (some e), h, _ => by
    rw [Resolve.stmt, reports_map, value_map, (Exp.Formed.scoped env (e := e) h).2]
    rfl
  | .return _ none, _, _ => rfl
  | .ifThen _ e b, h, hfault | .while _ e b, h, hfault => by
    rw [Resolve.stmt, fault_andThen, fault_map] at hfault
    rw [Resolve.stmt, andThen_of_fault_none hfault.1, reports_map, value_map, (h.1.scoped env).2,
      Scopes.enter, Stmt.BlockFormed.complaints henv hglobals h.2 hfault.2,
      ← Stmt.blockComplaints_eq]
    rfl
  | .ifElse _ e b₁ b₂, h, hfault => by
    rw [Resolve.stmt, Scopes.enter, fault_andThen, fault_andThen, fault_map] at hfault
    obtain ⟨he, hb₁, hb₂⟩ := hfault
    rw [Resolve.stmt, Scopes.enter, andThen_of_fault_none he, andThen_of_fault_none hb₁,
      reports_map, value_map, (h.1.scoped env).2,
      Stmt.BlockFormed.complaints henv hglobals h.2.1 hb₁,
      Stmt.BlockFormed.complaints henv hglobals h.2.2 hb₂, ← Stmt.blockComplaints_eq,
      ← Stmt.blockComplaints_eq]
    rfl

theorem Stmt.BlockFormed.complaints {globals : Scope Symbol} {env : Env} (henv : env ≠ [])
    (hglobals : Resolve.StructsOf env globals) {frame : Frame} {scope : Scope Symbol} :
    ∀ {b : Block Stmt}, Stmt.BlockFormed b → (Resolve.block (scope :: env) frame b).fault = none →
    (Resolve.block (scope :: env) frame b).reports =
      VarDecl.listComplaints .duplicate scope
          (Resolve.block (scope :: env) frame b).value.1.decls.items ++
        Stmt.listComplaints (Resolve.block (scope :: env) frame b).value.1.stmts
  | ⟨ds, _, ss⟩, h, hfault => by
    rw [Resolve.block, fault_andThen, fault_map] at hfault
    obtain ⟨ds', frame', hlocals, -⟩ := Resolve.sequence_localVars.settled henv hglobals
      (fun d hd => (h.1 d hd).type) hfault.1
    rw [hlocals] at hfault
    have hrest : (Resolve.stmts ((scope ++ VarDecl.declared ds') :: env) frame' ss).fault = none :=
      hfault.2
    have hss := Stmt.AllFormed.complaints (List.cons_ne_nil _ _)
      (hglobals.cons henv (scope ++ VarDecl.declared ds')) h.2 hrest
    rw [Resolve.block, hlocals, andThen_of_fault_none rfl, reports_reporting, value_reporting,
      reports_map, value_map, hss]

theorem Stmt.AllFormed.complaints {globals : Scope Symbol} {env : Env} (henv : env ≠ [])
    (hglobals : Resolve.StructsOf env globals) {frame : Frame} : ∀ {ss : List Stmt},
    Stmt.AllFormed ss → (Resolve.stmts env frame ss).fault = none →
      (Resolve.stmts env frame ss).reports =
        Stmt.listComplaints (Resolve.stmts env frame ss).value.1
  | [], _, _ => rfl
  | s :: ss, h, hfault => by
    rw [Resolve.stmts, fault_andThen, fault_map] at hfault
    rw [Resolve.stmts, andThen_of_fault_none hfault.1, reports_map, value_map,
      Stmt.Formed.complaints henv hglobals h.1 hfault.1,
      Stmt.AllFormed.complaints henv hglobals h.2 hfault.2]
    rfl

end

end CMinusMinus
