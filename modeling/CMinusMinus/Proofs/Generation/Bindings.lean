import CMinusMinus.Generate
import CMinusMinus.Proofs.Blame.Programs

/-!
# Code generation and names without a binding

Code generation looks at every identifier of a function body and at the name of every global, and
goes on only where it is bound (`Generate.vets_decls`).  What else it asks of the tree is not asked
in vain: the field of an access is bound only if the struct that it is asked of has it
(`Exp.Owned`), and type checking keeps that.
-/

namespace CMinusMinus

open Outcome

/-! ## Identifiers of a tree -/

/-- The identifier is bound to a symbol. -/
def Ident.Bound (x : Ident) : Prop := ∃ s, x.binding = .bound s

namespace Exp

mutual

/-- The identifiers of an expression, with the names of functions and fields. -/
def idents : Exp → List Ident
  | .int .. | .string .. | .bool .. | .unknown _ => []
  | .ident x => [x]
  | .access _ _ loc f => loc.idents ++ [f]
  | .assign _ l r | .binary _ _ l r => l.idents ++ r.idents
  | .call _ f _ args => f :: listIdents args
  | .neg _ e | .not _ e => e.idents
termination_by structural e => e

/-- The identifiers of expressions. -/
def listIdents : List Exp → List Ident
  | [] => []
  | e :: es => e.idents ++ listIdents es
termination_by structural es => es

end

mutual

/-- Where the field of an access is bound, it is a field of the struct that owns it. -/
def Owned : Exp → Prop
  | .int .. | .string .. | .bool .. | .ident _ | .unknown _ => True
  | .access _ k loc f =>
    (f.Bound → ∃ d field, k.owner = some d ∧ d.field? f.name = some field) ∧ loc.Owned
  | .assign _ l r | .binary _ _ l r => l.Owned ∧ r.Owned
  | .call _ _ _ args => ListOwned args
  | .neg _ e | .not _ e => e.Owned
termination_by structural e => e

/-- The fields in expressions are owned. -/
def ListOwned : List Exp → Prop
  | [] => True
  | e :: es => e.Owned ∧ ListOwned es
termination_by structural es => es

end

end Exp

/-- The identifiers that the code of a declaration depends on: the name of a variable, and those in
the body of a function. -/
def Decl.idents : Decl → List Ident
  | .var d => [d.name]
  | .fn d => (Stmt.blockOperands d.body).flatMap Exp.idents
  | .struct _ | .unknown _ => []

/-- The size of the variable can be written, if it is bound to storage. -/
def VarDecl.Written (d : VarDecl) : Prop :=
  ∀ s, d.name.binding = .bound (.storage s) → Text.isWritten s.shape.size = true

/-- The size of the declaration can be written, if it is that of a variable. -/
def Decl.Written : Decl → Prop
  | .var d => d.Written
  | .fn _ | .struct _ | .unknown _ => True

/-- The fault is not that of a field whose struct is unknown or does not have it, and not that of a
number with too many digits. -/
def Fault.Foreseen (fault : Fault) : Prop :=
  match fault.cause with
  | .accessUnresolved | .overlong _ => False
  | _ => True

/-! ## What code generation looks at -/

namespace Generate

/-- What is known of a run: `post` of the result that it comes to, `stop` of the error that it stops
with. -/
structure Vets {ε α : Type} (stop : ε → Prop) (r : Except ε α) (post : α → Prop) : Prop where
  post : ∀ a, r = .ok a → post a
  stop : ∀ e, r = .error e → stop e

namespace Vets

variable {ε α β : Type} {stop : ε → Prop} {p : α → Prop} {q : β → Prop}

theorem ok {a : α} (h : p a) : Vets stop (.ok a) p :=
  ⟨fun _ ha => by cases ha; exact h, nofun⟩

theorem error {e : ε} (h : stop e) : Vets stop (.error e) p :=
  ⟨nofun, fun _ he => by cases he; exact h⟩

theorem bind {r : Except ε α} {next : α → Except ε β} (h : Vets stop r p)
    (hnext : ∀ a, p a → Vets stop (next a) q) : Vets stop (r >>= next) q := by
  cases hr : r with
  | error e => exact .error (h.stop e hr)
  | ok a => exact hnext a (h.post a hr)

end Vets

/-! ## Addresses -/

theorem vets_symbolOf (x : Ident) :
    Vets Fault.Foreseen (symbolOf x) fun s => x.binding = .bound s := by
  unfold symbolOf
  split
  · next s hs => exact .ok hs
  · exact .error trivial

theorem vets_storageOf (x : Ident) :
    Vets Fault.Foreseen (storageOf x) fun r => x.binding = .bound (.storage r.1) := by
  refine (vets_symbolOf x).bind fun s hx => ?_
  split
  · split
    · exact .ok hx
    · exact .error trivial
  · exact .error trivial

/-- The identifiers of a location are the variable it is part of and the fields on its path. -/
theorem vets_path {e : Exp} (h : e.Owned) :
    Vets Fault.Foreseen (path e) fun r => ∀ x ∈ e.idents, x = r.1 ∨ x.Bound := by
  induction e using path.induct with
  | case1 x => exact .ok (List.forall_mem_singleton.mpr (.inl rfl))
  | case2 i k loc f ih =>
    rw [path]
    refine (vets_symbolOf f).bind fun _ hf => ?_
    obtain ⟨d, field, hd, hfield⟩ := h.1 ⟨_, hf⟩
    rw [hd, Option.bind_some, hfield]
    refine (ih h.2).bind fun r hr => .ok ?_
    exact List.forall_mem_append.mpr ⟨hr, List.forall_mem_singleton.mpr (.inr ⟨_, hf⟩)⟩
  | case3 e hident haccess =>
    cases e with
    | ident x => exact absurd rfl (hident x)
    | access i k loc f => exact absurd rfl (haccess i k loc f)
    | _ => exact .error trivial

theorem vets_address {e : Exp} (h : e.Owned) :
    Vets Fault.Foreseen (address e) fun _ => ∀ x ∈ e.idents, x.Bound := by
  refine (vets_path h).bind fun r hr => ?_
  refine (vets_storageOf r.1).bind fun _ hroot => .ok fun x hx => ?_
  rcases hr x hx with rfl | hbound
  · exact ⟨_, hroot⟩
  · exact hbound

theorem vets_load (x : Ident) : Vets Fault.Foreseen (load x) fun _ => x.Bound := by
  refine (vets_storageOf x).bind fun (s, _) hx => ?_
  dsimp only
  cases s.shape with
  | struct => exact .error trivial
  | scalar => exact .ok ⟨_, hx⟩

/-! ## Expressions -/

theorem vets_combine (op : BinOp) (span : Option Span) (ls : Labels) :
    Vets Fault.Foreseen (combine op span ls) fun _ => True := by
  cases op with
  | other => exact .error trivial
  | _ => exact .ok trivial

mutual

/-- The code of an expression is made only where its identifiers are bound. -/
theorem vets_exp (ls : Labels) : ∀ {e : Exp}, e.Owned →
    Vets Fault.Foreseen (exp ls e) fun _ => ∀ x ∈ e.idents, x.Bound
  | .int .., _ | .bool .., _ | .string .., _ => .ok (List.forall_mem_nil _)
  | .unknown _, _ => .error trivial
  | .ident x, _ => by
    rw [exp]
    exact (vets_load x).bind fun _ hx => .ok (List.forall_mem_singleton.mpr hx)
  | .access i k loc f, h => by
    rw [exp]
    exact (vets_address (e := .access i k loc f) h).bind fun _ haddr => .ok haddr
  | .assign _ l r, h => by
    rw [exp]
    refine (vets_exp ls h.2).bind fun _ hr => ?_
    refine (vets_address h.1).bind fun _ hl => .ok ?_
    exact List.forall_mem_append.mpr ⟨hl, hr⟩
  | .call _ f _ args, h => by
    rw [exp]
    refine (vets_exps ls (show Exp.ListOwned args from h)).bind fun _ hargs => ?_
    refine (vets_symbolOf f).bind fun _ hf => .ok ?_
    exact List.forall_mem_cons.mpr ⟨⟨_, hf⟩, hargs⟩
  | .neg _ e, h => by
    rw [exp]
    exact (vets_exp ls (e := e) h).bind fun _ he => .ok he
  | .not _ e, h => by
    rw [exp]
    exact (vets_exp ls (e := e) h).bind fun _ he => .ok he
  | .binary i op l r, h => by
    rw [exp]
    refine (vets_exp ls h.2).bind fun right hr => ?_
    refine (vets_exp right.2 h.1).bind fun left hl => ?_
    refine (vets_combine op i.span left.2).bind fun _ _ => .ok ?_
    exact List.forall_mem_append.mpr ⟨hl, hr⟩

theorem vets_exps (ls : Labels) : ∀ {es : List Exp}, Exp.ListOwned es →
    Vets Fault.Foreseen (exps ls es) fun _ => ∀ x ∈ Exp.listIdents es, x.Bound
  | [], _ => .ok (List.forall_mem_nil _)
  | e :: es, h => by
    rw [exps]
    refine (vets_exp ls h.1).bind fun first he => ?_
    refine (vets_exps first.2 h.2).bind fun _ hes => .ok ?_
    exact List.forall_mem_append.mpr ⟨he, hes⟩

end

/-! ## Statements -/

theorem vets_step (op : Opcode) {e : Exp} (h : e.Owned) :
    Vets Fault.Foreseen (step op e) fun _ => ∀ x ∈ e.idents, x.Bound :=
  (vets_address h).bind fun _ haddr => .ok haddr

mutual

/-- The code of a statement is made only where its identifiers are bound. -/
theorem vets_stmt (fn : String) (ls : Labels) : ∀ {s : Stmt}, (∀ e ∈ s.allOperands, e.Owned) →
    Vets Fault.Foreseen (stmt fn ls s) fun _ => ∀ e ∈ s.allOperands, ∀ x ∈ e.idents, x.Bound
  | .assign _ e, h | .call _ e, h | .return _ (some e), h => by
    rw [stmt]
    refine (vets_exp ls (List.forall_mem_singleton.mp h)).bind fun _ he => .ok ?_
    exact List.forall_mem_singleton.mpr he
  | .increment _ e, h | .decrement _ e, h => by
    rw [stmt]
    refine (vets_step _ (List.forall_mem_singleton.mp h)).bind fun _ he => .ok ?_
    exact List.forall_mem_singleton.mpr he
  | .read _ e, h => by
    rw [stmt]
    refine (vets_address (List.forall_mem_singleton.mp h)).bind fun _ he => .ok ?_
    exact List.forall_mem_singleton.mpr he
  | .write _ e, h => by
    rw [stmt]
    refine (vets_exp ls (List.forall_mem_singleton.mp h)).bind fun _ he => ?_
    cases htype : e.info.type with
    | none => exact .error trivial
    | some => exact .ok (List.forall_mem_singleton.mpr he)
  | .ifThen _ e b, h | .while _ e b, h => by
    obtain ⟨he, hb⟩ := List.forall_mem_cons.mp h
    rw [stmt]
    refine (vets_exp _ he).bind fun cond hcond => ?_
    refine (vets_block fn cond.2 hb).bind fun _ hbody => .ok ?_
    exact List.forall_mem_cons.mpr ⟨hcond, hbody⟩
  | .ifElse _ e b₁ b₂, h => by
    obtain ⟨he, hb⟩ := List.forall_mem_cons.mp h
    obtain ⟨h₁, h₂⟩ := List.forall_mem_append.mp hb
    rw [stmt]
    refine (vets_exp _ he).bind fun cond hcond => ?_
    refine (vets_block fn cond.2 h₁).bind fun yes hyes => ?_
    refine (vets_block fn yes.2 h₂).bind fun _ hno => .ok ?_
    exact List.forall_mem_cons.mpr ⟨hcond, List.forall_mem_append.mpr ⟨hyes, hno⟩⟩
  | .return _ none, _ => .ok (List.forall_mem_nil _)
  | .unknown _, _ => .error trivial

theorem vets_block (fn : String) (ls : Labels) : ∀ {b : Block Stmt},
    (∀ e ∈ Stmt.blockOperands b, e.Owned) →
      Vets Fault.Foreseen (block fn ls b) fun _ =>
        ∀ e ∈ Stmt.blockOperands b, ∀ x ∈ e.idents, x.Bound
  | ⟨_, _, ss⟩, h => vets_stmts fn ls (show ∀ e ∈ Stmt.listOperands ss, e.Owned from h)

theorem vets_stmts (fn : String) (ls : Labels) : ∀ {ss : List Stmt},
    (∀ e ∈ Stmt.listOperands ss, e.Owned) →
      Vets Fault.Foreseen (stmts fn ls ss) fun _ =>
        ∀ e ∈ Stmt.listOperands ss, ∀ x ∈ e.idents, x.Bound
  | [], _ => .ok (List.forall_mem_nil _)
  | s :: ss, h => by
    obtain ⟨hs, hss⟩ := List.forall_mem_append.mp h
    rw [stmts]
    refine (vets_stmt fn ls hs).bind fun first hfirst => ?_
    refine (vets_stmts fn first.2 hss).bind fun _ hrest => .ok ?_
    exact List.forall_mem_append.mpr ⟨hfirst, hrest⟩

end

/-! ## Declarations -/

theorem vets_global {d : VarDecl} (h : d.Written) :
    Vets Fault.Foreseen (global d) fun _ => d.name.Bound := by
  refine (vets_storageOf d.name).bind fun (s, _) hname => ?_
  dsimp only
  rw [if_pos (h s hname)]
  exact .ok ⟨_, hname⟩

theorem vets_function {d : FnDecl} (h : ∀ e ∈ Stmt.blockOperands d.body, e.Owned) (frame : Frame)
    (ls : Labels) : Vets Fault.Foreseen (function d frame ls) fun _ =>
      ∀ e ∈ Stmt.blockOperands d.body, ∀ x ∈ e.idents, x.Bound :=
  (vets_block _ ls h).bind fun _ hbody => .ok hbody

/-- The code of a program is made only where the identifiers that it depends on are bound. -/
theorem vets_decls {ds : List Decl} (h : ∀ d ∈ ds, ∀ e ∈ d.operands, e.Owned)
    (hwritten : ∀ d ∈ ds, d.Written) (ls : Labels) (current : Option String) :
    Vets (fun stop => stop.fault.Foreseen) (decls ls current ds) fun _ =>
      ∀ d ∈ ds, ∀ x ∈ d.idents, x.Bound := by
  induction ds generalizing ls current with
  | nil => exact .ok (List.forall_mem_nil _)
  | cons d ds ih =>
    obtain ⟨hd, hds⟩ := List.forall_mem_cons.mp h
    obtain ⟨hdwritten, hdswritten⟩ := List.forall_mem_cons.mp hwritten
    have hrest (code : List Item) (ls : Labels) (current : Option String)
        (hcode : ∀ x ∈ d.idents, x.Bound) :
        Vets (fun stop => stop.fault.Foreseen)
          (decls ls current ds >>= fun r => .ok (code ++ r.1, r.2)) fun _ =>
            ∀ d' ∈ d :: ds, ∀ x ∈ d'.idents, x.Bound :=
      (ih hds hdswritten ls current).bind fun _ hrest =>
        .ok (List.forall_mem_cons.mpr ⟨hcode, hrest⟩)
    cases d with
    | var v =>
      have hglobal := vets_global (d := v) hdwritten
      rw [decls]
      split
      · exact .error trivial
      · next fault _ hfault => exact .error (hglobal.stop fault hfault)
      · next code _ hcode =>
        exact hrest code ls current (List.forall_mem_singleton.mpr (hglobal.post code hcode))
    | fn f =>
      rw [decls]
      split
      · exact .error trivial
      · next frame _ =>
        have hfunction := vets_function hd frame ls
        split
        · next fault hfault => exact .error (hfunction.stop fault hfault)
        · next code ls' hcode =>
          exact hrest code ls' none (List.forall_mem_flatMap.mpr (hfunction.post _ hcode))
    | struct => exact hrest [] ls current (List.forall_mem_nil _)
    | unknown => exact .error trivial

end Generate

/-! ## What the passes leave of fields -/

namespace Resolve

/-- A field is bound to a field of the struct that it was found in. -/
theorem owned_access (i : Info) {loc : Exp} (h : loc.isLocation = true) (hloc : loc.Owned)
    (f : Ident) :
    (access i loc f).value.Owned := by
  have hbad : (badAccess i loc f).Owned := ⟨fun ⟨_, hf⟩ => (nomatch hf), hloc⟩
  have hbase := base_ne_misplaced h
  unfold access fieldOf
  split
  · next d _ =>
    split
    · next field hfield => exact ⟨fun _ => ⟨d, field, rfl, hfield⟩, hloc⟩
    · exact hbad
  · exact hbad
  · exact hbad
  · next hmisplaced => exact absurd hmisplaced hbase

mutual

/-- Name resolution leaves the fields in an expression owned. -/
theorem owned_exp (env : Env) : ∀ {e : Exp}, e.Formed → (exp env e).value.Owned
  | .int .., _ | .string .., _ | .bool .., _ | .ident _, _ => trivial
  | .access i _ loc f, h => by
    rw [exp, value_andThen (h.2.1.total env).1]
    exact owned_access i ((isLocation_exp env loc).trans h.1) (owned_exp env h.2.1) f
  | .assign _ l r, h => by
    rw [exp, value_andThen (h.2.1.total env).1]
    exact ⟨owned_exp env h.2.1, owned_exp env h.2.2⟩
  | .binary _ _ l r, h => by
    rw [exp, value_andThen (h.2.1.total env).1]
    exact ⟨owned_exp env h.2.1, owned_exp env h.2.2⟩
  | .call _ f _ args, h => by
    rw [exp, value_andThen (f.fault_resolve env)]
    exact owned_exps env h.2
  | .neg _ e, h | .not _ e, h => owned_exp env (e := e) h

theorem owned_exps (env : Env) : ∀ {es : List Exp}, Exp.AllFormed es →
    Exp.ListOwned (exps env es).value
  | [], _ => trivial
  | e :: es, h => by
    rw [exps, value_andThen (h.1.total env).1]
    exact ⟨owned_exp env h.1, owned_exps env h.2⟩

end

mutual

theorem owned_stmt (env : Env) (frame : Frame) : ∀ {s : Stmt}, s.Formed →
    (stmt env frame s).fault = none → ∀ e ∈ (stmt env frame s).value.1.allOperands, e.Owned
  | .assign _ e, h, _ | .increment _ e, h, _ | .decrement _ e, h, _ | .read _ e, h, _
  | .call _ e, h, _ => List.forall_mem_singleton.mpr (owned_exp env h.2)
  | .write _ e, h, _ | .return _ (some e), h, _ =>
    List.forall_mem_singleton.mpr (owned_exp env (e := e) h)
  | .ifThen _ e b, h, hfault | .while _ e b, h, hfault => by
    rw [stmt, fault_andThen, fault_map] at hfault
    rw [stmt, value_andThen hfault.1]
    exact List.forall_mem_cons.mpr ⟨owned_exp env h.1, owned_block env.enter frame h.2 hfault.2⟩
  | .ifElse _ e b₁ b₂, h, hfault => by
    rw [stmt, fault_andThen, fault_andThen, fault_map] at hfault
    rw [stmt, value_andThen hfault.1, value_andThen hfault.2.1]
    exact List.forall_mem_cons.mpr ⟨owned_exp env h.1, List.forall_mem_append.mpr
      ⟨owned_block _ _ h.2.1 hfault.2.1, owned_block _ _ h.2.2 hfault.2.2⟩⟩
  | .return _ none, _, _ => List.forall_mem_nil _

theorem owned_block (env : Env) (frame : Frame) : ∀ {b : Block Stmt}, Stmt.BlockFormed b →
    (block env frame b).fault = none →
      ∀ e ∈ Stmt.blockOperands (block env frame b).value.1, e.Owned
  | ⟨ds, _, ss⟩, h, hfault => by
    rw [block, fault_andThen, fault_map] at hfault
    rw [block, value_andThen hfault.1]
    exact owned_stmts _ _ h.2 hfault.2

theorem owned_stmts (env : Env) (frame : Frame) : ∀ {ss : List Stmt}, Stmt.AllFormed ss →
    (stmts env frame ss).fault = none →
      ∀ e ∈ Stmt.listOperands (stmts env frame ss).value.1, e.Owned
  | [], _, _ => List.forall_mem_nil _
  | s :: ss, h, hfault => by
    rw [stmts, fault_andThen, fault_map] at hfault
    rw [stmts, value_andThen hfault.1]
    exact List.forall_mem_append.mpr
      ⟨owned_stmt env frame h.1 hfault.1, owned_stmts _ _ h.2 hfault.2⟩

end

theorem owned_decl (env : Env) {d : Decl} (h : d.Formed) (hfault : (decl env d).fault = none) :
    ∀ e ∈ (decl env d).value.1.operands, e.Owned := by
  cases d with
  | var d =>
    rw [Decl.Formed] at h
    rw [decl, h.role]
    exact List.forall_mem_nil _
  | fn d =>
    rw [Decl.Formed] at h
    obtain ⟨returns, hr, -⟩ := TypeNode.type_of_isWordType h.returns
    obtain ⟨hbody, hvalue⟩ := fnDecl_of_formed h hr hfault
    rw [decl, value_map, hvalue]
    exact owned_block _ _ h.body hbody
  | struct d => exact List.forall_mem_nil _
  | unknown => exact h.elim

theorem owned_decls {env : Env} {ds : List Decl} (h : ∀ d ∈ ds, d.Formed)
    (hfault : (decls env ds).fault = none) :
    ∀ d ∈ (decls env ds).value.1, ∀ e ∈ d.operands, e.Owned := by
  induction ds generalizing env with
  | nil => exact List.forall_mem_nil _
  | cons d ds ih =>
    obtain ⟨hd, hds⟩ := List.forall_mem_cons.mp h
    rw [decls, fault_andThen, fault_map] at hfault
    rw [decls, value_andThen hfault.1]
    exact List.forall_mem_cons.mpr ⟨owned_decl env hd hfault.1, ih hds hfault.2⟩

end Resolve

/-! ## What the passes leave of sizes -/

/-- The size of the struct can be written, if the symbol is one. -/
def Symbol.Written : Symbol → Prop
  | .struct d => Text.isWritten d.size = true
  | .storage _ | .function _ => True

namespace Resolve

theorem written_shape {env : Env} (henv : env.All Symbol.Written) {d : VarDecl}
    {sh : Shape StructDef} (h : (shape env d).value.2 = some sh) :
    Text.isWritten sh.size = true := by
  have hword : Text.isWritten ((wordSize : Nat) : Int) = true := by decide
  unfold shape at h
  split at h
  · cases h
    exact hword
  · cases h
    exact hword
  · cases h
  · split at h
    · next layout hfind =>
      cases h
      exact henv.outer? hfind
    · cases h
  · cases h

theorem written_declare {env : Env} (henv : env.All Symbol.Written) (taken : Option NameCause)
    (place : Shape StructDef → Place) {d : VarDecl} (h : d.type.Formed) :
    (declare env taken place d).value.1.Written := by
  intro s hs
  obtain ⟨hstorage, hplace⟩ := declare_value env taken place h
  rw [VarDecl.storage?, hs] at hstorage
  exact written_shape henv (hplace s hstorage.symm).2.2

/-- The sizes of structs that are accepted were logged. -/
theorem written_decl {env : Env} (henv : env.All Symbol.Written) : ∀ {d : Decl}, d.Formed →
    (decl env d).fault = none →
      (decl env d).value.1.Written ∧ Env.All Symbol.Written (decl env d).value.2
  | .var d, h, _ => by
    rw [Decl.Formed] at h
    rw [decl, h.role]
    exact ⟨written_declare henv _ _ h.type, henv.extend fun _ _ => trivial⟩
  | .fn d, h, hfault => by
    rw [Decl.Formed] at h
    obtain ⟨returns, hr, -⟩ := TypeNode.type_of_isWordType h.returns
    rw [decl, value_map, (fnDecl_of_formed h hr hfault).2]
    exact ⟨trivial, henv.name d.name trivial⟩
  | .struct d, h, hfault => by
    refine ⟨trivial, ?_⟩
    rw [decl, value_map]
    rw [decl, fault_map] at hfault
    unfold structDecl at hfault ⊢
    rw [fault_andThen, fault_andThen] at hfault
    obtain ⟨-, hfields, hlogged⟩ := hfault
    rw [value_andThen rfl, value_andThen hfields]
    dsimp only at hlogged ⊢
    split at hlogged
    · exact henv
    · rw [logged_of_fault hlogged]
      exact henv.insert (isWritten_of_logged hlogged)

theorem written_decls {env : Env} (henv : env.All Symbol.Written) {ds : List Decl}
    (h : ∀ d ∈ ds, d.Formed) (hfault : (decls env ds).fault = none) :
    ∀ d ∈ (decls env ds).value.1, d.Written := by
  induction ds generalizing env with
  | nil => exact List.forall_mem_nil _
  | cons d ds ih =>
    obtain ⟨hd, hds⟩ := List.forall_mem_cons.mp h
    rw [decls, fault_andThen, fault_map] at hfault
    obtain ⟨hwritten, henv'⟩ := written_decl henv hd hfault.1
    rw [decls, value_andThen hfault.1]
    exact List.forall_mem_cons.mpr ⟨hwritten, ih henv' hds hfault.2⟩

end Resolve

/-- What holds of the result of a sequence wherever it stopped. -/
theorem Outcome.holds_andThen {ρ φ α β : Type} {p : β → Prop} {o : Outcome ρ φ α}
    {stopped : α → β} {next : α → Outcome ρ φ β} (hstopped : p (stopped o.value))
    (hnext : p (next o.value).value) : p (o.andThen stopped next).value := by
  unfold andThen
  split
  · exact hstopped
  · exact hnext

namespace Check

theorem bound_ident (x : Ident) : (ident x).value.1.Bound ↔ x.Bound := by
  rw [Ident.Bound, Ident.Bound, (ident_keeps x).1]

mutual

/-- Type checking keeps the fields in an expression owned. -/
theorem owned_exp : ∀ {e : Exp}, e.Owned → (exp e).value.exp.Owned
  | .int .., _ | .string .., _ | .bool .., _ | .ident _, _ | .unknown _, _ => trivial
  | .access i k loc f, h => by
    have hloc := owned_exp h.2
    have hf : (ident f).value.1.Bound →
        ∃ d field, k.owner = some d ∧ d.field? (ident f).value.1.name = some field := by
      have hname : (ident f).value.1.form.name = f.form.name := by rw [form_ident]
      rw [bound_ident, show (ident f).value.1.name = f.name from hname]
      exact h.1
    rw [exp]
    refine holds_andThen (p := fun q : Part => q.exp.Owned) ⟨h.1, hloc⟩
      (holds_andThen (p := fun q : Part => q.exp.Owned) ⟨hf, hloc⟩ ⟨hf, hloc⟩)
  | .assign _ l r, h => by
    have hl := owned_exp h.1
    have hr := owned_exp h.2
    rw [exp]
    exact holds_andThen (p := fun q : Part => q.exp.Owned) ⟨hl, h.2⟩
      (holds_andThen (p := fun q : Part => q.exp.Owned) ⟨hl, hr⟩ ⟨hl, hr⟩)
  | .call _ f _ args, h => by
    have hargs := owned_exps (show Exp.ListOwned args from h)
    rw [exp]
    exact holds_andThen (p := fun q : Part => q.exp.Owned) h
      (holds_andThen (p := fun q : Part => q.exp.Owned) hargs hargs)
  | .neg _ e, h | .not _ e, h => by
    have he := owned_exp (e := e) h
    rw [exp]
    exact holds_andThen (p := fun q : Part => q.exp.Owned) he he
  | .binary _ op l r, h => by
    have hl := owned_exp h.1
    have hr := owned_exp h.2
    cases op with
    | other => exact h
    | _ =>
      rw [exp_binary (by decide)]
      exact holds_andThen (p := fun q : Part => q.exp.Owned) ⟨hl, h.2⟩
        (holds_andThen (p := fun q : Part => q.exp.Owned) ⟨hl, hr⟩ ⟨hl, hr⟩)

theorem owned_exps : ∀ {es : List Exp}, Exp.ListOwned es →
    Exp.ListOwned ((exps es).value.map Part.exp)
  | [], _ => trivial
  | e :: es, h => by
    have hrest : (es.map unchecked).map Part.exp = es := by
      rw [List.map_map]
      exact List.map_id es
    rw [exps]
    refine holds_andThen (p := fun qs : List Part => Exp.ListOwned (qs.map Part.exp)) ?_
      ⟨owned_exp h.1, owned_exps h.2⟩
    rw [List.map_cons, hrest]
    exact ⟨owned_exp h.1, h.2⟩

end

theorem owned_operand {e : Exp} (h : e.Owned) (complain : Part → List Report) :
    (operand e complain).value.Owned :=
  holds_andThen (owned_exp h) (owned_exp h)

mutual

theorem owned_stmt (ret : Ty) : ∀ {s : Stmt}, (∀ e ∈ s.allOperands, e.Owned) →
    ∀ e ∈ (stmt ret s).value.allOperands, e.Owned
  | .assign _ e, h | .increment _ e, h | .decrement _ e, h | .read _ e, h | .write _ e, h
  | .call _ e, h | .return _ (some e), h =>
    List.forall_mem_singleton.mpr (owned_operand (List.forall_mem_singleton.mp h) _)
  | .ifThen _ e b, h | .while _ e b, h => by
    obtain ⟨he, hb⟩ := List.forall_mem_cons.mp h
    have hcond := owned_operand he
    rw [stmt]
    exact holds_andThen (p := fun s : Stmt => ∀ e ∈ s.allOperands, e.Owned)
      (List.forall_mem_cons.mpr ⟨hcond _, hb⟩)
      (List.forall_mem_cons.mpr ⟨hcond _, owned_block ret hb⟩)
  | .ifElse _ e b₁ b₂, h => by
    obtain ⟨he, hb⟩ := List.forall_mem_cons.mp h
    obtain ⟨h₁, h₂⟩ := List.forall_mem_append.mp hb
    have hcond := owned_operand he
    have hyes := owned_block ret h₁
    rw [stmt]
    exact holds_andThen (p := fun s : Stmt => ∀ e ∈ s.allOperands, e.Owned)
      (List.forall_mem_cons.mpr ⟨hcond _, hb⟩)
      (holds_andThen (p := fun s : Stmt => ∀ e ∈ s.allOperands, e.Owned)
        (List.forall_mem_cons.mpr ⟨hcond _, List.forall_mem_append.mpr ⟨hyes, h₂⟩⟩)
        (List.forall_mem_cons.mpr ⟨hcond _,
          List.forall_mem_append.mpr ⟨hyes, owned_block ret h₂⟩⟩))
  | .return _ none, _ | .unknown _, _ => List.forall_mem_nil _

theorem owned_block (ret : Ty) : ∀ {b : Block Stmt}, (∀ e ∈ Stmt.blockOperands b, e.Owned) →
    ∀ e ∈ Stmt.blockOperands (block ret b).value, e.Owned
  | ⟨_, _, ss⟩, h => owned_stmts ret (show ∀ e ∈ Stmt.listOperands ss, e.Owned from h)

theorem owned_stmts (ret : Ty) : ∀ {ss : List Stmt}, (∀ e ∈ Stmt.listOperands ss, e.Owned) →
    ∀ e ∈ Stmt.listOperands (stmts ret ss).value, e.Owned
  | [], _ => List.forall_mem_nil _
  | s :: ss, h => by
    obtain ⟨hs, hss⟩ := List.forall_mem_append.mp h
    rw [stmts]
    exact holds_andThen (p := fun ss : List Stmt => ∀ e ∈ Stmt.listOperands ss, e.Owned)
      (List.forall_mem_append.mpr ⟨owned_stmt ret hs, hss⟩)
      (List.forall_mem_append.mpr ⟨owned_stmt ret hs, owned_stmts ret hss⟩)

end

theorem owned_decl {d : Decl} (h : ∀ e ∈ d.operands, e.Owned) :
    ∀ e ∈ (decl d).value.operands, e.Owned := by
  cases d with
  | fn d =>
    rw [decl, value_map, fnDecl]
    split
    · exact h
    · exact owned_block _ h
  | _ => exact List.forall_mem_nil _

/-- Type checking keeps the fields in a program owned. -/
theorem owned_decls {ds : List Decl} (h : ∀ d ∈ ds, ∀ e ∈ d.operands, e.Owned) :
    ∀ d ∈ (decls ds).value, ∀ e ∈ d.operands, e.Owned := by
  induction ds with
  | nil => exact List.forall_mem_nil _
  | cons d ds ih =>
    obtain ⟨hd, hds⟩ := List.forall_mem_cons.mp h
    rw [decls]
    exact holds_andThen (p := fun ds : List Decl => ∀ d ∈ ds, ∀ e ∈ d.operands, e.Owned)
      (List.forall_mem_cons.mpr ⟨owned_decl hd, hds⟩)
      (List.forall_mem_cons.mpr ⟨owned_decl hd, ih hds⟩)

theorem written_decl {d : Decl} (h : d.Written) : (decl d).value.Written := by
  cases d with
  | var => exact h
  | _ => exact trivial

/-- Type checking keeps the sizes of variables. -/
theorem written_decls {ds : List Decl} (h : ∀ d ∈ ds, d.Written) :
    ∀ d ∈ (decls ds).value, d.Written := by
  induction ds with
  | nil => exact List.forall_mem_nil _
  | cons d ds ih =>
    obtain ⟨hd, hds⟩ := List.forall_mem_cons.mp h
    rw [decls]
    exact holds_andThen (p := fun ds : List Decl => ∀ d ∈ ds, d.Written)
      (List.forall_mem_cons.mpr ⟨written_decl hd, hds⟩)
      (List.forall_mem_cons.mpr ⟨written_decl hd, ih hds⟩)

end Check

/-! ## Programs -/

namespace Program

/-- The program as name resolution leaves it, or type checking after it. -/
inductive Annotated (p : Program) : Program → Prop where
  | resolved : Annotated p p.resolve.program
  | checked (hasMain : Bool) : Annotated p (p.resolve.program.check hasMain).value

section Annotated

variable {p q : Program} (h : p.Formed) (hfault : p.resolve.fault = none) (hq : p.Annotated q)
include h hfault hq

theorem Formed.owned : ∀ d ∈ q.decls, ∀ e ∈ d.operands, e.Owned := by
  have hresolved := Resolve.owned_decls h (fault_resolve.symm.trans hfault)
  cases hq with
  | resolved => exact hresolved
  | checked hasMain =>
    exact holds_andThen (p := fun q : Program => ∀ d ∈ q.decls, ∀ e ∈ d.operands, e.Owned)
      (Check.owned_decls hresolved) (Check.owned_decls hresolved)

theorem Formed.written : ∀ d ∈ q.decls, d.Written := by
  have hempty : Env.All Symbol.Written (Scopes.enter []) :=
    List.forall_mem_singleton.mpr (List.forall_mem_nil _)
  have hresolved := Resolve.written_decls hempty h (fault_resolve.symm.trans hfault)
  cases hq with
  | resolved => exact hresolved
  | checked hasMain =>
    exact holds_andThen (p := fun q : Program => ∀ d ∈ q.decls, d.Written)
      (Check.written_decls hresolved) (Check.written_decls hresolved)

end Annotated

/-- A program with a name that its code depends on and that is bound to nothing has no code:
code generation stops at a fault that is foreseen, if name resolution has come to its end. -/
theorem generate_of_unbound {file : Option String} {source : String} {p q : Program}
    (hp : parse file source = .ok p) (hfault : p.resolve.fault = none) (hq : p.Annotated q)
    {d : Decl} (hd : d ∈ q.decls) {x : Ident} (hx : x ∈ d.idents) (hunbound : ¬ x.Bound)
    (o : CodeOptions) :
    ∃ fault, q.generate o = .error fault ∧ fault.Foreseen := by
  have hformed := parse_formed hp
  have hvets := Generate.vets_decls (hformed.owned hfault hq) (hformed.written hfault hq)
    { pool := o.pool } none
  unfold generate generateFrom
  cases hcode : Generate.decls { pool := o.pool } none q.decls with
  | error stop => exact ⟨stop.fault, rfl, hvets.stop stop hcode⟩
  | ok r => exact absurd (hvets.post r hcode d hd x hx) hunbound

set_option maxRecDepth 100000 in
/-- A field of a struct that has no such field, inside an argument of a call. -/
theorem generate_of_unbound_of_field :
    ∃ p d x fault,
      parse none "struct s { int x; }; int f(int n) { struct s g; return f(n + g.y); }" = .ok p ∧
      p.resolve.fault = none ∧ d ∈ p.resolve.program.decls ∧ x ∈ d.idents ∧ ¬ x.Bound ∧
      p.resolve.program.generate {} = .error fault ∧ fault.Foreseen := by
  obtain ⟨p, hp, hany⟩ : ∃ p, parse none
      "struct s { int x; }; int f(int n) { struct s g; return f(n + g.y); }" = .ok p ∧
      (p.resolve.fault.isNone &&
        p.resolve.program.decls.any fun d => d.idents.any (·.binding.symbol?.isNone)) = true :=
    exists_parse rfl (by decide +kernel)
  obtain ⟨hnone, hany⟩ := Bool.and_eq_true_iff.mp hany
  have hfault := Option.isNone_iff_eq_none.mp hnone
  obtain ⟨d, hd, hx⟩ := List.any_eq_true.mp hany
  obtain ⟨x, hx, hnone⟩ := List.any_eq_true.mp hx
  have hunbound : ¬ x.Bound := by
    rintro ⟨s, hs⟩
    rw [hs] at hnone
    cases hnone
  obtain ⟨fault, hstop⟩ := generate_of_unbound hp hfault .resolved hd hx hunbound {}
  exact ⟨p, d, x, fault, hp, hfault, hd, hx, hunbound, hstop⟩

end Program

end CMinusMinus
