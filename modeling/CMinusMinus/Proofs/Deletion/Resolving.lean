import CMinusMinus.Proofs.Deletion
import CMinusMinus.Proofs.Locality

/-!
# Name resolution without a rejected declaration

A rejected declaration of a variable leaves the scopes, the frame and the fields as they were
(`Resolve.declare_of_rejected`).  So without it name resolution makes of all the rest what it made
before, and reports the same but for what it reported of this declaration
(`Resolve.decl_without`).
-/

namespace CMinusMinus

open Outcome

namespace Outcome

variable {ρ φ α β σ : Type}

/-! ## Passes over lists -/

/-- A pass over the members of a list, each in the state that those before it leave. -/
def traverse (f : σ → α → Outcome ρ φ (α × σ)) (s : σ) : List α → Outcome ρ φ (List α × σ)
  | [] => .pure ([], s)
  | a :: as =>
    (f s a).andThen (fun (a, s) => (a :: as, s)) fun (a, s) =>
      (traverse f s as).map fun (as, s) => (a :: as, s)

theorem traverse_cons {f : σ → α → Outcome ρ φ (α × σ)} {s : σ} {a : α}
    (h : (f s a).fault = none) (as : List α) : traverse f s (a :: as) =
      let o := traverse f (f s a).value.2 as
      ⟨((f s a).value.1 :: o.value.1, o.value.2), (f s a).reports ++ o.reports, o.fault⟩ :=
  andThen_of_fault_none h _ _

/-- A pass over a list that came to its end came to one of its members in some state.  Another
member that leaves the same state makes no difference to the others, and without a member that
leaves the state as it was there is no difference to the others either. -/
theorem traverse_focus {f : σ → α → Outcome ρ φ (α × σ)} {s : σ} {as : List α} {i : Nat} {a : α}
    (h : (traverse f s as).fault = none) (hi : as[i]? = some a) :
    ∃ s₁ xs zs, (f s₁ a).fault = none ∧
      (traverse f s as).value.1[i]? = some (f s₁ a).value.1 ∧
      (traverse f s as).reports = xs ++ (f s₁ a).reports ++ zs ∧
      (∀ a' b rs, f s₁ a' = reporting (b, (f s₁ a).value.2) rs →
        traverse f s (as.set i a') =
          reporting ((traverse f s as).value.1.set i b, (traverse f s as).value.2)
            (xs ++ rs ++ zs)) ∧
      ((f s₁ a).value.2 = s₁ → traverse f s (as.eraseIdx i) =
        reporting ((traverse f s as).value.1.eraseIdx i, (traverse f s as).value.2)
          (xs ++ zs)) := by
  induction as generalizing i s with
  | nil => cases hi
  | cons a₀ as ih =>
    rw [traverse, fault_andThen, fault_map] at h
    obtain ⟨ha, has⟩ := h
    have has : (traverse f (f s a₀).value.2 as).fault = none := has
    rw [traverse_cons ha]
    dsimp only
    cases i with
    | zero =>
      obtain rfl : a₀ = a := Option.some.inj hi
      refine ⟨s, [], (traverse f (f s a₀).value.2 as).reports, ha, rfl, rfl, fun a' b rs h => ?_,
        fun hs => ?_⟩
      · rw [List.set_cons_zero, traverse_cons (by rw [h]; rfl), h]
        exact congrArg (Outcome.mk _ _) has
      · rw [hs] at has
        rw [List.eraseIdx_cons_zero, List.eraseIdx_cons_zero, hs]
        exact congrArg (Outcome.mk _ _) has
    | succ i =>
      obtain ⟨s₁, xs, zs, hfault, hvalue, hreports, hset, herase⟩ := ih has hi
      refine ⟨s₁, (f s a₀).reports ++ xs, zs, hfault, hvalue, ?_, fun a' b rs h => ?_, fun hs => ?_⟩
      · simp only [hreports, List.append_assoc]
      · rw [List.set_cons_succ, traverse_cons ha, hset a' b rs h]
        simp only [reporting, List.set_cons_succ, List.append_assoc]
      · rw [List.eraseIdx_cons_succ, traverse_cons ha, herase hs]
        simp only [reporting, List.eraseIdx_cons_succ, List.append_assoc]

end Outcome

namespace Resolve

/-! ## Declarations of variables -/

/-- A rejected declaration takes no storage. -/
theorem declare_of_rejected {env : Env} {taken : Option NameCause} {place : Shape StructDef → Place}
    {d : VarDecl} (h : (declare env taken place d).fault = none)
    (hname : (declare env taken place d).value.1.name.binding = .unresolved) :
    (declare env taken place d).value.2 = none := by
  unfold declare at h hname ⊢
  rw [fault_andThen] at h
  rw [value_andThen h.1] at hname ⊢
  dsimp only at hname ⊢
  split at hname
  · rfl
  · rfl
  · cases hname

/-- A declaration that name resolution stops at takes no storage. -/
theorem declare_of_fault {env : Env} {taken : Option NameCause} {place : Shape StructDef → Place}
    {d : VarDecl} (h : (declare env taken place d).fault ≠ none) :
    (declare env taken place d).value.2 = none := by
  unfold declare Outcome.andThen at h ⊢
  split at h
  · rfl
  · dsimp only at h
    split at h <;> exact absurd rfl h

theorem localVars_eq_traverse (env : Env) (frame : Frame) (ds : List VarDecl) :
    localVars env frame ds =
      traverse (fun (s : Env × Frame) d => localVar s.1 s.2 d) (env, frame) ds := by
  induction ds generalizing env frame with
  | nil => rfl
  | cons d ds ih =>
    rw [localVars, Outcome.traverse]
    simp only [ih]

/-- One field. -/
def fieldVar (env : Env) (before : List (Field StructDef) × Nat) (d : VarDecl) :
    Resolved (VarDecl × List (Field StructDef) × Nat) :=
  (declare env (takenField before.1 d.name.name) (fun _ => .unplaced) d).map
    fun (d, s) => (d, addField before.1 before.2 s)

theorem fields_eq_traverse (env : Env) (before : List (Field StructDef)) (size : Nat)
    (ds : List VarDecl) :
    fields env before size ds = traverse (fieldVar env) (before, size) ds := by
  induction ds generalizing before size with
  | nil => rfl
  | cons d ds ih =>
    have hstopped := @declare_of_fault env (takenField before d.name.name) (fun _ => .unplaced) d
    rw [fields, Outcome.traverse, fieldVar]
    simp only [ih]
    generalize declare env (takenField before d.name.name) (fun _ => .unplaced) d = o at hstopped
    unfold Outcome.andThen Outcome.map
    cases hfault : o.fault with
    | none => rfl
    | some => simp only [hstopped (by simp [hfault]), addField]

theorem stmts_eq_traverse (env : Env) (frame : Frame) (ss : List Stmt) :
    stmts env frame ss = traverse (stmt env) frame ss := by
  induction ss generalizing frame with
  | nil => rfl
  | cons s ss ih =>
    rw [stmts, Outcome.traverse]
    simp only [ih]

end Resolve

/-! ## What is left of a pass -/

/-- The second outcome came to its end with the value, and it has the reports of the first but for
some at the names of the declaration. -/
def Outcome.Sheds {α : Type} (v : VarDecl) (o : Resolved α) (a : α) (o' : Resolved α) : Prop :=
  ∃ ys rs, o' = reporting a rs ∧ Cut ys o.reports rs ∧ ∀ y ∈ ys, y.At (· ∈ v.leaves)

theorem Outcome.Sheds.map {α β : Type} {v : VarDecl} {o o' : Resolved α} {a : α}
    (h : Sheds v o a o') (f : α → β) : Sheds v (o.map f) (f a) (o'.map f) := by
  obtain ⟨ys, rs, rfl, hcut, hys⟩ := h
  exact ⟨ys, rs, rfl, hcut, hys⟩

/-- A pass over declarations without one that it rejects, if it goes on from a rejected one as if it
had not been there. -/
theorem Outcome.sheds_traverse {σ : Type} {f : σ → VarDecl → Resolved (VarDecl × σ)} {s : σ}
    {ds : List VarDecl} {i : Nat} {v w : VarDecl} (h : (Outcome.traverse f s ds).fault = none)
    (hv : ds[i]? = some v) (hw : (Outcome.traverse f s ds).value.1[i]? = some w)
    (hrejected : w.name.binding = .unresolved)
    (hstate : ∀ s, (f s v).fault = none → (f s v).value.1.name.binding = .unresolved →
      (f s v).value.2 = s)
    (hat : ∀ s, (f s v).Only (Report.At (· ∈ v.leaves))) :
    Sheds v (Outcome.traverse f s ds)
      ((Outcome.traverse f s ds).value.1.eraseIdx i, (Outcome.traverse f s ds).value.2)
      (Outcome.traverse f s (ds.eraseIdx i)) := by
  obtain ⟨s₁, xs, zs, hfault, hvalue, hreports, -, herase⟩ := traverse_focus h hv
  obtain rfl := Option.some.inj (hw.symm.trans hvalue)
  exact ⟨(f s₁ v).reports, xs ++ zs, herase (hstate s₁ hfault hrejected), ⟨xs, zs, hreports, rfl⟩,
    hat s₁⟩

namespace Resolve

variable {env : Env} {frame : Frame} {i : Nat} {v w : VarDecl}

theorem sheds_localVars {ds : List VarDecl} (h : (localVars env frame ds).fault = none)
    (hv : ds[i]? = some v) (hw : (localVars env frame ds).value.1[i]? = some w)
    (hrejected : w.name.binding = .unresolved) :
    Sheds v (localVars env frame ds)
      ((localVars env frame ds).value.1.eraseIdx i, (localVars env frame ds).value.2)
      (localVars env frame (ds.eraseIdx i)) := by
  rw [localVars_eq_traverse] at h hw ⊢
  rw [localVars_eq_traverse]
  refine sheds_traverse h hv hw hrejected (fun s hfault hname => ?_) fun s => ?_
  · rw [value_localVar] at hname ⊢
    have hnone := declare_of_rejected (fault_andThen.mp hfault).1 hname
    exact Prod.ext (congrArg (extend s.1) hnone) (congrArg (extendFrame s.2) hnone)
  · exact (at_declare _ _ _ fun _ hs => hs).andThen (fun _ => only_logged _ _) _

theorem sheds_fields {before : List (Field StructDef)} {size : Nat} {ds : List VarDecl}
    (h : (fields env before size ds).fault = none) (hv : ds[i]? = some v)
    (hw : (fields env before size ds).value.1[i]? = some w)
    (hrejected : w.name.binding = .unresolved) :
    Sheds v (fields env before size ds)
      ((fields env before size ds).value.1.eraseIdx i, (fields env before size ds).value.2)
      (fields env before size (ds.eraseIdx i)) := by
  rw [fields_eq_traverse] at h hw ⊢
  rw [fields_eq_traverse]
  refine sheds_traverse h hv hw hrejected (fun s hfault hname => ?_) fun s => ?_
  · exact congrArg (addField s.1 s.2) (declare_of_rejected hfault hname)
  · exact (at_declare _ _ _ fun _ hs => hs).map _

/-! ## Blocks -/

theorem stmt_ifElse {sp : Option Span} {e : Exp} {b₁ : Block Stmt} (he : (exp env e).fault = none)
    (hb₁ : (block env.enter frame b₁).fault = none) (b₂ : Block Stmt) :
    stmt env frame (.ifElse sp e b₁ b₂) =
      let o := block env.enter frame b₁
      let o' := block env.enter o.value.2 b₂
      ⟨(.ifElse sp (exp env e).value o.value.1 o'.value.1, o'.value.2),
        (exp env e).reports ++ (o.reports ++ o'.reports), o'.fault⟩ := by
  rw [stmt, andThen_of_fault_none he, andThen_of_fault_none hb₁]
  rfl

/-- Name resolution of a statement comes to its block with some frame, and the block matters to the
rest of the statement only through the frame that it leaves. -/
theorem stmt_focus {second : Bool} {s : Stmt} {b : Block Stmt}
    (h : (stmt env frame s).fault = none) (hb : s.body? second = some b) :
    ∃ inner xs zs, (block env.enter inner b).fault = none ∧
      (stmt env frame s).value.1.body? second = some (block env.enter inner b).value.1 ∧
      (stmt env frame s).reports = xs ++ (block env.enter inner b).reports ++ zs ∧
      ∀ b' r rs,
        block env.enter inner b' = reporting (r, (block env.enter inner b).value.2) rs →
        stmt env frame (s.withBody second b') =
          reporting ((stmt env frame s).value.1.withBody second r, (stmt env frame s).value.2)
            (xs ++ rs ++ zs) := by
  cases s with
  | ifThen sp e b | «while» sp e b =>
    cases second with
    | true => cases hb
    | false =>
      cases hb
      rw [stmt, fault_andThen, fault_map] at h
      obtain ⟨he, hblock⟩ := h
      refine ⟨frame, (exp env e).reports, [], hblock, ?_, ?_, fun b' r rs hb' => ?_⟩
      · rw [stmt, value_andThen he]
        rfl
      · rw [stmt, andThen_of_fault_none he, List.append_nil]
        rfl
      · rw [Stmt.withBody, stmt, stmt, andThen_of_fault_none he, andThen_of_fault_none he, hb',
          List.append_nil]
        rfl
  | ifElse sp e b₁ b₂ =>
    rw [stmt, fault_andThen, fault_andThen, fault_map] at h
    obtain ⟨he, hb₁, hb₂⟩ := h
    have hb₂ : (block env.enter (block env.enter frame b₁).value.2 b₂).fault = none := hb₂
    rw [stmt_ifElse he hb₁]
    dsimp only
    cases second with
    | false =>
      obtain rfl : b₁ = b := Option.some.inj hb
      refine ⟨frame, (exp env e).reports, _, hb₁, rfl, (List.append_assoc _ _ _).symm,
        fun b' r rs hb' => ?_⟩
      rw [Stmt.withBody, if_neg Bool.false_ne_true, stmt_ifElse he (by rw [hb']; rfl), hb']
      dsimp only [reporting]
      rw [hb₂, List.append_assoc]
      rfl
    | true =>
      obtain rfl : b₂ = b := Option.some.inj hb
      refine ⟨_, (exp env e).reports ++ (block env.enter frame b₁).reports, [], hb₂, rfl,
        by rw [List.append_nil, List.append_assoc], fun b' r rs hb' => ?_⟩
      rw [Stmt.withBody, if_pos rfl, stmt_ifElse he hb₁]
      dsimp only
      rw [hb', List.append_nil, List.append_assoc]
      rfl
  | _ => cases hb

/-- Statements in one of which a block is without a declaration. -/
theorem sheds_stmts {second : Bool} {ss : List Stmt} {s s₁ : Stmt} {b b₁ b' r : Block Stmt}
    (h : (stmts env frame ss).fault = none) (hs : ss[i]? = some s) (hb : s.body? second = some b)
    (hs₁ : (stmts env frame ss).value.1[i]? = some s₁) (hb₁ : s₁.body? second = some b₁)
    (hsheds : ∀ inner, (block env.enter inner b).fault = none →
      (block env.enter inner b).value.1 = b₁ →
      Sheds v (block env.enter inner b) (r, (block env.enter inner b).value.2)
        (block env.enter inner b')) :
    Sheds v (stmts env frame ss)
      ((stmts env frame ss).value.1.set i (s₁.withBody second r), (stmts env frame ss).value.2)
      (stmts env frame (ss.set i (s.withBody second b'))) := by
  rw [stmts_eq_traverse] at h hs₁ ⊢
  rw [stmts_eq_traverse]
  obtain ⟨frame₁, xs, zs, hfault, hvalue, hreports, hset, -⟩ := traverse_focus h hs
  obtain rfl := Option.some.inj (hs₁.symm.trans hvalue)
  obtain ⟨inner, xs', zs', hblock, hbody, hreports', hset'⟩ := stmt_focus hfault hb
  obtain rfl := Option.some.inj (hb₁.symm.trans hbody)
  obtain ⟨ys, rs, hrs, hcut, hys⟩ := hsheds inner hblock rfl
  refine ⟨ys, xs ++ (xs' ++ rs ++ zs') ++ zs, hset _ _ _ (hset' _ _ _ hrs), ?_, hys⟩
  rw [hreports, hreports']
  exact (((hcut.after xs').before zs').after xs).before zs

/-- A block without a declaration that is rejected. -/
theorem sheds_block {spot : Block.Spot} : ∀ {env : Env} {frame : Frame} {b b' r : Block Stmt},
    (block env frame b).fault = none → Stmt.blockWithout spot b = some (v, b') →
    Stmt.blockWithout spot (block env frame b).value.1 = some (w, r) →
    w.name.binding = .unresolved →
    Sheds v (block env frame b) (r, (block env frame b).value.2) (block env frame b') := by
  induction spot with
  | decl i =>
    rintro env frame ⟨ds, sp, ss⟩ b' r h hb hr hrejected
    obtain ⟨⟨_, ds'⟩, hds, heq⟩ := Option.map_eq_some_iff.mp hb
    cases heq
    obtain ⟨hv, rfl⟩ := VarDecls.without_eq_some hds
    rw [block, fault_andThen, fault_map] at h
    obtain ⟨hlocals, hstmts⟩ := h
    rw [block, andThen_of_fault_none hlocals] at hr ⊢
    obtain ⟨⟨_, rs⟩, hrs, heq⟩ := Option.map_eq_some_iff.mp hr
    cases heq
    obtain ⟨hw, rfl⟩ := VarDecls.without_eq_some hrs
    obtain ⟨ys, rs, hwithout, hcut, hys⟩ := sheds_localVars hlocals hv hw hrejected
    refine ⟨ys, rs ++ _, ?_, hcut.before _, hys⟩
    rw [block, hwithout, andThen_of_fault_none rfl]
    exact congrArg (Outcome.mk _ _) hstmts
  | inner i second spot ih =>
    rintro env frame ⟨ds, sp, ss⟩ b' r h hb hr hrejected
    obtain ⟨s, body, body', hs, hbody, hwithout, rfl⟩ := Stmt.blockWithout_inner hb
    rw [block, fault_andThen, fault_map] at h
    obtain ⟨hlocals, hstmts⟩ := h
    rw [block, andThen_of_fault_none hlocals] at hr ⊢
    obtain ⟨s₁, body₁, r', hs₁, hbody₁, hwithout₁, rfl⟩ := Stmt.blockWithout_inner hr
    obtain ⟨ys, rs, hrs, hcut, hys⟩ := sheds_stmts hstmts hs hbody hs₁ hbody₁
      fun inner hblock heq => ih hblock hwithout (heq ▸ hwithout₁) hrejected
    refine ⟨ys, (localVars env frame ds.items).reports ++ rs, ?_, hcut.after _, hys⟩
    rw [block, andThen_of_fault_none hlocals]
    dsimp only
    rw [hrs]
    rfl

/-! ## Declarations at the top -/

/-- A function without a local that is rejected. -/
theorem sheds_fnDecl {spot : Block.Spot} {f : FnDecl} {body r : Block Stmt}
    (h : (fnDecl env f).fault = none) (hbody : Stmt.blockWithout spot f.body = some (v, body))
    (hr : Stmt.blockWithout spot (fnDecl env f).value.1.body = some (w, r))
    (hrejected : w.name.binding = .unresolved) :
    Sheds v (fnDecl env f) ({ (fnDecl env f).value.1 with body := r }, (fnDecl env f).value.2)
      (fnDecl env { f with body }) := by
  unfold fnDecl at h hr ⊢
  cases htype : f.returns.type with
  | error =>
    rw [htype] at h
    cases h
  | ok returns =>
    have hsignature : signature { f with body } returns = signature f returns := rfl
    simp only [htype, hsignature, fault_andThen] at h hr ⊢
    obtain ⟨hname, hformals, hblock, -⟩ := h
    rw [andThen_of_fault_none hname, andThen_of_fault_none hformals,
      andThen_of_fault_none hblock] at hr ⊢
    obtain ⟨ys, rs, hrs, hcut, hys⟩ := sheds_block hblock hbody hr hrejected
    refine ⟨ys, _, ?_, ((hcut.before []).after _).after _, hys⟩
    rw [andThen_of_fault_none hname, andThen_of_fault_none hformals, hrs]
    rfl

/-- A struct without a field that is rejected. -/
theorem sheds_structDecl {s : StructDecl} {fields r : VarDecls}
    (h : (structDecl env s).fault = none) (hfields : s.fields.without i = some (v, fields))
    (hr : (structDecl env s).value.1.fields.without i = some (w, r))
    (hrejected : w.name.binding = .unresolved) :
    Sheds v (structDecl env s)
      ({ (structDecl env s).value.1 with fields := r }, (structDecl env s).value.2)
      (structDecl env { s with fields }) := by
  obtain ⟨hv, rfl⟩ := VarDecls.without_eq_some hfields
  unfold structDecl at h hr ⊢
  dsimp only at h hr ⊢
  generalize taken env s.name.name = cause at h hr ⊢
  rw [fault_andThen, fault_andThen] at h
  obtain ⟨-, hfault, hlogged⟩ := h
  rw [andThen_of_fault_none rfl, andThen_of_fault_none hfault] at hr ⊢
  cases cause with
  | none =>
    -- The struct has the same size without the field, so the log shows the same.
    have hwritten := isWritten_of_logged hlogged
    dsimp only at hr ⊢
    rw [logged_of_isWritten hwritten] at hr ⊢
    obtain ⟨hw, rfl⟩ := VarDecls.without_eq_some hr
    obtain ⟨ys, rs, hrs, hcut, hys⟩ := sheds_fields hfault hv hw hrejected
    refine ⟨ys, _, ?_, (hcut.before []).after _, hys⟩
    rw [andThen_of_fault_none rfl, hrs, andThen_of_fault_none rfl]
    dsimp only [reporting]
    rw [logged_of_isWritten hwritten]
    rfl
  | some cause =>
    obtain ⟨hw, rfl⟩ := VarDecls.without_eq_some hr
    obtain ⟨ys, rs, hrs, hcut, hys⟩ := sheds_fields hfault hv hw hrejected
    refine ⟨ys, _, ?_, (hcut.before []).after _, hys⟩
    rw [andThen_of_fault_none rfl, hrs]
    rfl

/-- A declaration at the top without a declaration in it that is rejected. -/
theorem sheds_decl {spot : Decl.Spot} {d d' r : Decl} (h : (decl env d).fault = none)
    (hd : d.without spot = some (v, d')) (hr : (decl env d).value.1.without spot = some (w, r))
    (hrejected : w.name.binding = .unresolved) :
    Sheds v (decl env d) (r, (decl env d).value.2) (decl env d') := by
  rcases Decl.without_eq_some hd with
    ⟨i, s, fields, rfl, rfl, hfields, rfl⟩ | ⟨spot, f, body, rfl, rfl, hbody, rfl⟩
  · obtain ⟨⟨_, rs⟩, hrs, heq⟩ := Option.map_eq_some_iff.mp hr
    cases heq
    exact (sheds_structDecl h hfields hrs hrejected).map fun r => (Decl.struct r.1, r.2)
  · obtain ⟨⟨_, rs⟩, hrs, heq⟩ := Option.map_eq_some_iff.mp hr
    cases heq
    exact (sheds_fnDecl h hbody hrs hrejected).map fun r => (Decl.fn r.1, r.2)

/-- A variable at the top that is rejected leaves the scopes as they were. -/
theorem decl_of_rejected {d : Decl} (hd : d.var? = some v) (h : (decl env d).fault = none)
    (hw : (decl env d).value.1.var? = some w) (hrejected : w.name.binding = .unresolved) :
    (decl env d).value.2 = env ∧ (decl env d).Only (Report.At (· ∈ v.leaves)) := by
  cases d with
  | var d =>
    obtain rfl : d = v := Option.some.inj hd
    refine ⟨?_, at_decl env fun _ hs => hs⟩
    rw [decl] at h hw ⊢
    split at h
    · cases h
    · next hrole =>
      rw [hrole] at hw
      obtain rfl := Option.some.inj hw
      exact congrArg (extend env) (declare_of_rejected h hrejected)
  | _ => cases hd

end Resolve

end CMinusMinus
