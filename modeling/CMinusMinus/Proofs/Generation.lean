import CMinusMinus.Proofs.Generation.Parts
import CMinusMinus.Proofs.Typing.Expressions

/-!
# Code of typed programs

Code generation comes to its end on a typed program (`generate_of_typed`).  It asks of the tree
what the judgements say: that the variable of a location has a place, that the owner of a field
is known, that a value is a word, and that an operand of `cout` has its type recorded.
-/

namespace CMinusMinus

namespace Generate

/-! ## Addresses -/

/-- The path of a location leads to the variable it lies in. -/
theorem path_of_locates {env : Env} {e : Exp} {s : Storage} {n : Nat} {sh : Shape StructDef}
    (h : Locates env e s n sh) :
    ∃ x, path e = .ok (x, n) ∧ env.find? x.name = some (.storage s) ∧
      x.binding = .bound (.storage s) := by
  induction h with
  | ident hfind hbound => exact ⟨_, rfl, hfind, hbound⟩
  | access hloc hfield hbound ih =>
    obtain ⟨x, hpath, hx⟩ := ih
    refine ⟨x, ?_, hx⟩
    rw [path, symbolOf, hbound]
    simp only [hpath, bind, Except.bind, Option.bind, hfield]

theorem storageOf_of_bound {x : Ident} {s : Storage} {operand : Operand}
    (hx : x.binding = .bound (.storage s)) (hs : placeOperand? s = some operand) :
    storageOf x = .ok (s, operand) := by
  rw [storageOf, symbolOf, hx]
  simp only [bind, Except.bind, hs]

theorem placeOperand_of_placed {s : Storage} (h : s.place ≠ .unplaced) :
    ∃ operand, placeOperand? s = some operand := by
  unfold placeOperand?
  cases hs : s.place with
  | static => exact ⟨_, rfl⟩
  | frame offset => exact ⟨_, rfl⟩
  | unplaced => exact absurd hs h

/-- The code of the address of a location. -/
theorem address_of_locates {env : Env} (henv : env.Sound) {e : Exp} {s : Storage} {n : Nat}
    {sh : Shape StructDef} (h : Locates env e s n sh) :
    ∃ operand comment, placeOperand? s = some operand ∧
      address e = .ok (Asm.loadAddress .t0 operand comment
        ++ if n = 0 then [] else Asm.op3 .addu .t0 .t0 (.imm n)) := by
  obtain ⟨x, hpath, -, hx⟩ := path_of_locates h
  obtain ⟨operand, hoperand⟩ := placeOperand_of_placed (h.root henv).1
  refine ⟨operand, some ("&" ++ x.name), hoperand, ?_⟩
  simp only [address, hpath, storageOf_of_bound hx hoperand, bind, Except.bind]

/-! ## Expressions -/

theorem combine_of_types {op : BinOp} {s t : Ty} (h : op.Types s t) (span : Option Span)
    (ls : Labels) : ∃ r, combine op span ls = .ok r := by
  cases op with
  | other => exact h.elim
  | _ => exact ⟨_, rfl⟩

/-- The code of a location that holds a word. -/
theorem exp_of_locates {env : Env} (henv : env.Sound) {e : Exp} {s : Storage} {n : Nat} {t : Ty}
    (h : Locates env e s n (.scalar t)) (ls : Labels) : ∃ r, exp ls e = .ok r := by
  cases e with
  | ident x =>
    obtain ⟨operand, hoperand⟩ := placeOperand_of_placed (h.root henv).1
    generalize hsh : Shape.scalar t = sh at h
    cases h with
    | ident hfind hbound =>
      have hload := load_eq_ok.mpr
        ⟨_, operand, t, storageOf_of_bound hbound hoperand, hsh.symm, rfl⟩
      exact ⟨_, exp_eq_ok.mpr (.ident hload)⟩
  | access i k loc f =>
    obtain ⟨operand, comment, -, haddress⟩ := address_of_locates henv h
    exact ⟨_, exp_eq_ok.mpr (.access haddress)⟩
  | _ => cases h.isLocation

mutual

/-- Every typed expression has code. -/
theorem exp_of_hasType {env : Env} (henv : env.Sound) : ∀ {e : Exp} {t : Ty}, HasType env e t →
    ∀ ls, ∃ r, exp ls e = .ok r
  | _, _, .int, _ | _, _, .bool, _ | _, _, .string, _ => ⟨_, rfl⟩
  | _, _, .location h _, ls => exp_of_locates henv h ls
  | _, _, .assign hl _ hr, ls => by
    obtain ⟨⟨code, ls'⟩, hcode⟩ := exp_of_hasType henv hr ls
    obtain ⟨operand, comment, -, haddress⟩ := address_of_locates henv hl
    exact ⟨_, exp_eq_ok.mpr (.assign hcode haddress)⟩
  | _, _, .call _ hbound hargs, ls => by
    obtain ⟨⟨code, ls'⟩, hcode⟩ := exps_of_haveTypes henv hargs ls
    exact ⟨_, exp_eq_ok.mpr (.call hcode (by rw [symbolOf, hbound]))⟩
  | _, _, .neg h, ls => by
    obtain ⟨⟨code, ls'⟩, hcode⟩ := exp_of_hasType henv h ls
    exact ⟨_, exp_eq_ok.mpr (.neg hcode)⟩
  | _, _, .not h, ls => by
    obtain ⟨⟨code, ls'⟩, hcode⟩ := exp_of_hasType henv h ls
    exact ⟨_, exp_eq_ok.mpr (.not hcode)⟩
  | .binary i op _ _, _, .binary hop hl hr, ls => by
    obtain ⟨⟨right, ls₁⟩, hright⟩ := exp_of_hasType henv hr ls
    obtain ⟨⟨left, ls₂⟩, hleft⟩ := exp_of_hasType henv hl ls₁
    obtain ⟨⟨result, ls₃⟩, hresult⟩ := combine_of_types hop i.span ls₂
    exact ⟨_, exp_eq_ok.mpr (.binary hright hleft hresult)⟩

/-- Typed expressions have code, one after another. -/
theorem exps_of_haveTypes {env : Env} (henv : env.Sound) : ∀ {es : List Exp} {ts : List Ty},
    HaveTypes env es ts → ∀ ls, ∃ r, exps ls es = .ok r
  | _, _, .nil, _ => ⟨_, rfl⟩
  | _, _, .cons h hs, ls => by
    obtain ⟨⟨first, ls₁⟩, hfirst⟩ := exp_of_hasType henv h ls
    obtain ⟨⟨rest, ls₂⟩, hrest⟩ := exps_of_haveTypes henv hs ls₁
    exact ⟨_, exps_cons_eq_ok.mpr ⟨_, _, _, hfirst, hrest, rfl⟩⟩

end

end Generate

/-! ## Scopes along the tree -/

namespace Introduces

variable {env : Env} {d : VarDecl} {s : Storage}

theorem sound (h : Introduces env d s) (hplace : s.place ≠ .unplaced) (henv : env.Sound) :
    Env.Sound (env.insert s.name (.storage s)) :=
  henv.insert (.storage rfl hplace h.laid)

end Introduces

theorem LocalsTyped.sound {env env' : Env} {frame frame' : Frame} {ds : List VarDecl}
    (h : LocalsTyped env frame ds env' frame') (henv : env.Sound) : env'.Sound := by
  induction h with
  | nil => exact henv
  | cons hd hplace _ ih => exact ih (hd.sound (Storage.placed_of_frame hplace) henv)

theorem FormalsTyped.sound {env env' : Env} {frame frame' : Frame} {ds : List VarDecl}
    {ts : List Ty} (h : FormalsTyped env frame ds ts env' frame') (henv : env.Sound) :
    env'.Sound := by
  induction h with
  | nil => exact henv
  | cons hd hplace _ _ _ ih => exact ih (hd.sound (Storage.placed_of_frame hplace) henv)

namespace Generate

/-! ## Statements -/

theorem step_of_locates {env : Env} (henv : env.Sound) {e : Exp} {s : Storage} {n : Nat}
    {sh : Shape StructDef} (h : Locates env e s n sh) (op : Opcode) :
    ∃ code, step op e = .ok code := by
  obtain ⟨operand, comment, -, haddress⟩ := address_of_locates henv h
  exact ⟨_, step_eq_ok.mpr ⟨_, haddress, rfl⟩⟩

mutual

/-- Every typed statement has code. -/
theorem stmt_of_typed (fn : String) {ret : Ty} : ∀ {env : Env} {frame frame' : Frame} {s : Stmt},
    StmtTyped ret env frame s frame' → env.Sound → ∀ ls, ∃ r, stmt fn ls s = .ok r
  | _, _, _, _, .assign h, henv, ls => by
    obtain ⟨⟨code, ls'⟩, hcode⟩ := exp_of_hasType henv h ls
    exact ⟨_, stmt_eq_ok.mpr (.assign hcode)⟩
  | _, _, _, _, .increment h, henv, ls => by
    obtain ⟨code, hcode⟩ := step_of_locates henv h .addu
    exact ⟨_, stmt_eq_ok.mpr (.increment hcode)⟩
  | _, _, _, _, .decrement h, henv, ls => by
    obtain ⟨code, hcode⟩ := step_of_locates henv h .subu
    exact ⟨_, stmt_eq_ok.mpr (.decrement hcode)⟩
  | _, _, _, _, .read h _, henv, ls => by
    obtain ⟨operand, comment, -, haddress⟩ := address_of_locates henv h
    exact ⟨_, stmt_eq_ok.mpr (.read haddress)⟩
  | _, _, _, _, .write h _ htype, henv, ls => by
    obtain ⟨⟨code, ls'⟩, hcode⟩ := exp_of_hasType henv h ls
    exact ⟨_, stmt_eq_ok.mpr (.write hcode htype)⟩
  | _, _, _, _, .ifThen hcond hbody, henv, ls => by
    obtain ⟨⟨cond, ls₁⟩, hcond⟩ := exp_of_hasType henv hcond ls.fresh.2
    obtain ⟨⟨body, ls₂⟩, hbody⟩ := block_of_typed fn hbody henv.enter ls₁
    exact ⟨_, stmt_eq_ok.mpr (.ifThen hcond hbody)⟩
  | _, _, _, _, .ifElse hcond hyes hno, henv, ls => by
    obtain ⟨⟨cond, ls₁⟩, hcond⟩ := exp_of_hasType henv hcond ls.fresh.2.fresh.2
    obtain ⟨⟨yes, ls₂⟩, hyes⟩ := block_of_typed fn hyes henv.enter ls₁
    obtain ⟨⟨no, ls₃⟩, hno⟩ := block_of_typed fn hno henv.enter ls₂
    exact ⟨_, stmt_eq_ok.mpr (.ifElse hcond hyes hno)⟩
  | _, _, _, _, .while hcond hbody, henv, ls => by
    obtain ⟨⟨cond, ls₁⟩, hcond⟩ := exp_of_hasType henv hcond ls.fresh.2.fresh.2
    obtain ⟨⟨body, ls₂⟩, hbody⟩ := block_of_typed fn hbody henv.enter ls₁
    exact ⟨_, stmt_eq_ok.mpr (.while hcond hbody)⟩
  | _, _, _, _, .call h, henv, ls => by
    obtain ⟨⟨code, ls'⟩, hcode⟩ := exp_of_hasType henv h ls
    exact ⟨_, stmt_eq_ok.mpr (.call hcode)⟩
  | _, _, _, _, .exit _, _, _ => ⟨_, rfl⟩
  | _, _, _, _, .return _ h, henv, ls => by
    obtain ⟨⟨code, ls'⟩, hcode⟩ := exp_of_hasType henv h ls
    exact ⟨_, stmt_eq_ok.mpr (.return hcode)⟩

theorem block_of_typed (fn : String) {ret : Ty} : ∀ {env : Env} {frame frame' : Frame}
    {b : Block Stmt}, BlockTyped ret env frame b frame' → env.Sound →
    ∀ ls, ∃ r, block fn ls b = .ok r
  | _, _, _, _, .intro hds hss, henv, ls => by
    rw [block]
    exact stmts_of_typed fn hss (hds.sound henv) ls

theorem stmts_of_typed (fn : String) {ret : Ty} : ∀ {env : Env} {frame frame' : Frame}
    {ss : List Stmt}, StmtsTyped ret env frame ss frame' → env.Sound →
    ∀ ls, ∃ r, stmts fn ls ss = .ok r
  | _, _, _, _, .nil, _, _ => ⟨_, rfl⟩
  | _, _, _, _, .cons hs hss, henv, ls => by
    obtain ⟨⟨first, ls₁⟩, hfirst⟩ := stmt_of_typed fn hs henv ls
    obtain ⟨⟨rest, ls₂⟩, hrest⟩ := stmts_of_typed fn hss henv ls₁
    exact ⟨_, stmts_cons_eq_ok.mpr ⟨_, _, _, hfirst, hrest, rfl⟩⟩

end

end Generate

/-! ## Programs -/

theorem FnTyped.signature_sound {env : Env} {d : FnDecl} {sig : Signature}
    (h : FnTyped env d sig) : Symbol.Sound sig.name (.function sig) := by
  obtain ⟨_, _, _, hformals, -⟩ := h.body
  have hwords : ∀ {env env' : Env} {frame frame' : Frame} {ds : List VarDecl} {ts : List Ty},
      FormalsTyped env frame ds ts env' frame' → ts.length = ds.length ∧ ∀ t ∈ ts, t.IsWord := by
    intro env env' frame frame' ds ts hf
    induction hf with
    | nil => exact ⟨rfl, by intro t ht; cases ht⟩
    | cons _ _ _ ht _ ih => exact ⟨congrArg Nat.succ ih.1, List.forall_mem_cons.mpr ⟨ht, ih.2⟩⟩
  obtain ⟨hlength, hall⟩ := hwords hformals
  exact .function rfl (hlength.trans h.arity.symm) hall h.result

namespace Generate

theorem function_of_typed {env : Env} (henv : env.Sound) {d : FnDecl} {sig : Signature}
    (h : FnTyped env d sig) (ls : Labels) :
    ∃ frame, d.frame = some frame ∧ ∃ r, function d frame ls = .ok r := by
  obtain ⟨env', frame, frame', hformals, hbody, hframe⟩ := h.body
  obtain ⟨⟨body, ls'⟩, hcode⟩ := block_of_typed d.name.name hbody (hformals.sound henv.enter) ls
  exact ⟨frame', hframe, _, function_eq_ok.mpr ⟨body, hcode, rfl⟩⟩

theorem decls_of_typed {env env' : Env} {ds : List Decl} (h : DeclsTyped env ds env')
    (henv : env.Sound) (ls : Labels) (current : Option String) :
    ∃ r, decls ls current ds = .ok r := by
  induction h generalizing ls current with
  | nil => exact ⟨_, rfl⟩
  | var hrole _ hd hplace hwritten _ ih =>
    have hplaced := Storage.placed_of_static hplace
    obtain ⟨operand, hoperand⟩ := placeOperand_of_placed hplaced
    obtain ⟨⟨items, current'⟩, hitems⟩ := ih (hd.sound hplaced henv) ls current
    have hstorage := storageOf_of_bound hd.binding hoperand
    have hglobal := global_eq_ok.mpr ⟨_, operand, hstorage, hwritten, rfl⟩
    rw [decls, hrole, hglobal]
    exact exists_bind rfl (exists_bind hitems ⟨_, rfl⟩)
  | fn _ hd _ ih =>
    have henv' := henv.insert (FnTyped.signature_sound hd)
    obtain ⟨frame, hframe, ⟨code, ls'⟩, hcode⟩ := function_of_typed henv' hd ls
    obtain ⟨⟨items, current'⟩, hitems⟩ := ih henv' ls' none
    rw [decls, hframe]
    simp only [hcode]
    exact exists_bind rfl (exists_bind hitems ⟨_, rfl⟩)
  | struct _ hlaid hwritten _ ih =>
    obtain ⟨⟨items, current'⟩, hitems⟩ := ih (henv.insert (.struct hlaid hwritten)) ls current
    rw [decls]
    exact exists_bind rfl (exists_bind hitems ⟨_, rfl⟩)

end Generate

end CMinusMinus
