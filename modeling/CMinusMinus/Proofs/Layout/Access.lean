import Mathlib.Data.List.Pairwise
import CMinusMinus.Proofs.Generation
import CMinusMinus.Proofs.Layout
import CMinusMinus.Proofs.Layout.Words
import CMinusMinus.Proofs.Typing.Functions

/-!
# Accesses to storage

Every location that a typed function reads or writes is a word of storage that is either in the
frame of the function or at the top of the program (`FnTyped.hosted`).
-/

namespace CMinusMinus

/-! ## Locations of a tree -/

namespace Exp

mutual

/-- The locations that an expression reads or writes. -/
def locations : Exp → List Exp
  | .ident x => [.ident x]
  | .access i k loc f => [.access i k loc f]
  | .assign _ l r => l.locations ++ r.locations
  | .call _ _ _ args => listLocations args
  | .neg _ e | .not _ e => e.locations
  | .binary _ _ l r => l.locations ++ r.locations
  | .int .. | .string .. | .bool .. | .unknown _ => []
termination_by structural e => e

/-- The locations that expressions read or write. -/
def listLocations : List Exp → List Exp
  | [] => []
  | e :: es => e.locations ++ listLocations es
termination_by structural es => es

end

theorem locations_of_isLocation {e : Exp} (h : e.isLocation = true) : e.locations = [e] := by
  cases e with
  | ident | access => rfl
  | _ => cases h

end Exp

namespace Stmt

mutual

/-- The locations that a statement reads or writes. -/
def locations : Stmt → List Exp
  | .assign _ e | .increment _ e | .decrement _ e | .read _ e | .write _ e | .call _ e
  | .return _ (some e) => e.locations
  | .ifThen _ e b | .while _ e b => e.locations ++ blockLocations b
  | .ifElse _ e b₁ b₂ => e.locations ++ (blockLocations b₁ ++ blockLocations b₂)
  | .return _ none | .unknown _ => []
termination_by structural s => s

/-- The locations that the statements of a block read or write. -/
def blockLocations : Block Stmt → List Exp
  | ⟨_, _, ss⟩ => listLocations ss
termination_by structural b => b

/-- The locations that statements read or write. -/
def listLocations : List Stmt → List Exp
  | [] => []
  | s :: ss => s.locations ++ listLocations ss
termination_by structural ss => ss

end

end Stmt

/-- The locations that a function reads or writes. -/
def FnDecl.locations (d : FnDecl) : List Exp := Stmt.blockLocations d.body

/-! ## Frames of typed functions -/

theorem Introduces.storage? {env : Env} {d : VarDecl} {s : Storage} (h : Introduces env d s) :
    d.storage? = some s := by
  rw [VarDecl.storage?, h.binding]

theorem Introduces.filterMap {env : Env} {d : VarDecl} {s : Storage} (h : Introduces env d s)
    (ds : List VarDecl) :
    (d :: ds).filterMap VarDecl.storage? = s :: ds.filterMap VarDecl.storage? :=
  List.filterMap_cons_some h.storage?

theorem LocalsTyped.stacked {env env' : Env} {frame frame' : Frame} {ds : List VarDecl}
    (h : LocalsTyped env frame ds env' frame') :
    Stacked frame (ds.filterMap VarDecl.storage?) frame' := by
  induction h with
  | nil => exact .nil _
  | cons hd hplace _ ih =>
    rw [hd.filterMap]
    exact .cons hplace ih

theorem FormalsTyped.placed {env env' : Env} {frame frame' : Frame} {ds : List VarDecl}
    {ts : List Ty} (h : FormalsTyped env frame ds ts env' frame') :
    frame' = { frame with formals := frame.formals + wordSize * ds.length } ∧
      ∀ (i : Nat) (d : VarDecl) (s : Storage), ds[i]? = some d → d.storage? = some s →
        s.place = .frame ((frame.formals + wordSize * i : Nat) : Int) ∧
          s.shape.size = wordSize := by
  induction h with
  | nil => exact ⟨rfl, by intro i d s hd; cases hd⟩
  | @cons _ _ frame _ _ _ s _ _ hd hplace hshape _ _ ih =>
    obtain ⟨hframe, htail⟩ := ih
    refine ⟨?_, fun i d' s' hd' hs' => ?_⟩
    · rw [hframe]
      simp only [Frame.addFormal, List.length_cons, Nat.mul_succ]
      congr 1
      omega
    · cases i with
      | zero =>
        cases hd'
        cases hd.storage?.symm.trans hs'
        refine ⟨hplace, ?_⟩
        rw [hshape]
        rfl
      | succ i =>
        obtain ⟨hp, hsize⟩ := htail i d' s' hd' hs'
        refine ⟨hp.trans ?_, hsize⟩
        rw [Frame.formals_addFormal, Nat.mul_succ]
        congr 2
        omega

mutual

theorem StmtTyped.stacked {ret : Ty} : ∀ {env : Env} {frame frame' : Frame} {s : Stmt},
    StmtTyped ret env frame s frame' →
      Stacked frame (s.locals.filterMap VarDecl.storage?) frame'
  | _, _, _, _, .assign _ | _, _, _, _, .increment _ | _, _, _, _, .decrement _
  | _, _, _, _, .read _ _ | _, _, _, _, .write _ _ _ | _, _, _, _, .call _
  | _, _, _, _, .exit _ | _, _, _, _, .return _ _ => .nil _
  | _, _, _, _, .ifThen _ hb | _, _, _, _, .while _ hb => hb.stacked
  | _, _, _, _, .ifElse _ hyes hno => by
    rw [Stmt.locals, List.filterMap_append]
    exact hyes.stacked.append hno.stacked

theorem BlockTyped.stacked {ret : Ty} : ∀ {env : Env} {frame frame' : Frame} {b : Block Stmt},
    BlockTyped ret env frame b frame' →
      Stacked frame ((Stmt.blockLocals b).filterMap VarDecl.storage?) frame'
  | _, _, _, _, .intro hds hss => by
    rw [Stmt.blockLocals, List.filterMap_append]
    exact hds.stacked.append hss.stacked

theorem StmtsTyped.stacked {ret : Ty} : ∀ {env : Env} {frame frame' : Frame} {ss : List Stmt},
    StmtsTyped ret env frame ss frame' →
      Stacked frame ((Stmt.listLocals ss).filterMap VarDecl.storage?) frame'
  | _, _, _, _, .nil => .nil _
  | _, _, _, _, .cons hs hss => by
    rw [Stmt.listLocals, List.filterMap_append]
    exact hs.stacked.append hss.stacked

end

/-- A typed function has its formals at their positions and its locals stacked on them. -/
theorem FnTyped.stacked {env : Env} {d : FnDecl} {sig : Signature} (h : FnTyped env d sig) :
    ∃ frame, d.frame = some frame ∧ d.FormalsPlaced ∧
      Stacked { formals := wordSize * d.formals.items.length } d.localStorages frame := by
  obtain ⟨env', frame, frame', hformals, hbody, hframe⟩ := h.body
  obtain ⟨hstart, hplaced⟩ := hformals.placed
  refine ⟨frame', hframe, fun i f s hf hs => ?_, ?_⟩
  · simpa using hplaced i f s hf hs
  · have hstack := hbody.stacked
    rw [hstart] at hstack
    rw [FnDecl.localStorages]
    simpa using hstack

/-! ## Where storage is declared -/

/-- Storage that the scopes declare is among the given ones, or is declared at the top. -/
def Env.Hosts (env : Env) (ss : List Storage) (top : Env) : Prop :=
  ∀ ⦃name s⦄, env.find? name = some (.storage s) → s ∈ ss ∨ top.find? name = some (.storage s)

section Hosts

variable {env env' top : Env} {ss : List Storage} {frame frame' : Frame} {ds : List VarDecl}

theorem Env.Hosts.insert (h : env.Hosts ss top) (henv : env ≠ []) {s : Storage}
    (hfresh : env.inner? s.name = none) (hs : s ∈ ss) :
    Env.Hosts (env.insert s.name (.storage s)) ss top := by
  intro name s' hfind
  rw [Scopes.find?_insert henv hfresh] at hfind
  split at hfind
  · cases hfind
    exact .inl hs
  · exact h hfind

theorem LocalsTyped.hosts (hds : LocalsTyped env frame ds env' frame') (henv : env ≠ [])
    (h : env.Hosts ss top) (hss : ∀ s ∈ ds.filterMap VarDecl.storage?, s ∈ ss) :
    env' ≠ [] ∧ env'.Hosts ss top := by
  induction hds with
  | nil => exact ⟨henv, h⟩
  | cons hd _ _ ih =>
    rw [hd.filterMap] at hss
    obtain ⟨hs, hss⟩ := List.forall_mem_cons.mp hss
    exact ih (Scopes.insert_ne_nil henv _ _) (h.insert henv hd.fresh hs) hss

theorem FormalsTyped.hosts {ts : List Ty} (hds : FormalsTyped env frame ds ts env' frame')
    (henv : env ≠ []) (h : env.Hosts ss top)
    (hss : ∀ s ∈ ds.filterMap VarDecl.storage?, s ∈ ss) : env' ≠ [] ∧ env'.Hosts ss top := by
  induction hds with
  | nil => exact ⟨henv, h⟩
  | cons hd _ _ _ _ ih =>
    rw [hd.filterMap] at hss
    obtain ⟨hs, hss⟩ := List.forall_mem_cons.mp hss
    exact ih (Scopes.insert_ne_nil henv _ _) (h.insert henv hd.fresh hs) hss

end Hosts

/-- The location holds a word of storage that is among the given ones, or is declared at the
top. -/
def Exp.Hosted (e : Exp) (ss : List Storage) (top : Env) : Prop :=
  ∃ env s n t, Env.Sound env ∧ Locates env e s n (.scalar t) ∧
    (s ∈ ss ∨ top.find? s.name = some (.storage s))

theorem Locates.hosted {env top : Env} {ss : List Storage} {e : Exp} {s : Storage} {n : Nat}
    {t : Ty} (h : Locates env e s n (.scalar t)) (hsound : env.Sound) (hhosts : env.Hosts ss top) :
    e.Hosted ss top := by
  obtain ⟨x, -, hfind, -⟩ := Generate.path_of_locates h
  refine ⟨env, s, n, t, hsound, h, ?_⟩
  have hname : s.name = x.name := by
    cases hsound.find? hfind with
    | storage hname _ _ => exact hname
  rw [hname]
  exact hhosts hfind

section Hosted

variable {top : Env} {ss : List Storage}

mutual

/-- The locations of a typed expression are hosted by the scopes it stands in. -/
theorem HasType.hosted {env : Env} (hsound : env.Sound) (hhosts : env.Hosts ss top) :
    ∀ {e : Exp} {t : Ty}, HasType env e t → ∀ l ∈ e.locations, l.Hosted ss top
  | _, _, .int | _, _, .string | _, _, .bool => nofun
  | _, _, .location h _ => by
    rw [Exp.locations_of_isLocation h.isLocation]
    exact List.forall_mem_singleton.mpr (h.hosted hsound hhosts)
  | _, _, .assign hl _ hr => by
    rw [Exp.locations, Exp.locations_of_isLocation hl.isLocation]
    exact List.forall_mem_append.mpr
      ⟨List.forall_mem_singleton.mpr (hl.hosted hsound hhosts), hr.hosted hsound hhosts⟩
  | _, _, .call _ _ hargs => hargs.hosted hsound hhosts
  | _, _, .neg h | _, _, .not h => h.hosted hsound hhosts
  | _, _, .binary _ hl hr => by
    rw [Exp.locations]
    exact List.forall_mem_append.mpr ⟨hl.hosted hsound hhosts, hr.hosted hsound hhosts⟩

theorem HaveTypes.hosted {env : Env} (hsound : env.Sound) (hhosts : env.Hosts ss top) :
    ∀ {es : List Exp} {ts : List Ty}, HaveTypes env es ts →
      ∀ l ∈ Exp.listLocations es, l.Hosted ss top
  | _, _, .nil => nofun
  | _, _, .cons h hs => by
    rw [Exp.listLocations]
    exact List.forall_mem_append.mpr ⟨h.hosted hsound hhosts, hs.hosted hsound hhosts⟩

end

theorem Locates.hosted_locations {env : Env} (hsound : env.Sound) (hhosts : env.Hosts ss top)
    {e : Exp} {s : Storage} {n : Nat} {t : Ty} (h : Locates env e s n (.scalar t)) :
    ∀ l ∈ e.locations, l.Hosted ss top := by
  rw [Exp.locations_of_isLocation h.isLocation]
  exact List.forall_mem_singleton.mpr (h.hosted hsound hhosts)

mutual

/-- The locations of a typed statement are hosted, if the locals of its blocks are given. -/
theorem StmtTyped.hosted {ret : Ty} : ∀ {env : Env} {frame frame' : Frame} {s : Stmt},
    StmtTyped ret env frame s frame' → env.Sound → env ≠ [] → env.Hosts ss top →
    (∀ s' ∈ s.locals.filterMap VarDecl.storage?, s' ∈ ss) →
    ∀ l ∈ s.locations, l.Hosted ss top
  | _, _, _, _, .assign h, hsound, _, hhosts, _ | _, _, _, _, .write h _ _, hsound, _, hhosts, _
  | _, _, _, _, .call h, hsound, _, hhosts, _ | _, _, _, _, .return _ h, hsound, _, hhosts, _ =>
    h.hosted hsound hhosts
  | _, _, _, _, .increment h, hsound, _, hhosts, _
  | _, _, _, _, .decrement h, hsound, _, hhosts, _
  | _, _, _, _, .read h _, hsound, _, hhosts, _ => h.hosted_locations hsound hhosts
  | _, _, _, _, .exit _, _, _, _, _ => nofun
  | _, _, _, _, .ifThen h hb, hsound, henv, hhosts, hss
  | _, _, _, _, .while h hb, hsound, henv, hhosts, hss =>
    List.forall_mem_append.mpr ⟨h.hosted hsound hhosts,
      hb.hosted hsound.enter (List.cons_ne_nil _ _) hhosts hss⟩
  | _, _, _, _, .ifElse h hyes hno, hsound, henv, hhosts, hss => by
    rw [Stmt.locals, List.filterMap_append] at hss
    obtain ⟨hss₁, hss₂⟩ := List.forall_mem_append.mp hss
    exact List.forall_mem_append.mpr ⟨h.hosted hsound hhosts, List.forall_mem_append.mpr
      ⟨hyes.hosted hsound.enter (List.cons_ne_nil _ _) hhosts hss₁,
        hno.hosted hsound.enter (List.cons_ne_nil _ _) hhosts hss₂⟩⟩

theorem BlockTyped.hosted {ret : Ty} : ∀ {env : Env} {frame frame' : Frame} {b : Block Stmt},
    BlockTyped ret env frame b frame' → env.Sound → env ≠ [] → env.Hosts ss top →
    (∀ s ∈ (Stmt.blockLocals b).filterMap VarDecl.storage?, s ∈ ss) →
    ∀ l ∈ Stmt.blockLocations b, l.Hosted ss top
  | _, _, _, _, .intro hds hstmts, hsound, henv, hhosts, hss => by
    rw [Stmt.blockLocals, List.filterMap_append] at hss
    obtain ⟨hss₁, hss₂⟩ := List.forall_mem_append.mp hss
    obtain ⟨henv', hhosts'⟩ := hds.hosts henv hhosts hss₁
    exact hstmts.hosted (hds.sound hsound) henv' hhosts' hss₂

theorem StmtsTyped.hosted {ret : Ty} : ∀ {env : Env} {frame frame' : Frame} {ss' : List Stmt},
    StmtsTyped ret env frame ss' frame' → env.Sound → env ≠ [] → env.Hosts ss top →
    (∀ s ∈ (Stmt.listLocals ss').filterMap VarDecl.storage?, s ∈ ss) →
    ∀ l ∈ Stmt.listLocations ss', l.Hosted ss top
  | _, _, _, _, .nil, _, _, _, _ => nofun
  | _, _, _, _, .cons hs hstmts, hsound, henv, hhosts, hss => by
    rw [Stmt.listLocals, List.filterMap_append] at hss
    obtain ⟨hss₁, hss₂⟩ := List.forall_mem_append.mp hss
    exact List.forall_mem_append.mpr
      ⟨hs.hosted hsound henv hhosts hss₁, hstmts.hosted hsound henv hhosts hss₂⟩

end

end Hosted

/-- The locations of a typed function lie in its frame, or in storage at the top. -/
theorem FnTyped.hosted {env : Env} {d : FnDecl} {sig : Signature} (h : FnTyped env d sig)
    (hsound : env.Sound) :
    ∀ e ∈ d.locations, e.Hosted (d.formalStorages ++ d.localStorages) env := by
  obtain ⟨env', frame, frame', hformals, hbody, -⟩ := h.body
  have htop : Env.Hosts env.enter (d.formalStorages ++ d.localStorages) env :=
    fun _ _ hfind => .inr hfind
  obtain ⟨henv', hhosts⟩ := hformals.hosts (List.cons_ne_nil _ _) htop
    fun s hs => List.mem_append_left _ hs
  exact hbody.hosted (hformals.sound hsound.enter) henv' hhosts
    fun s hs => List.mem_append_right _ hs

/-- What a root is bound to. -/
theorem Locates.root?_eq {env : Env} {e : Exp} {s : Storage} {n : Nat} {sh : Shape StructDef}
    (h : Locates env e s n sh) : ∃ x, e.root? = some x ∧ x.binding = .bound (.storage s) := by
  induction h with
  | ident _ hbound => exact ⟨_, rfl, hbound⟩
  | access _ _ _ ih => exact ih

end CMinusMinus
