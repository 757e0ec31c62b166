import CMinusMinus.Proofs.Height.Code
import CMinusMinus.Proofs.Typing.Expressions

/-!
# Heights in the code of statements

The code of a statement begins and ends where the function began, and so does the code of every
statement inside it (`flat_stmts`).  Where a statement's code stands in that of the statements
around it is said by `Stands`.
-/

namespace CMinusMinus

open Asm

/-- Whether the statement has no blocks. -/
def Stmt.isSimple : Stmt → Bool
  | .ifThen .. | .ifElse .. | .while .. => false
  | _ => true

/-! ## Where statements stand -/

namespace Generate

/-- Somewhere in the statements is a statement whose code comes after the given items, and is
generated from the given labels. -/
inductive Stands (fn : String) : Labels → List Stmt → List Item → Labels → Stmt → Prop where
  | head {ls : Labels} {s : Stmt} {ss : List Stmt} : Stands fn ls (s :: ss) [] ls s
  | tail {ls ls₁ ls' : Labels} {s s' : Stmt} {ss : List Stmt} {q pre : List Item} :
    stmt fn ls s = .ok (q, ls₁) → Stands fn ls₁ ss pre ls' s' →
    Stands fn ls (s :: ss) (q ++ pre) ls' s'
  | ifThen {ls ls₁ ls' : Labels} {sp : Option Span} {e : Exp} {b : Block Stmt} {s' : Stmt}
    {ss : List Stmt} {cond pre : List Item} :
    exp ls.fresh.2 e = .ok (cond, ls₁) → Stands fn ls₁ b.stmts pre ls' s' →
    Stands fn ls (.ifThen sp e b :: ss) (cond ++ onFalse ls.fresh.1 ++ pre) ls' s'
  | yes {ls ls₁ ls' : Labels} {sp : Option Span} {e : Exp} {yes no : Block Stmt} {s' : Stmt}
    {ss : List Stmt} {cond pre : List Item} :
    exp ls.fresh.2.fresh.2 e = .ok (cond, ls₁) → Stands fn ls₁ yes.stmts pre ls' s' →
    Stands fn ls (.ifElse sp e yes no :: ss) (cond ++ onFalse ls.fresh.1 ++ pre) ls' s'
  | no {ls ls₁ ls₂ ls' : Labels} {sp : Option Span} {e : Exp} {yes no : Block Stmt} {s' : Stmt}
    {ss : List Stmt} {cond code pre : List Item} :
    exp ls.fresh.2.fresh.2 e = .ok (cond, ls₁) → block fn ls₁ yes = .ok (code, ls₂) →
    Stands fn ls₂ no.stmts pre ls' s' →
    Stands fn ls (.ifElse sp e yes no :: ss)
      (cond ++ onFalse ls.fresh.1 ++ code ++ branch ls.fresh.2.fresh.1 ++ label ls.fresh.1 ++ pre)
      ls' s'
  | loop {ls ls₁ ls' : Labels} {sp : Option Span} {e : Exp} {b : Block Stmt} {s' : Stmt}
    {ss : List Stmt} {cond pre : List Item} :
    exp ls.fresh.2.fresh.2 e = .ok (cond, ls₁) → Stands fn ls₁ b.stmts pre ls' s' →
    Stands fn ls (.while sp e b :: ss)
      (label ls.fresh.1 (some "loop top") ++ cond ++ onFalse ls.fresh.2.fresh.1 ++ pre) ls' s'

section Flat

variable (arity : String → Nat) (lab : String → Int) (fn : String)

/-- The code is what comes before a statement's, the statement's and what comes after, each of
which begins and ends where the function began. -/
def Cut (code pre : List Item) (ls : Labels) (s : Stmt) : Prop :=
  ∃ q ls' post, stmt fn ls s = .ok (q, ls') ∧ code = pre ++ (q ++ post) ∧
    Levels arity lab 0 pre 0 ∧ Levels arity lab 0 q 0 ∧ Levels arity lab 0 post 0

/-- The code of statements begins and ends where the function began, and so does that of every
statement in them. -/
structure Flat (ls : Labels) (ss : List Stmt) (code : List Item) : Prop where
  levels : Levels arity lab 0 code 0
  cut : ∀ {pre ls' s}, Stands fn ls ss pre ls' s → Cut arity lab fn code pre ls' s

variable {arity lab fn} {ls ls' : Labels} {code pre front back q : List Item} {s : Stmt}

theorem Cut.whole (hcode : stmt fn ls s = .ok (q, ls')) (hlevels : Levels arity lab 0 q 0) :
    Cut arity lab fn q [] ls s :=
  ⟨q, ls', [], hcode, by rw [List.nil_append, List.append_nil], rfl, hlevels, rfl⟩

/-- A statement in a piece of code stands as well in the code around the piece. -/
theorem Cut.around (h : Cut arity lab fn code pre ls s) (hfront : Levels arity lab 0 front 0)
    (hback : Levels arity lab 0 back 0) :
    Cut arity lab fn (front ++ code ++ back) (front ++ pre) ls s := by
  obtain ⟨q, ls', post, hcode, hsplit, hpre, hlevels, hpost⟩ := h
  refine ⟨q, ls', post ++ back, hcode, ?_, hfront.append hpre, hlevels, hpost.append hback⟩
  rw [hsplit]
  simp only [List.append_assoc]

/-- A statement without statements inside it. -/
theorem Flat.leaf (hcode : stmt fn ls s = .ok (q, ls')) (hlevels : Levels arity lab 0 q 0)
    (hleaf : ∀ {pre ls₁ s₁}, Stands fn ls [s] pre ls₁ s₁ → pre = [] ∧ ls₁ = ls ∧ s₁ = s) :
    Flat arity lab fn ls [s] q := by
  refine ⟨hlevels, fun hstands => ?_⟩
  obtain ⟨rfl, rfl, rfl⟩ := hleaf hstands
  exact .whole hcode hlevels

end Flat

end Generate

/-- Heights can be given to the labels of the statements' code so that it is flat, and its branches
lead to these labels or to known ones. -/
structure Generate.Settled (arity : String → Nat) (fn : String) (known : List (String × Int))
    (ls ls' : Generate.Labels) (ss : List Stmt) (q : List Item) : Prop where
  flat : Solvable known ls.next ls'.next fun lab => Generate.Flat arity lab fn ls ss q
  closed : Closed (known.map Prod.fst) q

/-! ## Scopes -/

/-- Storage that is declared hides functions and adds none. -/
theorem Env.find?_of_insert_storage {env : Env} {name n : String} {s : Storage} {sig : Signature}
    (hfind : (env.insert name (.storage s)).find? n = some (.function sig)) :
    env.find? n = some (.function sig) := by
  cases env with
  | nil => exact hfind
  | cons scope outer =>
    rw [Scopes.insert, Scopes.find?_cons, Scope.find?_append] at hfind
    rw [Scopes.find?_cons]
    cases hscope : scope.find? n with
    | some s' =>
      rw [hscope] at hfind
      exact hfind
    | none =>
      rw [hscope, Option.none_or] at hfind
      rcases Option.or_eq_some_iff.mp hfind with hlast | ⟨-, houter⟩
      · cases List.mem_singleton.mp (Scope.mem_of_find? hlast)
      · exact houter

section Functions

variable {env env' : Env} {frame frame' : Frame} {ds : List VarDecl} {arity : String → Nat}

theorem LocalsTyped.find?_function (h : LocalsTyped env frame ds env' frame') {name : String}
    {sig : Signature} (hfind : env'.find? name = some (.function sig)) :
    env.find? name = some (.function sig) := by
  induction h with
  | nil => exact hfind
  | cons _ _ _ ih => exact Env.find?_of_insert_storage (ih hfind)

theorem FormalsTyped.find?_function {ts : List Ty} (h : FormalsTyped env frame ds ts env' frame')
    {name : String} {sig : Signature} (hfind : env'.find? name = some (.function sig)) :
    env.find? name = some (.function sig) := by
  induction h with
  | nil => exact hfind
  | cons _ _ _ _ _ ih => exact Env.find?_of_insert_storage (ih hfind)

theorem LocalsTyped.counts (h : LocalsTyped env frame ds env' frame') (henv : env.Counts arity) :
    env'.Counts arity := fun _ _ hfind => henv (h.find?_function hfind)

theorem FormalsTyped.counts {ts : List Ty} (h : FormalsTyped env frame ds ts env' frame')
    (henv : env.Counts arity) : env'.Counts arity :=
  fun _ _ hfind => henv (h.find?_function hfind)

end Functions

/-! ## Statements -/

namespace Generate

variable {arity : String → Nat} {fn : String}

/-- A condition that is popped, and gone on from at a label. -/
theorem shifts_onFalse {ls ls' : Labels} {q : List Item}
    (h : Shifts arity [] ls.next ls'.next q 0 1) (target : String) :
    Shifts arity [(target, 0)] ls.next ls'.next (q ++ onFalse target) 0 0 := by
  have hmem : (target, 0) ∈ [(target, 0)] := List.mem_cons_self
  have honFalse : Shifts arity [(target, 0)] ls'.next ls'.next (onFalse target) 1 0 :=
    (Shifts.pop .t0 none).append (.branchIf rfl Opcode.noConfusion hmem .t0 .zero _)
  exact (h.lift 0).append honFalse

theorem closed_branch {l : String} {h : Int} {known : List (String × Int)} (hl : (l, h) ∈ known) :
    Closed (known.map Prod.fst) (branch l) :=
  .single (List.forall_mem_singleton.mpr (List.mem_map_of_mem hl))

theorem closed_label (out : List String) (l : String) (comment : Option String) :
    Closed out (label l comment) := .single nofun

/-- The code of a step of a location leaves the stack as it is. -/
theorem shifts_step {op : Opcode} (hop : op = .addu ∨ op = .subu) {e : Exp} {q : List Item}
    (h : step op e = .ok q) {m : Nat} : Shifts arity [] m m q 0 0 := by
  obtain ⟨addr, haddr, rfl⟩ := step_eq_ok.mp h
  have hstep : Shifts arity [] m m (op3 op .t1 .t1 (.imm 1)) 0 0 := by
    rcases hop with rfl | rfl <;> exact .single rfl nofun rfl rfl
  exact (((Shifts.of_plain (plain_address haddr)).append (shifts_loadWord .t1 _ none)).append
    hstep).append (shifts_storeWord .t1 _ none)

/-- What is asked of the system leaves the stack as it is. -/
theorem shifts_syscall (number : Int) (comment : Option String) {m a : Nat} :
    Shifts arity [] m m (syscall number comment) a a :=
  (shifts_loadImm .v0 number comment).append (.single rfl nofun rfl (Int.sub_self _).symm)

/-- The code of a statement without blocks begins and ends where the function began, and branches
to known labels besides its own. -/
theorem solvable_simple {ret : Ty} {env : Env} {frame frame' : Frame} {s : Stmt}
    (hs : StmtTyped ret env frame s frame') (hsimple : s.isSimple = true)
    (henv : env.Counts arity) {known : List (String × Int)} (hexit : (exitLabel fn, 0) ∈ known)
    {ls ls' : Labels} {q : List Item} (h : stmt fn ls s = .ok (q, ls')) :
    (Solvable known ls.next ls'.next fun lab => Levels arity lab 0 q 0) ∧
      Closed (known.map Prod.fst) q := by
  have hown : ∀ {code : List Item}, Shifts arity [] ls.next ls'.next code 0 0 →
      (Solvable known ls.next ls'.next fun lab => Levels arity lab 0 code 0) ∧
        Closed (known.map Prod.fst) code :=
    fun hcode => ⟨hcode.solvable (List.forall_mem_nil _), hcode.closed.mono (List.forall_mem_nil _)⟩
  cases hs with
  | ifThen | ifElse | «while» => cases hsimple
  | assign he =>
    cases stmt_eq_ok.mp h with
    | assign hcode => exact hown ((shifts_exp henv he hcode).append (.pop .t0 (some _)))
  | call he =>
    cases stmt_eq_ok.mp h with
    | call hcode => exact hown ((shifts_exp henv he hcode).append (.pop .t0 (some _)))
  | increment he =>
    cases stmt_eq_ok.mp h with
    | increment hcode => exact hown (shifts_step (.inl rfl) hcode)
  | decrement he =>
    cases stmt_eq_ok.mp h with
    | decrement hcode => exact hown (shifts_step (.inr rfl) hcode)
  | read he =>
    cases stmt_eq_ok.mp h with
    | read haddr =>
      exact hown (((shifts_syscall _ _).append (.of_plain (plain_address haddr))).append
        (shifts_storeWord .v0 _ none))
  | write he =>
    cases stmt_eq_ok.mp h with
    | write hcode =>
      have hmove : ∀ {m : Nat}, Shifts arity [] m m (move .a0 .t0) 0 0 :=
        .single rfl (List.forall_mem_nil _) rfl rfl
      exact hown (((shifts_exp henv he hcode).append (.pop .t0 none)).append
        (hmove.append (shifts_syscall _ none)))
  | exit =>
    cases h
    exact ⟨.of_known fun lab hknown => .goto (hknown _ hexit), closed_branch hexit⟩
  | «return» _ he =>
    cases stmt_eq_ok.mp h with
    | «return» hcode =>
      obtain ⟨hvalue, hclosed⟩ := hown ((shifts_exp henv he hcode).append (.pop .v0 _))
      exact ⟨hvalue.mono fun lab hknown hlevels => hlevels.append (.goto (hknown _ hexit)),
        hclosed.append (closed_branch hexit)⟩

/-- A statement without blocks is the only one in it. -/
theorem Stands.of_isSimple {s s₁ : Stmt} (hs : s.isSimple = true) {ls ls₁ : Labels}
    {pre : List Item} (h : Stands fn ls [s] pre ls₁ s₁) : pre = [] ∧ ls₁ = ls ∧ s₁ = s := by
  cases h with
  | head => exact ⟨rfl, rfl, rfl⟩
  | tail _ h => cases h
  | ifThen | yes | no | loop => cases hs

theorem settled_simple {ret : Ty} {env : Env} {frame frame' : Frame} {s : Stmt}
    (hs : StmtTyped ret env frame s frame') (hsimple : s.isSimple = true)
    (henv : env.Counts arity) {known : List (String × Int)} (hexit : (exitLabel fn, 0) ∈ known)
    {ls ls' : Labels} {q : List Item} (h : stmt fn ls s = .ok (q, ls')) :
    Settled arity fn known ls ls' [s] q := by
  obtain ⟨hlevels, hclosed⟩ := solvable_simple hs hsimple henv hexit h
  exact ⟨hlevels.mono fun _ _ hlevels => .leaf h hlevels (Stands.of_isSimple hsimple), hclosed⟩

/-- A statement stands in the first of some statements or in the rest of them. -/
theorem settled_cons {s : Stmt} {ss : List Stmt} {ls ls₁ ls' : Labels} {first rest : List Item}
    {known : List (String × Int)} (hfirst : stmt fn ls s = .ok (first, ls₁))
    (hs : Settled arity fn known ls ls₁ [s] first)
    (hss : Settled arity fn known ls₁ ls' ss rest) :
    Settled arity fn known ls ls' (s :: ss) (first ++ rest) := by
  refine ⟨(hs.flat.and hss.flat).mono fun lab _ h => ?_, hs.closed.append hss.closed⟩
  obtain ⟨hs, hss⟩ := h
  have hin : ∀ {pre ls' s'}, Stands fn ls [s] pre ls' s' →
      Cut arity lab fn (first ++ rest) pre ls' s' := by
    intro pre ls' s' hstands
    exact (hs.cut hstands).around (levels_nil.mpr rfl) hss.levels
  refine ⟨hs.levels.append hss.levels, fun hstands => ?_⟩
  cases hstands with
  | head => exact hin .head
  | tail hfirst' hinner =>
    cases hfirst.symm.trans hfirst'
    have hcut := (hss.cut hinner).around hs.levels (levels_nil.mpr rfl)
    rwa [List.append_nil] at hcut
  | ifThen hcond hinner => exact hin (.ifThen hcond hinner)
  | yes hcond hinner => exact hin (.yes hcond hinner)
  | no hcond hyes hinner => exact hin (.no hcond hyes hinner)
  | loop hcond hinner => exact hin (.loop hcond hinner)

/-- The code of a condition begins and ends where the function began, if its label stands
there. -/
theorem settled_onFalse {ls ls' : Labels} {cond : List Item} {target : String}
    {known : List (String × Int)} (h : Shifts arity [] ls.next ls'.next cond 0 1)
    (htarget : (target, 0) ∈ known) :
    (Solvable known ls.next ls'.next fun lab => Levels arity lab 0 (cond ++ onFalse target) 0) ∧
      Closed (known.map Prod.fst) (cond ++ onFalse target) := by
  have hshifts := shifts_onFalse h target
  refine ⟨hshifts.solvable (List.forall_mem_singleton.mpr htarget), hshifts.closed.mono ?_⟩
  exact List.forall_mem_singleton.mpr (.inl (List.mem_map_of_mem htarget))

theorem settled_ifThen {sp : Option Span} {e : Exp} {b : Block Stmt} {ls ls₁ ls' : Labels}
    {cond body : List Item} {known : List (String × Int)}
    (hcond : exp ls.fresh.2 e = .ok (cond, ls₁)) (hbody : block fn ls₁ b = .ok (body, ls'))
    (he : Shifts arity [] ls.fresh.2.next ls₁.next cond 0 1)
    (hb : Settled arity fn ((ls.fresh.1, 0) :: known) ls₁ ls' b.stmts body) :
    Settled arity fn known ls ls' [.ifThen sp e b]
      (cond ++ onFalse ls.fresh.1 ++ body ++ label ls.fresh.1) := by
  have hcode : stmt fn ls (.ifThen sp e b) =
      .ok (cond ++ onFalse ls.fresh.1 ++ body ++ label ls.fresh.1, ls') :=
    stmt_eq_ok.mpr (.ifThen hcond hbody)
  have hmem : (ls.fresh.1, (0 : Int)) ∈ (ls.fresh.1, 0) :: known := List.mem_cons_self
  obtain ⟨hcondition, hclosed⟩ := settled_onFalse he hmem
  refine ⟨.fresh 0 ((hcondition.and hb.flat).mono fun lab hknown h => ?_), ?_⟩
  · obtain ⟨hcondition, hflat⟩ := h
    have hdone : Levels arity lab 0 (label ls.fresh.1) 0 :=
      .label (Int.le_refl 0) (hknown _ hmem) none
    have hlevels := (hcondition.append hflat.levels).append hdone
    refine ⟨hlevels, fun hstands => ?_⟩
    cases hstands with
    | head => exact .whole hcode hlevels
    | tail _ h => cases h
    | ifThen hcond' hinner =>
      cases hcond.symm.trans hcond'
      exact (hflat.cut hinner).around hcondition hdone
  · refine ((hclosed.append hb.closed).append (closed_label _ _ none)).mono ?_
    exact List.forall_mem_cons.mpr ⟨.inr (by simp), fun _ => .inl⟩

theorem settled_ifElse {sp : Option Span} {e : Exp} {yes no : Block Stmt}
    {ls ls₁ ls₂ ls' : Labels} {cond first second : List Item} {known : List (String × Int)}
    (hcond : exp ls.fresh.2.fresh.2 e = .ok (cond, ls₁))
    (hyes : block fn ls₁ yes = .ok (first, ls₂)) (hno : block fn ls₂ no = .ok (second, ls'))
    (he : Shifts arity [] ls.fresh.2.fresh.2.next ls₁.next cond 0 1)
    (hfirst : Settled arity fn ((ls.fresh.2.fresh.1, 0) :: (ls.fresh.1, 0) :: known) ls₁ ls₂
      yes.stmts first)
    (hsecond : Settled arity fn ((ls.fresh.2.fresh.1, 0) :: (ls.fresh.1, 0) :: known) ls₂ ls'
      no.stmts second) :
    Settled arity fn known ls ls' [.ifElse sp e yes no]
      (cond ++ onFalse ls.fresh.1 ++ first ++ branch ls.fresh.2.fresh.1 ++ label ls.fresh.1
        ++ second ++ label ls.fresh.2.fresh.1) := by
  have hcode : stmt fn ls (.ifElse sp e yes no) =
      .ok (cond ++ onFalse ls.fresh.1 ++ first ++ branch ls.fresh.2.fresh.1 ++ label ls.fresh.1
        ++ second ++ label ls.fresh.2.fresh.1, ls') :=
    stmt_eq_ok.mpr (.ifElse hcond hyes hno)
  have hdone : (ls.fresh.2.fresh.1, (0 : Int)) ∈
      (ls.fresh.2.fresh.1, 0) :: (ls.fresh.1, 0) :: known := List.mem_cons_self
  have hother : (ls.fresh.1, (0 : Int)) ∈
      (ls.fresh.2.fresh.1, 0) :: (ls.fresh.1, 0) :: known :=
    List.mem_cons_of_mem _ List.mem_cons_self
  obtain ⟨hcondition, hclosed⟩ := settled_onFalse he hother
  refine ⟨.fresh 0 (.fresh 0 ((hcondition.and (hfirst.flat.and hsecond.flat)).mono
    fun lab hknown h => ?_)), ?_⟩
  · obtain ⟨hcondition, hfirst, hsecond⟩ := h
    have hgoto : Levels arity lab 0 (branch ls.fresh.2.fresh.1) 0 := .goto (hknown _ hdone)
    have hlabel : Levels arity lab 0 (label ls.fresh.1) 0 :=
      .label (Int.le_refl 0) (hknown _ hother) none
    have hend : Levels arity lab 0 (label ls.fresh.2.fresh.1) 0 :=
      .label (Int.le_refl 0) (hknown _ hdone) none
    have hbefore := ((hcondition.append hfirst.levels).append hgoto).append hlabel
    have hafter := ((hgoto.append hlabel).append hsecond.levels).append hend
    have hlevels := (hbefore.append hsecond.levels).append hend
    refine ⟨hlevels, fun hstands => ?_⟩
    cases hstands with
    | head => exact .whole hcode hlevels
    | tail _ h => cases h
    | yes hcond' hinner =>
      cases hcond.symm.trans hcond'
      have hcut := (hfirst.cut hinner).around hcondition hafter
      simpa only [List.append_assoc] using hcut
    | no hcond' hyes' hinner =>
      cases hcond.symm.trans hcond'
      cases hyes.symm.trans hyes'
      exact (hsecond.cut hinner).around hbefore hend
  · refine (((((hclosed.append hfirst.closed).append (closed_branch hdone)).append
      (closed_label _ _ none)).append hsecond.closed).append (closed_label _ _ none)).mono ?_
    exact List.forall_mem_cons.mpr ⟨.inr (by simp),
      List.forall_mem_cons.mpr ⟨.inr (by simp), fun _ => .inl⟩⟩

theorem settled_while {sp : Option Span} {e : Exp} {b : Block Stmt} {ls ls₁ ls' : Labels}
    {cond body : List Item} {known : List (String × Int)}
    (hcond : exp ls.fresh.2.fresh.2 e = .ok (cond, ls₁))
    (hbody : block fn ls₁ b = .ok (body, ls'))
    (he : Shifts arity [] ls.fresh.2.fresh.2.next ls₁.next cond 0 1)
    (hb : Settled arity fn ((ls.fresh.2.fresh.1, 0) :: (ls.fresh.1, 0) :: known) ls₁ ls'
      b.stmts body) :
    Settled arity fn known ls ls' [.while sp e b]
      (label ls.fresh.1 (some "loop top") ++ cond ++ onFalse ls.fresh.2.fresh.1 ++ body
        ++ branch ls.fresh.1 ++ label ls.fresh.2.fresh.1) := by
  have hcode : stmt fn ls (.while sp e b) =
      .ok (label ls.fresh.1 (some "loop top") ++ cond ++ onFalse ls.fresh.2.fresh.1 ++ body
        ++ branch ls.fresh.1 ++ label ls.fresh.2.fresh.1, ls') :=
    stmt_eq_ok.mpr (.while hcond hbody)
  have hdone : (ls.fresh.2.fresh.1, (0 : Int)) ∈
      (ls.fresh.2.fresh.1, 0) :: (ls.fresh.1, 0) :: known := List.mem_cons_self
  have htop : (ls.fresh.1, (0 : Int)) ∈
      (ls.fresh.2.fresh.1, 0) :: (ls.fresh.1, 0) :: known :=
    List.mem_cons_of_mem _ List.mem_cons_self
  obtain ⟨hcondition, hclosed⟩ := settled_onFalse he hdone
  refine ⟨.fresh 0 (.fresh 0 ((hcondition.and hb.flat).mono fun lab hknown h => ?_)), ?_⟩
  · obtain ⟨hcondition, hflat⟩ := h
    have hlabel : Levels arity lab 0 (label ls.fresh.1 (some "loop top")) 0 :=
      .label (Int.le_refl 0) (hknown _ htop) _
    have hback : Levels arity lab 0 (branch ls.fresh.1 ++ label ls.fresh.2.fresh.1) 0 :=
      (Levels.goto (hknown _ htop)).append (.label (Int.le_refl 0) (hknown _ hdone) none)
    have hbefore := hlabel.append hcondition
    have hlevels := (hbefore.append hflat.levels).append hback
    simp only [← List.append_assoc] at hlevels
    refine ⟨hlevels, fun hstands => ?_⟩
    cases hstands with
    | head => exact .whole hcode hlevels
    | tail _ h => cases h
    | loop hcond' hinner =>
      cases hcond.symm.trans hcond'
      have hcut := (hflat.cut hinner).around hbefore hback
      simpa only [List.append_assoc] using hcut
  · have hall := (closed_label _ ls.fresh.1 (some "loop top")).append (hclosed.append
      (hb.closed.append ((closed_branch htop).append (closed_label _ ls.fresh.2.fresh.1 none))))
    simp only [← List.append_assoc] at hall
    exact hall.mono (List.forall_mem_cons.mpr ⟨.inr (by simp),
      List.forall_mem_cons.mpr ⟨.inr (by simp), fun _ => .inl⟩⟩)

mutual

/-- The code of a typed statement is flat, and branches to the end of the function besides its own
labels. -/
theorem settled_stmt {ret : Ty} : ∀ {env : Env} {frame frame' : Frame} {s : Stmt},
    StmtTyped ret env frame s frame' → env.Counts arity →
    ∀ {known : List (String × Int)}, (exitLabel fn, 0) ∈ known →
    ∀ {ls ls' : Labels} {q : List Item}, stmt fn ls s = .ok (q, ls') →
      Settled arity fn known ls ls' [s] q
  | _, _, _, _, .ifThen he hb, henv, known, hexit, ls, ls', q, h => by
    cases stmt_eq_ok.mp h with
    | ifThen hcond hbody =>
      exact settled_ifThen hcond hbody (shifts_exp henv he hcond)
        (settled_block hb henv (List.mem_cons_of_mem _ hexit) hbody)
  | _, _, _, _, .ifElse he hyes hno, henv, known, hexit, ls, ls', q, h => by
    have hexit' := List.mem_cons_of_mem (ls.fresh.2.fresh.1, 0)
      (List.mem_cons_of_mem (ls.fresh.1, 0) hexit)
    cases stmt_eq_ok.mp h with
    | ifElse hcond hfirst hsecond =>
      exact settled_ifElse hcond hfirst hsecond (shifts_exp henv he hcond)
        (settled_block hyes henv hexit' hfirst) (settled_block hno henv hexit' hsecond)
  | _, _, _, _, .while he hb, henv, known, hexit, ls, ls', q, h => by
    cases stmt_eq_ok.mp h with
    | «while» hcond hbody =>
      exact settled_while hcond hbody (shifts_exp henv he hcond)
        (settled_block hb henv (List.mem_cons_of_mem _ (List.mem_cons_of_mem _ hexit)) hbody)
  | _, _, _, _, hs@(.assign _), henv, _, hexit, _, _, _, h
  | _, _, _, _, hs@(.increment _), henv, _, hexit, _, _, _, h
  | _, _, _, _, hs@(.decrement _), henv, _, hexit, _, _, _, h
  | _, _, _, _, hs@(.read _ _), henv, _, hexit, _, _, _, h
  | _, _, _, _, hs@(.write _ _ _), henv, _, hexit, _, _, _, h
  | _, _, _, _, hs@(.call _), henv, _, hexit, _, _, _, h
  | _, _, _, _, hs@(.exit _), henv, _, hexit, _, _, _, h
  | _, _, _, _, hs@(.return _ _), henv, _, hexit, _, _, _, h =>
    settled_simple hs rfl henv hexit h

theorem settled_block {ret : Ty} : ∀ {env : Env} {frame frame' : Frame} {b : Block Stmt},
    BlockTyped ret env frame b frame' → env.Counts arity →
    ∀ {known : List (String × Int)}, (exitLabel fn, 0) ∈ known →
    ∀ {ls ls' : Labels} {q : List Item}, block fn ls b = .ok (q, ls') →
      Settled arity fn known ls ls' b.stmts q
  | _, _, _, _, .intro hds hss, henv, _, hexit, _, _, _, h =>
    settled_stmts hss (hds.counts henv) hexit h

theorem settled_stmts {ret : Ty} : ∀ {env : Env} {frame frame' : Frame} {ss : List Stmt},
    StmtsTyped ret env frame ss frame' → env.Counts arity →
    ∀ {known : List (String × Int)}, (exitLabel fn, 0) ∈ known →
    ∀ {ls ls' : Labels} {q : List Item}, stmts fn ls ss = .ok (q, ls') →
      Settled arity fn known ls ls' ss q
  | _, _, _, _, .nil, _, _, _, ls, ls', q, h => by
    cases h
    exact ⟨.of_known fun lab _ => ⟨rfl, nofun⟩, nofun⟩
  | _, _, _, _, .cons hs hss, henv, _, hexit, ls, ls', q, h => by
    obtain ⟨first, ls₁, rest, hfirst, hrest, rfl⟩ := stmts_cons_eq_ok.mp h
    exact settled_cons hfirst (settled_stmt hs henv hexit hfirst)
      (settled_stmts hss henv hexit hrest)

end

end Generate

end CMinusMinus
