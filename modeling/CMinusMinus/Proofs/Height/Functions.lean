import CMinusMinus.Generate
import CMinusMinus.Proofs.Height.Statements

/-!
# Heights in the code of functions

In the code of a typed function every point after the prologue has a height
(`balanced_function`).  The labels that a function begins with are given heights below zero, which
nothing that is gone on from has, so no branch leads back to them.
-/

namespace CMinusMinus

open Asm Generate

/-! ## Expressions of a function -/

mutual

/-- The expression and those whose values it is computed from. -/
def Exp.parts : Exp → List Exp
  | .assign i l r => .assign i l r :: r.parts
  | .call i f sp args => .call i f sp args :: Exp.listParts args
  | .neg i e => .neg i e :: e.parts
  | .not i e => .not i e :: e.parts
  | .binary i op l r => .binary i op l r :: (l.parts ++ r.parts)
  | e => [e]
termination_by structural e => e

/-- The parts of expressions. -/
def Exp.listParts : List Exp → List Exp
  | [] => []
  | e :: es => e.parts ++ Exp.listParts es
termination_by structural es => es

end

mutual

/-- The expressions that a statement computes the values of. -/
def Stmt.exps : Stmt → List Exp
  | .assign _ e | .write _ e | .call _ e | .return _ (some e) => e.parts
  | .ifThen _ e b | .while _ e b => e.parts ++ Stmt.blockExps b
  | .ifElse _ e b₁ b₂ => e.parts ++ (Stmt.blockExps b₁ ++ Stmt.blockExps b₂)
  | _ => []
termination_by structural s => s

/-- The expressions that a block computes the values of. -/
def Stmt.blockExps : Block Stmt → List Exp
  | ⟨_, _, ss⟩ => Stmt.listExps ss
termination_by structural b => b

/-- The expressions that statements compute the values of. -/
def Stmt.listExps : List Stmt → List Exp
  | [] => []
  | s :: ss => s.exps ++ Stmt.listExps ss
termination_by structural ss => ss

end

theorem Locates.parts {env : Env} {e : Exp} {s : Storage} {n : Nat} {sh : Shape StructDef}
    (h : Locates env e s n sh) : e.parts = [e] := by
  cases h <;> rfl

mutual

/-- What a typed expression is computed from is typed. -/
theorem HasType.of_mem_parts {env : Env} : ∀ {e : Exp} {t : Ty}, HasType env e t →
    ∀ {e' : Exp}, e' ∈ e.parts → ∃ t', HasType env e' t'
  | _, _, .int, e', h | _, _, .string, e', h | _, _, .bool, e', h => by
    cases List.mem_singleton.mp h
    exact ⟨_, by constructor⟩
  | _, _, .location hl ht, e', h => by
    rw [hl.parts] at h
    cases List.mem_singleton.mp h
    exact ⟨_, .location hl ht⟩
  | _, _, .assign hl ht hr, e', h => by
    rcases List.mem_cons.mp h with rfl | h
    · exact ⟨_, .assign hl ht hr⟩
    · exact hr.of_mem_parts h
  | _, _, .call hfind hbound hargs, e', h => by
    rcases List.mem_cons.mp h with rfl | h
    · exact ⟨_, .call hfind hbound hargs⟩
    · exact hargs.of_mem_parts h
  | _, _, .neg he, e', h => by
    rcases List.mem_cons.mp h with rfl | h
    · exact ⟨_, .neg he⟩
    · exact he.of_mem_parts h
  | _, _, .not he, e', h => by
    rcases List.mem_cons.mp h with rfl | h
    · exact ⟨_, .not he⟩
    · exact he.of_mem_parts h
  | _, _, .binary hop hl hr, e', h => by
    rcases List.mem_cons.mp h with rfl | h
    · exact ⟨_, .binary hop hl hr⟩
    · rcases List.mem_append.mp h with h | h
      · exact hl.of_mem_parts h
      · exact hr.of_mem_parts h

theorem HaveTypes.of_mem_parts {env : Env} : ∀ {es : List Exp} {ts : List Ty},
    HaveTypes env es ts → ∀ {e' : Exp}, e' ∈ Exp.listParts es → ∃ t', HasType env e' t'
  | _, _, .nil, _, h => by cases h
  | _, _, .cons he hes, _, h => by
    rcases List.mem_append.mp h with h | h
    · exact he.of_mem_parts h
    · exact hes.of_mem_parts h

end

namespace Generate

variable {arity : String → Nat}

theorem raises_parts {env : Env} (henv : env.Counts arity) {e : Exp} {t : Ty}
    (he : HasType env e t) {e' : Exp} (hmem : e' ∈ e.parts) {ls ls' : Labels} {q : List Item}
    (h : exp ls e' = .ok (q, ls')) : Raises arity q 1 := by
  obtain ⟨t', he'⟩ := he.of_mem_parts hmem
  exact (shifts_exp henv he' h).raises

mutual

/-- The code of every expression of a statement pushes one word, wherever it stands. -/
theorem raises_stmt {ret : Ty} : ∀ {env : Env} {frame frame' : Frame} {s : Stmt},
    StmtTyped ret env frame s frame' → env.Counts arity → ∀ {e : Exp}, e ∈ s.exps →
    ∀ {ls ls' : Labels} {q : List Item}, exp ls e = .ok (q, ls') → Raises arity q 1
  | _, _, _, _, .assign he, henv, _, hmem, _, _, _, h
  | _, _, _, _, .write he _ _, henv, _, hmem, _, _, _, h
  | _, _, _, _, .call he, henv, _, hmem, _, _, _, h
  | _, _, _, _, .return _ he, henv, _, hmem, _, _, _, h => raises_parts henv he hmem h
  | _, _, _, _, .increment _, _, _, hmem, _, _, _, _
  | _, _, _, _, .decrement _, _, _, hmem, _, _, _, _
  | _, _, _, _, .read _ _, _, _, hmem, _, _, _, _
  | _, _, _, _, .exit _, _, _, hmem, _, _, _, _ => by cases hmem
  | _, _, _, _, .ifThen he hb, henv, _, hmem, _, _, _, h
  | _, _, _, _, .while he hb, henv, _, hmem, _, _, _, h => by
    rcases List.mem_append.mp hmem with hmem | hmem
    · exact raises_parts henv he hmem h
    · exact raises_block hb henv hmem h
  | _, _, _, _, .ifElse he hyes hno, henv, _, hmem, _, _, _, h => by
    rcases List.mem_append.mp hmem with hmem | hmem
    · exact raises_parts henv he hmem h
    · rcases List.mem_append.mp hmem with hmem | hmem
      · exact raises_block hyes henv hmem h
      · exact raises_block hno henv hmem h

theorem raises_block {ret : Ty} : ∀ {env : Env} {frame frame' : Frame} {b : Block Stmt},
    BlockTyped ret env frame b frame' → env.Counts arity → ∀ {e : Exp}, e ∈ Stmt.blockExps b →
    ∀ {ls ls' : Labels} {q : List Item}, exp ls e = .ok (q, ls') → Raises arity q 1
  | _, _, _, _, .intro hds hss, henv, _, hmem, _, _, _, h =>
    raises_stmts hss (hds.counts henv) hmem h

theorem raises_stmts {ret : Ty} : ∀ {env : Env} {frame frame' : Frame} {ss : List Stmt},
    StmtsTyped ret env frame ss frame' → env.Counts arity → ∀ {e : Exp}, e ∈ Stmt.listExps ss →
    ∀ {ls ls' : Labels} {q : List Item}, exp ls e = .ok (q, ls') → Raises arity q 1
  | _, _, _, _, .nil, _, _, hmem, _, _, _, _ => by cases hmem
  | _, _, _, _, .cons hs hss, henv, _, hmem, _, _, _, h => by
    rcases List.mem_append.mp hmem with hmem | hmem
    · exact raises_stmt hs henv hmem h
    · exact raises_stmts hss henv hmem h

end

/-! ## Functions -/

/-- What comes before the code of a function's body: its labels, and the making of its frame. -/
def front (d : FnDecl) (frame : Frame) : List Item :=
  Asm.functionEntry (functionLabel d.name.name) (d.name.name == "main")
    ++ Asm.prologue frame.formals frame.locals

/-- The points of a function's code from the first one on have heights: the same along all paths,
never below zero, none at the ends of statements and at the branches to the end of the function,
and one more at the end of an expression than at its beginning. -/
structure Balanced (arity : String → Nat) (d : FnDecl) (ls : Labels) (code : List Item)
    (first : Nat) (height : Nat → Int) : Prop where
  charted : Charted arity code first height
  closed : ∀ {i item l}, first ≤ i → code[i]? = some item → l ∈ item.targets →
    ∃ j comment, first ≤ j ∧ code[j]? = some (.label l comment)
  exit : ∀ {i item}, first ≤ i → code[i]? = some item →
    exitLabel d.name.name ∈ item.targets → height i = 0
  stmt : ∀ {pre ls' s}, Stands d.name.name ls d.body.stmts pre ls' s →
    ∃ q ls'' post, Generate.stmt d.name.name ls' s = .ok (q, ls'') ∧
      code.drop first = pre ++ (q ++ post) ∧
      height (first + pre.length) = 0 ∧ height (first + (pre.length + q.length)) = 0
  exp : ∀ {e}, e ∈ Stmt.blockExps d.body → ∀ {ls' ls'' q}, Generate.exp ls' e = .ok (q, ls'') →
    ∀ {pre post}, code = pre ++ (q ++ post) → first ≤ pre.length →
      height (pre.length + q.length) = height pre.length + 1

theorem isName_start : IsName "_start" where
  spelled := by
    have hall : ['s', 't', 'a', 'r', 't'].all Token.continuesName = true := by decide
    exact ⟨'_', _, by simp, by decide, List.all_eq_true.mp hall⟩
  notKeyword := by decide

/-- A function begins with labels that functions may have. -/
theorem labels_front {d : FnDecl} (hd : IsName d.name.name) (frame : Frame) {l : String}
    (hl : l ∈ labels (front d frame)) : ∃ f, IsName f ∧ l = functionLabel f := by
  have hprologue : labels (Asm.prologue frame.formals frame.locals) = [] := by
    rw [Asm.prologue]
    split <;> rfl
  rw [front, labels_append, hprologue, List.append_nil, Asm.functionEntry] at hl
  split at hl
  · next hmain =>
    have hname : d.name.name = "main" := eq_of_beq hmain
    replace hl : l ∈ ["main", "__start"] := hl
    simp only [List.mem_cons, List.not_mem_nil, or_false] at hl
    rcases hl with rfl | rfl
    · exact ⟨"main", hname ▸ hd, rfl⟩
    · exact ⟨"_start", isName_start, rfl⟩
  · replace hl : l ∈ [functionLabel d.name.name] := hl
    exact ⟨d.name.name, hd, List.mem_singleton.mp hl⟩

/-- The labels of a function's body may be given their heights, and those of functions heights
below zero. -/
theorem exists_heights {fn : String} {m n : Nat} {P : (String → Int) → Prop}
    (h : Solvable [(exitLabel fn, 0)] m n P) :
    ∃ lab : String → Int, P lab ∧ lab (exitLabel fn) = 0 ∧
      ∀ f, IsName f → lab (functionLabel f) < 0 := by
  classical
  obtain ⟨-, δ, hP⟩ := h
  let lab (l : String) : Int :=
    if l = exitLabel fn then 0
    else if hk : ∃ k, l = numbered k then δ hk.choose else -1
  have hexit : lab (exitLabel fn) = 0 := if_pos rfl
  have hnumbered : ∀ k, lab (numbered k) = δ k := by
    intro k
    have hk : ∃ k', numbered k = numbered k' := ⟨k, rfl⟩
    have hchoose : hk.choose = k := (numbered_injective hk.choose_spec).symm
    show (if numbered k = exitLabel fn then 0 else _) = δ k
    rw [if_neg (numbered_ne_exitLabel k fn), dif_pos hk, hchoose]
  refine ⟨lab, hP lab (List.forall_mem_singleton.mpr hexit) fun k _ _ => hnumbered k, hexit, ?_⟩
  intro f hf
  have hnone : ¬ ∃ k, functionLabel f = numbered k :=
    fun ⟨k, hk⟩ => numbered_ne_functionLabel k f hk.symm
  show (if functionLabel f = exitLabel fn then 0 else _) < 0
  rw [if_neg (functionLabel_ne_exitLabel hf fn), dif_neg hnone]
  decide

/-- The code after that of a function's body. -/
theorem settled_epilogue (exit : String) (formals : Int) (isMain : Bool) {m : Nat} :
    (Solvable [(exit, 0)] m m fun lab => Levels arity lab 0 (Asm.epilogue exit formals isMain) 0) ∧
      Closed [exit] (Asm.epilogue exit formals isMain) := by
  have hmove : ∀ dst src, Shifts arity [(exit, 0)] m m (move dst src) 0 0 :=
    fun _ _ => .single rfl nofun rfl rfl
  have hfront := ((((Shifts.label (List.mem_singleton_self (exit, 0))
    (some "function epilogue")).append (shifts_loadWord .ra (.indexed .fp (-formals))
    (some "restore return address"))).append (hmove .t0 .fp)).append
    (shifts_loadWord .fp (.indexed .fp (-(formals + wordSize)))
    (some "restore frame pointer"))).append (hmove .sp .t0)
  have hknown : ∀ p ∈ [(exit, (0 : Nat))], (p.1, (p.2 : Int)) ∈ [(exit, (0 : Int))] :=
    List.forall_mem_singleton.mpr (List.mem_singleton_self _)
  rw [Asm.epilogue]
  split
  · have hexit : Shifts arity [] m m (syscall Service.exit.number (some "exit")) 0 0 :=
      shifts_syscall _ _
    exact ⟨((hfront.solvable hknown).and (hexit.solvable nofun)).mono fun _ _ h => h.1.append h.2,
      hfront.closed.append (hexit.closed.mono nofun)⟩
  · have hreturn : ∀ lab, Levels arity lab 0 [instr .jr [.reg .ra]] 0 :=
      fun _ => ⟨⟨Int.le_refl 0, nofun, nofun⟩, rfl⟩
    exact ⟨(hfront.solvable hknown).mono fun lab _ h => h.append (hreturn lab),
      hfront.closed.append (.single nofun)⟩

/-- Points after the front of code are points of what comes after it. -/
theorem getElem?_of_front {front q : List Item} {i : Nat} {item : Item} (hi : front.length ≤ i)
    (h : (front ++ q)[i]? = some item) : q[i - front.length]? = some item := by
  rwa [List.getElem?_append_right hi] at h

theorem balanced_of_flat {d : FnDecl} {ls : Labels} {lab : String → Int}
    {body epilogue front : List Item}
    (hbody : Flat arity lab d.name.name ls d.body.stmts body)
    (hepilogue : Levels arity lab 0 epilogue 0) (hexit : lab (exitLabel d.name.name) = 0)
    (hfront : ∀ l ∈ labels front, lab l < 0) (hclosed : Closed [] (body ++ epilogue))
    (hraises : ∀ {e}, e ∈ Stmt.blockExps d.body → ∀ {ls ls' q}, exp ls e = .ok (q, ls') →
      Raises arity q 1) :
    Balanced arity d ls (front ++ (body ++ epilogue)) front.length
      fun i => heightAt arity lab 0 (body ++ epilogue) (i - front.length) := by
  have hlevels := hbody.levels.append hepilogue
  have hcharted := hlevels.charted hfront
  refine ⟨hcharted, ?_, ?_, ?_, ?_⟩
  · intro i item l hi hitem hl
    have hmem := List.mem_of_getElem? (getElem?_of_front hi hitem)
    obtain ⟨comment, hlabel⟩ := mem_labels.mp ((hclosed item hmem l hl).resolve_left nofun)
    obtain ⟨j, hj⟩ := List.getElem?_of_mem hlabel
    refine ⟨front.length + j, comment, Nat.le_add_right _ _, ?_⟩
    rw [List.getElem?_append_right (Nat.le_add_right _ _), Nat.add_sub_cancel_left, hj]
  · intro i item hi hitem hl
    have hlevel := (hlevels.getElem? (getElem?_of_front hi hitem)).1
    exact (hlevel.target _ hl).symm.trans hexit
  · intro pre ls' s hstands
    obtain ⟨q, ls'', post, hcode, hsplit, hpre, hq, hpost⟩ := hbody.cut hstands
    refine ⟨q, ls'', post ++ epilogue, hcode, ?_, ?_, ?_⟩
    · rw [List.drop_left, hsplit, List.append_assoc, List.append_assoc]
    · have hrest := hq.append (hpost.append hepilogue)
      have hheight := heightAt_append hpre hrest 0
      rw [heightAt, Nat.add_zero] at hheight
      rw [Nat.add_sub_cancel_left, hsplit, List.append_assoc, List.append_assoc]
      exact hheight
    · have hheight := heightAt_append (hpre.append hq) (hpost.append hepilogue) 0
      rw [heightAt, Nat.add_zero, List.length_append] at hheight
      rw [Nat.add_sub_cancel_left, hsplit, ← List.append_assoc, List.append_assoc]
      exact hheight
  · intro e he ls' ls'' q hcode pre post hsplit hle
    exact hraises he hcode hcharted hsplit hle

/-- The code of a typed function is balanced. -/
theorem balanced_function {env : Env} (henv : env.Counts arity) {d : FnDecl} {sig : Signature}
    (hd : FnTyped env d sig) {frame : Frame} {ls ls' : Labels} {code : List Item}
    (h : function d frame ls = .ok (code, ls')) :
    ∃ height, Balanced arity d ls code (front d frame).length height := by
  obtain ⟨body, hbody, rfl⟩ := function_eq_ok.mp h
  obtain ⟨env', fr, fr', hformals, hblock, -⟩ := hd.body
  have henv' : env'.Counts arity := hformals.counts henv
  have hmem := List.mem_singleton_self (exitLabel d.name.name, (0 : Int))
  have hsettled := settled_block hblock henv' hmem hbody
  obtain ⟨hepilogue, hclosed⟩ :=
    settled_epilogue (exitLabel d.name.name) frame.formals (d.name.name == "main")
  obtain ⟨lab, ⟨hflat, hepilogue⟩, hexit, hbelow⟩ := exists_heights (hsettled.flat.and hepilogue)
  have hfront : ∀ l ∈ labels (front d frame), lab l < 0 := by
    intro l hl
    obtain ⟨f, hf, rfl⟩ := labels_front hd.named frame hl
    exact hbelow f hf
  have hall : Closed [] (body ++ Asm.epilogue (exitLabel d.name.name) frame.formals
      (d.name.name == "main")) :=
    (hsettled.closed.append hclosed).mono
      (List.forall_mem_singleton.mpr (.inr (by simp [Asm.epilogue])))
  have hbalanced := balanced_of_flat hflat hepilogue hexit hfront hall
    fun he _ _ _ hcode => raises_block hblock henv' he hcode
  rw [front, ← List.append_assoc] at hbalanced
  exact ⟨_, hbalanced⟩

end Generate

end CMinusMinus
