import CMinusMinus.Proofs.Generation.Segments
import CMinusMinus.Proofs.Layout.Separation
import Mathlib.Data.List.Forall2

/-!
# References in generated code

The items of a program without errors refer to one another as they should
(`Compilation.emit_linked`).  Branches stay in the code of their function, calls lead to the
functions that the callees are bound to, and addresses are those of globals and string constants.
Code and data are in their segments, and the code of each function ends by leaving it.
-/

namespace CMinusMinus

open Asm Generate Outcome

/-! ## Callees -/

/-- The name of a callee is bound to a function that the scopes have. -/
def Ident.Calls (env : Env) (f : Ident) : Prop :=
  ∃ sig, f.binding = .bound (.function sig) ∧ env.find? f.name = some (.function sig)

theorem Exp.calls_of_isLocation {e : Exp} (h : e.isLocation = true) : e.calls = [] := by
  cases e with
  | ident | access => rfl
  | _ => cases h

mutual

theorem HasType.calls {env : Env} : ∀ {e : Exp} {t : Ty}, HasType env e t →
    ∀ f ∈ e.calls, f.Calls env
  | _, _, .int | _, _, .string | _, _, .bool => List.forall_mem_nil _
  | _, _, .location h _ => by
    rw [Exp.calls_of_isLocation h.isLocation]
    exact List.forall_mem_nil _
  | _, _, .assign _ _ hr => hr.calls
  | _, _, .call hfind hbound hargs => by
    rw [Exp.calls]
    exact List.forall_mem_append.mpr
      ⟨hargs.calls, List.forall_mem_singleton.mpr ⟨_, hbound, hfind⟩⟩
  | _, _, .neg h | _, _, .not h => h.calls
  | _, _, .binary _ hl hr => by
    rw [Exp.calls]
    exact List.forall_mem_append.mpr ⟨hr.calls, hl.calls⟩

theorem HaveTypes.calls {env : Env} : ∀ {es : List Exp} {ts : List Ty}, HaveTypes env es ts →
    ∀ f ∈ Exp.listCalls es, f.Calls env
  | _, _, .nil => List.forall_mem_nil _
  | _, _, .cons h hs => by
    rw [Exp.listCalls]
    exact List.forall_mem_append.mpr ⟨h.calls, hs.calls⟩

end

mutual

theorem StmtTyped.calls {ret : Ty} : ∀ {env : Env} {frame frame' : Frame} {s : Stmt},
    StmtTyped ret env frame s frame' → ∀ f ∈ s.calls, f.Calls env
  | _, _, _, _, .assign h | _, _, _, _, .write h _ _ | _, _, _, _, .call h
  | _, _, _, _, .return _ h => h.calls
  | _, _, _, _, .increment _ | _, _, _, _, .decrement _ | _, _, _, _, .read _ _
  | _, _, _, _, .exit _ => List.forall_mem_nil _
  | _, _, _, _, .ifThen h hb | _, _, _, _, .while h hb => by
    rw [Stmt.calls]
    exact List.forall_mem_append.mpr ⟨h.calls, hb.calls⟩
  | _, _, _, _, .ifElse h hyes hno => by
    rw [Stmt.calls]
    exact List.forall_mem_append.mpr ⟨h.calls, List.forall_mem_append.mpr ⟨hyes.calls, hno.calls⟩⟩

/-- What the statements of a block call is visible around the block. -/
theorem BlockTyped.calls {ret : Ty} : ∀ {env : Env} {frame frame' : Frame} {b : Block Stmt},
    BlockTyped ret env frame b frame' → ∀ f ∈ Stmt.blockCalls b, f.Calls env
  | _, _, _, _, .intro hds hss => by
    rw [Stmt.blockCalls]
    intro f hf
    obtain ⟨sig, hbound, hfind⟩ := hss.calls f hf
    exact ⟨sig, hbound, hds.find?_function hfind⟩

theorem StmtsTyped.calls {ret : Ty} : ∀ {env : Env} {frame frame' : Frame} {ss : List Stmt},
    StmtsTyped ret env frame ss frame' → ∀ f ∈ Stmt.listCalls ss, f.Calls env
  | _, _, _, _, .nil => List.forall_mem_nil _
  | _, _, _, _, .cons hs hss => by
    rw [Stmt.listCalls]
    exact List.forall_mem_append.mpr ⟨hs.calls, hss.calls⟩

end

theorem FnTyped.calls {env : Env} {d : FnDecl} {sig : Signature} (h : FnTyped env d sig) :
    ∀ f ∈ d.calls, f.Calls env := by
  obtain ⟨env', frame, frame', hformals, hbody, -⟩ := h.body
  intro f hf
  obtain ⟨sig, hbound, hfind⟩ := hbody.calls f hf
  exact ⟨sig, hbound, hformals.find?_function hfind⟩

/-! ## Names of functions -/

/-- The name of a function without reports is bound to what the scopes have under it. -/
theorem Resolve.bind_fnDecl {env : Env} {d : FnDecl} (hd : d.Formed)
    (hr : (fnDecl env d).Silent) : ∃ sig, env.inner? d.name.name = none ∧
      (fnDecl env d).value.1.name = d.name.bind (.function sig) ∧
      (fnDecl env d).value.2 = env.insert d.name.name (.function sig) := by
  obtain ⟨returns, hreturns, -⟩ := TypeNode.type_of_isWordType hd.returns
  rw [(fnDecl_of_formed hd hreturns hr.fault).2]
  unfold fnDecl at hr
  rw [hreturns] at hr
  dsimp only at hr
  rw [silent_andThen] at hr
  obtain ⟨hfresh, hnamed⟩ := name_of_silent hr.1
  rw [hnamed]
  exact ⟨_, hfresh, rfl, rfl⟩

theorem Check.name_fnDecl (d : FnDecl) : (fnDecl d).value.name = d.name := by
  unfold fnDecl
  split <;> rfl

theorem calls_decls {env : Env} (hone : List.length env = 1) (henv : env.Sound) {ds : List Decl}
    (h : ∀ d ∈ ds, d.Formed) (hr : (Resolve.decls env ds).Silent)
    (hc : (Check.decls (Resolve.decls env ds).value.1).Silent) {d : FnDecl}
    (hd : .fn d ∈ (Check.decls (Resolve.decls env ds).value.1).value) :
    d.name.Calls (Resolve.decls env ds).value.2.1 := by
  induction ds generalizing env with
  | nil => exact absurd hd List.not_mem_nil
  | cons d' ds ih =>
    obtain ⟨hformed, hds⟩ := List.forall_mem_cons.mp h
    rw [Resolve.decls, silent_andThen, silent_map] at hr
    rw [Resolve.decls, value_andThen hr.1.fault] at hc hd ⊢
    simp only [value_map] at hc hd ⊢
    rw [Check.decls, silent_andThen, silent_map] at hc
    rw [Check.decls, value_andThen hc.1.fault, value_map] at hd
    obtain ⟨name, s, hinsert, hs⟩ := Resolve.insert_decl henv hformed hr.1 hc.1
    have hone' : List.length (Resolve.decl env d').value.2 = 1 := by
      rw [hinsert]
      exact Env.length_insert hone name s
    have hsound := Resolve.sound_decl henv hformed hr.1 hc.1
    rcases List.mem_cons.mp hd with hhead | htail
    · have hrest := declsTyped_of_silent hsound hds hr.2 hc.2
      have hfirst := hr.1
      cases d' with
      | unknown => exact hformed.elim
      | var d' =>
        rw [Decl.Formed] at hformed
        simp only [Resolve.decl, hformed.role, Check.decl, value_map, value_pure] at hhead
        cases hhead
      | struct d' =>
        simp only [Resolve.decl, Check.decl, value_map, value_pure] at hhead
        cases hhead
      | fn d' =>
        rw [Decl.Formed] at hformed
        simp only [Resolve.decl, Check.decl, value_map, silent_map] at hhead hfirst hrest hone' ⊢
        obtain ⟨sig, hfresh, hname, henv'⟩ := Resolve.bind_fnDecl hformed hfirst
        cases hhead
        rw [Check.name_fnDecl, hname]
        refine ⟨sig, rfl, hrest.within hone' ?_⟩
        rw [henv', Scopes.find?_insert (List.length_pos_iff.mp (by omega)) hfresh]
        exact if_pos rfl
    · exact ih hone' hsound hds hr.2 hc.2 htail

/-! ## Linked code -/

/-- What a function ends with: the main function ends the program, and others return. -/
def Leaves (isMain : Bool) (q : List Item) : Prop :=
  if isMain then ∃ before comment comment', q = before ++
    [.instr .li [.reg .v0, .imm Service.exit.number] comment, .instr .syscall [] comment']
  else ∃ before comment, q = before ++ [.instr .jr [.reg .ra] comment]

/-- The code of the function begins with its label and ends by leaving the function.  Its branches
stay in it, its calls are those of its callees, which are bound to functions of the program, and its
addresses are those of globals and of string constants among the items. -/
structure FnDecl.Linked (p : Program) (items : List Item) (d : FnDecl) (q : List Item) : Prop where
  entry : ∃ rest, q = functionEntry (functionLabel d.name.name) (d.name.name == "main") ++ rest
  leaves : Leaves (d.name.name == "main") q
  branches : ∀ i ∈ q, ∀ l ∈ i.targets, CodeLabel q l
  callees : q.flatMap Item.callees = d.calls.map fun f => functionLabel f.name
  calls : ∀ f ∈ d.calls, ∃ d' ∈ p.functions, d'.name.name = f.name ∧
    d'.name.binding = f.binding ∧ ∃ sig, f.binding = .bound (.function sig)
  addresses : ∀ i ∈ q, ∀ l ∈ i.addressed,
    (∃ v, .var v ∈ p.decls ∧ l = globalLabel v.name.name) ∨
      ∃ text, stringConstant l text <:+: items

/-- The items of a declaration: the storage of a global, or the code of a function. -/
def Decl.Linked (p : Program) (items : List Item) : Decl → List Item → Prop
  | .var d, q => ∃ size, q = globalSlot (globalLabel d.name.name) size
  | .fn d, q => d.Linked p items q
  | .struct _, q => q = []
  | .unknown _, _ => False

/-- The items are arranged in segments, and are those of the declarations one after another. -/
structure Program.Linked (p : Program) (items : List Item) : Prop where
  arranged : ∃ g, Arranged .text items g
  pieces : ∃ qs, items = qs.flatten ∧ List.Forall₂ (Decl.Linked p items) p.decls qs

/-! ## Comments -/

theorem Item.callees_bare (i : Item) : i.bare.callees = i.callees := by cases i <;> rfl

theorem Item.addressed_bare (i : Item) : i.bare.addressed = i.addressed := by cases i <;> rfl

theorem Leaves.bare {isMain : Bool} {q : List Item} (h : Leaves isMain q) :
    Leaves isMain (q.map Item.bare) := by
  cases isMain with
  | true =>
    obtain ⟨before, comment, comment', rfl⟩ := h
    exact ⟨before.map Item.bare, none, none, List.map_append⟩
  | false =>
    obtain ⟨before, comment, rfl⟩ := h
    exact ⟨before.map Item.bare, none, List.map_append⟩

theorem FnDecl.Linked.bare {p : Program} {items q : List Item} {d : FnDecl}
    (h : d.Linked p items q) : d.Linked p (items.map Item.bare) (q.map Item.bare) where
  entry := by
    obtain ⟨rest, rfl⟩ := h.entry
    refine ⟨rest.map Item.bare, ?_⟩
    rw [List.map_append]
    cases d.name.name == "main" <;> rfl
  leaves := h.leaves.bare
  branches := by
    refine List.forall_mem_map.mpr fun i hi l hl => ?_
    rw [Item.targets_bare] at hl
    exact (h.branches i hi l hl).bare
  callees := by
    rw [List.flatMap_map, ← h.callees]
    exact congrArg List.flatten (List.map_congr_left fun i _ => i.callees_bare)
  calls := h.calls
  addresses := by
    refine List.forall_mem_map.mpr fun i hi l hl => ?_
    rw [Item.addressed_bare] at hl
    refine (h.addresses i hi l hl).imp id ?_
    rintro ⟨text, htext⟩
    exact ⟨text, htext.map Item.bare⟩

theorem Decl.Linked.bare {p : Program} {items q : List Item} {d : Decl} (h : d.Linked p items q) :
    d.Linked p (items.map Item.bare) (q.map Item.bare) := by
  cases d with
  | var d =>
    obtain ⟨size, rfl⟩ := h
    exact ⟨size, rfl⟩
  | fn d => exact FnDecl.Linked.bare h
  | struct d =>
    cases h
    rfl
  | unknown => exact h.elim

theorem Program.Linked.finish {p : Program} {items : List Item} (h : p.Linked items)
    (o : CodeOptions) : p.Linked (o.finish items) := by
  rw [CodeOptions.finish]
  split
  · exact h
  · obtain ⟨⟨g, harranged⟩, qs, rfl, hqs⟩ := h
    refine ⟨⟨g, harranged.bare⟩, qs.map (List.map Item.bare), List.map_flatten, ?_⟩
    exact List.forall₂_map_right_iff.mpr (hqs.imp fun _ _ h => h.bare)

/-! ## Functions -/

theorem leaves_epilogue (exit : String) (formals : Int) (isMain : Bool) (before : List Item) :
    Leaves isMain (before ++ epilogue exit formals isMain) := by
  cases isMain with
  | true =>
    refine ⟨before ++ (Asm.label exit (some "function epilogue")
      ++ loadWord .ra (.indexed .fp (-formals)) (some "restore return address") ++ move .t0 .fp
      ++ loadWord .fp (.indexed .fp (-(formals + wordSize))) (some "restore frame pointer")
      ++ move .sp .t0), some "exit", none, ?_⟩
    rw [List.append_assoc]
    rfl
  | false =>
    refine ⟨before ++ (Asm.label exit (some "function epilogue")
      ++ loadWord .ra (.indexed .fp (-formals)) (some "restore return address") ++ move .t0 .fp
      ++ loadWord .fp (.indexed .fp (-(formals + wordSize))) (some "restore frame pointer")
      ++ move .sp .t0), none, ?_⟩
    rw [List.append_assoc]
    rfl

/-- The making and unmaking of a frame refer to no label. -/
theorem quiet_front (d : FnDecl) (frame : Frame) : ∀ i ∈ front d frame,
    i.targets = [] ∧ i.callees = [] ∧ i.addressed = [] := by
  refine List.forall_mem_append.mpr ⟨?_, ?_⟩
  · rw [functionEntry]
    split <;> simp [Item.targets, Item.callees, Item.addressed]
  · rw [prologue]
    split <;> simp [Asm.push, instr, Item.targets, Item.callees, Item.addressed, Opcode.branches,
      Operand.label?]

theorem quiet_epilogue (exit : String) (formals : Int) (isMain : Bool) :
    ∀ i ∈ epilogue exit formals isMain, i.targets = [] ∧ i.callees = [] ∧ i.addressed = [] := by
  rw [epilogue]
  split <;> simp [Asm.label, loadWord, loadImm, move, syscall, instr, Item.targets, Item.callees,
    Item.addressed, Opcode.branches, Operand.label?]

theorem FnDecl.arranged (d : FnDecl) (ls : Labels) {g : Segment} :
    Arranged g (d.sketch.run [] ls).1 .text := by
  have hbody : (Stmt.blockSketch d.name.name d.body).Bodily :=
    (@steady_block (fun _ => True) _ _ fun _ _ _ _ => trivial).instrs
  exact (((Arranged.functionEntry _ _).append (.prologue _ _)).append
    (Sketch.arranged hbody)).append (.epilogue _ _ _)

section Function

variable {p : Program} {items : List Item} {d : FnDecl} {ls : Labels}

/-- The code of a function with sound references is linked. -/
theorem FnDecl.linked
    (hcalls : ∀ f ∈ d.calls, ∃ d' ∈ p.functions, d'.name.name = f.name ∧
      d'.name.binding = f.binding ∧ ∃ sig, f.binding = .bound (.function sig))
    (hlocations : ∀ e ∈ d.locations, ∀ l, e.Names l →
      ∃ v, .var v ∈ p.decls ∧ l = globalLabel v.name.name)
    (hstrings : ∀ c ∈ (d.sketch.run [] ls).2.strings, stringConstant c.2 c.1 <:+: items) :
    d.Linked p items (d.sketch.run [] ls).1 := by
  have hsteady := @steady_block _ d.name.name _ hlocations
  have hscoped := scoped_block d.name.name d.body
  generalize hframe : d.frame.getD {} = frame
  generalize hbody : (Stmt.blockSketch d.name.name d.body).run [] ls = body
  have hrun : d.sketch.run [] ls = (front d frame ++ body.1 ++
      epilogue (exitLabel d.name.name) frame.formals (d.name.name == "main"), body.2) := by
    rw [FnDecl.sketch, hframe, Sketch.run_append_items, Sketch.run_append, Sketch.run_items, hbody]
  have hfront : Arranged .text (front d frame) .text :=
    (Arranged.functionEntry _ _).append (.prologue _ _)
  have hexit : CodeLabel (epilogue (exitLabel d.name.name) frame.formals (d.name.name == "main"))
      (exitLabel d.name.name) := ⟨[], _, _, rfl, .nil⟩
  have hbodily := hsteady.instrs
  have harranged : Arranged .text body.1 .text := hbody ▸ Sketch.arranged hbodily
  rw [hrun] at hstrings ⊢
  refine ⟨⟨prologue frame.formals frame.locals ++ (body.1 ++ epilogue (exitLabel d.name.name)
    frame.formals (d.name.name == "main")), ?_⟩, leaves_epilogue _ _ _ _, ?_, ?_, hcalls, ?_⟩
  · simp only [front, List.append_assoc]
  · refine List.forall_mem_append.mpr ⟨List.forall_mem_append.mpr ⟨?_, fun i hi l hl => ?_⟩, ?_⟩
    · intro i hi l hl
      rw [(quiet_front d frame i hi).1] at hl
      cases hl
    · rw [← hbody] at hi
      rcases Sketch.targets_run [] hbodily hsteady.targets hscoped i hi l hl
        with hl | hl | hl
      · cases List.mem_singleton.mp hl
        exact hexit.right (hfront.append harranged)
      · cases hl
      · rw [hbody] at hl
        exact (hl.right hfront).left
    · intro i hi l hl
      rw [(quiet_epilogue _ _ _ i hi).1] at hl
      cases hl
  · have hnone : ∀ {q : List Item}, (∀ i ∈ q, i.targets = [] ∧ i.callees = [] ∧
        i.addressed = []) → q.flatMap Item.callees = [] :=
      fun hq => List.flatMap_eq_nil_iff.mpr fun i hi => (hq i hi).2.1
    rw [List.flatMap_append, List.flatMap_append, hnone (quiet_front d frame),
      hnone (quiet_epilogue _ _ _), ← hbody, Sketch.callees_run hscoped, hsteady.callees]
    simp [FnDecl.calls]
  · refine List.forall_mem_append.mpr ⟨List.forall_mem_append.mpr ⟨?_, fun i hi l hl => ?_⟩, ?_⟩
    · intro i hi l hl
      rw [(quiet_front d frame i hi).2.2] at hl
      cases hl
    · rw [← hbody] at hi hstrings
      rcases Sketch.addressed_run hscoped i hi l hl with ⟨j, hj, hl⟩ | ⟨text, htext⟩
      · exact .inl (hsteady.addressed j hj l hl)
      · exact .inr ⟨text, hstrings _ htext⟩
    · intro i hi l hl
      rw [(quiet_epilogue _ _ _ i hi).2.2] at hl
      cases hl

end Function

/-! ## Programs -/

/-- Each variable at the top of typed declarations introduces a global of its name, whose size can
be written. -/
theorem DeclsTyped.introduces {env env' : Env} {ds : List Decl} (h : DeclsTyped env ds env')
    {v : VarDecl} (hv : .var v ∈ ds) : ∃ s, v.name.binding = .bound (.storage s) ∧
      s.place = .static ∧ s.name = v.name.name ∧ Text.isWritten s.shape.size = true := by
  induction h with
  | nil => cases hv
  | var _ _ hd hplace hwritten _ ih =>
    rcases List.mem_cons.mp hv with heq | hv
    · cases heq
      exact ⟨_, hd.binding, hplace, hd.name, hwritten⟩
    · exact ih hv
  | fn _ _ _ ih | struct _ _ _ _ ih =>
    rcases List.mem_cons.mp hv with heq | hv
    · cases heq
    · exact ih hv

/-- Global storage is that of a variable at the top. -/
theorem Decl.exists_of_mem_globals {ds : List Decl} {s : Storage} (hs : s ∈ Decl.globals ds) :
    ∃ v, .var v ∈ ds ∧ v.name.binding = .bound (.storage s) := by
  obtain ⟨d, hd, hs⟩ := List.mem_filterMap.mp hs
  cases d with
  | var v =>
    refine ⟨v, hd, ?_⟩
    dsimp only at hs
    rw [VarDecl.storage?] at hs
    split at hs
    · next hbound =>
      cases hs
      exact hbound
    · cases hs
  | fn | struct | unknown => cases hs

theorem Generate.global_of_bound {v : VarDecl} {s : Storage}
    (hbound : v.name.binding = .bound (.storage s)) (hplace : s.place = .static)
    (hwritten : Text.isWritten s.shape.size = true) (hname : s.name = v.name.name) :
    global v = .ok (globalSlot (globalLabel v.name.name) s.shape.size) := by
  have hoperand : placeOperand? s = some (.label (globalLabel s.name)) := by
    rw [placeOperand?, hplace]
  rw [← hname]
  exact global_eq_ok.mpr ⟨s, _, storageOf_of_bound hbound hoperand, hwritten, rfl⟩

/-- The declarations have linked items one after another, if the code of each function is linked
whatever is remembered before it. -/
theorem Generate.pieces_decls {p : Program} {items : List Item} {ds : List Decl} {ls : Labels}
    {current current' : Option String} {q : List Item}
    (hcode : decls ls current ds = .ok (q, current')) (hq : q <:+: items)
    (hls : ∀ c ∈ ls.strings, stringConstant c.2 c.1 <:+: items)
    (hvars : ∀ v, .var v ∈ ds → ∃ s, v.name.binding = .bound (.storage s) ∧ s.place = .static ∧
      s.name = v.name.name ∧ Text.isWritten s.shape.size = true)
    (hfns : ∀ d, .fn d ∈ ds → ∀ ls : Labels,
      (∀ c ∈ (d.sketch.run [] ls).2.strings, stringConstant c.2 c.1 <:+: items) →
        d.Linked p items (d.sketch.run [] ls).1) :
    (∀ g, ∃ g', Arranged g q g') ∧
      ∃ qs, q = qs.flatten ∧ List.Forall₂ (Decl.Linked p items) ds qs := by
  induction ds generalizing ls current q with
  | nil =>
    cases hcode
    exact ⟨fun g => ⟨g, .nil⟩, [], rfl, .nil⟩
  | cons d ds ih =>
    obtain ⟨first, ls', current₁, rest, hfirst, hrest, rfl⟩ := decls_cons hcode
    have hinfix : first <:+: items := (List.prefix_append _ _).isInfix.trans hq
    have hrun := run_decl hfirst
    have hknown : ∀ c ∈ ls'.strings, stringConstant c.2 c.1 <:+: items := by
      intro c hc
      have hcases := (Sketch.strings_run [] ls d.sketch).2 c
      rw [hrun] at hcases
      exact (hcases hc).elim (hls c) fun h => h.trans hinfix
    obtain ⟨harranged, qs, rfl, hqs⟩ := ih hrest ((List.suffix_append _ _).isInfix.trans hq) hknown
      (fun v hv => hvars v (List.mem_cons_of_mem _ hv))
      (fun d hd => hfns d (List.mem_cons_of_mem _ hd))
    have hhead : d.Linked p items first ∧ ∀ g, ∃ g', Arranged g first g' := by
      cases hfirst with
      | @var v _ hglobal =>
        obtain ⟨s, hbound, hplace, hname, hwritten⟩ := hvars v List.mem_cons_self
        cases hglobal.symm.trans (global_of_bound hbound hplace hwritten hname)
        exact ⟨⟨_, rfl⟩, fun g => ⟨.data, .globalSlot _ _⟩⟩
      | @fn d frame code ls'' hframe hfunction =>
        have hrun : d.sketch.run [] ls = (first, ls') := hrun
        have hlinked := hfns d List.mem_cons_self ls
        have harranged := fun g => d.arranged ls (g := g)
        rw [hrun] at hlinked harranged
        exact ⟨hlinked hknown, fun g => ⟨.text, harranged g⟩⟩
      | struct => exact ⟨rfl, fun g => ⟨g, .nil⟩⟩
    refine ⟨fun g => ?_, first :: qs, rfl, .cons hhead.1 hqs⟩
    obtain ⟨g₁, hg₁⟩ := hhead.2 g
    obtain ⟨g₂, hg₂⟩ := harranged g₁
    exact ⟨g₂, hg₁.append hg₂⟩

theorem Program.mem_functions {p : Program} {d : FnDecl} :
    d ∈ p.functions ↔ .fn d ∈ p.decls := by
  rw [Program.functions, List.mem_filterMap]
  constructor
  · rintro ⟨d', hd', hfn⟩
    cases d' with
    | fn d' =>
      cases hfn
      exact hd'
    | var | struct | unknown => cases hfn
  · exact fun hd => ⟨.fn d, hd, rfl⟩

/-- A program that was read is typed if nothing is reported of it, and the names of its functions
are bound to what its scope has under them. -/
theorem Program.Formed.typed_named {p : Program} (h : p.Formed) (hfault : p.resolve.fault = none)
    {hasMain : Bool} (hr : p.resolve.reports = [])
    (hc : (p.resolve.program.check hasMain).reports = []) :
    ∃ env, (p.resolve.program.check hasMain).value.Typed env ∧
      ∀ d ∈ (p.resolve.program.check hasMain).value.functions, d.name.Calls env := by
  obtain ⟨hresolve, hcheck⟩ := h.silent hfault hr hc
  rw [Program.check, silent_andThen] at hcheck
  rw [Program.check, value_andThen hcheck.1.fault]
  exact ⟨_, declsTyped_of_silent Env.sound_empty h hresolve hcheck.1, fun d hd =>
    calls_decls rfl Env.sound_empty h hresolve hcheck.1 (mem_functions.mp hd)⟩

section Typed

variable {p : Program} {env env₁ : Env} {d : FnDecl} {sig : Signature}

/-- The callees of a typed function are functions of the program. -/
theorem FnTyped.calls_functions (h : FnTyped env₁ d sig) (hwithin : env₁.Within env)
    (hp : p.Typed env) (hnames : ∀ d ∈ p.functions, d.name.Calls env) :
    ∀ f ∈ d.calls, ∃ d' ∈ p.functions, d'.name.name = f.name ∧ d'.name.binding = f.binding ∧
      ∃ sig, f.binding = .bound (.function sig) := by
  intro f hf
  obtain ⟨sig, hbound, hfind⟩ := h.calls f hf
  rcases DeclsTyped.function_of_find? hp rfl Env.sound_empty (hwithin hfind) with hnone | hsome
  · cases hnone
  · obtain ⟨d', hd', hname, -⟩ := hsome
    obtain ⟨sig', hbound', hfind'⟩ := hnames d' hd'
    rw [hname, hwithin hfind] at hfind'
    cases hfind'
    exact ⟨d', hd', hname, hbound'.trans hbound.symm, sig, hbound⟩

/-- The globals that the locations of a typed function lie in are declared in the program. -/
theorem FnTyped.names_globals (h : FnTyped env₁ d sig) (hsound : env₁.Sound)
    (hwithin : env₁.Within env) (hp : p.Typed env) :
    ∀ e ∈ d.locations, ∀ l, e.Names l →
      ∃ v, .var v ∈ p.decls ∧ l = globalLabel v.name.name := by
  rintro e he _ ⟨x, s, hroot, hbound, hstatic, rfl⟩
  obtain ⟨frame, -, hplaced, hstack⟩ := h.stacked
  obtain ⟨env₂, s', n, t, -, hlocates, hhost⟩ := h.hosted hsound e he
  obtain ⟨x', hroot', hbound'⟩ := hlocates.root?_eq
  cases hroot.symm.trans hroot'
  cases hbound.symm.trans hbound'
  rcases hhost with hmem | hfind
  · obtain ⟨offset, hplace, -⟩ := hplaced.within hstack s hmem
    cases hstatic.symm.trans hplace
  · rcases DeclsTyped.global_of_find? hp rfl (hwithin hfind) with hnone | hmem
    · cases hnone
    · obtain ⟨v, hv, hbind⟩ := Decl.exists_of_mem_globals hmem
      obtain ⟨s', hbind', -, hname, -⟩ := DeclsTyped.introduces hp hv
      cases hbind.symm.trans hbind'
      exact ⟨v, hv, by rw [hname]⟩

end Typed

namespace Compilation

/-- The items that are emitted for a program without errors are linked. -/
theorem emit_linked {file : Option String} {source : String} {c : Compilation}
    (hc : analyze file source = .ok c) (herrors : c.hasErrors = false) (o : CodeOptions) :
    ∃ p items, c.program = some p ∧ (c.emit o).result = .ok items ∧ p.Linked items := by
  obtain ⟨p, hp, hfault, rfl⟩ := analysis_of_analyze hc herrors
  have hformed := Program.parse_formed hp
  obtain ⟨hresolve, hcheck⟩ := reports_of_hasErrors herrors
  obtain ⟨env, htyped, hnames⟩ := hformed.typed_named hfault hresolve hcheck
  obtain ⟨⟨raw, current⟩, hraw⟩ := Generate.decls_of_typed htyped Env.sound_empty
    { pool := o.pool } none
  refine ⟨_, o.finish raw, rfl, emit_of_decls rfl hraw, Program.Linked.finish ?_ o⟩
  obtain ⟨harranged, hpieces⟩ := Generate.pieces_decls hraw List.infix_rfl nofun
    (fun v hv => DeclsTyped.introduces htyped hv) fun d hd ls hstrings => by
      have hmem := Program.mem_functions.mpr hd
      obtain ⟨sig, env₁, hsound, hwithin, -, hfn⟩ :=
        DeclsTyped.typedWithin htyped rfl Env.sound_empty hmem
      exact FnDecl.linked (hfn.calls_functions hwithin htyped hnames)
        (hfn.names_globals hsound hwithin htyped) hstrings
  exact ⟨harranged .text, hpieces⟩

set_option maxRecDepth 100000 in
/-- A recursive function with a local that hides a global, and a string that two functions share. -/
theorem emit_linked_of_strings : ∃ c p items, analyze none
      "int a; int f(int n) \x7b int a; cout << \"f\"; if (n < 1) \x7b return 0; \x7d
         return f(n - 1); \x7d
       bool b; void main() \x7b a = f(3); while (b) \x7b cout << \"main\"; \x7d
         cout << \"f\"; \x7d" = .ok c ∧
    c.hasErrors = false ∧ c.program = some p ∧ (c.emit { pool := true }).result = .ok items ∧
    p.Linked items := by
  have haccepts : accepts
      "int a; int f(int n) \x7b int a; cout << \"f\"; if (n < 1) \x7b return 0; \x7d
         return f(n - 1); \x7d
       bool b; void main() \x7b a = f(3); while (b) \x7b cout << \"main\"; \x7d
         cout << \"f\"; \x7d" = true :=
    accepts_of_chars rfl (by decide +kernel)
  obtain ⟨c, hc, herrors⟩ := analyze_of_accepts haccepts
  obtain ⟨p, items, hp, hitems, hlinked⟩ := emit_linked hc herrors { pool := true }
  exact ⟨c, p, items, hc, herrors, hp, hitems, hlinked⟩

end Compilation

end CMinusMinus
