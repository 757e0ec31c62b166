import CMinusMinus.Proofs.Compilation
import CMinusMinus.Proofs.Generation.Inlining

/-!
# Settings of code generation

The settings decide about comments and about equal string constants, and about nothing else.  The
items of a program without errors have one normal form under all settings, and their texts are the
string literals of the program (`Compilation.emit_normal`).
-/

namespace CMinusMinus

open Asm Generate

/-! ## String literals of a program -/

namespace Exp

mutual

/-- The texts of the string literals in an expression. -/
def literals : Exp → List String
  | .string _ text => [text]
  | .access _ _ loc _ => loc.literals
  | .assign _ l r | .binary _ _ l r => l.literals ++ r.literals
  | .call _ _ _ args => listLiterals args
  | .neg _ e | .not _ e => e.literals
  | .int .. | .bool .. | .ident _ | .unknown _ => []
termination_by structural e => e

/-- The texts of the string literals in expressions. -/
def listLiterals : List Exp → List String
  | [] => []
  | e :: es => e.literals ++ listLiterals es
termination_by structural es => es

end

end Exp

namespace Stmt

mutual

/-- The texts of the string literals in a statement. -/
def literals : Stmt → List String
  | .assign _ e | .increment _ e | .decrement _ e | .read _ e | .write _ e | .call _ e
  | .return _ (some e) => e.literals
  | .ifThen _ e b | .while _ e b => e.literals ++ blockLiterals b
  | .ifElse _ e b₁ b₂ => e.literals ++ (blockLiterals b₁ ++ blockLiterals b₂)
  | .return _ none | .unknown _ => []
termination_by structural s => s

/-- The texts of the string literals in a block. -/
def blockLiterals : Block Stmt → List String
  | ⟨_, _, ss⟩ => listLiterals ss
termination_by structural b => b

/-- The texts of the string literals in statements. -/
def listLiterals : List Stmt → List String
  | [] => []
  | s :: ss => s.literals ++ listLiterals ss
termination_by structural ss => ss

end

end Stmt

/-- The texts of the string literals in a declaration. -/
def Decl.literals : Decl → List String
  | .fn d => Stmt.blockLiterals d.body
  | .var _ | .struct _ | .unknown _ => []

/-- The texts of the string literals in a program, each as often as it occurs. -/
def Program.literals (p : Program) : List String := p.decls.flatMap Decl.literals

/-! ## String literals of sketches -/

theorem Locates.literals {env : Env} {e : Exp} {s : Storage} {n : Nat} {shape : Shape StructDef}
    (h : Locates env e s n shape) : e.literals = [] := by
  induction h with
  | ident => rfl
  | access _ _ _ ih => exact ih

theorem Exp.strings_of_isLocation {e : Exp} (h : e.isLocation = true) : e.sketch.strings = [] := by
  cases e with
  | ident | access => rfl
  | _ => cases h

theorem BinOp.strings_sketch (op : BinOp) : op.sketch.strings = [] := by cases op <;> rfl

mutual

/-- The constants of a typed expression are its string literals. -/
theorem HasType.strings {env : Env} : ∀ {e : Exp} {t : Ty}, HasType env e t →
    e.sketch.strings.Perm e.literals
  | _, _, .int | _, _, .string | _, _, .bool => .refl _
  | _, _, .location h _ => by
    rw [Exp.strings_of_isLocation h.isLocation, h.literals]
  | _, _, .assign hl _ hr => by
    rw [Exp.sketch, Exp.literals, hl.literals, Sketch.strings_append]
    exact (List.append_nil _).symm ▸ hr.strings
  | _, _, .call _ _ hargs => by
    rw [Exp.sketch, Exp.literals, Sketch.strings_append]
    exact (List.append_nil _).symm ▸ hargs.strings
  | _, _, .neg h | _, _, .not h => by
    rw [Exp.sketch, Exp.literals, Sketch.strings_append]
    exact (List.append_nil _).symm ▸ h.strings
  | _, _, .binary _ hl hr => by
    rw [Exp.sketch, Exp.literals]
    simp only [Sketch.strings_append, BinOp.strings_sketch, Sketch.strings, List.append_nil]
    exact (hr.strings.append hl.strings).trans List.perm_append_comm

theorem HaveTypes.strings {env : Env} : ∀ {es : List Exp} {ts : List Ty}, HaveTypes env es ts →
    (Exp.listSketch es).strings.Perm (Exp.listLiterals es)
  | _, _, .nil => .refl _
  | _, _, .cons h hs => h.strings.append hs.strings

end

mutual

/-- The constants of a typed statement are its string literals. -/
theorem StmtTyped.strings {ret : Ty} (fn : String) : ∀ {env : Env} {frame frame' : Frame}
    {s : Stmt}, StmtTyped ret env frame s frame' → (s.sketch fn).strings.Perm s.literals
  | _, _, _, _, .assign h | _, _, _, _, .write h _ _ | _, _, _, _, .call h
  | _, _, _, _, .return _ h => by
    rw [Stmt.sketch, Stmt.literals, Sketch.strings_append]
    exact (List.append_nil _).symm ▸ h.strings
  | _, _, _, _, .increment h | _, _, _, _, .decrement h | _, _, _, _, .read h _ => by
    rw [Stmt.literals, h.literals]
    exact .refl _
  | _, _, _, _, .exit _ => .refl _
  | _, _, _, _, .ifThen h hb | _, _, _, _, .while h hb => by
    have hbody := hb.strings fn
    have hcond := h.strings
    simp only [Stmt.sketch, Stmt.literals, Stmt.onFalseSketch, Sketch.strings_append,
      Sketch.strings, List.append_nil, List.nil_append]
    exact hcond.append hbody
  | _, _, _, _, .ifElse h hyes hno => by
    have hcond := h.strings
    have hyes := hyes.strings fn
    have hno := hno.strings fn
    simp only [Stmt.sketch, Stmt.literals, Stmt.onFalseSketch, Sketch.strings_append,
      Sketch.strings, List.append_nil, List.append_assoc]
    exact hcond.append (hyes.append hno)

theorem BlockTyped.strings {ret : Ty} (fn : String) : ∀ {env : Env} {frame frame' : Frame}
    {b : Block Stmt}, BlockTyped ret env frame b frame' →
    (Stmt.blockSketch fn b).strings.Perm (Stmt.blockLiterals b)
  | _, _, _, _, .intro _ hss => hss.strings fn

theorem StmtsTyped.strings {ret : Ty} (fn : String) : ∀ {env : Env} {frame frame' : Frame}
    {ss : List Stmt}, StmtsTyped ret env frame ss frame' →
    (Stmt.listSketch fn ss).strings.Perm (Stmt.listLiterals ss)
  | _, _, _, _, .nil => .refl _
  | _, _, _, _, .cons hs hss => (hs.strings fn).append (hss.strings fn)

end

/-- The constants of typed declarations are the string literals of their functions. -/
theorem DeclsTyped.strings {env env' : Env} {ds : List Decl} (h : DeclsTyped env ds env') :
    (Decl.listSketch ds).strings.Perm (ds.flatMap Decl.literals) := by
  induction h with
  | nil => exact .refl _
  | var _ _ _ _ _ _ ih | struct _ _ _ _ ih => exact ih
  | @fn _ _ d _ _ _ hfn _ ih =>
    obtain ⟨_, _, _, -, hbody, -⟩ := hfn.body
    rw [Decl.listSketch, List.flatMap_cons, Decl.literals, Sketch.strings_append]
    refine List.Perm.append ?_ ih
    rw [Decl.sketch, FnDecl.sketch]
    simp only [Sketch.strings_append, Sketch.strings, List.append_nil, List.nil_append]
    exact hbody.strings d.name.name

/-! ## Pieces of sketches are tidy -/

section Tidied

theorem isNumbered_functionLabel (name : String) : isNumbered (functionLabel name) = false := by
  obtain ⟨c, cs, hname, hc⟩ := toList_functionLabel name
  rw [isNumbered, hname, List.isPrefixOf, beq_false_of_ne hc.symm, Bool.false_and]

theorem isNumbered_exitLabel (name : String) : isNumbered (exitLabel name) = false := by
  obtain ⟨c, cs, hname, hc⟩ := toList_functionLabel name
  rw [isNumbered, exitLabel, String.toList_append, hname, List.cons_append, List.isPrefixOf,
    beq_false_of_ne hc.symm, Bool.false_and]

theorem isNumbered_globalLabel (name : String) : isNumbered (globalLabel name) = false := by
  rw [isNumbered, globalLabel, String.toList_append]
  rfl

theorem Item.mem_names {i : Item} {op : Opcode} {args : List Operand} {comment : Option String}
    (hi : i = .instr op args comment) {l : String} (hl : l ∈ i.names) :
    l ∈ i.targets ∨ l ∈ i.callees ∨ l ∈ i.addressed := by
  cases hi
  rw [names] at hl
  by_cases hbranch : op.branches = true
  · exact .inl (by rwa [targets, if_pos hbranch])
  · by_cases hjal : op = .jal
    · exact .inr (.inl (by rwa [callees, if_pos hjal]))
    · refine .inr (.inr ?_)
      rwa [addressed, if_neg (not_or.mpr ⟨hbranch, hjal⟩)]

/-- Instructions that use the labels of functions and globals only. -/
theorem Steady.names {exits : List String} {calls : List Ident} {q : List Item}
    (h : Steady (isNumbered · = false) exits calls q)
    (hexits : ∀ l ∈ exits, isNumbered l = false) :
    ∀ i ∈ q, ∀ l ∈ i.names, isNumbered l = false := by
  intro i hi l hl
  obtain ⟨op, args, comment, heq⟩ := h.instrs i hi
  rcases Item.mem_names heq hl with hl | hl | hl
  · exact hexits l (h.targets i hi l hl)
  · have hmem : l ∈ q.flatMap Item.callees := List.mem_flatMap.mpr ⟨i, hi, hl⟩
    rw [h.callees] at hmem
    obtain ⟨f, -, rfl⟩ := List.mem_map.mp hmem
    exact isNumbered_functionLabel f.name
  · exact h.addressed i hi l hl

theorem Tidy.quiet {q : List Item} (h : q.all Item.isQuiet = true) : Tidy q := by
  have hsteady : Steady (isNumbered · = false) [] [] q := .quiet h
  exact .instrs hsteady.instrs (hsteady.names (List.forall_mem_nil _))

/-- A sketch of instructions is tidy. -/
theorem Sketch.tidied_of_plain {s : Sketch} (h : s.Bodily)
    (hnames : ∀ i ∈ s.plain, ∀ l ∈ i.names, isNumbered l = false) : s.Tidied := by
  induction s with
  | items q => exact .instrs h hnames
  | append a b iha ihb =>
    obtain ⟨ha, hb⟩ := bodily_append.mp h
    obtain ⟨hna, hnb⟩ := List.forall_mem_append.mp hnames
    exact ⟨iha ha hna, ihb hb hnb⟩
  | taking a ih | part a ih => exact ih h hnames
  | constant | label | jump => trivial

theorem FnDecl.tidied (d : FnDecl) : d.sketch.Tidied := by
  have hlabel := isNumbered_functionLabel d.name.name
  have hentry : Tidy (functionEntry (functionLabel d.name.name) (d.name.name == "main")) := by
    rw [functionEntry]
    split
    · exact .append .text
        (.append (.globl _) (.append (.label _ (by decide)) (.label _ (by decide))))
    · exact .append .text (.label _ hlabel)
  have hfront : Tidy (front d (d.frame.getD {})) := by
    refine hentry.append (.quiet ?_)
    rw [prologue]
    split <;> rfl
  have hbody : Steady (isNumbered · = false) [exitLabel d.name.name] (Stmt.blockCalls d.body)
      (Stmt.blockSketch d.name.name d.body).plain := by
    refine steady_block ?_
    rintro _ - _ ⟨x, s, -, -, -, rfl⟩
    exact isNumbered_globalLabel s.name
  have hback : Tidy (epilogue (exitLabel d.name.name) (d.frame.getD {}).formals
      (d.name.name == "main")) := by
    have hexit := Tidy.label (some "function epilogue") (isNumbered_exitLabel d.name.name)
    rw [epilogue]
    split <;> exact hexit.append (.quiet rfl)
  exact ⟨⟨hfront, Sketch.tidied_of_plain hbody.instrs (hbody.names
    (List.forall_mem_singleton.mpr (isNumbered_exitLabel _)))⟩, hback⟩

theorem Decl.tidied (d : Decl) : d.sketch.Tidied := by
  cases d with
  | fn d => exact d.tidied
  | struct | unknown => exact Tidy.nil
  | var d =>
    show Tidy (code (global d))
    cases hcode : global d with
    | error => exact .nil
    | ok q =>
      obtain ⟨s, operand, -, -, rfl⟩ := global_eq_ok.mp hcode
      exact .globalSlot _ (isNumbered_globalLabel s.name)

theorem Decl.tidied_list : ∀ ds : List Decl, (listSketch ds).Tidied
  | [] => Tidy.nil
  | d :: ds => ⟨d.tidied, tidied_list ds⟩

theorem Decl.scoped (d : Decl) : d.sketch.Scoped 0 := by
  cases d with
  | fn d => exact ⟨⟨trivial, scoped_block d.name.name d.body⟩, trivial⟩
  | var | struct | unknown => trivial

theorem Decl.scoped_list : ∀ ds : List Decl, (listSketch ds).Scoped 0
  | [] => trivial
  | d :: ds => ⟨d.scoped, scoped_list ds⟩

end Tidied

/-! ## One normal form -/

namespace Asm

variable {table : List (String × String)}

theorem inlined_of_not_mem {l : String} (h : l ∉ table.map Prod.fst) : inlined table l = l := by
  have hnone : table.lookup l = none := by
    refine List.lookup_eq_none_iff.mpr fun c hc => ?_
    rw [bne_iff_ne]
    rintro rfl
    exact h (List.mem_map_of_mem hc)
  rw [inlined, hnone]
  rfl

theorem inlined_of_mem (hnodup : (table.map Prod.fst).Nodup) {c : String × String}
    (hc : c ∈ table) : inlined table c.1 = literal c.2 := by
  have hsome : table.lookup c.1 = some c.2 := by
    obtain ⟨before, after, rfl⟩ := List.append_of_mem hc
    refine List.lookup_eq_some_iff.mpr ⟨before, after, rfl, fun c' hc' => ?_⟩
    rw [List.map_append, List.map_cons] at hnodup
    rw [bne_iff_ne]
    exact (List.nodup_append.mp hnodup).2.2 _ (List.mem_map_of_mem hc') _ List.mem_cons_self |>.symm
  rw [inlined, hsome]
  rfl

end Asm

/-- Different names can be replaced by as many others, and all other names stay. -/
theorem exists_replacement {xs ys : List String} (hxs : xs.Nodup) (hys : ys.Nodup)
    (hlength : xs.length = ys.length) :
    ∃ f : String → String, xs.map f = ys ∧ ∀ l, l ∉ xs → f l = l := by
  induction xs generalizing ys with
  | nil => exact ⟨id, (List.length_eq_zero_iff.mp hlength.symm).symm, fun _ _ => rfl⟩
  | cons x xs ih =>
    cases ys with
    | nil => cases hlength
    | cons y ys =>
      obtain ⟨hx, hxs⟩ := List.nodup_cons.mp hxs
      obtain ⟨f, hmap, hother⟩ := ih hxs (List.nodup_cons.mp hys).2 (Nat.succ.inj hlength)
      refine ⟨Function.update f x y, ?_, fun l hl => ?_⟩
      · rw [List.map_cons, Function.update_self, ← hmap]
        refine congrArg (y :: ·) (List.map_congr_left fun l hl => ?_)
        exact Function.update_of_ne (by rintro rfl; exact hx hl) ..
      · rw [List.mem_cons, not_or] at hl
        rw [Function.update_of_ne hl.1, hother l hl.2]

namespace Sketch

variable {names : List String} {ls : Labels}

theorem mem_range'_map_isNumbered {m n : Nat} {l : String}
    (h : l ∈ (List.range' m n).map numbered) : isNumbered l = true := by
  obtain ⟨k, -, rfl⟩ := List.mem_map.mp h
  exact isNumbered_numbered k

theorem nodup_range'_map (m n : Nat) : ((List.range' m n).map numbered).Nodup :=
  (List.nodup_map_iff fun _ _ => numbered_injective).mpr List.nodup_range'

/-- Without its constants, and with texts for labels, the code of a sketch is that of the sketch
without constants, but for the numbers of labels. -/
theorem exists_rename_inline {s : Sketch} (hs : s.Tidied) (hscoped : s.Scoped 0)
    (hls : ls.strings = []) :
    ∃ f : String → String, (∀ l, isNumbered l = false → f l = l) ∧
      ((List.range' 0 s.size).map numbered).map f = s.taken [] ls ∧
      (dropConstants (s.run [] ls).1).map (Item.rename (inlined (constants (s.run [] ls).1))) =
        (s.inline.run [] { pool := false }).1.map (Item.rename f) := by
  have hperm := (numbers_run [] ls hs).2
  obtain ⟨htaken, hkeys, hapart⟩ :=
    List.nodup_append.mp (hperm.nodup_iff.mpr (nodup_range'_map _ _))
  obtain ⟨f, hmap, hother⟩ := exists_replacement (nodup_range'_map 0 s.size) htaken
    (by rw [length_taken, List.length_map, List.length_range'])
  have hf : ∀ l, isNumbered l = false → f l = l := by
    refine fun l hl => hother l fun hmem => ?_
    rw [mem_range'_map_isNumbered hmem] at hl
    cases hl
  have hlit : ∀ l, isNumbered l = false → inlined (constants (s.run [] ls).1) l = l := by
    refine fun l hl => inlined_of_not_mem fun hmem => ?_
    rw [mem_range'_map_isNumbered (hperm.mem_iff.mp (List.mem_append_right _ hmem))] at hl
    cases hl
  have hstrings : ∀ c ∈ (s.run [] ls).2.strings,
      inlined (constants (s.run [] ls).1) c.2 = literal c.1 := by
    intro c hc
    rw [constants_run hs, hls, List.append_nil, List.mem_reverse] at hc
    obtain ⟨c', hc', rfl⟩ := List.mem_map.mp hc
    exact inlined_of_mem hkeys hc'
  refine ⟨f, hf, hmap, dropConstants_run [] hs hscoped hf hlit { pool := false }
    hstrings (List.forall_mem_nil _) ?_ ?_⟩
  · rw [List.map_nil, ← hmap, List.map_map]
    rfl
  · exact fun l hl => inlined_of_not_mem fun hmem => hapart l hl l hmem rfl

/-- The normal form of the code of a sketch does not depend on what is remembered: it is that of the
sketch without constants. -/
theorem normal_run {s : Sketch} (hs : s.Tidied) (hscoped : s.Scoped 0) (hls : ls.strings = []) :
    normal (s.run [] ls).1 = renumber ((s.inline.run [] { pool := false }).1.map Item.bare) := by
  obtain ⟨f, hf, hmap, hcode⟩ := exists_rename_inline hs hscoped hls
  have hperm := (numbers_run [] ls hs).2
  have htaken := (List.nodup_append.mp (hperm.nodup_iff.mpr (nodup_range'_map _ _))).1
  rw [← hmap] at hperm htaken
  have hnames : ∀ l ∈ ((s.inline.run [] { pool := false }).1.map Item.bare).flatMap Item.names,
      isNumbered l = true → l ∈ (List.range' 0 s.size).map numbered := by
    intro l hl hn
    rw [List.flatMap_map] at hl
    obtain ⟨i, hi, hl⟩ := List.mem_flatMap.mp hl
    rw [i.names_bare] at hl
    exact (numbered_inline [] hs hscoped i hi l hl hn).resolve_left nofun
  rw [normal_eq, hcode, ← Item.map_bare_rename]
  refine renumber_rename (fun l hl hn => ?_) (fun l _ hn => hf l hn) fun l hl l' hl' heq => ?_
  · have hmem := List.mem_append_left ((constants (s.run [] ls).1).map Prod.fst)
      (List.mem_map_of_mem (f := f) (hnames l hl hn))
    exact mem_range'_map_isNumbered (hperm.mem_iff.mp hmem)
  · exact List.inj_on_of_nodup_map htaken (hnames l hl.1 hl.2) (hnames l' hl'.1 hl'.2) heq

/-! ## Texts in the code -/

theorem pool_run (names : List String) (ls : Labels) (s : Sketch) :
    (s.run names ls).2.pool = ls.pool := by
  induction s generalizing names ls with
  | items | label | jump => rfl
  | constant text =>
    rw [run]
    rcases ls.constant_cases text with ⟨l, heq, -⟩ | ⟨heq, -⟩
    · rw [heq]
    · rw [heq]
      rfl
  | append a b iha ihb => exact (ihb _ _).trans (iha _ _)
  | taking a ih => exact ih _ ls.fresh.2
  | part a ih => exact ih _ _

/-- The texts that are remembered, if each constant is new. -/
theorem strings_of_separate (names : List String) (ls : Labels) {s : Sketch}
    (hpool : ls.pool = false) :
    (s.run names ls).2.strings.map Prod.fst = s.strings.reverse ++ ls.strings.map Prod.fst := by
  induction s generalizing names ls with
  | items | label | jump => rfl
  | constant text =>
    rw [run]
    rcases ls.constant_cases text with ⟨l, -, htrue, -⟩ | ⟨heq, -⟩
    · rw [hpool] at htrue
      cases htrue
    · rw [heq]
      rfl
  | append a b iha ihb =>
    rw [run, ihb _ _ ((pool_run _ _ a).trans hpool), iha _ _ hpool, ← List.append_assoc,
      ← List.reverse_append]
    rfl
  | taking a ih => exact ih _ ls.fresh.2 hpool
  | part a ih => exact ih _ _ hpool

/-- The texts that are remembered, each of them once, if equal constants are shared. -/
theorem strings_of_pooled (names : List String) (ls : Labels) {s : Sketch} (hpool : ls.pool = true)
    (hnodup : (ls.strings.map Prod.fst).Nodup) :
    ((s.run names ls).2.strings.map Prod.fst).Nodup ∧
      ∀ t, t ∈ (s.run names ls).2.strings.map Prod.fst ↔
        t ∈ ls.strings.map Prod.fst ∨ t ∈ s.strings := by
  induction s generalizing names ls with
  | items | label | jump => exact ⟨hnodup, fun _ => (or_iff_left List.not_mem_nil).symm⟩
  | constant text =>
    rw [run, strings]
    rcases ls.constant_cases text with ⟨l, heq, -, hfind⟩ | ⟨heq, hnone⟩
    · obtain ⟨before, after, hsplit, -⟩ := List.lookup_eq_some_iff.mp hfind
      have hmem : text ∈ ls.strings.map Prod.fst := by simp [hsplit]
      rw [heq]
      refine ⟨hnodup, fun t => (or_iff_left_of_imp fun ht => ?_).symm⟩
      rwa [List.mem_singleton.mp ht]
    · have hnew : text ∉ ls.strings.map Prod.fst := by
        rintro hmem
        obtain ⟨c, hc, rfl⟩ := List.mem_map.mp hmem
        simpa using List.lookup_eq_none_iff.mp (hnone hpool) c hc
      rw [heq]
      refine ⟨List.nodup_cons.mpr ⟨hnew, hnodup⟩, fun t => ?_⟩
      rw [List.mem_singleton, or_comm]
      exact List.mem_cons
  | append a b iha ihb =>
    obtain ⟨hfirst, hmema⟩ := iha names ls hpool hnodup
    obtain ⟨hrest, hmemb⟩ := ihb names _ ((pool_run _ _ a).trans hpool) hfirst
    refine ⟨hrest, fun t => ?_⟩
    show t ∈ ((b.run names (a.run names ls).2).2.strings.map Prod.fst) ↔
      _ ∨ t ∈ a.strings ++ b.strings
    rw [hmemb, hmema, List.mem_append, or_assoc]
  | taking a ih => exact ih _ ls.fresh.2 hpool hnodup
  | part a ih => exact ih _ _ hpool hnodup

/-- The texts in the code, the last one first, are those that are remembered. -/
theorem reverse_texts_run (names : List String) (ls : Labels) {s : Sketch} (hs : s.Tidied)
    (hls : ls.strings = []) :
    ((s.run names ls).1.filterMap Item.asciiz?).reverse =
      (s.run names ls).2.strings.map Prod.fst := by
  rw [texts_run hs, constants_run hs, hls, List.append_nil, List.map_reverse, List.map_map]
  rfl

end Sketch

/-! ## Settings -/

theorem CodeOptions.normal_finish (o : CodeOptions) (q : List Item) :
    normal (o.finish q) = normal q := by
  rw [finish]
  split
  · rfl
  · exact normal_bare q

theorem CodeOptions.texts_finish (o : CodeOptions) (q : List Item) :
    (o.finish q).filterMap Item.asciiz? = q.filterMap Item.asciiz? := by
  rw [finish]
  split
  · rfl
  · rw [List.filterMap_map]
    exact List.filterMap_congr fun i _ => i.asciiz?_bare

theorem CodeOptions.comment?_finish {o : CodeOptions} (h : o.comments = false) (q : List Item) :
    ∀ i ∈ o.finish q, i.comment? = none := by
  rw [finish, h]
  exact List.forall_mem_map.mpr fun i _ => i.comment?_bare

namespace Compilation

/-- For a program without errors, the settings decide only about comments and about equal constants:
under all of them the items have one normal form.  Without sharing there is a text for each string
literal of the program, and with sharing one for all that are equal; and no item has a comment, if
comments are not wanted. -/
theorem emit_normal {file : Option String} {source : String} {c : Compilation}
    (hc : analyze file source = .ok c) (herrors : c.hasErrors = false) :
    ∃ p, c.program = some p ∧ ∃ items : CodeOptions → List Item,
      (∀ o, (c.emit o).result = .ok (items o)) ∧
      (∀ o o', normal (items o) = normal (items o')) ∧
      (∀ o, o.pool = false → ((items o).filterMap Item.asciiz?).Perm p.literals) ∧
      (∀ o, o.pool = true → ((items o).filterMap Item.asciiz?).Nodup ∧
        ∀ t, t ∈ (items o).filterMap Item.asciiz? ↔ t ∈ p.literals) ∧
      ∀ o, o.comments = false → ∀ i ∈ items o, i.comment? = none := by
  obtain ⟨p, hp, hfault, rfl⟩ := analysis_of_analyze hc herrors
  obtain ⟨q, env, hq, htyped, hemit⟩ := emit_sketch (Program.parse_formed hp) hfault herrors
  have htidied := Decl.tidied_list q.decls
  have hliterals : (Decl.listSketch q.decls).strings.Perm q.literals := DeclsTyped.strings htyped
  refine ⟨q, hq, fun o => o.finish ((Decl.listSketch q.decls).run [] { pool := o.pool }).1,
    fun o => ?_, fun o o' => ?_, fun o hpool => ?_, fun o hpool => ?_, fun o hcomments => ?_⟩
  · obtain ⟨current, -, hitems⟩ := hemit o
    exact hitems
  · rw [o.normal_finish, o'.normal_finish, Sketch.normal_run htidied (Decl.scoped_list _) rfl,
      Sketch.normal_run htidied (Decl.scoped_list _) rfl]
  · have htexts := Sketch.reverse_texts_run [] { pool := o.pool } htidied rfl
    rw [Sketch.strings_of_separate _ _ hpool, List.map_nil, List.append_nil] at htexts
    rw [o.texts_finish, List.reverse_inj.mp htexts]
    exact hliterals
  · have htexts := Sketch.reverse_texts_run [] { pool := o.pool } htidied rfl
    obtain ⟨hnodup, hmem⟩ := Sketch.strings_of_pooled [] { pool := o.pool }
      (s := Decl.listSketch q.decls) hpool .nil
    rw [o.texts_finish]
    rw [← htexts] at hnodup hmem
    refine ⟨List.nodup_reverse.mp hnodup, fun t => ?_⟩
    rw [← hliterals.mem_iff, ← List.mem_reverse, hmem]
    exact or_iff_right List.not_mem_nil
  · exact CodeOptions.comment?_finish hcomments _

set_option maxRecDepth 100000 in
/-- A text that two functions share and that is written twice in one of them, between branches. -/
theorem emit_normal_of_shared : ∃ c p, ∃ items : CodeOptions → List Item, analyze none
      "int f(int n) \x7b while (0 < n) \x7b cout << \"a\"; n--; \x7d cout << \"b\"; return n; \x7d
       void main() \x7b if (f(2) == 0 && true) \x7b cout << \"a\"; \x7d
         else \x7b cout << \"a\"; \x7d \x7d" = .ok c ∧
    c.hasErrors = false ∧ c.program = some p ∧ (∀ o, (c.emit o).result = .ok (items o)) ∧
    (∀ o o', normal (items o) = normal (items o')) ∧
    ((items { pool := false }).filterMap Item.asciiz?).Perm p.literals ∧
    ((items { pool := true }).filterMap Item.asciiz?).Nodup ∧
    ∀ i ∈ items { comments := false }, i.comment? = none := by
  have haccepts : accepts
      "int f(int n) \x7b while (0 < n) \x7b cout << \"a\"; n--; \x7d cout << \"b\"; return n; \x7d
       void main() \x7b if (f(2) == 0 && true) \x7b cout << \"a\"; \x7d
         else \x7b cout << \"a\"; \x7d \x7d" = true :=
    accepts_of_chars rfl (by decide +kernel)
  obtain ⟨c, hc, herrors⟩ := analyze_of_accepts haccepts
  obtain ⟨p, hp, items, hitems, hnormal, hseparate, hshared, hbare⟩ := emit_normal hc herrors
  exact ⟨c, p, items, hc, herrors, hp, hitems, hnormal, hseparate _ rfl, (hshared _ rfl).1,
    hbare _ rfl⟩

end Compilation

end CMinusMinus
