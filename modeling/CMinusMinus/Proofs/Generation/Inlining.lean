import CMinusMinus.Proofs.Generation.Normal
import CMinusMinus.Proofs.Generation.Numbers
import CMinusMinus.Proofs.Generation.Segments

/-!
# Sketches without string constants

The numbers of labels and the string constants in the code of a sketch depend on the settings.
Where the constants are left out, and their texts stand for their labels, what is left is the code
of the sketch without constants (`Sketch.inline`), but for the numbers of its labels
(`Sketch.dropConstants_run`).
-/

namespace CMinusMinus

open Asm Generate

/-! ## Code between constants -/

/-- The items are no part of a constant between pieces of code, and their labels have no numbers. -/
structure Tidy (q : List Item) : Prop where
  constants : ∀ r, Asm.constants (q ++ r) = Asm.constants r
  drop : ∀ r, dropConstants (q ++ r) = q ++ dropConstants r
  texts : q.filterMap Item.asciiz? = []
  names : ∀ i ∈ q, ∀ l ∈ i.names, isNumbered l = false

namespace Tidy

variable {q r : List Item}

theorem nil : Tidy [] := ⟨fun _ => rfl, fun _ => rfl, rfl, nofun⟩

theorem append (hq : Tidy q) (hr : Tidy r) : Tidy (q ++ r) where
  constants s := by rw [List.append_assoc, hq.constants, hr.constants]
  drop s := by rw [List.append_assoc, hq.drop, hr.drop, List.append_assoc]
  texts := by rw [List.filterMap_append, hq.texts, hr.texts, List.append_nil]
  names := List.forall_mem_append.mpr ⟨hq.names, hr.names⟩

theorem instr (op : Opcode) {args : List Operand} (comment : Option String)
    (h : ∀ l ∈ args.filterMap Operand.label?, isNumbered l = false) :
    Tidy [.instr op args comment] :=
  ⟨fun _ => rfl, fun _ => rfl, rfl, List.forall_mem_singleton.mpr h⟩

theorem label {name : String} (comment : Option String) (h : isNumbered name = false) :
    Tidy [.label name comment] :=
  ⟨fun _ => rfl, fun _ => rfl, rfl,
    List.forall_mem_singleton.mpr (List.forall_mem_singleton.mpr h)⟩

theorem text : Tidy [.directive .text] :=
  ⟨fun _ => rfl, fun _ => rfl, rfl, List.forall_mem_singleton.mpr nofun⟩

theorem globl (name : String) : Tidy [.directive (.globl name)] :=
  ⟨fun _ => rfl, fun _ => rfl, rfl, List.forall_mem_singleton.mpr nofun⟩

theorem globalSlot {name : String} (size : Int) (h : isNumbered name = false) :
    Tidy (Asm.globalSlot name size) where
  constants _ := rfl
  drop _ := rfl
  texts := rfl
  names := by simpa [Asm.globalSlot, Item.names] using h

/-- Instructions with labels that have no numbers. -/
theorem instrs (h : ∀ i ∈ q, ∃ op args comment, i = .instr op args comment)
    (hnames : ∀ i ∈ q, ∀ l ∈ i.names, isNumbered l = false) : Tidy q := by
  induction q with
  | nil => exact nil
  | cons i q ih =>
    obtain ⟨⟨op, args, comment, rfl⟩, hq⟩ := List.forall_mem_cons.mp h
    obtain ⟨hi, hnames⟩ := List.forall_mem_cons.mp hnames
    exact append (instr op comment hi) (ih hq hnames)

theorem map_rename {g : String → String} (hg : ∀ l, isNumbered l = false → g l = l)
    (h : Tidy q) : q.map (Item.rename g) = q :=
  (List.map_congr_left fun i hi => Item.rename_eq_self fun l hl => hg l (h.names i hi l hl)).trans
    (List.map_id q)

end Tidy

namespace Sketch

/-- The items that do not depend on what is remembered are tidy, piece by piece. -/
def Tidied : Sketch → Prop
  | .items q => Tidy q
  | .append a b => a.Tidied ∧ b.Tidied
  | .taking a | .part a => a.Tidied
  | .constant _ | .label .. | .jump .. => True

/-- The sketch with texts in the places of constants. -/
def inline : Sketch → Sketch
  | .constant text => .items (loadAddress .t0 (.label (literal text)))
  | .append a b => .append a.inline b.inline
  | .taking a => .taking a.inline
  | .part a => .part a.inline
  | .items q => .items q
  | .label k comment => .label k comment
  | .jump op args k comment => .jump op args k comment

/-- How many labels are taken for code. -/
def size : Sketch → Nat
  | .append a b => a.size + b.size
  | .taking a => a.size + 1
  | .part a => a.size
  | .items _ | .constant _ | .label .. | .jump .. => 0

/-- The labels that are taken for code, in order. -/
def taken : Sketch → List String → Labels → List String
  | .append a b, names, ls => a.taken names ls ++ b.taken names (a.run names ls).2
  | .taking a, names, ls => ls.fresh.1 :: a.taken (ls.fresh.1 :: names) ls.fresh.2
  | .part a, _, ls => a.taken [] ls
  | .items _, _, _ | .constant _, _, _ | .label .., _, _ | .jump .., _, _ => []

theorem length_taken (s : Sketch) (names : List String) (ls : Labels) :
    (s.taken names ls).length = s.size := by
  induction s generalizing names ls with
  | items | constant | label | jump => rfl
  | append a b iha ihb => rw [taken, List.length_append, iha, ihb, size]
  | taking a ih => rw [taken, List.length_cons, ih, size]
  | part a ih => exact ih _ _

variable {names : List String} {ls : Labels}

/-- Without constants, only the labels that are taken use up numbers. -/
theorem next_inline (s : Sketch) : (s.inline.run names ls).2.next = ls.next + s.size := by
  induction s generalizing names ls with
  | items | constant | label | jump => rfl
  | append a b iha ihb =>
    rw [inline, run, ihb, iha, size, Nat.add_assoc]
  | taking a ih =>
    rw [inline, run, ih, size, Nat.add_comm a.size, ← Nat.add_assoc]
    rfl
  | part a ih => exact ih

/-- Numbered labels in code without constants are those around it and those that are taken. -/
theorem numbered_inline (names : List String) {s : Sketch} (hs : s.Tidied)
    (hscoped : s.Scoped names.length) :
    ∀ i ∈ (s.inline.run names ls).1, ∀ l ∈ i.names, isNumbered l = true →
      l ∈ names ∨ l ∈ (List.range' ls.next s.size).map numbered := by
  induction s generalizing names ls with
  | items q =>
    intro i hi l hl hn
    rw [hs.names i hi l hl] at hn
    cases hn
  | constant text =>
    refine List.forall_mem_singleton.mpr fun l hl hn => ?_
    cases List.mem_singleton.mp hl
    rw [isNumbered_literal] at hn
    cases hn
  | append a b iha ihb =>
    rw [size, ← List.range'_append_1, List.map_append]
    refine List.forall_mem_append.mpr ⟨fun i hi l hl hn => ?_, fun i hi l hl hn => ?_⟩
    · exact (iha names hs.1 hscoped.1 i hi l hl hn).imp id (List.mem_append_left _)
    · refine (ihb names hs.2 hscoped.2 i hi l hl hn).imp id fun h => List.mem_append_right _ ?_
      rwa [next_inline] at h
  | taking a ih =>
    intro i hi l hl hn
    rw [size, List.range'_succ, List.map_cons]
    rcases ih (ls.fresh.1 :: names) hs hscoped.1 i hi l hl hn with h | h
    · rcases List.mem_cons.mp h with h | h
      · exact .inr (List.mem_cons.mpr (.inl h))
      · exact .inl h
    · exact .inr (List.mem_cons_of_mem _ h)
  | part a ih =>
    intro i hi l hl hn
    exact (ih [] hs hscoped i hi l hl hn).imp nofun id
  | label k comment =>
    refine List.forall_mem_singleton.mpr (List.forall_mem_singleton.mpr fun _ => .inl ?_)
    exact getD_mem hscoped
  | jump op args k comment =>
    obtain ⟨hk, -, hargs⟩ := hscoped
    refine List.forall_mem_singleton.mpr fun l hl _ => .inl ?_
    rw [instr, Item.names, List.filterMap_append, hargs] at hl
    cases List.mem_singleton.mp hl
    exact getD_mem hk

/-! ## Constants in the code of a sketch -/

/-- Code is cut into constants and the rest piece by piece. -/
theorem cut_run {s : Sketch} (hs : s.Tidied) (r : List Item) :
    constants ((s.run names ls).1 ++ r) = constants (s.run names ls).1 ++ constants r ∧
      dropConstants ((s.run names ls).1 ++ r) =
        dropConstants (s.run names ls).1 ++ dropConstants r := by
  induction s generalizing names ls r with
  | items q =>
    have hq : Tidy q := hs
    have hconstants := hq.constants []
    have hdrop := hq.drop []
    rw [List.append_nil] at hconstants hdrop
    show constants (q ++ r) = constants q ++ _ ∧ dropConstants (q ++ r) = dropConstants q ++ _
    rw [hconstants, hdrop, hq.constants, hq.drop, constants, dropConstants, List.append_nil]
    exact ⟨rfl, rfl⟩
  | constant text =>
    rw [run]
    rcases ls.constant_cases text with ⟨l, heq, -⟩ | ⟨heq, -⟩
    · rw [heq]
      exact ⟨rfl, rfl⟩
    · rw [heq]
      exact ⟨rfl, rfl⟩
  | append a b iha ihb =>
    rw [run, List.append_assoc, (iha hs.1 _).1, (iha hs.1 _).2, (iha hs.1 _).1, (iha hs.1 _).2,
      (ihb hs.2 r).1, (ihb hs.2 r).2, List.append_assoc, List.append_assoc]
    exact ⟨rfl, rfl⟩
  | taking a ih | part a ih => exact ih hs r
  | label | jump => exact ⟨rfl, rfl⟩

/-- What is remembered are the constants of the code, the last one first. -/
theorem constants_run {s : Sketch} (hs : s.Tidied) : (s.run names ls).2.strings =
    ((constants (s.run names ls).1).map Prod.swap).reverse ++ ls.strings := by
  induction s generalizing names ls with
  | items q =>
    have hconstants := Tidy.constants hs []
    rw [List.append_nil] at hconstants
    rw [run_items, hconstants]
    rfl
  | constant text =>
    rw [run]
    rcases ls.constant_cases text with ⟨l, heq, -⟩ | ⟨heq, -⟩
    · rw [heq]
      rfl
    · rw [heq]
      rfl
  | append a b iha ihb =>
    rw [run, (cut_run hs.1 _).1, List.map_append, List.reverse_append, List.append_assoc,
      ← iha hs.1, ← ihb hs.2]
  | taking a ih => exact ih hs
  | part a ih => exact ih hs
  | label | jump => rfl

/-- The only texts in code are those of constants. -/
theorem texts_run {s : Sketch} (hs : s.Tidied) : (s.run names ls).1.filterMap Item.asciiz? =
    (constants (s.run names ls).1).map Prod.snd := by
  induction s generalizing names ls with
  | items q =>
    have hconstants := Tidy.constants hs []
    rw [List.append_nil] at hconstants
    rw [run_items, hconstants]
    exact Tidy.texts hs
  | constant text =>
    rw [run]
    rcases ls.constant_cases text with ⟨l, heq, -⟩ | ⟨heq, -⟩
    · rw [heq]
      rfl
    · rw [heq]
      rfl
  | append a b iha ihb =>
    rw [run, (cut_run hs.1 _).1, List.map_append, List.filterMap_append, iha hs.1, ihb hs.2]
  | taking a ih | part a ih => exact ih hs
  | label | jump => rfl

/-- The labels that are taken and those of constants are the next numbers, each of them once. -/
theorem numbers_run (names : List String) (ls : Labels) {s : Sketch} (hs : s.Tidied) :
    ls.next ≤ (s.run names ls).2.next ∧
    (s.taken names ls ++ (constants (s.run names ls).1).map Prod.fst).Perm
      ((List.range' ls.next ((s.run names ls).2.next - ls.next)).map numbered) := by
  induction s generalizing names ls with
  | items q =>
    have hconstants := Tidy.constants hs []
    rw [List.append_nil] at hconstants
    rw [run_items, hconstants, Nat.sub_self]
    exact ⟨Nat.le_refl _, .refl _⟩
  | constant text =>
    rw [run]
    rcases ls.constant_cases text with ⟨l, heq, -⟩ | ⟨heq, -⟩
    · rw [heq, Nat.sub_self]
      exact ⟨Nat.le_refl _, .refl _⟩
    · rw [heq]
      refine ⟨Nat.le_succ _, ?_⟩
      show List.Perm _ ((List.range' ls.next (ls.next + 1 - ls.next)).map numbered)
      rw [Nat.add_sub_cancel_left]
      exact .refl _
  | append a b iha ihb =>
    obtain ⟨hle, hperm⟩ := iha names ls hs.1
    obtain ⟨hle', hperm'⟩ := ihb names (a.run names ls).2 hs.2
    refine ⟨Nat.le_trans hle hle', List.perm_iff_count.mpr fun l => ?_⟩
    have hcount := List.perm_iff_count.mp (hperm.append hperm') l
    rw [← List.map_append, ← Numbers.range'_append hle hle'] at hcount
    rw [run, (cut_run hs.1 _).1, taken, ← hcount, List.map_append]
    simp only [List.count_append]
    omega
  | taking a ih =>
    obtain ⟨hle, hperm⟩ := ih (ls.fresh.1 :: names) ls.fresh.2 hs
    refine ⟨Nat.le_of_succ_le hle, ?_⟩
    have hrange : (a.run (ls.fresh.1 :: names) ls.fresh.2).2.next - ls.next =
        (a.run (ls.fresh.1 :: names) ls.fresh.2).2.next - ls.fresh.2.next + 1 := by
      have hnext : ls.fresh.2.next = ls.next + 1 := rfl
      omega
    rw [run_taking, hrange, List.range'_succ, List.map_cons]
    exact hperm.cons _
  | part a ih => exact ih _ _ hs
  | label | jump =>
    rw [run, Nat.sub_self]
    exact ⟨Nat.le_refl _, .refl _⟩

/-! ## Code without constants -/

section Inlined

variable {f lit : String → String}

theorem getD_map {k : Nat} (hk : k < names.length) :
    (names.map f).getD k "" = f (names.getD k "") := by
  rw [List.getD_eq_getElem _ _ hk, List.getD_eq_getElem _ _ (by rwa [List.length_map]),
    List.getElem_map]

theorem map_rename_loadAddress (g : String → String) (l : String) :
    (loadAddress .t0 (.label l)).map (Item.rename g) = loadAddress .t0 (.label (g l)) := rfl

theorem rename_jump (g : String → String) (op : Opcode) {args : List Operand}
    (h : args.filterMap Operand.label? = []) (l : String) (comment : Option String) :
    (instr op (args ++ [.label l]) comment).rename g =
      instr op (args ++ [.label (g l)]) comment := by
  have hargs : args.map (Operand.rename g) = args := by
    refine (List.map_congr_left fun a ha => ?_).trans (List.map_id args)
    cases a with
    | label l => exact absurd (List.filterMap_eq_nil_iff.mp h _ ha) nofun
    | reg | imm | indexed => rfl
  rw [instr, Item.rename, List.map_append, hargs]
  rfl

/-- What is left of code without its constants, with their texts for their labels, is the code
without constants: the labels that are taken there become those that are taken here. -/
theorem dropConstants_run (names : List String) {s : Sketch} (hs : s.Tidied)
    (hscoped : s.Scoped names.length)
    (hf : ∀ l, isNumbered l = false → f l = l) (hlit : ∀ l, isNumbered l = false → lit l = l)
    (ls' : Labels) (hstrings : ∀ c ∈ (s.run (names.map f) ls).2.strings, lit c.2 = literal c.1)
    (hnames : ∀ l ∈ names, lit (f l) = f l)
    (htaken : s.taken (names.map f) ls = (List.range' ls'.next s.size).map fun k => f (numbered k))
    (hfixed : ∀ l ∈ s.taken (names.map f) ls, lit l = l) :
    (dropConstants (s.run (names.map f) ls).1).map (Item.rename lit) =
      (s.inline.run names ls').1.map (Item.rename f) := by
  induction s generalizing names ls ls' with
  | items q =>
    have hdrop := Tidy.drop hs []
    rw [List.append_nil, dropConstants, List.append_nil] at hdrop
    rw [run_items, hdrop, Tidy.map_rename hlit hs, inline, run_items, Tidy.map_rename hf hs]
  | constant text =>
    rw [inline, run_items, map_rename_loadAddress, hf _ (isNumbered_literal text)]
    rw [run] at hstrings ⊢
    rcases ls.constant_cases text with ⟨l, heq, -, hfind⟩ | ⟨heq, -⟩
    · obtain ⟨before, after, hsplit, -⟩ := List.lookup_eq_some_iff.mp hfind
      rw [heq] at hstrings ⊢
      have hl : lit l = literal text := hstrings (text, l) (by simp [hsplit])
      rw [← hl]
      rfl
    · rw [heq] at hstrings ⊢
      have hl : lit ls.fresh.1 = literal text := hstrings (text, _) List.mem_cons_self
      rw [← hl]
      rfl
  | append a b iha ihb =>
    rw [size, ← List.range'_append_1, List.map_append, taken] at htaken
    rw [taken, List.forall_mem_append] at hfixed
    obtain ⟨hfirst, hrest⟩ := List.append_inj htaken
      (by rw [length_taken, List.length_map, List.length_range'])
    rw [run, (cut_run hs.1 _).2, List.map_append, inline, run, List.map_append]
    refine congrArg₂ (· ++ ·) ?_ ?_
    · exact iha names hs.1 hscoped.1 _ (fun c hc => hstrings c ((strings_run _ _ b).1 c hc)) hnames
        hfirst hfixed.1
    · exact ihb names hs.2 hscoped.2 _ hstrings hnames (by rwa [next_inline]) hfixed.2
  | taking a ih =>
    rw [size, List.range'_succ, List.map_cons, taken] at htaken
    rw [taken, List.forall_mem_cons] at hfixed
    obtain ⟨hfirst, hrest⟩ := List.cons.inj htaken
    have hmap : ls.fresh.1 :: names.map f = (ls'.fresh.1 :: names).map f := by
      rw [hfirst]
      rfl
    rw [run_taking] at hstrings ⊢
    rw [hmap] at hstrings hrest hfixed ⊢
    refine ih (ls'.fresh.1 :: names) hs hscoped.1 ls'.fresh.2 hstrings
      (List.forall_mem_cons.mpr ⟨?_, hnames⟩) hrest hfixed.2
    have hself := hfixed.1
    rwa [hfirst] at hself
  | part a ih => exact ih [] hs hscoped _ hstrings (List.forall_mem_nil _) htaken hfixed
  | label k comment =>
    rw [run, getD_map hscoped, inline, run]
    show [Item.label (lit (f (names.getD k ""))) comment] = _
    rw [hnames _ (getD_mem hscoped)]
    rfl
  | jump op args k comment =>
    obtain ⟨hk, -, hargs⟩ := hscoped
    rw [run, getD_map hk, inline, run]
    show [Item.rename lit _] = [Item.rename f _]
    rw [rename_jump _ _ hargs, rename_jump _ _ hargs, hnames _ (getD_mem hk)]

end Inlined

end Sketch

end CMinusMinus
