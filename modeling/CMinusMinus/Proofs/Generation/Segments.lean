import CMinusMinus.Proofs.Generation.Instructions
import Mathlib.Data.List.GetD

/-!
# Segments

Items are filled into the text segment or the data segment, and directives say which.  In an
arrangement (`Arranged`) instructions and labels of code stand in the text segment, and storage with
its label in the data segment.  The code of a sketch of instructions goes back to the text segment
after each string constant, and its branches lead to labels in that segment (`Sketch.arranged`,
`Sketch.targets_run`).
-/

namespace CMinusMinus

open Asm Generate

/-- The areas that items are filled into. -/
inductive Segment where
  | text
  | data
  deriving DecidableEq, Repr

/-- The items are arranged, if they begin in the first segment, and end in the second one.
Instructions and labels of code are in the text segment.  Storage is in the data segment, each with
its label, and that of globals at a multiple of the word size. -/
inductive Arranged : Segment → List Item → Segment → Prop where
  | nil {g : Segment} : Arranged g [] g
  | instr {op : Opcode} {args : List Operand} {comment : Option String} {q : List Item}
    {g : Segment} : Arranged .text q g → Arranged .text (.instr op args comment :: q) g
  | label {name : String} {comment : Option String} {q : List Item} {g : Segment} :
    Arranged .text q g → Arranged .text (.label name comment :: q) g
  | globl {name : String} {q : List Item} {g : Segment} :
    Arranged .text q g → Arranged .text (.directive (.globl name) :: q) g
  | text {f g : Segment} {q : List Item} :
    Arranged .text q g → Arranged f (.directive .text :: q) g
  | data {f g : Segment} {q : List Item} :
    Arranged .data q g → Arranged f (.directive .data :: q) g
  | space {name : String} {size : Int} {q : List Item} {g : Segment} : Arranged .data q g →
    Arranged .data
      (.directive (.align 2) :: .label name none :: .directive (.space size) :: q) g
  | asciiz {name text : String} {q : List Item} {g : Segment} : Arranged .data q g →
    Arranged .data (.label name none :: .directive (.asciiz text) :: q) g

namespace Arranged

variable {f g h : Segment} {q r : List Item}

theorem append (hq : Arranged f q g) (hr : Arranged g r h) : Arranged f (q ++ r) h := by
  induction hq with
  | nil => exact hr
  | instr _ ih => exact .instr (ih hr)
  | label _ ih => exact .label (ih hr)
  | globl _ ih => exact .globl (ih hr)
  | text _ ih => exact .text (ih hr)
  | data _ ih => exact .data (ih hr)
  | space _ ih => exact .space (ih hr)
  | asciiz _ ih => exact .asciiz (ih hr)

theorem instrs (h : ∀ i ∈ q, ∃ op args comment, i = .instr op args comment) :
    Arranged .text q .text := by
  induction q with
  | nil => exact .nil
  | cons i q ih =>
    obtain ⟨⟨op, args, comment, rfl⟩, hq⟩ := List.forall_mem_cons.mp h
    exact .instr (ih hq)

theorem globalSlot (name : String) (size : Int) :
    Arranged f (Asm.globalSlot name size) .data := .data (.space .nil)

theorem stringConstant (name text : String) :
    Arranged .text (Asm.stringConstant name text) .text := .data (.asciiz (.text .nil))

theorem functionEntry (name : String) (isMain : Bool) :
    Arranged f (Asm.functionEntry name isMain) .text := by
  cases isMain with
  | false => exact .text (.label .nil)
  | true => exact .text (.globl (.label (.label .nil)))

theorem prologue (formals locals : Int) :
    Arranged .text (Asm.prologue formals locals) .text := by
  rw [Asm.prologue]
  split
  · exact .instr (.instr (.instr (.instr (.instr .nil))))
  · exact .instr (.instr (.instr (.instr (.instr (.instr .nil)))))

theorem epilogue (exit : String) (formals : Int) (isMain : Bool) :
    Arranged .text (Asm.epilogue exit formals isMain) .text := by
  cases isMain with
  | false => exact .label (.instr (.instr (.instr (.instr (.instr .nil)))))
  | true => exact .label (.instr (.instr (.instr (.instr (.instr (.instr .nil))))))

theorem bare (h : Arranged f q g) : Arranged f (q.map Item.bare) g := by
  induction h with
  | nil => exact .nil
  | instr _ ih => exact .instr ih
  | label _ ih => exact .label ih
  | globl _ ih => exact .globl ih
  | text _ ih => exact .text ih
  | data _ ih => exact .data ih
  | space _ ih => exact .space ih
  | asciiz _ ih => exact .asciiz ih

end Arranged

/-- The code has the label, at a place in the text segment. -/
def CodeLabel (q : List Item) (l : String) : Prop :=
  ∃ before comment after, q = before ++ .label l comment :: after ∧ Arranged .text before .text

namespace CodeLabel

variable {q r : List Item} {l : String}

theorem left (h : CodeLabel q l) : CodeLabel (q ++ r) l := by
  obtain ⟨before, comment, after, rfl, hbefore⟩ := h
  exact ⟨before, comment, after ++ r, by rw [List.append_assoc, List.cons_append], hbefore⟩

theorem right (hq : Arranged .text q .text) (h : CodeLabel r l) : CodeLabel (q ++ r) l := by
  obtain ⟨before, comment, after, rfl, hbefore⟩ := h
  exact ⟨q ++ before, comment, after, (List.append_assoc _ _ _).symm, hq.append hbefore⟩

theorem single (comment : Option String) : CodeLabel (Asm.label l comment) l :=
  ⟨[], comment, [], rfl, .nil⟩

theorem bare (h : CodeLabel q l) : CodeLabel (q.map Item.bare) l := by
  obtain ⟨before, comment, after, rfl, hbefore⟩ := h
  exact ⟨before.map Item.bare, none, after.map Item.bare,
    by rw [List.map_append, List.map_cons, Item.bare], hbefore.bare⟩

end CodeLabel

/-! ## The code of sketches -/

/-- A string constant is one that is remembered, or it is new. -/
theorem Generate.Labels.constant_cases (ls : Labels) (text : String) :
    (∃ l, ls.constant text = (l, [], ls) ∧ ls.pool = true ∧ ls.strings.lookup text = some l) ∨
      ls.constant text = (ls.fresh.1, stringConstant ls.fresh.1 text,
        { ls.fresh.2 with strings := (text, ls.fresh.1) :: ls.strings }) ∧
        (ls.pool = true → ls.strings.lookup text = none) := by
  rw [constant]
  cases hpool : ls.pool with
  | false => exact .inr ⟨rfl, fun h => by cases h⟩
  | true =>
    rw [if_pos rfl]
    cases hfind : ls.strings.lookup text with
    | some l => exact .inl ⟨l, rfl, rfl, rfl⟩
    | none => exact .inr ⟨rfl, fun _ => rfl⟩

namespace Sketch

variable {names : List String} {ls : Labels}

theorem getD_mem {k : Nat} (hk : k < names.length) : names.getD k "" ∈ names := by
  rw [List.getD_eq_getElem _ _ hk]
  exact List.getElem_mem hk

/-- The sketch has instructions only, apart from labels that are taken and string constants. -/
def Bodily (s : Sketch) : Prop := ∀ i ∈ s.plain, ∃ op args comment, i = .instr op args comment

theorem bodily_append {a b : Sketch} : (a.append b).Bodily ↔ a.Bodily ∧ b.Bodily :=
  List.forall_mem_append

/-- Code begins and ends in the text segment. -/
theorem arranged {s : Sketch} (h : s.Bodily) : Arranged .text (s.run names ls).1 .text := by
  induction s generalizing names ls with
  | items q => exact .instrs h
  | constant text =>
    rw [run]
    rcases ls.constant_cases text with ⟨l, heq, -⟩ | ⟨heq, -⟩
    · rw [heq]
      exact .instr .nil
    · rw [heq]
      exact (Arranged.stringConstant _ _).append (.instr .nil)
  | append a b iha ihb =>
    obtain ⟨ha, hb⟩ := bodily_append.mp h
    exact (iha ha).append (ihb hb)
  | taking a ih => exact ih h
  | part a ih => exact ih h
  | label => exact .label .nil
  | jump => exact .instr .nil

/-- The labels that a sketch defines are in its code. -/
theorem codeLabel_of_defines (names : List String) {s : Sketch} (h : s.Bodily) {k : Nat}
    (hk : s.Defines k) :
    CodeLabel (s.run names ls).1 (names.getD k "") := by
  induction s generalizing names ls k with
  | append a b iha ihb =>
    obtain ⟨ha, hb⟩ := bodily_append.mp h
    rcases hk with hk | hk
    · exact (iha names ha hk).left
    · exact (ihb names hb hk).right (arranged ha)
  | taking a ih => exact ih _ h hk
  | label k' comment =>
    cases hk
    exact .single comment
  | items | constant | part | jump => exact hk.elim

/-- Branches lead to labels of the code, to labels taken around it, or out of it. -/
theorem targets_run (names : List String) {s : Sketch} (h : s.Bodily) {exits : List String}
    (hexits : ∀ i ∈ s.plain, ∀ l ∈ i.targets, l ∈ exits) (hs : s.Scoped names.length) :
    ∀ i ∈ (s.run names ls).1, ∀ l ∈ i.targets,
      l ∈ exits ∨ l ∈ names ∨ CodeLabel (s.run names ls).1 l := by
  induction s generalizing names ls with
  | items q => exact fun i hi l hl => .inl (hexits i hi l hl)
  | constant text =>
    rw [run]
    rcases ls.constant_cases text with ⟨l, heq, -⟩ | ⟨heq, -⟩
    · rw [heq]
      exact List.forall_mem_singleton.mpr (List.forall_mem_nil _)
    · rw [heq]
      simp [stringConstant, loadAddress, instr, Item.targets, Opcode.branches]
  | append a b iha ihb =>
    obtain ⟨ha, hb⟩ := bodily_append.mp h
    obtain ⟨hea, heb⟩ := List.forall_mem_append.mp hexits
    refine List.forall_mem_append.mpr ⟨fun i hi l hl => ?_, fun i hi l hl => ?_⟩
    · exact (iha names ha hea hs.1 i hi l hl).imp id fun hl => hl.imp id fun hl => hl.left
    · exact (ihb names hb heb hs.2 i hi l hl).imp id
        fun hl => hl.imp id fun hl => hl.right (arranged ha)
  | taking a ih =>
    intro i hi l hl
    have hcases := ih (ls.fresh.1 :: names) h hexits hs.1 i hi l hl
    rcases hcases with hl | hl | hl
    · exact .inl hl
    · rcases List.mem_cons.mp hl with rfl | hl
      · exact .inr (.inr (codeLabel_of_defines (_ :: names) (s := a) h hs.2))
      · exact .inr (.inl hl)
    · exact .inr (.inr hl)
  | part a ih =>
    intro i hi l hl
    rcases ih [] h hexits hs i hi l hl with hl | hl | hl
    · exact .inl hl
    · cases hl
    · exact .inr (.inr hl)
  | label => exact List.forall_mem_singleton.mpr (List.forall_mem_nil _)
  | jump op args k comment =>
    obtain ⟨hk, hop, hargs⟩ := hs
    refine List.forall_mem_singleton.mpr fun l hl => .inr (.inl ?_)
    rw [instr, Item.targets, if_pos hop, List.filterMap_append, hargs, List.nil_append] at hl
    cases List.mem_singleton.mp hl
    exact getD_mem hk

/-- The calls in the code are those of its instructions. -/
theorem callees_run {s : Sketch} {n : Nat} (hs : s.Scoped n) :
    (s.run names ls).1.flatMap Item.callees = s.plain.flatMap Item.callees := by
  induction s generalizing names ls n with
  | items => rfl
  | constant text =>
    rw [run]
    rcases ls.constant_cases text with ⟨l, heq, -⟩ | ⟨heq, -⟩
    · rw [heq]
      rfl
    · rw [heq]
      rfl
  | append a b iha ihb =>
    show ((a ++ b).run names ls).1.flatMap _ = _
    rw [run_append, List.flatMap_append, iha hs.1, ihb hs.2]
    exact List.flatMap_append.symm
  | taking a ih => exact ih hs.1
  | part a ih => exact ih hs
  | label => rfl
  | jump op args k comment =>
    have hop : op ≠ .jal := by
      rintro rfl
      cases hs.2.1
    show [instr op _ comment].flatMap _ = []
    rw [List.flatMap_singleton, instr, Item.callees, if_neg hop]

/-! ## String constants -/

/-- What is remembered after the code of a sketch is what was remembered before it and constants
that the code has. -/
theorem strings_run (names : List String) (ls : Labels) (s : Sketch) :
    (∀ c ∈ ls.strings, c ∈ (s.run names ls).2.strings) ∧
      ∀ c ∈ (s.run names ls).2.strings,
        c ∈ ls.strings ∨ stringConstant c.2 c.1 <:+: (s.run names ls).1 := by
  induction s generalizing names ls with
  | items | label | jump => exact ⟨fun _ hc => hc, fun _ hc => .inl hc⟩
  | constant text =>
    rw [run]
    rcases ls.constant_cases text with ⟨l, heq, -⟩ | ⟨heq, -⟩
    · rw [heq]
      exact ⟨fun _ hc => hc, fun _ hc => .inl hc⟩
    · rw [heq]
      refine ⟨fun c hc => List.mem_cons_of_mem _ hc, fun c hc => ?_⟩
      rcases List.mem_cons.mp hc with rfl | hc
      · exact .inr (List.prefix_append _ _).isInfix
      · exact .inl hc
  | append a b iha ihb =>
    refine ⟨fun c hc => (ihb _ _).1 c ((iha _ _).1 c hc), fun c hc => ?_⟩
    rcases (ihb _ _).2 c hc with hc | hc
    · exact ((iha _ _).2 c hc).imp id fun h => h.trans (List.prefix_append _ _).isInfix
    · exact .inr (hc.trans (List.suffix_append _ _).isInfix)
  | taking a ih => exact ih _ ls.fresh.2
  | part a ih => exact ih _ _

/-- The addresses that the code uses are those that its instructions use, and those of string
constants. -/
theorem addressed_run {s : Sketch} {n : Nat} (hs : s.Scoped n) :
    ∀ i ∈ (s.run names ls).1, ∀ l ∈ i.addressed,
      (∃ j ∈ s.plain, l ∈ j.addressed) ∨ ∃ text, (text, l) ∈ (s.run names ls).2.strings := by
  induction s generalizing names ls n with
  | items => exact fun i hi l hl => .inl ⟨i, hi, hl⟩
  | constant text =>
    rw [run]
    rcases ls.constant_cases text with ⟨l, heq, -, hfind⟩ | ⟨heq, -⟩
    · rw [heq]
      refine List.forall_mem_singleton.mpr fun l' hl' => .inr ⟨text, ?_⟩
      cases List.mem_singleton.mp hl'
      obtain ⟨before, after, hsplit, -⟩ := List.lookup_eq_some_iff.mp hfind
      rw [hsplit]
      exact List.mem_append_right _ List.mem_cons_self
    · rw [heq]
      refine List.forall_mem_append.mpr
        ⟨?_, List.forall_mem_singleton.mpr fun l' hl' => .inr ⟨text, ?_⟩⟩
      · simp [stringConstant, Item.addressed]
      · cases List.mem_singleton.mp hl'
        exact List.mem_cons_self
  | append a b iha ihb =>
    refine List.forall_mem_append.mpr ⟨fun i hi l hl => ?_, fun i hi l hl => ?_⟩
    · rcases iha hs.1 i hi l hl with ⟨j, hj, hl⟩ | ⟨text, htext⟩
      · exact .inl ⟨j, List.mem_append_left _ hj, hl⟩
      · exact .inr ⟨text, (strings_run _ _ b).1 _ htext⟩
    · rcases ihb hs.2 i hi l hl with ⟨j, hj, hl⟩ | hl
      · exact .inl ⟨j, List.mem_append_right _ hj, hl⟩
      · exact .inr hl
  | taking a ih => exact ih hs.1
  | part a ih => exact ih hs
  | label => exact List.forall_mem_singleton.mpr (List.forall_mem_nil _)
  | jump op args k comment =>
    refine List.forall_mem_singleton.mpr fun l hl => ?_
    rw [instr, Item.addressed, if_pos (.inl hs.2.1)] at hl
    cases hl

end Sketch

end CMinusMinus
