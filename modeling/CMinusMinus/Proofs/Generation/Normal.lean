import CMinusMinus.Proofs.Generation.Labels
import CMinusMinus.Proofs.Height
import Mathlib.Data.List.Basic
import Mathlib.Data.Set.Function

/-!
# Normal forms of code

Two listings that differ in comments, in the numbers of labels, and in where string constants are
defined and how often, have one normal form (`normal`).  In it, comments and constants are gone, the
text of a constant stands in the place of its label, and numbered labels are numbered in the order
of their first appearances.  Changing the numbers of labels does not change the numbering
(`renumber_rename`).
-/

namespace CMinusMinus

/-! ## Labels of items -/

/-- The operand with another label. -/
def Operand.rename (f : String → String) : Operand → Operand
  | .label l => .label (f l)
  | a => a

namespace Item

/-- The item with other labels. -/
def rename (f : String → String) : Item → Item
  | .instr op args comment => .instr op (args.map (Operand.rename f)) comment
  | .label l comment => .label (f l) comment
  | .directive d => .directive d

/-- The labels that an item defines or refers to. -/
def names : Item → List String
  | .instr _ args _ => args.filterMap Operand.label?
  | .label l _ => [l]
  | .directive _ => []

/-- The comment of an item. -/
def comment? : Item → Option String
  | .instr _ _ comment | .label _ comment => comment
  | .directive _ => none

/-- The text of an item that is a string. -/
def asciiz? : Item → Option String
  | .directive (.asciiz text) => some text
  | _ => none

theorem comment?_bare (i : Item) : i.bare.comment? = none := by cases i <;> rfl

theorem asciiz?_bare (i : Item) : i.bare.asciiz? = i.asciiz? := by cases i <;> rfl

theorem bare_rename (f : String → String) (i : Item) : (i.rename f).bare = i.bare.rename f := by
  cases i <;> rfl

theorem map_bare_rename (f : String → String) (q : List Item) :
    (q.map Item.bare).map (rename f) = (q.map (rename f)).map Item.bare := by
  rw [List.map_map, List.map_map]
  exact List.map_congr_left fun i _ => (i.bare_rename f).symm

theorem names_bare (i : Item) : i.bare.names = i.names := by cases i <;> rfl

theorem names_rename (f : String → String) (i : Item) : (i.rename f).names = i.names.map f := by
  cases i with
  | label | directive => rfl
  | instr op args comment =>
    rw [rename, names, names, List.filterMap_map, List.map_filterMap]
    refine List.filterMap_congr fun a _ => ?_
    cases a <;> rfl

theorem rename_congr {f g : String → String} {i : Item} (h : ∀ l ∈ i.names, f l = g l) :
    i.rename f = i.rename g := by
  cases i with
  | directive => rfl
  | label l comment => rw [rename, rename, h l (List.mem_singleton_self l)]
  | instr op args comment =>
    rw [rename, rename]
    refine congrArg (Item.instr op · comment) (List.map_congr_left fun a ha => ?_)
    cases a with
    | label l => rw [Operand.rename, Operand.rename, h l (List.mem_filterMap.mpr ⟨_, ha, rfl⟩)]
    | reg | imm | indexed => rfl

theorem rename_eq_self {f : String → String} {i : Item} (h : ∀ l ∈ i.names, f l = l) :
    i.rename f = i := by
  have hid : i.rename id = i := by
    cases i with
    | label | directive => rfl
    | instr op args comment =>
      refine congrArg (Item.instr op · comment) (List.map_id'' ?_ args)
      intro a
      cases a <;> rfl
  exact (rename_congr h).trans hid

theorem rename_rename (f g : String → String) (i : Item) :
    (i.rename f).rename g = i.rename (g ∘ f) := by
  cases i with
  | label | directive => rfl
  | instr op args comment =>
    rw [rename, rename, rename, List.map_map]
    refine congrArg (Item.instr op · comment) (List.map_congr_left fun a _ => ?_)
    cases a <;> rfl

end Item

namespace Asm

/-- Whether the label is that of a number, to judge by how it begins. -/
def isNumbered (l : String) : Bool := ['.', 'L'].isPrefixOf l.toList

theorem isNumbered_numbered (n : Nat) : isNumbered (numbered n) = true := by
  rw [isNumbered, toList_numbered]
  simp [List.isPrefixOf]

/-! ## String constants -/

/-- The labels of string constants between pieces of code, with their texts. -/
def constants : List Item → List (String × String)
  | .directive .data :: .label l _ :: .directive (.asciiz text) :: .directive .text :: q =>
    (l, text) :: constants q
  | _ :: q => constants q
  | [] => []

/-- The items without the string constants between pieces of code. -/
def dropConstants : List Item → List Item
  | .directive .data :: .label _ _ :: .directive (.asciiz _) :: .directive .text :: q =>
    dropConstants q
  | i :: q => i :: dropConstants q
  | [] => []

/-- What is no constant is none without comments either. -/
theorem not_constant_bare {i : Item} {q : List Item}
    (h : ∀ l c text q', i = .directive .data →
      q = .label l c :: .directive (.asciiz text) :: .directive .text :: q' → False)
    {l : String} {c : Option String} {text : String} {q' : List Item}
    (hi : i.bare = .directive .data)
    (hq : q.map Item.bare = .label l c :: .directive (.asciiz text) :: .directive .text :: q') :
    False := by
  obtain ⟨a, q₁, rfl, ha, hq⟩ := List.map_eq_cons_iff.mp hq
  obtain ⟨b, q₂, rfl, hb, hq⟩ := List.map_eq_cons_iff.mp hq
  obtain ⟨e, q₃, rfl, he, rfl⟩ := List.map_eq_cons_iff.mp hq
  cases i with
  | instr | label => cases hi
  | directive =>
    cases hi
    cases a <;> cases b <;> cases e <;> cases ha <;> cases hb <;> cases he
    exact h _ _ _ _ rfl rfl

theorem constants_bare (q : List Item) : constants (q.map Item.bare) = constants q := by
  fun_induction constants q with
  | case1 l c text q ih => simp [Item.bare, constants, ih]
  | case2 i q h ih =>
    rw [List.map_cons, constants, ih]
    exact fun l c text q' hi hq => not_constant_bare h hi hq
  | case3 => rfl

theorem dropConstants_bare (q : List Item) :
    dropConstants (q.map Item.bare) = (dropConstants q).map Item.bare := by
  fun_induction dropConstants q with
  | case1 l c text q ih => simp [Item.bare, dropConstants, ih]
  | case2 i q h ih =>
    rw [List.map_cons, dropConstants, ih, List.map_cons]
    exact fun l c text q' hi hq => not_constant_bare h hi hq
  | case3 => rfl

/-- The text of a constant as a name, which is no label. -/
def literal (text : String) : String := "\"" ++ text ++ "\""

theorem isNumbered_literal (text : String) : isNumbered (literal text) = false := by
  rw [isNumbered, literal, String.toList_append, String.toList_append]
  rfl

/-- The text that a label of a constant names, and other labels as they are. -/
def inlined (table : List (String × String)) (l : String) : String :=
  ((table.lookup l).map literal).getD l

/-! ## Numbers of labels -/

/-- The first appearances. -/
def firsts : List String → List String
  | [] => []
  | l :: ls => l :: (firsts ls).filter (· ≠ l)

theorem mem_firsts {l : String} {ls : List String} : l ∈ firsts ls ↔ l ∈ ls := by
  induction ls with
  | nil => rfl
  | cons l' ls ih =>
    rw [firsts, List.mem_cons, List.mem_cons, List.mem_filter, ih, decide_eq_true_iff]
    exact ⟨fun h => h.imp id And.left, fun h => (em (l = l')).imp id fun hne =>
      ⟨h.resolve_left hne, hne⟩⟩

theorem firsts_map {f : String → String} {ls : List String} (h : Set.InjOn f { l | l ∈ ls }) :
    firsts (ls.map f) = (firsts ls).map f := by
  induction ls with
  | nil => rfl
  | cons l ls ih =>
    rw [List.map_cons, firsts, firsts, List.map_cons,
      ih (h.mono fun _ => List.mem_cons_of_mem l), List.filter_map]
    refine congrArg (f l :: List.map f ·) (List.filter_congr fun l' hl' => ?_)
    have hne : f l' = f l ↔ l' = l :=
      h.eq_iff (List.mem_cons_of_mem l (mem_firsts.mp hl')) List.mem_cons_self
    simp only [Function.comp_apply, ne_eq, hne]

theorem idxOf_map {f : String → String} {ls : List String} {l : String}
    (h : ∀ l' ∈ ls, f l' = f l → l' = l) : (ls.map f).idxOf (f l) = ls.idxOf l := by
  induction ls with
  | nil => rfl
  | cons l' ls ih =>
    obtain ⟨hl', hls⟩ := List.forall_mem_cons.mp h
    rw [List.map_cons, List.idxOf_cons, List.idxOf_cons, ih hls]
    by_cases heq : l' = l
    · rw [heq, beq_self_eq_true, beq_self_eq_true]
    · rw [beq_false_of_ne heq, beq_false_of_ne fun hf => heq (hl' hf)]

/-- The label of a place in a list for what is there, and other labels as they are. -/
def placed (order : List String) (l : String) : String :=
  if l ∈ order then numbered (order.idxOf l) else l

/-- The numbered labels of items, in the order of their first appearances. -/
def numberedNames (q : List Item) : List String :=
  firsts ((q.flatMap Item.names).filter isNumbered)

theorem mem_numberedNames {l : String} {q : List Item} :
    l ∈ numberedNames q ↔ l ∈ q.flatMap Item.names ∧ isNumbered l = true := by
  rw [numberedNames, mem_firsts, List.mem_filter]

/-- The items with the numbered labels numbered in the order of their first appearances. -/
def renumber (q : List Item) : List Item := q.map (Item.rename (placed (numberedNames q)))

/-- Other numbers for the numbered labels do not matter. -/
theorem renumber_rename {f : String → String} {q : List Item}
    (hnumbered : ∀ l ∈ q.flatMap Item.names, isNumbered l = true → isNumbered (f l) = true)
    (hother : ∀ l ∈ q.flatMap Item.names, isNumbered l = false → f l = l)
    (hinj : Set.InjOn f { l | l ∈ q.flatMap Item.names ∧ isNumbered l = true }) :
    renumber (q.map (Item.rename f)) = renumber q := by
  have hsame : ∀ l ∈ q.flatMap Item.names, (isNumbered ∘ f) l = isNumbered l := by
    intro l hl
    cases hn : isNumbered l with
    | true => exact hnumbered l hl hn
    | false => rw [Function.comp_apply, hother l hl hn, hn]
  have hnames : (q.map (Item.rename f)).flatMap Item.names = (q.flatMap Item.names).map f := by
    rw [List.flatMap_map, List.map_flatMap]
    exact congrArg List.flatten (List.map_congr_left fun i _ => i.names_rename f)
  have horder : numberedNames (q.map (Item.rename f)) = (numberedNames q).map f := by
    rw [numberedNames, hnames, List.filter_map, List.filter_congr hsame, numberedNames,
      firsts_map (hinj.mono fun l hl => List.mem_filter.mp hl)]
  rw [renumber, renumber, horder, List.map_map]
  refine List.map_congr_left fun i hi => ?_
  rw [Function.comp_apply, Item.rename_rename]
  refine Item.rename_congr fun l hl => ?_
  have hmem : l ∈ q.flatMap Item.names := List.mem_flatMap.mpr ⟨i, hi, hl⟩
  rw [Function.comp_apply, placed, placed]
  cases hn : isNumbered l with
  | true =>
    have hthere : l ∈ numberedNames q := mem_numberedNames.mpr ⟨hmem, hn⟩
    rw [if_pos hthere, if_pos (List.mem_map_of_mem hthere), idxOf_map fun l' hl' heq => ?_]
    exact hinj (mem_numberedNames.mp hl') ⟨hmem, hn⟩ heq
  | false =>
    have hnot : ∀ order : List String, (∀ l' ∈ order, isNumbered l' = true) → l ∉ order :=
      fun order horder hl => by rw [horder l hl] at hn; cases hn
    rw [hother l hmem hn, if_neg (hnot _ ?_), if_neg (hnot _ fun l' hl' => ?_)]
    · exact (mem_numberedNames.mp hl').2
    · refine List.forall_mem_map.mpr fun l' hl' => ?_
      obtain ⟨hl', hn'⟩ := mem_numberedNames.mp hl'
      exact hnumbered l' hl' hn'

/-- The items without comments and constants, with the texts of constants for their labels, and with
numbered labels in order. -/
def normal (q : List Item) : List Item :=
  renumber ((dropConstants (q.map Item.bare)).map
    (Item.rename (inlined (constants (q.map Item.bare)))))

theorem normal_bare (q : List Item) : normal (q.map Item.bare) = normal q := by
  have hbare : (q.map Item.bare).map Item.bare = q.map Item.bare := by
    rw [List.map_map]
    exact List.map_congr_left fun i _ => i.bare_bare
  rw [normal, normal, hbare]

/-- Comments may be left out in the end. -/
theorem normal_eq (q : List Item) : normal q =
    renumber (((dropConstants q).map (Item.rename (inlined (constants q)))).map Item.bare) := by
  rw [normal, constants_bare, dropConstants_bare, Item.map_bare_rename]

end Asm

end CMinusMinus
