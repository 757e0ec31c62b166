import CMinusMinus.Proofs.Height
import CMinusMinus.Proofs.Machine

/-!
# Code and data in their places

A piece of code *sits* at a position if it begins there and the items before it leave off among
code (`Sits`).  What sits at a position can be taken apart into pieces that sit one after another,
and a label that sits at a position stands for it, as long as labels are different
(`Sits.label`).  Of data the same is said of the slots of globals and of string constants.

The slot of a global has an address that is a multiple of the word size, and takes the bytes from
there to the next data (`slot_of_split`).  The label of a string constant is the address of its
text and of no other (`constant_of_infix`).
-/

namespace CMinusMinus.Machine

/-- Code that begins among code leaves off among code. -/
def Textual (q : List Item) : Prop := q.foldl Segment.after .text = .text

theorem Textual.append {q r : List Item} (hq : Textual q) (hr : Textual r) : Textual (q ++ r) := by
  unfold Textual at *
  rw [List.foldl_append, hq, hr]

/-! ## Loading -/

namespace Layout

variable (l : Layout) (q r : List Item)

theorem addAll_cons (i : Item) : l.addAll (i :: q) = (l.add i).addAll q := rfl

theorem addAll_append : l.addAll (q ++ r) = (l.addAll q).addAll r := List.foldl_append

theorem segment_addAll : (l.addAll q).segment = q.foldl Segment.after l.segment := by
  induction q generalizing l with
  | nil => rfl
  | cons i q ih => exact ih (l.add i)

theorem position_addAll : (l.addAll q).position = l.position + q.length := by
  induction q generalizing l with
  | nil => rfl
  | cons i q ih =>
    rw [addAll_cons, ih, List.length_cons]
    show l.position + 1 + q.length = l.position + (q.length + 1)
    omega

theorem le_next_add (i : Item) : l.next ≤ (l.add i).next := by
  show l.next ≤ l.nextOf i
  cases i with
  | instr | label => exact Nat.le_refl _
  | directive d =>
    cases d with
    | align power =>
      show l.next ≤ (l.next + 2 ^ power - 1) / 2 ^ power * 2 ^ power
      have hpos : 0 < 2 ^ power := Nat.two_pow_pos power
      have hmod := Nat.mod_lt (l.next + 2 ^ power - 1) hpos
      have hdiv := Nat.div_add_mod' (l.next + 2 ^ power - 1) (2 ^ power)
      omega
    | space | asciiz => exact Nat.le_add_right _ _
    | data | text | globl | other => exact Nat.le_refl _

theorem le_next_addAll : l.next ≤ (l.addAll q).next := by
  induction q generalizing l with
  | nil => exact Nat.le_refl _
  | cons i q ih => exact Nat.le_trans (l.le_next_add i) (ih _)

/-- Items that do not define a label leave what it stands for. -/
theorem lookup_addAll {name : String} (h : name ∉ labels q) :
    (l.addAll q).code.lookup name = l.code.lookup name ∧
      (l.addAll q).data.lookup name = l.data.lookup name := by
  induction q generalizing l with
  | nil => exact ⟨rfl, rfl⟩
  | cons i q ih =>
    have hq : name ∉ labels q := fun hmem => h (by
      rw [← List.singleton_append, labels_append]
      exact List.mem_append_right _ hmem)
    obtain ⟨hcode, hdata⟩ := ih (l.add i) hq
    rw [addAll_cons, hcode, hdata]
    show (l.code ++ l.codeOf i).lookup name = _ ∧ (l.data ++ l.dataOf i).lookup name = _
    rw [List.lookup_append, List.lookup_append]
    cases i with
    | instr | directive => exact ⟨Option.or_none, Option.or_none⟩
    | label name' comment =>
      have hne : (name == name') = false := by
        refine beq_false_of_ne fun heq => h ?_
        subst heq
        exact List.mem_cons_self
      have hone : ∀ n : Nat, [(name', n)].lookup name = none := fun n => by
        rw [List.lookup_cons, hne]
        rfl
      have hcode : (l.codeOf (.label name' comment)).lookup name = none := by
        rw [codeOf]
        split
        · exact hone _
        · rfl
      have hdata : (l.dataOf (.label name' comment)).lookup name = none := by
        rw [dataOf]
        split
        · exact hone _
        · rfl
      rw [hcode, hdata]
      exact ⟨Option.or_none, Option.or_none⟩

end Layout

/-! ## Pieces of code -/

/-- The code sits at the position, among code. -/
structure Sits (items : List Item) (pc : Nat) (q : List Item) : Prop where
  split : ∃ pre post, items = pre ++ (q ++ post) ∧ pre.length = pc ∧ Textual pre

namespace Sits

variable {items : List Item} {pc : Nat} {q r : List Item} {i : Item}

theorem left (h : Sits items pc (q ++ r)) : Sits items pc q := by
  obtain ⟨pre, post, hitems, hpc, hpre⟩ := h.split
  exact ⟨pre, r ++ post, by rw [hitems, List.append_assoc], hpc, hpre⟩

theorem right (h : Sits items pc (q ++ r)) (hq : Textual q) : Sits items (pc + q.length) r := by
  obtain ⟨pre, post, hitems, hpc, hpre⟩ := h.split
  refine ⟨pre ++ q, post, ?_, ?_, hpre.append hq⟩
  · rw [hitems, List.append_assoc, List.append_assoc]
  · rw [List.length_append, hpc]

theorem isInfix (h : Sits items pc q) : q <:+: items := by
  obtain ⟨pre, post, hitems, -⟩ := h.split
  exact ⟨pre, post, by rw [hitems, List.append_assoc]⟩

theorem getElem? (h : Sits items pc (i :: q)) : items[pc]? = some i := by
  obtain ⟨pre, post, rfl, rfl, -⟩ := h.split
  simp

/-- A label stands for the position that it sits at. -/
theorem label {name : String} {comment : Option String}
    (h : Sits items pc (.label name comment :: q)) (hlabels : (labels items).Nodup) :
    (load items).code.lookup name = some pc := by
  obtain ⟨pre, post, rfl, rfl, hpre⟩ := h.split
  rw [labels_append, List.cons_append] at hlabels
  obtain ⟨-, hrest, hapart⟩ := List.nodup_append.mp hlabels
  have hbefore : name ∉ labels pre := fun hmem => hapart _ hmem name List.mem_cons_self rfl
  have hafter : name ∉ labels (q ++ post) := (List.nodup_cons.mp hrest).1
  rw [load, Layout.addAll_append, List.cons_append, Layout.addAll_cons,
    (Layout.lookup_addAll _ _ hafter).1]
  show (Layout.code (.addAll {} pre) ++ Layout.codeOf (.addAll {} pre) _).lookup name = _
  have hsegment : (Layout.addAll {} pre).segment = .text :=
    (Layout.segment_addAll {} pre).trans hpre
  have hposition : (Layout.addAll {} pre).position = pre.length :=
    (Layout.position_addAll {} pre).trans (Nat.zero_add _)
  rw [List.lookup_append, (Layout.lookup_addAll {} pre hbefore).1, Layout.codeOf, if_pos hsegment,
    hposition, List.lookup_cons, BEq.rfl]
  rfl

end Sits

/-! ## Texts -/

theorem textBytes_pos (cs : List Char) : 1 ≤ textBytes cs := by
  fun_induction textBytes cs with
  | case1 => omega
  | case2 c cs _ ih => omega
  | case3 => exact Nat.le_refl _

namespace Layout

/-- The texts lie below the next data. -/
def Low (l : Layout) : Prop := ∀ p ∈ l.texts, p.1 < l.next

theorem low_empty : Low {} := by
  intro p hp
  cases hp

theorem Low.add {l : Layout} (h : l.Low) (i : Item) : (l.add i).Low := by
  intro p hp
  rcases List.mem_append.mp hp with hp | hp
  · exact Nat.lt_of_lt_of_le (h p hp) (l.le_next_add i)
  · cases i with
    | instr | label => cases hp
    | directive d =>
      cases d with
      | asciiz body =>
        cases List.mem_singleton.mp hp
        have hpos := textBytes_pos body.toList
        show l.next < l.next + textBytes body.toList
        omega
      | data | text | align | globl | space | other => cases hp

theorem Low.addAll {l : Layout} (h : l.Low) (q : List Item) : (l.addAll q).Low := by
  induction q generalizing l with
  | nil => exact h
  | cons i q ih => exact ih (h.add i)

theorem texts_addAll (l : Layout) (q : List Item) : ∃ ts, (l.addAll q).texts = l.texts ++ ts := by
  induction q generalizing l with
  | nil => exact ⟨[], (List.append_nil _).symm⟩
  | cons i q ih =>
    obtain ⟨ts, hts⟩ := ih (l.add i)
    exact ⟨l.textsOf i ++ ts, hts.trans (List.append_assoc _ _ _)⟩

/-- A text is found at its address. -/
theorem Low.lookup {l : Layout} (h : l.Low) (body : String) (ts : List (Nat × String)) :
    (l.texts ++ (l.next, body) :: ts).lookup l.next = some body := by
  have hnone : l.texts.lookup l.next = none := by
    rw [List.lookup_eq_none_iff]
    intro p hp
    have hlt := h p hp
    exact bne_iff_ne.mpr (by omega)
  rw [List.lookup_append, hnone, List.lookup_cons, BEq.rfl]
  rfl

end Layout

/-! ## Labels among data -/

theorem not_mem_labels {pre q post : List Item} {name : String}
    (h : (labels (pre ++ (q ++ post))).Nodup) (hq : name ∈ labels q) :
    name ∉ labels pre ∧ name ∉ labels post := by
  rw [labels_append, labels_append] at h
  obtain ⟨-, hrest, hapart⟩ := List.nodup_append.mp h
  obtain ⟨-, -, hapart'⟩ := List.nodup_append.mp hrest
  exact ⟨fun hmem => hapart _ hmem name (List.mem_append_left _ hq) rfl,
    fun hmem => hapart' _ hq name hmem rfl⟩

/-- The slot of a global lies between the data before it and the data after it. -/
theorem slot_of_split {pre post : List Item} {name : String} {size : Nat}
    (h : (labels (pre ++ (Asm.globalSlot name size ++ post))).Nodup) :
    ∃ a, (load (pre ++ (Asm.globalSlot name size ++ post))).data.lookup name = some a ∧
      4 ∣ a ∧ (load pre).next ≤ a ∧ a + size = (load (pre ++ Asm.globalSlot name size)).next := by
  obtain ⟨hpre, hpost⟩ := not_mem_labels h (List.mem_singleton.mpr rfl)
  have hdata := (Layout.lookup_addAll {} pre hpre).2
  rw [load, load, load, Layout.addAll_append, Layout.addAll_append, Layout.addAll_append,
    (Layout.lookup_addAll _ _ hpost).2]
  generalize Layout.addAll {} pre = l at hdata
  refine ⟨advance l.next (.align 2), ?_, ?_, ?_, ?_⟩
  · show (l.data ++ [] ++ [] ++ [(name, advance l.next (.align 2))] ++ []).lookup name = _
    rw [List.append_nil, List.append_nil, List.append_nil, List.lookup_append, hdata,
      List.lookup_cons, BEq.rfl]
    rfl
  · exact Nat.dvd_mul_left _ _
  · exact l.le_next_add (.directive (.align 2))
  · show advance l.next (.align 2) + size = advance l.next (.align 2) + (size : Int).toNat
    rw [Int.toNat_natCast]

/-- The label of a string constant is the address of its text. -/
theorem constant_of_infix {items : List Item} {name body : String}
    (hlabels : (labels items).Nodup) (h : Asm.stringConstant name body <:+: items) :
    ∃ a, (load items).data.lookup name = some a ∧ (load items).texts.lookup a = some body ∧
      a < (load items).next := by
  obtain ⟨pre, post, rfl⟩ := h
  rw [List.append_assoc] at hlabels ⊢
  obtain ⟨hpre, hpost⟩ := not_mem_labels hlabels (List.mem_singleton.mpr rfl)
  have hdata := (Layout.lookup_addAll {} pre hpre).2
  have hlow : (Layout.addAll {} pre).Low := Layout.low_empty.addAll pre
  rw [load, Layout.addAll_append, Layout.addAll_append, (Layout.lookup_addAll _ _ hpost).2]
  generalize Layout.addAll {} pre = l at hdata hlow
  refine ⟨l.next, ?_, ?_, ?_⟩
  · show (l.data ++ [] ++ [(name, l.next)] ++ [] ++ []).lookup name = _
    rw [List.append_nil, List.append_nil, List.append_nil, List.lookup_append, hdata,
      List.lookup_cons, BEq.rfl]
    rfl
  · obtain ⟨ts, hts⟩ := Layout.texts_addAll (l.addAll (Asm.stringConstant name body)) post
    rw [hts]
    show (l.texts ++ [] ++ [] ++ [(l.next, body)] ++ [] ++ ts).lookup l.next = _
    rw [List.append_nil, List.append_nil, List.append_nil, List.append_assoc,
      List.singleton_append]
    exact hlow.lookup body ts
  · have hpos := textBytes_pos body.toList
    have hle := Layout.le_next_addAll (l.addAll (Asm.stringConstant name body)) post
    have hnext : (l.addAll (Asm.stringConstant name body)).next =
      l.next + textBytes body.toList := rfl
    omega

end CMinusMinus.Machine
