import CMinusMinus.Asm.Text
import CMinusMinus.Proofs.Text
import Mathlib

/-!
# Assembly that can be read back

Operands, labels, comments and string constants are written as they are, without quoting what they
hold.  Still a list of items can be read back from its lines if the items are *legible*: operations
and registers are the ones that generated code has, labels begin like no number and no register and
hold nothing that stands around them, comments are there and stay in their column, and string
constants stay on their line.

A line tells its item by its tabs (`Item.text_inj`).  An instruction and a directive begin with one,
and a label does not; the operation, the operands and the comment of an instruction stand in
columns, so the number of tabs says which of them there are.  The text of a string constant comes
last, and may hold anything but a line feed.
-/

namespace CMinusMinus

open Text (append_cons_inj notMem_int)

/-! ## Texts cut into columns and lines -/

namespace Text

variable {α : Type} {x : α}

/-- Pieces without the element that begins each of them are told apart. -/
theorem flatMap_cons_inj {ls ms : List (List α)} (hls : ∀ l ∈ ls, x ∉ l) (hms : ∀ m ∈ ms, x ∉ m)
    (h : ls.flatMap (x :: ·) = ms.flatMap (x :: ·)) : ls = ms := by
  have hjoin : ∀ (ns : List (List α)) (n : List α),
      [x].intercalate (n :: ns) = n ++ ns.flatMap (x :: ·) := by
    intro ns
    induction ns with
    | nil => simp
    | cons m ns ih =>
      intro n
      rw [List.intercalate_cons_cons, ih]
      simp
  have hnil : ∀ {ns : List (List α)}, (∀ n ∈ ns, x ∉ n) → ∀ n ∈ [] :: ns, x ∉ n :=
    fun hns => List.forall_mem_cons.mpr ⟨List.not_mem_nil, hns⟩
  have hsame : [x].intercalate ([] :: ls) = [x].intercalate ([] :: ms) := by
    rw [hjoin, hjoin, h]
  exact (List.cons.inj (intercalate_inj (hnil hls) (hnil hms) (List.cons_ne_nil _ _)
    (List.cons_ne_nil _ _) hsame)).2

/-- Pieces without the element that ends each of them are told apart. -/
theorem flatMap_concat_inj {ls ms : List (List α)} (hls : ∀ l ∈ ls, x ∉ l)
    (hms : ∀ m ∈ ms, x ∉ m) (h : ls.flatMap (· ++ [x]) = ms.flatMap (· ++ [x])) : ls = ms := by
  induction ls generalizing ms with
  | nil =>
    cases ms with
    | nil => rfl
    | cons m ms => simp at h
  | cons l ls ih =>
    cases ms with
    | nil => simp at h
    | cons m ms =>
      obtain ⟨hl, hls⟩ := List.forall_mem_cons.mp hls
      obtain ⟨hm, hms'⟩ := List.forall_mem_cons.mp hms
      simp only [List.flatMap_cons, List.append_assoc, List.singleton_append] at h
      obtain ⟨rfl, hrest⟩ := append_cons_inj hl hm h
      rw [ih hls hms' hrest]

end Text

/-! ## Legible items -/

namespace Asm

/-- The text stays in its column and on its line. -/
def Narrow (cs : List Char) : Prop := '\t' ∉ cs ∧ '\n' ∉ cs

instance (cs : List Char) : Decidable (Narrow cs) := inferInstanceAs (Decidable (_ ∧ _))

theorem Narrow.append {cs ds : List Char} (hcs : Narrow cs) (hds : Narrow ds) :
    Narrow (cs ++ ds) :=
  ⟨List.not_mem_append hcs.1 hds.1, List.not_mem_append hcs.2 hds.2⟩

/-- The label is spelled as labels in generated code are. -/
def IsLabel (l : String) : Prop :=
  l.toList.head? ∈ [some '.', some '_', some 'm'] ∧ Narrow l.toList ∧ ',' ∉ l.toList ∧
    ':' ∉ l.toList

instance (l : String) : Decidable (IsLabel l) := inferInstanceAs (Decidable (_ ∧ _))

/-- The comment is not empty, and stays in its column. -/
def IsComment (comment : String) : Prop := comment.toList ≠ [] ∧ Narrow comment.toList

instance (comment : String) : Decidable (IsComment comment) := inferInstanceAs (Decidable (_ ∧ _))

end Asm

open Asm (Narrow IsLabel IsComment)

/-- The operand is one that generated code has. -/
def Operand.Legible : Operand → Prop
  | .reg r | .indexed r _ => r ∈ Reg.all
  | .imm _ => True
  | .label name => IsLabel name

instance : DecidablePred Operand.Legible
  | .reg r | .indexed r _ => inferInstanceAs (Decidable (r ∈ Reg.all))
  | .imm _ => .isTrue trivial
  | .label name => inferInstanceAs (Decidable (IsLabel name))

/-- The directive is one that generated code has. -/
def Directive.Legible : Directive → Prop
  | .data | .text | .align _ | .space _ => True
  | .globl label => IsLabel label
  | .asciiz body => '\n' ∉ body.toList
  | .other .. => False

instance : DecidablePred Directive.Legible
  | .data | .text | .align _ | .space _ => .isTrue trivial
  | .globl label => inferInstanceAs (Decidable (IsLabel label))
  | .asciiz body => inferInstanceAs (Decidable ('\n' ∉ body.toList))
  | .other .. => .isFalse id

/-- The item is one that generated code has. -/
def Item.Legible : Item → Prop
  | .instr op args comment =>
    op ∈ Opcode.all ∧ (∀ a ∈ args, a.Legible) ∧ ∀ c ∈ comment, IsComment c
  | .label name comment => IsLabel name ∧ ∀ c ∈ comment, IsComment c
  | .directive d => d.Legible

instance : DecidablePred Item.Legible
  | .instr .. | .label .. => inferInstanceAs (Decidable (_ ∧ _))
  | .directive d => inferInstanceAs (Decidable d.Legible)

theorem Item.Legible.bare {i : Item} (h : i.Legible) : i.bare.Legible := by
  cases i with
  | instr op args comment => exact ⟨h.1, h.2.1, nofun⟩
  | label name comment => exact ⟨h.1, nofun⟩
  | directive d => exact h

/-! ## Operands -/

theorem Reg.name_inj : ∀ r ∈ all, ∀ r' ∈ all, r.name = r'.name → r = r' := by decide

theorem Opcode.name_inj : ∀ op ∈ all, ∀ op' ∈ all, op.name = op'.name → op = op' := by decide

namespace Operand

variable {a b : Operand}

theorem toList_reg (r : Reg) : (reg r).text.toList = '$' :: r.name.toList := by simp [text]

theorem toList_indexed (base : Reg) (offset : Int) : (indexed base offset).text.toList =
    (toString offset).toList ++ '(' :: '$' :: (base.name.toList ++ [')']) := by
  simp [text]

/-- How the text of an operand may begin. -/
def Begins : Operand → Char → Prop
  | .reg _, c => c = '$'
  | .imm _, c | .indexed .., c => c.isDigit = true ∨ c = '-'
  | .label _, c => c = '.' ∨ c = '_' ∨ c = 'm'

theorem begins_text (h : a.Legible) : ∃ c cs, a.text.toList = c :: cs ∧ a.Begins c := by
  cases a with
  | reg r => exact ⟨_, _, toList_reg r, rfl⟩
  | imm v => exact Text.exists_toList_int v
  | label name =>
    have hhead := h.1
    cases hname : name.toList with
    | nil =>
      rw [hname] at hhead
      exact absurd hhead (by decide)
    | cons c cs =>
      rw [hname] at hhead
      exact ⟨c, cs, hname, by simpa [Begins] using hhead⟩
  | indexed base offset =>
    obtain ⟨c, cs, htext, hc⟩ := Text.exists_toList_int offset
    exact ⟨c, _, by rw [toList_indexed, htext, List.cons_append], hc⟩

/-- The text of an operand holds nothing that stands around it. -/
theorem notMem_text (h : a.Legible) : Narrow a.text.toList ∧ ',' ∉ a.text.toList := by
  have hregs : ∀ r ∈ Reg.all, Narrow ('$' :: r.name.toList) ∧ ',' ∉ '$' :: r.name.toList := by
    decide
  have hbases : ∀ r ∈ Reg.all, Narrow ('(' :: '$' :: (r.name.toList ++ [')'])) ∧
      ',' ∉ '(' :: '$' :: (r.name.toList ++ [')']) := by
    decide
  have hint : ∀ z : Int, Narrow (toString z).toList ∧ ',' ∉ (toString z).toList := fun z =>
    ⟨⟨notMem_int (by decide) (by decide) z, notMem_int (by decide) (by decide) z⟩,
      notMem_int (by decide) (by decide) z⟩
  cases a with
  | reg r =>
    rw [toList_reg]
    exact hregs r h
  | imm v => exact hint v
  | label name => exact ⟨h.2.1, h.2.2.1⟩
  | indexed base offset =>
    rw [toList_indexed]
    exact ⟨(hint offset).1.append (hbases base h).1,
      List.not_mem_append (hint offset).2 (hbases base h).2⟩

/-- The text of an operand tells the operand. -/
theorem text_inj (ha : a.Legible) (hb : b.Legible) (h : a.text = b.text) : a = b := by
  have hlabel : ∀ {c : Char}, c = '.' ∨ c = '_' ∨ c = 'm' → ¬ (c.isDigit = true ∨ c = '-') := by
    rintro c (rfl | rfl | rfl) <;> decide
  have hparen : ∀ z : Int, '(' ∉ (toString z).toList := notMem_int (by decide) (by decide)
  obtain ⟨c, cs, hac, hca⟩ := begins_text ha
  obtain ⟨d, ds, hbd, hdb⟩ := begins_text hb
  have hlist := congrArg String.toList h
  obtain ⟨rfl, -⟩ := List.cons.inj (hac.symm.trans (hlist.trans hbd))
  match a, b with
  | .reg r, .reg r' =>
    rw [toList_reg, toList_reg] at hlist
    rw [Reg.name_inj r ha r' hb (String.toList_inj.mp (List.cons.inj hlist).2)]
  | .imm v, .imm v' => rw [Int.repr_injective h]
  | .label name, .label name' => rw [show name = name' from h]
  | .indexed base offset, .indexed base' offset' =>
    rw [toList_indexed, toList_indexed] at hlist
    obtain ⟨hoffset, hbase⟩ := append_cons_inj (hparen _) (hparen _) hlist
    have hname := String.toList_inj.mp (List.append_cancel_right (List.cons.inj hbase).2)
    rw [Int.repr_injective (String.toList_inj.mp hoffset), Reg.name_inj base ha base' hb hname]
  -- the parenthesis tells a place in memory from a number
  | .imm v, .indexed base offset =>
    rw [toList_indexed] at hlist
    exact absurd (hlist ▸ List.mem_append_right _ List.mem_cons_self) (hparen v)
  | .indexed base offset, .imm v =>
    rw [toList_indexed] at hlist
    exact absurd (hlist ▸ List.mem_append_right _ List.mem_cons_self) (hparen v)
  -- the others begin differently
  | .label _, .imm _ | .label _, .indexed .. => exact absurd hdb (hlabel hca)
  | .imm _, .label _ | .indexed .., .label _ => exact absurd hca (hlabel hdb)
  | .reg _, .label _ | .reg _, .imm _ | .reg _, .indexed .. =>
    cases hca
    exact absurd hdb (by simp [Begins])
  | .label _, .reg _ | .imm _, .reg _ | .indexed .., .reg _ =>
    cases hdb
    exact absurd hca (by simp [Begins])

end Operand

/-! ## Columns -/

namespace Item

variable {comment comment' : Option String} {args args' : List Operand}

/-- The columns of a comment: an empty one and that of the text. -/
def commentColumns : Option String → List (List Char)
  | some c => [[], '#' :: ' ' :: c.toList]
  | none => []

/-- The column of operands, if there are any. -/
def argColumns (args : List Operand) : List (List Char) :=
  if args.isEmpty then [] else [(", ".intercalate (args.map Operand.text)).toList]

theorem toList_commentText (h : ∀ c ∈ comment, IsComment c) :
    (commentText comment).toList = (commentColumns comment).flatMap ('\t' :: ·) := by
  cases comment with
  | none => rfl
  | some c =>
    have hc : c ≠ "" := fun hempty => (h c rfl).1 (by rw [hempty]; rfl)
    simp [commentText, commentColumns, Option.filter, hc]

theorem narrow_commentColumns (h : ∀ c ∈ comment, IsComment c) :
    ∀ l ∈ commentColumns comment, Narrow l := by
  cases comment with
  | none => exact List.forall_mem_nil _
  | some c =>
    have hsharp : Narrow ['#', ' '] := by decide
    exact List.forall_mem_cons.mpr
      ⟨by decide, List.forall_mem_singleton.mpr (hsharp.append (h c rfl).2)⟩

theorem commentColumns_inj (h : commentColumns comment = commentColumns comment') :
    comment = comment' := by
  cases comment with
  | none =>
    cases comment' with
    | none => rfl
    | some c' => cases h
  | some c =>
    cases comment' with
    | none => cases h
    | some c' =>
      have hc : c.toList = c'.toList := by simpa [commentColumns] using h
      rw [String.toList_inj.mp hc]

theorem toList_args (args : List Operand) : (", ".intercalate (args.map Operand.text)).toList =
    [',', ' '].intercalate (args.map fun a => a.text.toList) := by
  rw [String.toList_intercalate, List.map_map]
  rfl

theorem narrow_argColumns (h : ∀ a ∈ args, a.Legible) : ∀ l ∈ argColumns args, Narrow l := by
  unfold argColumns
  split
  · exact List.forall_mem_nil _
  · rw [toList_args]
    have hnarrow : ∀ l ∈ args.map fun a => a.text.toList, Narrow l :=
      List.forall_mem_map.mpr fun a ha => (Operand.notMem_text (h a ha)).1
    exact List.forall_mem_singleton.mpr
      ⟨Text.Path.notMem_intercalate (by decide) fun l hl => (hnarrow l hl).1,
        Text.Path.notMem_intercalate (by decide) fun l hl => (hnarrow l hl).2⟩

theorem argColumns_inj (h : ∀ a ∈ args, a.Legible) (h' : ∀ a ∈ args', a.Legible)
    (heq : argColumns args = argColumns args') : args = args' := by
  have hcommas : ∀ {as : List Operand}, (∀ a ∈ as, a.Legible) →
      ∀ l ∈ as.map fun a => a.text.toList, ',' ∉ l :=
    fun has => List.forall_mem_map.mpr fun a ha => (Operand.notMem_text (has a ha)).2
  cases args with
  | nil =>
    cases args' with
    | nil => rfl
    | cons => cases heq
  | cons a as =>
    cases args' with
    | nil => cases heq
    | cons b bs =>
      have hjoined := (List.cons.inj heq).1
      rw [toList_args, toList_args] at hjoined
      have htexts := Text.intercalate_inj (hcommas h) (hcommas h') nofun nofun hjoined
      refine Text.map_inj_of_forall (fun ha hb hab => ?_) h h' htexts
      exact Operand.text_inj ha hb (String.toList_inj.mp hab)

/-! ## Lines -/

/-- The columns of an instruction, each after a tab. -/
def columns (op : Opcode) (args : List Operand) (comment : Option String) : List (List Char) :=
  op.name.toList :: (argColumns args ++ commentColumns comment)

theorem narrow_name : ∀ op ∈ Opcode.all, Narrow op.name.toList := by decide

theorem toList_instr {op : Opcode} (h : (instr op args comment).Legible) :
    (instr op args comment).text.toList = (columns op args comment).flatMap ('\t' :: ·) := by
  rw [text, String.toList_append, toList_commentText h.2.2, columns, argColumns]
  split <;> simp

theorem narrow_columns {op : Opcode} (h : (instr op args comment).Legible) :
    ∀ l ∈ columns op args comment, Narrow l :=
  List.forall_mem_cons.mpr ⟨narrow_name op h.1,
    List.forall_mem_append.mpr ⟨narrow_argColumns h.2.1, narrow_commentColumns h.2.2⟩⟩

/-- The number of columns tells whether there are operands and whether there is a comment. -/
theorem columns_inj {op op' : Opcode} (h : (instr op args comment).Legible)
    (h' : (instr op' args' comment').Legible)
    (heq : columns op args comment = columns op' args' comment') :
    instr op args comment = instr op' args' comment' := by
  have hargs : ∀ as, (argColumns as).length ≤ 1 := by
    intro as
    unfold argColumns
    split <;> simp
  have hcomment : ∀ c, (commentColumns c).length = 0 ∨ (commentColumns c).length = 2 := by
    rintro (_ | c) <;> simp [commentColumns]
  obtain ⟨hname, hrest⟩ := List.cons.inj heq
  have hlength := congrArg List.length hrest
  rw [List.length_append, List.length_append] at hlength
  have hsame : (argColumns args).length = (argColumns args').length := by
    have := hargs args
    have := hargs args'
    have := hcomment comment
    have := hcomment comment'
    omega
  obtain ⟨hfirst, hlast⟩ := List.append_inj hrest hsame
  rw [Opcode.name_inj op h.1 op' h'.1 (String.toList_inj.mp hname),
    argColumns_inj h.2.1 h'.2.1 hfirst, commentColumns_inj hlast]

theorem toList_label {name : String} (h : (label name comment).Legible) :
    (label name comment).text.toList =
      name.toList ++ ':' :: (commentColumns comment).flatMap ('\t' :: ·) := by
  rw [text, String.toList_append, toList_commentText h.2]
  simp

theorem label_inj {name name' : String} (h : (label name comment).Legible)
    (h' : (label name' comment').Legible)
    (heq : (label name comment).text = (label name' comment').text) :
    label name comment = label name' comment' := by
  have hlist := congrArg String.toList heq
  rw [toList_label h, toList_label h'] at hlist
  obtain ⟨hname, hcomment⟩ := append_cons_inj h.1.2.2.2 h'.1.2.2.2 hlist
  have hcolumns := Text.flatMap_cons_inj (fun l hl => (narrow_commentColumns h.2 l hl).1)
    (fun l hl => (narrow_commentColumns h'.2 l hl).1) hcomment
  rw [String.toList_inj.mp hname, commentColumns_inj hcolumns]

/-- What a directive says, after its name. -/
def payload : Directive → List Char
  | .data | .text | .other .. => []
  | .align power => ' ' :: (toString power).toList
  | .globl name => ' ' :: name.toList
  | .space bytes => ' ' :: (toString bytes).toList
  | .asciiz body => ' ' :: '"' :: (body.toList ++ ['"'])

theorem toList_directive {d : Directive} (h : d.Legible) :
    (directive d).text.toList = '\t' :: '.' :: (d.name.toList ++ payload d) := by
  cases d with
  | other => exact h.elim
  | _ => simp [text, Directive.name, Directive.args, payload]

theorem notMem_directive {d : Directive} (h : d.Legible) : '\n' ∉ d.name.toList ++ payload d := by
  have hnat : ∀ n : Nat, '\n' ∉ (toString n).toList := fun n => notMem_int (by decide) (by decide) n
  have hint : ∀ z : Int, '\n' ∉ (toString z).toList := notMem_int (by decide) (by decide)
  cases d with
  | other => exact h.elim
  | data | text => decide
  | align power => simpa [Directive.name, payload] using hnat power
  | globl name => simpa [Directive.name, payload] using h.2.1.2
  | space bytes => simpa [Directive.name, payload] using hint bytes
  | asciiz body => simpa [Directive.name, payload] using show '\n' ∉ body.toList from h

theorem directive_inj {d d' : Directive} (h : d.Legible) (h' : d'.Legible)
    (heq : (directive d).text = (directive d').text) : directive d = directive d' := by
  have hlist := congrArg String.toList heq
  rw [toList_directive h, toList_directive h'] at hlist
  have hsaid := (List.cons.inj (List.cons.inj hlist).2).2
  -- no two directives have the same first two letters
  cases d with
  | other => exact h.elim
  | data | text =>
    cases d' with
    | other => exact h'.elim
    | _ => simp [Directive.name, payload] at hsaid ⊢
  | align power =>
    cases d' with
    | other => exact h'.elim
    | align power' =>
      have hdigits := (List.cons.inj (List.append_cancel_left hsaid)).2
      rw [Nat.repr_injective (String.toList_inj.mp hdigits)]
    | _ => simp [Directive.name, payload] at hsaid
  | globl name =>
    cases d' with
    | other => exact h'.elim
    | globl name' =>
      rw [String.toList_inj.mp (List.cons.inj (List.append_cancel_left hsaid)).2]
    | _ => simp [Directive.name, payload] at hsaid
  | space bytes =>
    cases d' with
    | other => exact h'.elim
    | space bytes' =>
      have hdigits := (List.cons.inj (List.append_cancel_left hsaid)).2
      rw [Int.repr_injective (String.toList_inj.mp hdigits)]
    | _ => simp [Directive.name, payload] at hsaid
  | asciiz body =>
    cases d' with
    | other => exact h'.elim
    | asciiz body' =>
      have hquoted := (List.cons.inj (List.cons.inj (List.append_cancel_left hsaid)).2).2
      rw [String.toList_inj.mp (List.append_cancel_right hquoted)]
    | _ => simp [Directive.name, payload] at hsaid

/-- What a line begins with: a tab, and a full stop after it. -/
def lead : List Char → List Char
  | '\t' :: '.' :: _ => ['\t', '.']
  | '\t' :: _ => ['\t']
  | _ => []

/-- What the line of an item begins with. -/
def mark : Item → List Char
  | .instr .. => ['\t']
  | .label .. => []
  | .directive _ => ['\t', '.']

theorem lead_text {i : Item} (h : i.Legible) : lead i.text.toList = i.mark := by
  cases i with
  | instr op args comment =>
    have hnames : ∀ op ∈ Opcode.all, op.name.toList ≠ [] ∧ '.' ∉ op.name.toList := by decide
    obtain ⟨hne, hstop⟩ := hnames op h.1
    obtain ⟨c, cs, hname⟩ := List.exists_cons_of_ne_nil hne
    rw [hname] at hstop
    rw [toList_instr h, columns, List.flatMap_cons, hname, List.cons_append, List.cons_append]
    unfold lead
    split
    · next heq =>
      exact absurd (List.cons.inj (List.cons.inj heq).2).1 (List.ne_of_not_mem_cons hstop).symm
    · rfl
    · next hno => exact (hno _ rfl).elim
  | label name comment =>
    obtain ⟨hhead, hnarrow, -⟩ := h.1
    have hne : name.toList ≠ [] := by
      intro hnil
      rw [hnil] at hhead
      exact absurd hhead (by decide)
    obtain ⟨c, cs, hname⟩ := List.exists_cons_of_ne_nil hne
    rw [hname] at hnarrow
    have hc : c ≠ '\t' := (List.ne_of_not_mem_cons hnarrow.1).symm
    rw [toList_label h, hname, List.cons_append]
    unfold lead
    split
    · next heq => exact absurd (List.cons.inj heq).1 hc
    · next heq => exact absurd (List.cons.inj heq).1 hc
    · rfl
  | directive d =>
    rw [toList_directive h]
    rfl

/-- The line of an item is one line, and is not empty. -/
theorem text_line {i : Item} (h : i.Legible) : i.text ≠ "" ∧ '\n' ∉ i.text.toList := by
  have hflat : ∀ {ls : List (List Char)}, (∀ l ∈ ls, Narrow l) → '\n' ∉ ls.flatMap ('\t' :: ·) := by
    intro ls hls hmem
    obtain ⟨l, hl, hmem⟩ := List.mem_flatMap.mp hmem
    exact (hls l hl).2 (List.mem_of_ne_of_mem (by decide) hmem)
  constructor
  · cases i <;> simp [text]
  · cases i with
    | instr op args comment =>
      rw [toList_instr h]
      exact hflat (narrow_columns h)
    | label name comment =>
      rw [toList_label h]
      refine List.not_mem_append h.1.2.1.2 (List.not_mem_cons_of_ne_of_not_mem (by decide) ?_)
      exact hflat (narrow_commentColumns h.2)
    | directive d =>
      rw [toList_directive h]
      exact List.not_mem_cons_of_ne_of_not_mem (by decide)
        (List.not_mem_cons_of_ne_of_not_mem (by decide) (notMem_directive h))

/-- The line of an item tells the item. -/
theorem text_inj {i j : Item} (hi : i.Legible) (hj : j.Legible) (h : i.text = j.text) : i = j := by
  have hmark : i.mark = j.mark := by rw [← lead_text hi, ← lead_text hj, h]
  cases i with
  | instr op args comment =>
    cases j with
    | instr op' args' comment' =>
      have hlist := congrArg String.toList h
      rw [toList_instr hi, toList_instr hj] at hlist
      exact columns_inj hi hj (Text.flatMap_cons_inj (fun l hl => (narrow_columns hi l hl).1)
        (fun l hl => (narrow_columns hj l hl).1) hlist)
    | label | directive => cases hmark
  | label name comment =>
    cases j with
    | label name' comment' => exact label_inj hi hj h
    | instr | directive => cases hmark
  | directive d =>
    cases j with
    | directive d' => exact directive_inj hi hj h
    | instr | label => cases hmark

/-! ## Lists of items -/

/-- Items are written one after another, each on a line that it ends. -/
theorem toList_render {items : List Item} (hne : items ≠ []) :
    (render items).toList = (items.map fun i => i.text.toList).flatMap (· ++ ['\n']) := by
  have hjoin : ∀ {ls : List (List Char)}, ls ≠ [] →
      ['\n'].intercalate ls ++ ['\n'] = ls.flatMap (· ++ ['\n']) := by
    intro ls hls
    induction ls with
    | nil => exact absurd rfl hls
    | cons l ls ih =>
      cases ls with
      | nil => simp
      | cons l' ls =>
        rw [List.intercalate_cons_cons, List.flatMap_cons, ← ih (List.cons_ne_nil _ _)]
        simp
  rw [render, String.toList_append, String.toList_intercalate, List.map_map]
  exact hjoin (mt List.map_eq_nil_iff.mp hne)

/-- The lines of legible items tell the items. -/
theorem render_inj {is js : List Item} (his : ∀ i ∈ is, i.Legible) (hjs : ∀ j ∈ js, j.Legible)
    (hne : is ≠ []) (hne' : js ≠ []) (h : render is = render js) : is = js := by
  have hlines : ∀ {items : List Item}, (∀ i ∈ items, i.Legible) →
      ∀ l ∈ items.map fun i => i.text.toList, '\n' ∉ l :=
    fun hitems => List.forall_mem_map.mpr fun i hi => (text_line (hitems i hi)).2
  have hlist := congrArg String.toList h
  rw [toList_render hne, toList_render hne'] at hlist
  refine Text.map_inj_of_forall (fun hi hj hij => ?_) his hjs
    (Text.flatMap_concat_inj (hlines his) (hlines hjs) hlist)
  exact text_inj hi hj (String.toList_inj.mp hij)

end Item

end CMinusMinus
