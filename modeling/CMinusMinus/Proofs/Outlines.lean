import CMinusMinus.Proofs.Text
import CMinusMinus.Syntax.Outline
import Mathlib

/-!
# Outlines that can be read back

An outline is the preorder of a tree of lines in which every line is indented by its depth; parts of
nodes are nodes of their own, one step below the node and one above the nodes of the part.  Since no
line begins with a blank, the indentation of a line tells its depth, a subtree ends before the next
line that is not deeper than its root, and the text tells the tree (`Tree.text_inj`).

The line of a node is its header.  Kinds and names are words, and the last parenthesis on the line
closes the value, so a header is told by its line (`Header.line_inj`), whatever the value holds.
-/

namespace CMinusMinus

open Text (append_cons_inj)

/-! ## Pieces of lines -/

namespace Text

variable {α : Type} {x : α} {l m r s : List α}

/-- A list is cut at the last occurrence of an element. -/
theorem append_cons_inj_last (hr : x ∉ r) (hs : x ∉ s) (h : l ++ x :: r = m ++ x :: s) :
    l = m ∧ r = s := by
  have hreverse := congrArg List.reverse h
  rw [List.reverse_append, List.reverse_append, List.reverse_cons, List.reverse_cons,
    List.append_assoc, List.append_assoc] at hreverse
  obtain ⟨hrs, hlm⟩ := append_cons_inj (by rwa [List.mem_reverse]) (by rwa [List.mem_reverse])
    hreverse
  exact ⟨List.reverse_injective hlm, List.reverse_injective hrs⟩

/-- The longest beginning of elements with some property is what stands before one without it. -/
theorem takeWhile_append_of_head {p : α → Bool} (hl : ∀ a ∈ l, p a = true)
    (hr : ∀ a ∈ r.head?, p a = false) : (l ++ r).takeWhile p = l := by
  rw [List.takeWhile_append_of_pos hl]
  cases r with
  | nil => rw [List.takeWhile_nil, List.append_nil]
  | cons a r => rw [List.takeWhile_cons_of_neg (by rw [hr a rfl]; exact Bool.false_ne_true),
      List.append_nil]

end Text

namespace Outline

/-- A word: letters and underscores. -/
def IsWord (s : String) : Prop := s ≠ "" ∧ s.toList.all (fun c => c.isAlpha || c == '_') = true

instance (s : String) : Decidable (IsWord s) := inferInstanceAs (Decidable (_ ∧ _))

theorem IsWord.notMem {s : String} (h : IsWord s) {c : Char}
    (hc : (c.isAlpha || c == '_') = false) : c ∉ s.toList := fun hmem => by
  have hword := List.all_eq_true.mp h.2 c hmem
  rw [hc] at hword
  cases hword

/-- A line without its indentation: it begins with no blank and holds no line feed. -/
@[ext]
structure Line where
  text : String
  plain : (∀ c ∈ text.toList.head?, c ≠ ' ') ∧ '\n' ∉ text.toList

/-- What begins with a word is a line. -/
theorem IsWord.plain {s t : String} (h : IsWord s) (ht : '\n' ∉ t.toList) :
    (∀ c ∈ (s ++ t).toList.head?, c ≠ ' ') ∧ '\n' ∉ (s ++ t).toList := by
  have hne : s.toList ≠ [] := fun hnil => h.1 (String.toList_eq_nil_iff.mp hnil)
  have hblank : ' ' ∉ s.toList := h.notMem (by decide)
  rw [String.toList_append]
  refine ⟨fun c hc => ?_, List.not_mem_append (h.notMem (by decide)) ht⟩
  rw [List.head?_append_of_ne_nil _ hne] at hc
  exact fun heq => hblank (heq ▸ List.mem_of_mem_head? hc)

/-- The line above a part of a node. -/
def Line.label (name : String) (h : IsWord name) : Line := ⟨name ++ ":", h.plain (by decide)⟩

/-! ## Headers -/

theorem toList_spanned (s : Span) : (spanned (some s)).toList =
    ' ' :: '@' :: ((toString s.startLine).toList ++ ':' :: ((toString s.startColumn).toList ++
      '-' :: ((toString s.endLine).toList ++ ':' :: (toString s.endColumn).toList))) := by
  simp only [spanned, String.toList_append, List.append_assoc]
  rfl

theorem notMem_spanned {c : Char} (hdigit : c.isDigit = false) (hc : c ∉ [' ', '@', ':', '-']) :
    ∀ s, c ∉ (spanned s).toList
  | none => List.not_mem_nil
  | some s => by
    have hnat : ∀ n : Nat, c ∉ (toString n).toList := fun n hmem => by
      rw [Text.isDigit_of_mem_nat hmem] at hdigit
      cases hdigit
    rw [toList_spanned]
    simp only [List.mem_cons, List.not_mem_nil, or_false, not_or] at hc
    simp only [List.mem_cons, List.mem_append, not_or]
    exact ⟨hc.1, hc.2.1, hnat _, hc.2.2.1, hnat _, hc.2.2.2, hnat _, hc.2.2.1, hnat _⟩

/-- What is shown of a span tells it. -/
theorem spanned_inj {s s' : Option Span} (h : (spanned s).toList = (spanned s').toList) :
    s = s' := by
  cases s with
  | none =>
    cases s' with
    | none => rfl
    | some s' =>
      rw [toList_spanned] at h
      cases h
  | some s =>
    cases s' with
    | none =>
      rw [toList_spanned] at h
      cases h
    | some s' =>
      have hcolon : ∀ n : Nat, ':' ∉ (toString n).toList := fun n hmem =>
        absurd (Text.isDigit_of_mem_nat hmem) (by decide)
      have hdash : ∀ n : Nat, '-' ∉ (toString n).toList := fun n hmem =>
        absurd (Text.isDigit_of_mem_nat hmem) (by decide)
      have hnat : ∀ {n n' : Nat}, (toString n).toList = (toString n').toList → n = n' :=
        fun hn => Nat.repr_injective (String.toList_inj.mp hn)
      rw [toList_spanned, toList_spanned] at h
      obtain ⟨ha, h⟩ := append_cons_inj (hcolon _) (hcolon _) (List.cons.inj (List.cons.inj h).2).2
      obtain ⟨hb, h⟩ := append_cons_inj (hdash _) (hdash _) h
      obtain ⟨hc, hd⟩ := append_cons_inj (hcolon _) (hcolon _) h
      obtain ⟨startLine, startColumn, endLine, endColumn⟩ := s
      obtain rfl : startLine = _ := hnat ha
      obtain rfl : startColumn = _ := hnat hb
      obtain rfl : endLine = _ := hnat hc
      obtain rfl : endColumn = _ := hnat hd
      rfl

/-- What the line of a node shows: the kind of the node, the name and the text of its value if it
has one, and its span. -/
@[ext]
structure Header where
  kind : String
  value : Option (String × String)
  span : Option Span
  isWord : IsWord kind
  legible : ∀ v ∈ value, IsWord v.1 ∧ '\n' ∉ v.2.toList

namespace Header

variable {h h' : Header}

/-- What follows the kind on the line. -/
def rest (h : Header) : String :=
  match h.value with
  | none => spanned h.span
  | some (name, text) => "(" ++ name ++ "=" ++ text ++ ")" ++ spanned h.span

theorem head_rest (h : Header) : ∀ c ∈ h.rest.toList.head?, (c.isAlpha || c == '_') = false := by
  obtain ⟨kind, value, span, hkind, hvalue⟩ := h
  intro c hc
  cases value with
  | none =>
    cases span with
    | none => cases hc
    | some s =>
      rw [rest, toList_spanned] at hc
      cases hc
      decide
  | some v =>
    simp only [rest, String.toList_append, List.append_assoc] at hc
    cases hc
    decide

theorem notMem_rest (h : Header) : '\n' ∉ h.rest.toList := by
  have hspanned := notMem_spanned (c := '\n') (by decide) (by decide) h.span
  obtain ⟨kind, value, span, hkind, hvalue⟩ := h
  cases value with
  | none => exact hspanned
  | some v =>
    obtain ⟨hname, htext⟩ := hvalue v rfl
    have hname := hname.notMem (c := '\n') (by decide)
    simp only [rest, String.toList_append, List.mem_append, not_or]
    exact ⟨⟨⟨⟨⟨by decide, hname⟩, by decide⟩, htext⟩, by decide⟩, hspanned⟩

/-- The line of the header. -/
def line (h : Header) : Line := ⟨h.kind ++ h.rest, h.isWord.plain h.notMem_rest⟩

/-- A header is told by its line. -/
theorem line_inj (hline : h.line = h'.line) : h = h' := by
  have htext : h.kind.toList ++ h.rest.toList = h'.kind.toList ++ h'.rest.toList := by
    rw [← String.toList_append, ← String.toList_append]
    exact congrArg (fun l : Line => l.text.toList) hline
  have hkind : h.kind.toList = h'.kind.toList := by
    rw [← Text.takeWhile_append_of_head (List.all_eq_true.mp h.isWord.2) h.head_rest, htext,
      Text.takeWhile_append_of_head (List.all_eq_true.mp h'.isWord.2) h'.head_rest]
  have hrest : h.rest.toList = h'.rest.toList := by
    rw [hkind] at htext
    exact List.append_cancel_left htext
  obtain ⟨kind, value, span, hword, hvalue⟩ := h
  obtain ⟨kind', value', span', hword', hvalue'⟩ := h'
  obtain rfl : kind = kind' := String.toList_inj.mp hkind
  have hparen : ∀ {s : Option Span} {cs : List Char}, (spanned s).toList ≠ '(' :: cs :=
    fun hs => notMem_spanned (c := '(') (by decide) (by decide) _ (hs ▸ List.mem_cons_self)
  cases value with
  | none =>
    cases value' with
    | none =>
      obtain rfl := spanned_inj hrest
      rfl
    | some v =>
      simp only [rest, String.toList_append, List.append_assoc] at hrest
      exact absurd hrest hparen
  | some v =>
    cases value' with
    | none =>
      simp only [rest, String.toList_append, List.append_assoc] at hrest
      exact absurd hrest.symm hparen
    | some v' =>
      simp only [rest, String.toList_append, List.append_assoc] at hrest
      have hequals : ∀ {w : String}, IsWord w → '=' ∉ w.toList := fun hw => hw.notMem (by decide)
      have hclose : ∀ s, ')' ∉ (spanned s).toList := notMem_spanned (by decide) (by decide)
      obtain ⟨hname, htail⟩ := append_cons_inj (hequals (hvalue v rfl).1)
        (hequals (hvalue' v' rfl).1) (List.cons.inj hrest).2
      obtain ⟨htext, hspan⟩ := Text.append_cons_inj_last (hclose _) (hclose _) htail
      obtain rfl : v = v' := Prod.ext (String.toList_inj.mp hname) (String.toList_inj.mp htext)
      obtain rfl := spanned_inj hspan
      rfl

end Header

/-! ## Trees of lines -/

/-- A line with what stands below it, one step deeper. -/
inductive Tree where
  | node (line : Line) (children : List Tree)

namespace Tree

mutual

/-- The lines of the tree, in preorder. -/
def render (depth : Nat) : Tree → List String
  | .node line ts => (pad depth ++ line.text) :: renderAll (depth + 1) ts
termination_by structural t => t

/-- The lines of the trees, one after another. -/
def renderAll (depth : Nat) : List Tree → List String
  | [] => []
  | t :: ts => t.render depth ++ renderAll depth ts
termination_by structural ts => ts

end

/-- The number of blanks that a line begins with. -/
def indent (l : String) : Nat := (l.toList.takeWhile (· == ' ')).length

theorem indent_pad (depth : Nat) (l : Line) : indent (pad depth ++ l.text) = 2 * depth := by
  rw [indent, String.toList_append, pad, String.toList_ofList, Text.takeWhile_append_of_head,
    List.length_replicate]
  · intro c hc
    rw [List.eq_of_mem_replicate hc]
    rfl
  · intro c hc
    exact beq_false_of_ne (l.plain.1 c hc)

/-- The lines are at an end, or go on with one that has less blanks in front. -/
def Ends (blanks : Nat) (lines : List String) : Prop := ∀ l ∈ lines.head?, indent l < blanks

theorem Ends.mono {m n : Nat} {lines : List String} (h : Ends m lines) (hmn : m ≤ n) :
    Ends n lines :=
  fun l hl => Nat.lt_of_lt_of_le (h l hl) hmn

theorem ends_nil (blanks : Nat) : Ends blanks [] := fun _ hl => by cases hl

/-- The lines of a tree stop what is deeper, and not what is beside it. -/
theorem ends_render_append {depth blanks : Nat} {t : Tree} {lines : List String} :
    Ends blanks (t.render depth ++ lines) ↔ 2 * depth < blanks := by
  cases t with
  | node line ts =>
    rw [render, List.cons_append, Ends, List.head?_cons]
    refine ⟨fun h => ?_, fun h l hl => ?_⟩
    · rw [← indent_pad depth line]
      exact h _ rfl
    · cases hl
      rwa [indent_pad]

theorem Ends.renderAll_append {depth : Nat} {lines : List String} (h : Ends (2 * depth) lines) :
    ∀ ts, Ends (2 * depth + 1) (renderAll depth ts ++ lines)
  | [] => h.mono (Nat.le_succ _)
  | t :: ts => by
    rw [renderAll, List.append_assoc]
    exact ends_render_append.mpr (Nat.lt_succ_self _)

mutual

/-- The lines tell the tree and what follows it, which is not deeper. -/
theorem render_append_inj (depth : Nat) : ∀ (t t' : Tree) {lines lines' : List String},
    Ends (2 * depth + 1) lines → Ends (2 * depth + 1) lines' →
    t.render depth ++ lines = t'.render depth ++ lines' → t = t' ∧ lines = lines'
  | .node line ts, .node line' ts', lines, lines', hlines, hlines', h => by
    obtain ⟨hline, htail⟩ := List.cons.inj h
    obtain rfl : line = line' := Line.ext (String.toList_inj.mp (List.append_cancel_left (by
      rw [← String.toList_append, ← String.toList_append, hline])))
    have hle : 2 * depth + 1 ≤ 2 * (depth + 1) := by omega
    obtain ⟨rfl, rfl⟩ :=
      renderAll_append_inj (depth + 1) ts ts' (hlines.mono hle) (hlines'.mono hle) htail
    exact ⟨rfl, rfl⟩

/-- The lines tell the trees and what follows them, which is less deep. -/
theorem renderAll_append_inj (depth : Nat) : ∀ (ts ts' : List Tree) {lines lines' : List String},
    Ends (2 * depth) lines → Ends (2 * depth) lines' →
    renderAll depth ts ++ lines = renderAll depth ts' ++ lines' → ts = ts' ∧ lines = lines'
  | [], [], _, _, _, _, h => ⟨rfl, h⟩
  | [], t :: ts, lines, lines', hlines, _, h => by
    rw [renderAll, renderAll, List.nil_append, List.append_assoc] at h
    rw [h] at hlines
    exact absurd (ends_render_append.mp hlines) (Nat.lt_irrefl _)
  | t :: ts, [], lines, lines', _, hlines', h => by
    rw [renderAll, renderAll, List.nil_append, List.append_assoc] at h
    rw [← h] at hlines'
    exact absurd (ends_render_append.mp hlines') (Nat.lt_irrefl _)
  | t :: ts, t' :: ts', lines, lines', hlines, hlines', h => by
    rw [renderAll, renderAll, List.append_assoc, List.append_assoc] at h
    obtain ⟨rfl, htail⟩ :=
      render_append_inj depth t t' (hlines.renderAll_append ts) (hlines'.renderAll_append ts') h
    obtain ⟨rfl, rfl⟩ := renderAll_append_inj depth ts ts' hlines hlines' htail
    exact ⟨rfl, rfl⟩

end

mutual

theorem notMem_render (depth : Nat) : ∀ t : Tree, ∀ l ∈ t.render depth, '\n' ∉ l.toList
  | .node line ts => by
    have hpad : '\n' ∉ (pad depth).toList := by
      rw [pad, String.toList_ofList]
      exact fun h => absurd (List.eq_of_mem_replicate h) (by decide)
    refine List.forall_mem_cons.mpr ⟨?_, notMem_renderAll (depth + 1) ts⟩
    rw [String.toList_append]
    exact List.not_mem_append hpad line.plain.2

theorem notMem_renderAll (depth : Nat) : ∀ ts : List Tree, ∀ l ∈ renderAll depth ts, '\n' ∉ l.toList
  | [] => List.forall_mem_nil _
  | t :: ts => List.forall_mem_append.mpr ⟨notMem_render depth t, notMem_renderAll depth ts⟩

end

/-- The text of a tree tells it. -/
theorem text_inj {depth : Nat} {t t' : Tree} :
    "\n".intercalate (t.render depth) = "\n".intercalate (t'.render depth) ↔ t = t' := by
  refine ⟨fun h => ?_, fun h => by rw [h]⟩
  have hne : ∀ t : Tree, (t.render depth).map String.toList ≠ [] := by
    rintro ⟨line, ts⟩
    exact List.cons_ne_nil _ _
  have hchars : ['\n'].intercalate ((t.render depth).map String.toList) =
      ['\n'].intercalate ((t'.render depth).map String.toList) := by
    rw [← String.toList_inj, String.toList_intercalate, String.toList_intercalate] at h
    exact h
  have hlines := Text.intercalate_inj (List.forall_mem_map.mpr (notMem_render depth t))
    (List.forall_mem_map.mpr (notMem_render depth t')) (hne t) (hne t') hchars
  have hrender : t.render depth = t'.render depth :=
    List.map_injective_iff.mpr (fun _ _ => String.toList_inj.mp) hlines
  exact (render_append_inj depth t t' (ends_nil _) (ends_nil _) (congrArg (· ++ []) hrender)).1

end Tree

end Outline

end CMinusMinus
