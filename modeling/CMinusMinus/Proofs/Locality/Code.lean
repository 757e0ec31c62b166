import CMinusMinus.Proofs.Generation.Pooling
import CMinusMinus.Proofs.Height.Programs

/-!
# Code of single declarations

If no string constants are shared, the code of a declaration depends on those before it only through
the number of its first label: with another number, the numbers of all its labels are shifted alike
(`Sketch.run_shift`).  So where one of the declarations of a program is replaced, the code of those
before it stays, and that of those after it is shifted as a whole (`Generate.pieces_apart`).
-/

namespace CMinusMinus

open Asm Generate

/-! ## Shifts of numbers -/

namespace Asm

/-- The number of a numbered label. -/
def number (l : String) : Nat := Nat.ofDigitChars 10 (l.toList.drop 2) 0

/-- The label with its number shifted, if it is a numbered one. -/
def shift (δ : Int) (l : String) : String :=
  if isNumbered l then numbered (number l + δ).toNat else l

theorem number_numbered (n : Nat) : number (numbered n) = n := by
  have hdigits : (toString n).toList = Nat.toDigits 10 n := String.toList_ofList
  rw [number, toList_numbered, hdigits]
  exact Nat.ofDigitChars_ten_toDigits

theorem shift_of_isNumbered_eq_false {l : String} (δ : Int) (h : isNumbered l = false) :
    shift δ l = l := by
  rw [shift, h]
  rfl

theorem shift_numbered {δ : Int} {m n : Nat} (h : (n : Int) = m + δ) :
    shift δ (numbered m) = numbered n := by
  rw [shift, isNumbered_numbered, number_numbered, ← h]
  rfl

end Asm

namespace Generate.Labels

/-- The next number is shifted, and no string constants are shared. -/
structure Shifted (δ : Int) (ls ls' : Labels) : Prop where
  separate : ls.pool = false ∧ ls'.pool = false
  next : (ls'.next : Int) = ls.next + δ

variable {δ : Int} {ls ls' : Labels}

theorem Shifted.fresh (h : Shifted δ ls ls') :
    shift δ ls.fresh.1 = ls'.fresh.1 ∧ Shifted δ ls.fresh.2 ls'.fresh.2 := by
  refine ⟨shift_numbered h.next, h.separate, ?_⟩
  have hnext := h.next
  show ((ls'.next + 1 : Nat) : Int) = (ls.next + 1 : Nat) + δ
  omega

/-- Where string constants are not shared, each of them is new. -/
theorem constant_of_separate (h : ls.pool = false) (text : String) :
    ls.constant text = (ls.fresh.1, stringConstant ls.fresh.1 text,
      { ls.fresh.2 with strings := (text, ls.fresh.1) :: ls.strings }) := by
  rcases ls.constant_cases text with ⟨l, -, hpool, -⟩ | ⟨heq, -⟩
  · rw [h] at hpool
    cases hpool
  · exact heq

end Generate.Labels

open Labels (Shifted)

/-- With another next number, and with shifted labels around it, the labels in the code of a sketch
are shifted. -/
theorem Sketch.run_shift {δ : Int} (names : List String) {s : Sketch} (hs : s.Tidied)
    (hscoped : s.Scoped names.length) {ls ls' : Labels} (h : Shifted δ ls ls') :
    (s.run (names.map (shift δ)) ls').1 = (s.run names ls).1.map (Item.rename (shift δ)) ∧
      Shifted δ (s.run names ls).2 (s.run (names.map (shift δ)) ls').2 := by
  induction s generalizing names ls ls' with
  | items q =>
    exact ⟨(Tidy.map_rename (fun _ => shift_of_isNumbered_eq_false δ) hs).symm, h⟩
  | constant text =>
    obtain ⟨hlabel, hnext⟩ := h.fresh
    rw [run, run, Labels.constant_of_separate h.separate.1,
      Labels.constant_of_separate h.separate.2,
      ← hlabel]
    exact ⟨rfl, hnext.separate, hnext.next⟩
  | append a b iha ihb =>
    obtain ⟨hfirst, hls⟩ := iha names hs.1 hscoped.1 h
    obtain ⟨hrest, hls⟩ := ihb names hs.2 hscoped.2 hls
    exact ⟨(congrArg₂ (· ++ ·) hfirst hrest).trans List.map_append.symm, hls⟩
  | taking a ih =>
    obtain ⟨hlabel, hls⟩ := h.fresh
    rw [run_taking, run_taking, ← hlabel]
    exact ih (ls.fresh.1 :: names) hs hscoped.1 hls
  | part a ih => exact ih [] hs hscoped h
  | label k comment =>
    rw [run, run, getD_map hscoped]
    exact ⟨rfl, h⟩
  | jump op args k comment =>
    obtain ⟨hk, -, hargs⟩ := hscoped
    rw [run, run, getD_map hk, List.map_singleton, rename_jump _ op hargs]
    exact ⟨rfl, h⟩

/-! ## Code piece by piece -/

theorem CodeOptions.finish_rename (o : CodeOptions) (f : String → String) (q : List Item) :
    o.finish (q.map (Item.rename f)) = (o.finish q).map (Item.rename f) := by
  unfold finish
  split
  · rfl
  · exact (Item.map_bare_rename f q).symm

namespace Generate

/-- The items that are generated for each of the declarations. -/
inductive Pieces (o : CodeOptions) : Labels → List Decl → List (List Item) → Prop where
  | nil (ls : Labels) : Pieces o ls [] []
  | cons {ls ls' : Labels} {d : Decl} {q : List Item} {ds : List Decl} {qs : List (List Item)} :
    DeclCode ls d q ls' → Pieces o ls' ds qs → Pieces o ls (d :: ds) (o.finish q :: qs)

variable {o : CodeOptions} {ls ls' : Labels} {ds ds' : List Decl} {qs qs' : List (List Item)}

/-- The code of declarations is that of each of them, one after another. -/
theorem pieces_of_decls {current current' : Option String} {items : List Item}
    (h : decls ls current ds = .ok (items, current')) :
    ∃ qs, Pieces o ls ds qs ∧ o.finish items = qs.flatten := by
  induction ds generalizing ls current items with
  | nil =>
    cases h
    refine ⟨[], .nil ls, ?_⟩
    unfold CodeOptions.finish
    split <;> rfl
  | cons d ds ih =>
    obtain ⟨q, ls', current₁, rest, hq, hrest, rfl⟩ := decls_cons h
    obtain ⟨qs, hqs, heq⟩ := ih hrest
    exact ⟨_, .cons hq hqs, by rw [o.finish_append, heq, List.flatten_cons]⟩

/-- With another next number, all declarations have the same code, with the numbers of labels
shifted. -/
theorem pieces_shift {δ : Int} (hls : Shifted δ ls ls') (h : Pieces o ls ds qs)
    (h' : Pieces o ls' ds' qs') (hds : ds.map Decl.sketch = ds'.map Decl.sketch) :
    qs' = qs.map (List.map (Item.rename (shift δ))) := by
  induction h generalizing ls' ds' qs' with
  | nil ls =>
    cases h' with
    | nil => rfl
    | cons => cases hds
  | @cons ls ls₁ d q ds qs hq hqs ih =>
    cases h' with
    | nil => cases hds
    | @cons _ ls₁' d' q' ds' qs' hq' hqs' =>
      rw [List.map_cons, List.map_cons, List.cons.injEq] at hds
      have hcode := Sketch.run_shift [] d.tidied d.scoped hls
      rw [run_decl hq, List.map_nil, hds.1, run_decl hq'] at hcode
      obtain ⟨rfl, hls₁⟩ := hcode
      rw [ih hls₁ hqs' hds.2, List.map_cons, o.finish_rename]

/-- Where one declaration is replaced, the code of those before it stays, and the numbers of labels
in the code of those after it are shifted, all of them alike. -/
theorem pieces_apart {k : Nat} (hpool : ls.pool = false) (h : Pieces o ls ds qs)
    (h' : Pieces o ls ds' qs') (hlength : ds.length = ds'.length)
    (hds : ∀ i, i ≠ k → (ds[i]?).map Decl.sketch = (ds'[i]?).map Decl.sketch) :
    ∃ δ : Int, ∀ i, (i < k → qs'[i]? = qs[i]?) ∧
      (k < i → qs'[i]? = (qs[i]?).map (List.map (Item.rename (shift δ)))) := by
  induction h generalizing k ds' qs' with
  | nil ls =>
    cases h' with
    | nil => exact ⟨0, fun i => ⟨fun _ => rfl, fun _ => rfl⟩⟩
    | cons => cases hlength
  | @cons ls ls₁ d q ds qs hq hqs ih =>
    cases h' with
    | nil => cases hlength
    | @cons _ ls₁' d' q' ds' qs' hq' hqs' =>
      have hpools : ls₁.pool = false ∧ ls₁'.pool = false := by
        have hrun := Sketch.pool_run [] ls d.sketch
        have hrun' := Sketch.pool_run [] ls d'.sketch
        rw [run_decl hq] at hrun
        rw [run_decl hq'] at hrun'
        exact ⟨hrun.trans hpool, hrun'.trans hpool⟩
      cases k with
      | zero =>
        have hrest : ds.map Decl.sketch = ds'.map Decl.sketch := by
          refine List.ext_getElem? fun i => ?_
          rw [List.getElem?_map, List.getElem?_map]
          exact hds (i + 1) (Nat.succ_ne_zero i)
        have hshift : Shifted (ls₁'.next - ls₁.next) ls₁ ls₁' := ⟨hpools, by omega⟩
        refine ⟨ls₁'.next - ls₁.next, fun i => ⟨nofun, fun hi => ?_⟩⟩
        obtain ⟨i, rfl⟩ := Nat.exists_eq_succ_of_ne_zero (Nat.ne_of_gt hi)
        rw [pieces_shift hshift hqs hqs' hrest]
        exact List.getElem?_map
      | succ k =>
        have hfirst : d.sketch = d'.sketch := Option.some.inj (hds 0 (Nat.succ_ne_zero k).symm)
        have hcode := run_decl hq
        rw [hfirst, run_decl hq'] at hcode
        cases hcode
        obtain ⟨δ, hδ⟩ := ih hpools.1 hqs' (Nat.succ.inj hlength)
          fun i hi => hds (i + 1) fun heq => hi (Nat.succ.inj heq)
        refine ⟨δ, fun i => ?_⟩
        cases i with
        | zero => exact ⟨fun _ => rfl, nofun⟩
        | succ i =>
          exact ⟨fun hi => (hδ i).1 (Nat.lt_of_succ_lt_succ hi),
            fun hi => (hδ i).2 (Nat.lt_of_succ_lt_succ hi)⟩

end Generate

end CMinusMinus
