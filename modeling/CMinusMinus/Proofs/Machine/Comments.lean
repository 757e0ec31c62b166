import CMinusMinus.Generate
import CMinusMinus.Proofs.Machine.Running

/-!
# Code without comments

The machine does not look at comments, so code runs alike with and without them.
-/

namespace CMinusMinus

open Machine

namespace Machine

theorem Layout.addAll_bare (l : Layout) (q : List Item) :
    l.addAll (q.map Item.bare) = l.addAll q := by
  induction q generalizing l with
  | nil => rfl
  | cons i q ih =>
    have hadd : l.add i.bare = l.add i := by cases i <;> rfl
    rw [List.map_cons, addAll_cons, hadd, ih, ← addAll_cons]

theorem load_bare (items : List Item) : load (items.map Item.bare) = load items :=
  Layout.addAll_bare _ _

/-- The machine does not look at comments. -/
theorem step?_bare (items : List Item) (s : State) :
    step? (items.map Item.bare) s = step? items s := by
  rw [step?, step?, load_bare, List.getElem?_map]
  cases items[s.pc]? with
  | none => rfl
  | some i => cases i <;> rfl

end Machine

variable {o : CodeOptions} {items : List Item} {input : List Word} {s s' : State}

theorem CodeOptions.load_finish (o : CodeOptions) (items : List Item) :
    load (o.finish items) = load items := by
  rw [finish]
  split
  · rfl
  · exact load_bare items

/-- The machine does the same whether items carry comments or not. -/
theorem CodeOptions.step?_finish (o : CodeOptions) (items : List Item) :
    step? (o.finish items) = step? items := by
  rw [finish]
  split
  · rfl
  · exact funext (step?_bare items)

theorem CodeOptions.length_finish (o : CodeOptions) (items : List Item) :
    (o.finish items).length = items.length := by
  rw [finish]
  split
  · rfl
  · exact List.length_map _

theorem CodeOptions.mem_finish {op : Opcode} {args : List Operand} {comment : Option String}
    (h : .instr op args comment ∈ items) : ∃ comment, .instr op args comment ∈ o.finish items := by
  rw [finish]
  split
  · exact ⟨comment, h⟩
  · exact ⟨none, List.mem_map_of_mem (f := Item.bare) h⟩

namespace Machine

theorem Reaches.congr {items' : List Item} (hstep : step? items' = step? items)
    (h : Reaches items s s') : Reaches items' s s' := by
  induction h with
  | refl => exact .refl
  | step h _ ih => exact .step ((congrFun hstep _).trans h) ih

theorem reaches_finish : Reaches (o.finish items) s s' ↔ Reaches items s s' :=
  ⟨.congr (o.step?_finish items).symm, .congr (o.step?_finish items)⟩

theorem halted_finish : Halted (o.finish items) s ↔ Halted items s := by
  refine and_congr_left fun _ => ?_
  rw [CodeOptions.finish]
  split
  · rfl
  · rw [List.getElem?_map]
    cases items[s.pc]? with
    | none => simp
    | some i => cases i <;> simp [Item.bare]

theorem boots_finish : Boots (o.finish items) input s ↔ Boots items input s := by
  constructor
  · rintro ⟨hpc, hsp, hzeros, hinput, hevents⟩
    rw [o.load_finish] at hpc hzeros
    exact ⟨hpc, hsp, hzeros, hinput, hevents⟩
  · rintro ⟨hpc, hsp, hzeros, hinput, hevents⟩
    rw [← o.load_finish] at hpc hzeros
    exact ⟨hpc, hsp, hzeros, hinput, hevents⟩

theorem Fits.of_finish (h : Fits (o.finish items) s) : Fits items s where
  code := o.length_finish items ▸ h.code
  moves bytes comment hmem := by
    obtain ⟨_, hmem⟩ := CodeOptions.mem_finish (o := o) hmem
    exact o.load_finish items ▸ h.moves bytes _ hmem
  frames bytes comment hmem := by
    obtain ⟨_, hmem⟩ := CodeOptions.mem_finish (o := o) hmem
    exact h.frames bytes _ hmem
  stack s' hreaches := o.load_finish items ▸ h.stack s' (reaches_finish.mpr hreaches)

end Machine

end CMinusMinus
