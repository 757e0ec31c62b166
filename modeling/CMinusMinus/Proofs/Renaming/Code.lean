import CMinusMinus.Proofs.Generation.Sketches
import CMinusMinus.Proofs.Renaming.Resolving

/-!
# Renaming and addresses

The code of a location depends on the place of its variable and on offsets of fields, which a
renaming keeps, and on the names of globals, which it does not touch.  Other names are in comments
only, so code is compared without its comments.
-/

namespace CMinusMinus

open Generate

variable {ρ : Renaming}

/-! ## Code without comments -/

namespace Sketch

/-- The sketch without comments. -/
def bare : Sketch → Sketch
  | .items q => .items (q.map Item.bare)
  | .constant text => .constant text
  | .append a b => .append a.bare b.bare
  | .taking a => .taking a.bare
  | .part a => .part a.bare
  | .label k _ => .label k none
  | .jump op args k _ => .jump op args k none

@[simp] theorem bare_append (a b : Sketch) : (a ++ b).bare = a.bare ++ b.bare := rfl

/-- What a sketch without comments stands for. -/
theorem run_bare (s : Sketch) (names : List String) (ls : Labels) :
    s.bare.run names ls = ((s.run names ls).1.map Item.bare, (s.run names ls).2) := by
  induction s generalizing names ls with
  | items q => rfl
  | constant text =>
    have hnew : (ls.constant text).2.1.map Item.bare = (ls.constant text).2.1 := by
      unfold Labels.constant
      split <;> rfl
    rw [bare, run, List.map_append, hnew]
    rfl
  | append a b iha ihb =>
    show (a.bare ++ b.bare).run names ls =
      (((a ++ b).run names ls).1.map Item.bare, ((a ++ b).run names ls).2)
    rw [run_append, run_append, iha, ihb, List.map_append]
  | taking a ih => rw [bare, run_taking, run_taking, ih]
  | part a ih => rw [bare, run, run, ih]
  | label k comment => rfl
  | jump op args k comment => rfl

end Sketch

/-- The code is the same but for comments. -/
def Bare (q q' : List Item) : Prop := q'.map Item.bare = q.map Item.bare

namespace Bare

theorem refl (q : List Item) : Bare q q := rfl

theorem append {q q' r r' : List Item} (hq : Bare q q') (hr : Bare r r') :
    Bare (q ++ r) (q' ++ r') := by
  rw [Bare, List.map_append, List.map_append, hq, hr]

theorem items {q q' : List Item} (h : Bare q q') :
    (Sketch.items q').bare = (Sketch.items q).bare := congrArg Sketch.items h

end Bare

/-! ## Results -/

/-- Both results are there and are related, or neither is there. -/
inductive Results {α β : Type} (R : α → β → Prop) : Except Fault α → Except Fault β → Prop where
  | ok {a : α} {b : β} : R a b → Results R (.ok a) (.ok b)
  | error {f f' : Fault} : Results R (.error f) (.error f')

theorem Results.bind {α α' β β' : Type} {R : α → α' → Prop} {S : β → β' → Prop}
    {x : Except Fault α} {x' : Except Fault α'} {f : α → Except Fault β} {f' : α' → Except Fault β'}
    (h : Results R x x') (hnext : ∀ a b, R a b → Results S (f a) (f' b)) :
    Results S (x >>= f) (x' >>= f') := by
  cases h with
  | ok h => exact hnext _ _ h
  | error => exact .error

theorem Results.code {r r' : Except Fault (List Item)} (h : Results Bare r r') :
    Bare (code r) (code r') := by
  cases h with
  | ok h => exact h
  | error => exact .refl _

/-! ## Addresses -/

namespace Generate

theorem symbolOf_renamed {x x' : Ident} (h : x.Renamed ρ x') :
    Results (Symbol.Renamed ρ) (symbolOf x) (symbolOf x') := by
  obtain ⟨hbound, hbound', -, hs⟩ := h
  rw [symbolOf, symbolOf, hbound, hbound']
  exact .ok hs

/-- Storage keeps its place, and globals their names. -/
theorem placeOperand?_renamed {s s' : Storage} (h : s.Renamed ρ s') :
    placeOperand? s' = placeOperand? s := by
  rw [placeOperand?, placeOperand?, h.place]
  cases hplace : s.place with
  | static => rw [h.name, Renaming.spell_of_ne (h.global hplace)]
  | frame | unplaced => rfl

theorem storageOf_renamed {x x' : Ident} (h : x.Renamed ρ x') :
    Results (fun s s' => s.1.Renamed ρ s'.1 ∧ s'.2 = s.2) (storageOf x) (storageOf x') := by
  refine (symbolOf_renamed h).bind fun s s' hs => ?_
  cases hs with
  | function | struct => exact .error
  | storage hs =>
    dsimp only
    rw [placeOperand?_renamed hs]
    split
    · exact .ok ⟨hs, rfl⟩
    · exact .error

theorem path_renamed : ∀ {e e' : Exp}, e.Renamed ρ e' →
    Results (fun r r' => r.1.Renamed ρ r'.1 ∧ r'.2 = r.2) (path e) (path e')
  | _, _, .ident h => .ok ⟨h, rfl⟩
  | _, _, .access hloc hlink hf => by
    refine (symbolOf_renamed hf).bind fun _ _ _ => ?_
    generalize hname : Ident.name _ = name at hlink
    generalize hname' : Ident.name _ = name' at hlink
    cases hlink with
    | found hg hg' hrelated =>
      obtain ⟨-, -, hoffset, -⟩ := Field.renamed_iff.mp hrelated
      dsimp only [Option.bind]
      rw [hg, hg']
      refine (path_renamed hloc).bind fun r r' hr => ?_
      exact .ok ⟨hr.1, by rw [hr.2, hoffset]⟩
  | _, _, .int | _, _, .string | _, _, .bool | _, _, .assign .. | _, _, .call .. | _, _, .neg _
  | _, _, .not _ | _, _, .binary .. => .error

theorem address_renamed {e e' : Exp} (h : e.Renamed ρ e') :
    Results Bare (address e) (address e') := by
  refine (path_renamed h).bind fun r r' hr => ?_
  refine (storageOf_renamed hr.1).bind fun ⟨s, operand⟩ ⟨s', operand'⟩ hs => ?_
  obtain ⟨-, rfl⟩ : _ ∧ operand' = operand := hs
  dsimp only
  rw [hr.2]
  exact .ok (.append rfl (.refl _))

theorem step_renamed (op : Opcode) {e e' : Exp} (h : e.Renamed ρ e') :
    Results Bare (step op e) (step op e') :=
  (address_renamed h).bind fun _ _ hq =>
    .ok (.append (.append (.append hq (.refl _)) (.refl _)) (.refl _))

theorem load_renamed {x x' : Ident} (h : x.Renamed ρ x') : Results Bare (load x) (load x') := by
  refine (storageOf_renamed h).bind fun s s' hs => ?_
  obtain ⟨⟨name, site, place, shape⟩, operand⟩ := s
  obtain ⟨⟨name', site', place', shape'⟩, operand'⟩ := s'
  obtain ⟨hs, rfl⟩ := hs
  have hshape := hs.shape
  cases shape with
  | scalar t =>
    obtain ⟨-, rfl⟩ := (hshape : t ≠ .error ∧ shape' = .scalar t)
    exact .ok (.append rfl (.refl _))
  | struct d =>
    obtain ⟨d', rfl, -⟩ := (hshape : ∃ d', shape' = .struct d' ∧ d.Renamed ρ d')
    exact .error

/-- A global keeps its slot. -/
theorem global_renamed {d d' : VarDecl} (h : d.Renamed ρ d') {s : Storage}
    (hbinding : d.name.binding = .bound (.storage s)) (hsite : s.site ≠ ρ.site) :
    Results Bare (global d) (global d') := by
  obtain ⟨hbound, hbound', -, hs⟩ := h.name
  cases hbinding.symm.trans hbound
  cases hs with
  | @storage _ s' hs =>
    rw [global, global, storageOf, storageOf, symbolOf, symbolOf, hbound, hbound']
    simp only [bind, Except.bind, placeOperand?_renamed hs]
    cases placeOperand? s with
    | none => exact .error
    | some operand =>
      dsimp only
      rw [hs.name, Renaming.spell_of_ne hsite, hs.shape.size]
      split
      · exact .ok (.refl _)
      · exact .error

end Generate

/-! ## Expressions -/

namespace Exp

variable {i i' : Info} {l l' r r' : Exp}

theorem sketch_access_renamed {k k' : FieldLink} {f f' : Ident}
    (h : (access i k l f).Renamed ρ (access i' k' l' f')) :
    (access i' k' l' f').sketch.bare = (access i k l f).sketch.bare := by
  have hcode := ((address_renamed h).code.append (.refl (Asm.loadWord .t0 (.indexed .t0 0)))).append
    (.refl (Asm.push .t0))
  rw [sketch, sketch, hcode.items]

theorem sketch_assign_renamed (hl : l.Renamed ρ l') (hr : r'.sketch.bare = r.sketch.bare) :
    (assign i' l' r').sketch.bare = (assign i l r).sketch.bare := by
  have hcode := (((address_renamed hl).code.append (.refl (Asm.pop .t1))).append
    (.refl (Asm.storeWord .t1 (.indexed .t0 0)))).append (.refl (Asm.push .t1))
  rw [sketch, sketch, Sketch.bare_append, Sketch.bare_append, hr, hcode.items]

theorem sketch_call_renamed {f f' : Ident} {sp sp' : Option Span} {args args' : List Exp}
    (hf : f'.name = f.name) (hargs : (listSketch args').bare = (listSketch args).bare) :
    (call i' f' sp' args').sketch.bare = (call i f sp args).sketch.bare := by
  rw [sketch, sketch, Sketch.bare_append, Sketch.bare_append, hargs, hf]

theorem sketch_binary_renamed {op : BinOp} (hl : l'.sketch.bare = l.sketch.bare)
    (hr : r'.sketch.bare = r.sketch.bare) :
    (binary i' op l' r').sketch.bare = (binary i op l r).sketch.bare := by
  simp only [sketch, Sketch.bare_append, hl, hr]

end Exp

end CMinusMinus
