import CMinusMinus.Proofs.Totality

/-!
# The layout of frames

Each accepted formal and local of a function has words of the frame that no other has, whatever
was rejected in between.  Formals are placed by their position.  Locals are placed one after
another in the order of their declarations, those of inner blocks included, so all of them lie
between the frame before the body and the frame after it; `Stacked` says that they do, and the
walk over blocks and statements puts such stacks together.
-/

namespace CMinusMinus

open Outcome

/-! ## Locals of a tree -/

/-- The storage that the declaration introduced, if it was accepted. -/
def VarDecl.storage? (d : VarDecl) : Option Storage :=
  match d.name.binding with
  | .bound (.storage s) => some s
  | _ => none

namespace Stmt

mutual

/-- The locals that are declared in a statement. -/
def locals : Stmt → List VarDecl
  | .ifThen _ _ b | .while _ _ b => blockLocals b
  | .ifElse _ _ b₁ b₂ => blockLocals b₁ ++ blockLocals b₂
  | _ => []
termination_by structural s => s

/-- The locals that are declared in a block, at any depth. -/
def blockLocals : Block Stmt → List VarDecl
  | ⟨ds, _, ss⟩ => ds.items ++ listLocals ss
termination_by structural b => b

/-- The locals that are declared in statements. -/
def listLocals : List Stmt → List VarDecl
  | [] => []
  | s :: ss => s.locals ++ listLocals ss
termination_by structural ss => ss

end

end Stmt

namespace FnDecl

/-- The storage of the accepted formals. -/
def formalStorages (d : FnDecl) : List Storage := d.formals.items.filterMap VarDecl.storage?

/-- The storage of the accepted locals, those of inner blocks included. -/
def localStorages (d : FnDecl) : List Storage :=
  (Stmt.blockLocals d.body).filterMap VarDecl.storage?

end FnDecl

/-! ## Ranges -/

namespace Storage

/-- The bytes that storages take together. -/
def totalSize : List Storage → Nat
  | [] => 0
  | s :: ss => s.shape.size + totalSize ss

/-- The words of the storage reach over this distance below the frame pointer. -/
def Covers (s : Storage) (x : Int) : Prop :=
  ∃ offset, s.place = .frame offset ∧ offset - s.shape.size + wordSize ≤ x ∧ x ≤ offset

theorem covers_iff {s : Storage} {offset : Int} (h : s.place = .frame offset) (x : Int) :
    s.Covers x ↔ offset - s.shape.size + wordSize ≤ x ∧ x ≤ offset := by
  constructor
  · rintro ⟨o, ho, hx⟩
    cases h.symm.trans ho
    exact hx
  · intro hx
    exact ⟨offset, h, hx⟩

/-- Two storages have no words in common. -/
def Apart (s t : Storage) : Prop := ∀ x, ¬ (s.Covers x ∧ t.Covers x)

end Storage

/-- The frame of a function: its areas have the size of what was declared, and what was accepted
lies in them without overlap. -/
structure FnDecl.LaidOut (d : FnDecl) (frame : Frame) : Prop where
  formals : frame.formals = wordSize * d.formals.items.length
  locals : frame.locals = Storage.totalSize d.localStorages
  placed : ∀ s ∈ d.formalStorages ++ d.localStorages, ∃ offset, s.place = .frame offset
  formal : ∀ (i : Nat) (f : VarDecl) (s : Storage), d.formals.items[i]? = some f →
    f.storage? = some s → s.place = .frame (wordSize * i) ∧ s.shape.size = wordSize
  apart : (d.formalStorages ++ d.localStorages).Pairwise Storage.Apart
  saved : ∀ s ∈ d.formalStorages ++ d.localStorages,
    ¬ s.Covers frame.formals ∧ ¬ s.Covers (frame.formals + wordSize)
  within : ∀ s ∈ d.localStorages, ∀ x, s.Covers x →
    (frame.formals : Int) + Frame.savedSize ≤ x ∧
      x < (frame.formals : Int) + Frame.savedSize + frame.locals

/-! ## Stacks of locals -/

/-- The storages lie one after another among the locals, from the end of one frame to that of
another. -/
inductive Stacked : Frame → List Storage → Frame → Prop where
  | nil (frame : Frame) : Stacked frame [] frame
  | cons {frame frame' : Frame} {s : Storage} {ss : List Storage} :
    s.place = .frame (frame.localOffset s.shape.size) →
    Stacked (frame.addLocal s.shape.size) ss frame' → Stacked frame (s :: ss) frame'

namespace Stacked

variable {frame frame₁ frame₂ : Frame} {ss ts : List Storage}

theorem append (hs : Stacked frame ss frame₁) (ht : Stacked frame₁ ts frame₂) :
    Stacked frame (ss ++ ts) frame₂ := by
  induction hs with
  | nil => exact ht
  | cons hplace _ ih => exact .cons hplace (ih ht)

theorem formals (h : Stacked frame ss frame₁) : frame₁.formals = frame.formals := by
  induction h with
  | nil => rfl
  | cons _ _ ih => exact ih

theorem locals (h : Stacked frame ss frame₁) :
    frame₁.locals = frame.locals + Storage.totalSize ss := by
  induction h with
  | nil => rfl
  | cons _ _ ih =>
    rw [ih, Frame.locals_addLocal, Storage.totalSize, Nat.add_assoc]

/-- A storage of the stack lies between the ends of the two frames. -/
theorem within (h : Stacked frame ss frame₁) {s : Storage} (hs : s ∈ ss) :
    ∃ offset, s.place = .frame offset ∧
      (frame.formals : Int) + Frame.savedSize + frame.locals
        ≤ offset - s.shape.size + wordSize ∧
      offset + wordSize ≤ (frame.formals : Int) + Frame.savedSize + frame₁.locals := by
  induction h with
  | nil => cases hs
  | cons hplace htail ih =>
    rename_i frame frame' t ts
    have htotal := htail.locals
    rw [Frame.locals_addLocal] at htotal
    rcases List.mem_cons.mp hs with rfl | hs
    · refine ⟨_, hplace, ?_, ?_⟩ <;> unfold Frame.localOffset <;> omega
    · obtain ⟨offset, hoffset, hlow, hhigh⟩ := ih hs
      rw [Frame.formals_addLocal] at hlow hhigh
      rw [Frame.locals_addLocal] at hlow
      exact ⟨offset, hoffset, by omega, hhigh⟩

/-- The storages of a stack have no words in common. -/
theorem apart (h : Stacked frame ss frame₁) : ss.Pairwise Storage.Apart := by
  induction h with
  | nil => exact .nil
  | cons hplace htail ih =>
    rename_i frame frame' s ss
    refine .cons (fun t ht x hx => ?_) ih
    obtain ⟨offset, hoffset, hlow, -⟩ := htail.within ht
    rw [Storage.covers_iff hplace, Storage.covers_iff hoffset] at hx
    rw [Frame.formals_addLocal, Frame.locals_addLocal] at hlow
    have hword : wordSize = 4 := rfl
    unfold Frame.localOffset at hx
    omega

end Stacked

/-! ## Declarations -/

namespace Resolve

/-- What is accepted is the storage that the declaration's name is bound to.  It has the shape of
its type and lies where it was told to. -/
theorem declare_value (env : Env) (taken : Option NameCause) (place : Shape StructDef → Place)
    {d : VarDecl} (h : d.type.Formed) :
    (declare env taken place d).value.1.storage? = (declare env taken place d).value.2 ∧
      ∀ s, (declare env taken place d).value.2 = some s →
        s.name = d.name.name ∧ s.place = place s.shape ∧
          (shape env d).value.2 = some s.shape := by
  unfold declare
  rw [value_andThen (fault_shape env h)]
  split
  next type shape? hshape =>
  split
  · exact ⟨rfl, by intro s hs; cases hs⟩
  · exact ⟨rfl, by intro s hs; cases hs⟩
  · exact ⟨rfl, by intro s hs; cases hs; exact ⟨rfl, rfl, congrArg Prod.snd hshape⟩⟩

/-- Storage of a word type is one word. -/
theorem shape_of_isWordType (env : Env) {d : VarDecl} (h : d.type.isWordType = true)
    {sh : Shape StructDef} (hs : (shape env d).value.2 = some sh) :
    sh = .scalar .int ∨ sh = .scalar .bool := by
  unfold shape at hs
  split at hs
  · cases hs
    exact .inl rfl
  · cases hs
    exact .inr rfl
  · cases hs
  · next hd =>
    rw [hd] at h
    cases h
  · cases hs

theorem stacked_localVars {env : Env} {frame : Frame} {ds : List VarDecl}
    (h : ∀ d ∈ ds, d.type.Formed) (hfault : (localVars env frame ds).fault = none) :
    Stacked frame ((localVars env frame ds).value.1.filterMap VarDecl.storage?)
      (localVars env frame ds).value.2.2 := by
  induction ds generalizing env frame with
  | nil => exact .nil frame
  | cons d ds ih =>
    obtain ⟨hd, hds⟩ := List.forall_mem_cons.mp h
    obtain ⟨hstorage, hplace⟩ := declare_value env (taken env d.name.name)
      (fun shape => .frame (frame.localOffset shape.size)) hd
    obtain ⟨_, hdeclare, hrest, hcons⟩ := sequence_localVars.cons_of_fault hfault
    rw [hcons, value_andThen hdeclare, value_map]
    generalize (declare env (taken env d.name.name)
      (fun shape => .frame (frame.localOffset shape.size)) d).value = o at hstorage hplace hrest ⊢
    obtain ⟨d', s?⟩ := o
    have htail := ih hds hrest
    cases s? with
    | none =>
      rw [List.filterMap_cons_none hstorage]
      exact htail
    | some s =>
      rw [List.filterMap_cons_some hstorage]
      exact .cons (hplace s rfl).2.1 htail

/-- Each formal has its word by its position, and what is rejected keeps it free. -/
theorem placed_formals (env : Env) (frame : Frame) {ds : List VarDecl}
    (h : ∀ d ∈ ds, d.FormedFormal) :
    (formals env frame ds).value.1.length = ds.length ∧
      (formals env frame ds).value.2.2 =
        { frame with formals := frame.formals + wordSize * ds.length } ∧
      ∀ (i : Nat) (d : VarDecl) (s : Storage), (formals env frame ds).value.1[i]? = some d →
        d.storage? = some s →
          s.place = .frame ((frame.formals + wordSize * i : Nat) : Int) ∧
            s.shape.size = wordSize := by
  induction ds generalizing env frame with
  | nil => exact ⟨rfl, rfl, by intro i d s hd; cases hd⟩
  | cons d ds ih =>
    obtain ⟨hd, hds⟩ := List.forall_mem_cons.mp h
    have hformed := TypeNode.formed_of_isWordType hd.type
    have hfault := fault_declare env (taken env d.name.name)
      (fun _ => .frame frame.formalOffset) hformed
    obtain ⟨hstorage, hplace⟩ := declare_value env (taken env d.name.name)
      (fun _ => .frame frame.formalOffset) hformed
    rw [formals, value_andThen hfault]
    generalize (declare env (taken env d.name.name)
      (fun _ => .frame frame.formalOffset) d).value = o at hstorage hplace
    obtain ⟨d', s?⟩ := o
    obtain ⟨hlength, hframe, htail⟩ := ih (extend env s?) frame.addFormal hds
    dsimp only
    rw [value_map]
    refine ⟨congrArg Nat.succ hlength, ?_, ?_⟩
    · dsimp only
      rw [hframe]
      simp only [Frame.addFormal, List.length_cons, Nat.mul_succ]
      congr 1
      omega
    · intro i f s hf hs
      cases i with
      | zero =>
        cases hf
        obtain ⟨-, hp, hshape⟩ := hplace s (hstorage.symm.trans hs)
        refine ⟨hp, ?_⟩
        rcases shape_of_isWordType env hd.type hshape with hword | hword
        · rw [hword]
          rfl
        · rw [hword]
          rfl
      | succ i =>
        obtain ⟨hp, hsize⟩ := htail i f s hf hs
        refine ⟨hp.trans ?_, hsize⟩
        rw [Frame.formals_addFormal, Nat.mul_succ]
        congr 2
        omega

/-! ## Statements -/

mutual

theorem stacked_stmt {env : Env} {frame : Frame} : ∀ {s : Stmt}, s.Formed →
    (stmt env frame s).fault = none →
      Stacked frame ((stmt env frame s).value.1.locals.filterMap VarDecl.storage?)
        (stmt env frame s).value.2
  | .assign .., _, _ | .increment .., _, _ | .decrement .., _, _ | .read .., _, _
  | .write .., _, _ | .call .., _, _ | .return _ none, _, _ | .return _ (some _), _, _ => .nil frame
  | .ifThen _ e b, h, hfault | .while _ e b, h, hfault => by
    rw [stmt, fault_andThen, fault_map] at hfault
    rw [stmt, value_andThen hfault.1, value_map]
    exact stacked_block h.2 hfault.2
  | .ifElse _ e b₁ b₂, h, hfault => by
    rw [stmt, fault_andThen, fault_andThen, fault_map] at hfault
    obtain ⟨he, hb₁, hb₂⟩ := hfault
    rw [stmt, value_andThen he, value_andThen hb₁, value_map, Stmt.locals, List.filterMap_append]
    exact (stacked_block h.2.1 hb₁).append (stacked_block h.2.2 hb₂)

theorem stacked_block {env : Env} {frame : Frame} : ∀ {b : Block Stmt}, Stmt.BlockFormed b →
    (block env frame b).fault = none →
      Stacked frame ((Stmt.blockLocals (block env frame b).value.1).filterMap VarDecl.storage?)
        (block env frame b).value.2
  | ⟨ds, _, ss⟩, h, hfault => by
    rw [block, fault_andThen, fault_map] at hfault
    rw [block, value_andThen hfault.1, value_map, Stmt.blockLocals, List.filterMap_append]
    exact (stacked_localVars (fun d hd => (h.1 d hd).type) hfault.1).append
      (stacked_stmts h.2 hfault.2)

theorem stacked_stmts {env : Env} {frame : Frame} : ∀ {ss : List Stmt}, Stmt.AllFormed ss →
    (stmts env frame ss).fault = none →
      Stacked frame ((Stmt.listLocals (stmts env frame ss).value.1).filterMap VarDecl.storage?)
        (stmts env frame ss).value.2
  | [], _, _ => .nil frame
  | s :: ss, h, hfault => by
    rw [stmts, fault_andThen, fault_map] at hfault
    rw [stmts, value_andThen hfault.1, value_map, Stmt.listLocals, List.filterMap_append]
    exact (stacked_stmt h.1 hfault.1).append (stacked_stmts h.2 hfault.2)

end

end Resolve

/-! ## Functions -/

namespace FnDecl

variable {d : FnDecl}

/-- Each accepted formal of the function has the word of its position. -/
def FormalsPlaced (d : FnDecl) : Prop :=
  ∀ (i : Nat) (f : VarDecl) (s : Storage), d.formals.items[i]? = some f →
    f.storage? = some s → s.place = .frame (wordSize * i) ∧ s.shape.size = wordSize

theorem FormalsPlaced.of_mem (h : d.FormalsPlaced) {s : Storage} (hs : s ∈ d.formalStorages) :
    ∃ i : Nat, i < d.formals.items.length ∧ s.place = .frame (wordSize * i) ∧
      s.shape.size = wordSize := by
  obtain ⟨f, hf, hs⟩ := List.mem_filterMap.mp hs
  obtain ⟨i, hi, rfl⟩ := List.getElem_of_mem hf
  exact ⟨i, hi, h i _ s (List.getElem?_eq_getElem hi) hs⟩

theorem FormalsPlaced.apart (h : d.FormalsPlaced) : d.formalStorages.Pairwise Storage.Apart := by
  refine List.pairwise_filterMap.mpr (List.pairwise_iff_getElem.mpr ?_)
  intro i j hi hj hij s hs t ht x hx
  obtain ⟨hp, hsize⟩ := h i _ s (List.getElem?_eq_getElem hi) hs
  obtain ⟨hp', hsize'⟩ := h j _ t (List.getElem?_eq_getElem hj) ht
  rw [Storage.covers_iff hp, Storage.covers_iff hp'] at hx
  unfold wordSize at *
  omega

/-- A function is laid out if its formals are placed by their positions and its locals are
stacked on them. -/
theorem LaidOut.of_stacked {frame : Frame} (hplaced : d.FormalsPlaced)
    (hstack : Stacked { formals := wordSize * d.formals.items.length } d.localStorages frame) :
    d.LaidOut frame := by
  have hformals : frame.formals = wordSize * d.formals.items.length := hstack.formals
  have hwithin : ∀ s ∈ d.localStorages, ∃ offset, s.place = .frame offset ∧
      (frame.formals : Int) + Frame.savedSize ≤ offset - s.shape.size + wordSize ∧
      offset + wordSize ≤ (frame.formals : Int) + Frame.savedSize + frame.locals := by
    intro s hs
    obtain ⟨offset, hp, hlow, hhigh⟩ := hstack.within hs
    rw [← hformals] at hlow hhigh
    exact ⟨offset, hp, by simpa using hlow, hhigh⟩
  refine
    { formals := hformals
      locals := by simpa using hstack.locals
      placed := fun s hs => ?_
      formal := hplaced
      apart := List.pairwise_append.mpr
        ⟨hplaced.apart, hstack.apart, fun s hs t ht x hx => ?_⟩
      saved := fun s hs => ?_
      within := fun s hs x hx => ?_ }
  · rcases List.mem_append.mp hs with hs | hs
    · obtain ⟨i, -, hp, -⟩ := hplaced.of_mem hs
      exact ⟨_, hp⟩
    · obtain ⟨offset, hp, -⟩ := hwithin s hs
      exact ⟨offset, hp⟩
  · obtain ⟨i, hi, hp, hsize⟩ := hplaced.of_mem hs
    obtain ⟨offset, hp', hge, -⟩ := hwithin t ht
    rw [Storage.covers_iff hp, Storage.covers_iff hp'] at hx
    unfold Frame.savedSize wordSize at *
    omega
  · rcases List.mem_append.mp hs with hs | hs
    · obtain ⟨i, hi, hp, hsize⟩ := hplaced.of_mem hs
      rw [Storage.covers_iff hp, Storage.covers_iff hp]
      unfold wordSize at *
      omega
    · obtain ⟨offset, hp, hge, -⟩ := hwithin s hs
      rw [Storage.covers_iff hp, Storage.covers_iff hp]
      unfold Frame.savedSize wordSize at *
      omega
  · obtain ⟨offset, hp, hge, hlt⟩ := hwithin s hs
    rw [Storage.covers_iff hp] at hx
    unfold Frame.savedSize wordSize at *
    omega

end FnDecl

namespace Resolve

theorem name_fnDecl {env : Env} {d : FnDecl} (h : d.Formed) (hfault : (fnDecl env d).fault = none) :
    (fnDecl env d).value.1.name.name = d.name.name := by
  obtain ⟨returns, hr, -⟩ := TypeNode.type_of_isWordType h.returns
  rw [(fnDecl_of_formed h hr hfault).2]
  dsimp only
  unfold name
  split <;> rfl

/-- The frame that name resolution gives a function. -/
theorem laidOut_fnDecl {env : Env} {d : FnDecl} (h : d.Formed)
    (hfault : (fnDecl env d).fault = none) :
    (fnDecl env d).value.1.formals.items.length = d.formals.items.length ∧
      ∃ frame, (fnDecl env d).value.1.frame = some frame ∧
        (fnDecl env d).value.1.LaidOut frame := by
  obtain ⟨returns, hr, -⟩ := TypeNode.type_of_isWordType h.returns
  obtain ⟨hbody, hvalue⟩ := fnDecl_of_formed h hr hfault
  rw [hvalue]
  dsimp only
  generalize (name env d.name (.function (signature d returns))).value = named at hbody ⊢
  obtain ⟨hlength, hframe, hplaced⟩ := placed_formals named.2.enter {} h.formals
  generalize (formals named.2.enter {} d.formals.items).value = fs at hbody hlength hframe hplaced ⊢
  have hstack := stacked_block h.body hbody
  generalize (block fs.2.1 fs.2.2 d.body).value = b at hstack
  refine ⟨hlength, b.2, rfl, .of_stacked (fun i f s hf hs => ?_) ?_⟩
  · simpa using hplaced i f s hf hs
  · have hstart : fs.2.2 = { formals := wordSize * fs.1.length } := by
      rw [hframe, hlength]
      simp
    rw [hstart] at hstack
    exact hstack

end Resolve

end CMinusMinus
