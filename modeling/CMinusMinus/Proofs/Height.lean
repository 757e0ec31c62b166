import CMinusMinus.Asm.Emit
import CMinusMinus.Proofs.Generation.Labels

/-!
# Heights of the stack

The *height* of a point in the code of a function is the number of words that were pushed and not
popped since the function made its frame.  A call counts as popping the arguments, since the
epilogue of what is called drops them.

Paths follow the code from item to item and along branches (`Follows`).  To show that all paths
to a point agree, heights are assigned to points and labels so that each item fits the heights
around it (`Levels`).  The labels of a piece of code get theirs when the code around it is known;
`Solvable` says that some choice for the labels of the piece will do, and has one rule for each
way of putting pieces together.
-/

namespace CMinusMinus

/-! ## What an item does to the stack -/

namespace Operand

/-- The label that an operand names. -/
def label? : Operand → Option String
  | .label name => some name
  | _ => none

end Operand

namespace Opcode

/-- Whether the operation goes on at a label, always or on a condition. -/
def branches : Opcode → Bool
  | .b | .beq | .bne | .blt | .bgt | .ble | .bge => true
  | _ => false

/-- Whether the operation may go on at the next item. -/
def fallsThrough : Opcode → Bool
  | .b | .jr => false
  | _ => true

/-- The words that the operation pushes, less those that it pops, if functions pop so many. -/
def rise (arity : String → Nat) : Opcode → List Operand → Int
  | .subu, [.reg .sp, .reg .sp, .imm bytes] => bytes / wordSize
  | .addu, [.reg .sp, .reg .sp, .imm bytes] => -(bytes / wordSize)
  | .jal, [.label f] => -(arity f)
  | _, _ => 0

end Opcode

namespace Item

/-- The label that an item defines. -/
def name? : Item → Option String
  | .label name _ => some name
  | _ => none

/-- The words that an item pushes, less those that it pops, if functions pop so many. -/
def rise (arity : String → Nat) : Item → Int
  | .instr op args _ => op.rise arity args
  | _ => 0

/-- The labels that an item may go on at. -/
def targets : Item → List String
  | .instr op args _ => if op.branches then args.filterMap Operand.label? else []
  | _ => []

/-- Whether an item may go on at the next one. -/
def fallsThrough : Item → Bool
  | .instr op _ _ => op.fallsThrough
  | _ => true

theorem rise_of_target {arity : String → Nat} {i : Item} {l : String} (h : l ∈ i.targets) :
    i.rise arity = 0 := by
  cases i with
  | label | directive => rfl
  | instr op args comment =>
    cases op with
    | subu | addu | jal => cases h
    | _ => rfl

/-! Conditional branches go on at their label or at the next item. -/

section Conditional

variable {op : Opcode} (hop : op.branches = true) (r r' : Reg) (l : String)
  (comment : Option String)
include hop

theorem targets_branchIf :
    (Asm.instr op [.reg r, .reg r', .label l] comment).targets = [l] := by
  rw [Asm.instr, targets, if_pos hop]
  rfl

theorem rise_branchIf (arity : String → Nat) :
    rise arity (Asm.instr op [.reg r, .reg r', .label l] comment) = 0 :=
  rise_of_target (targets_branchIf hop r r' l comment ▸ List.mem_singleton_self l)

theorem fallsThrough_branchIf (hb : op ≠ .b) :
    (Asm.instr op [.reg r, .reg r', .label l] comment).fallsThrough = true := by
  cases op with
  | b => exact absurd rfl hb
  | jr => cases hop
  | _ => rfl

end Conditional

end Item

/-- Code may go on from a point, where it has the item, to another point. -/
inductive Follows (code : List Item) : Nat → Item → Nat → Prop where
  | next {i : Nat} {item : Item} :
    code[i]? = some item → item.fallsThrough = true → Follows code i item (i + 1)
  | jump {i j : Nat} {item : Item} {l : String} {comment : Option String} :
    code[i]? = some item → l ∈ item.targets → code[j]? = some (.label l comment) →
    Follows code i item j

/-- Some path from the start to a point has so many more pushes than pops. -/
inductive Climb (arity : String → Nat) (code : List Item) (first : Nat) : Nat → Int → Prop where
  | start : Climb arity code first first 0
  | follow {i j : Nat} {item : Item} {h : Int} :
    Climb arity code first i h → Follows code i item j →
    Climb arity code first j (h + item.rise arity)

/-- The points from the start on have heights that agree with every step from one to another, and
none below zero. -/
structure Charted (arity : String → Nat) (code : List Item) (first : Nat) (height : Nat → Int) :
    Prop where
  start : height first = 0
  follows : ∀ {i item j}, first ≤ i → Follows code i item j →
    first ≤ j ∧ height j = height i + item.rise arity
  nonneg : ∀ {i}, first ≤ i → i < code.length → 0 ≤ height i

/-- All paths to a point climb to its height. -/
theorem Charted.climb {arity : String → Nat} {code : List Item} {first : Nat}
    {height : Nat → Int} (hc : Charted arity code first height) {i : Nat} {h : Int}
    (hi : Climb arity code first i h) : first ≤ i ∧ h = height i := by
  induction hi with
  | start => exact ⟨Nat.le_refl _, hc.start.symm⟩
  | follow _ hstep ih =>
    obtain ⟨hle, hheight⟩ := ih
    obtain ⟨hle', hheight'⟩ := hc.follows hle hstep
    exact ⟨hle', by rw [hheight', hheight]⟩

/-! ## Where branches lead -/

/-- The labels that code defines. -/
def labels (code : List Item) : List String := code.filterMap Item.name?

@[simp] theorem labels_append (q r : List Item) : labels (q ++ r) = labels q ++ labels r :=
  List.filterMap_append

theorem mem_labels {code : List Item} {l : String} :
    l ∈ labels code ↔ ∃ comment, .label l comment ∈ code := by
  rw [labels, List.mem_filterMap]
  constructor
  · rintro ⟨i, hi, hl⟩
    cases i with
    | label l' comment =>
      cases hl
      exact ⟨comment, hi⟩
    | instr | directive => cases hl
  · rintro ⟨comment, hi⟩
    exact ⟨_, hi, rfl⟩

@[simp] theorem labels_label (l : String) (comment : Option String) :
    labels (Asm.label l comment) = [l] := rfl

/-- The branches of code lead to labels that it defines, or to the given ones. -/
def Closed (out : List String) (q : List Item) : Prop :=
  ∀ i ∈ q, ∀ l ∈ i.targets, l ∈ out ∨ l ∈ labels q

namespace Closed

variable {out out' : List String} {q r : List Item}

theorem append (hq : Closed out q) (hr : Closed out r) : Closed out (q ++ r) := by
  intro i hi l hl
  rw [labels_append]
  rcases List.mem_append.mp hi with hi | hi
  · exact (hq i hi l hl).imp id (List.mem_append_left _)
  · exact (hr i hi l hl).imp id (List.mem_append_right _)

/-- A label that the code defines need not be given. -/
theorem mono (h : Closed out q) (hout : ∀ l ∈ out, l ∈ out' ∨ l ∈ labels q) : Closed out' q := by
  intro i hi l hl
  rcases h i hi l hl with hl | hl
  · exact hout l hl
  · exact .inr hl

theorem single {i : Item} (h : ∀ l ∈ i.targets, l ∈ out) : Closed out [i] := by
  intro j hj l hl
  cases List.mem_singleton.mp hj
  exact .inl (h l hl)

end Closed

/-! ## Paths through a piece of code -/

/-- Wherever the code stands, it ends so many words higher than it begins. -/
def Raises (arity : String → Nat) (q : List Item) (n : Int) : Prop :=
  ∀ ⦃code first height⦄, Charted arity code first height → ∀ ⦃pre post⦄,
    code = pre ++ (q ++ post) → first ≤ pre.length →
      height (pre.length + q.length) = height pre.length + n

namespace Raises

variable {arity : String → Nat} {q r : List Item} {m n : Int}

theorem nil : Raises arity [] 0 := by
  intro code first height _ pre post _ _
  rw [List.length_nil, Nat.add_zero, Int.add_zero]

theorem append (hq : Raises arity q m) (hr : Raises arity r n) : Raises arity (q ++ r) (m + n) := by
  intro code first height hc pre post hcode hfirst
  have hfront : code = pre ++ (q ++ (r ++ post)) := by rw [hcode, List.append_assoc]
  have hback : code = (pre ++ q) ++ (r ++ post) := by rw [hfront, List.append_assoc]
  have hbegin := hq hc hfront hfirst
  have hend := hr hc hback (by rw [List.length_append]; exact Nat.le_add_right_of_le hfirst)
  rw [List.length_append] at hend
  rw [List.length_append, ← Nat.add_assoc, hend, hbegin, Int.add_assoc]

theorem single {i : Item} (hi : i.fallsThrough = true) : Raises arity [i] (i.rise arity) := by
  intro code first height hc pre post hcode hfirst
  have hitem : code[pre.length]? = some i := by simp [hcode]
  exact (hc.follows hfirst (.next hitem hi)).2

/-- A branch to the end of a piece of code leaves the height as it is. -/
theorem branch {i : Item} {l : String} (hl : l ∈ i.targets) (comment : Option String) :
    Raises arity (i :: q ++ [.label l comment]) 0 := by
  intro code first height hc pre post hcode hfirst
  have hbranch : code[pre.length]? = some i := by simp [hcode]
  have hlabel : code[pre.length + (q.length + 1)]? = some (.label l comment) := by
    rw [hcode, List.getElem?_append_right (Nat.le_add_right _ _), Nat.add_sub_cancel_left]
    simp
  obtain ⟨hle, hland⟩ := hc.follows hfirst (.jump hbranch hl hlabel)
  have hafter := (hc.follows hle (.next hlabel rfl)).2
  rw [show Item.rise arity (.label l comment) = 0 from rfl] at hafter
  rw [Item.rise_of_target hl] at hland
  simp only [List.length_append, List.length_cons, List.length_nil]
  rw [← Nat.add_assoc, Nat.zero_add, hafter, hland, Int.add_zero]

end Raises

/-! ## Levels -/

section Levels

variable (arity : String → Nat) (lab : String → Int)

/-- The item may stand at the height, if labels stand at the given ones. -/
structure Item.Level (h : Int) (i : Item) : Prop where
  nonneg : 0 ≤ h
  label : ∀ l, i.name? = some l → lab l = h
  target : ∀ l ∈ i.targets, lab l = h

/-- The height at which code begins that is not reached from the item before it. -/
def resume : List Item → Int
  | .label l _ :: _ => lab l
  | _ => 0

/-- The height of what comes after an item. -/
def heightAfter (h : Int) (i : Item) (code : List Item) : Int :=
  if i.fallsThrough then h + i.rise arity else resume lab code

/-- The height of a point in code that begins at a height. -/
def heightAt : Int → List Item → Nat → Int
  | h, _, 0 => h
  | h, [], _ + 1 => h
  | h, i :: code, k + 1 => heightAt (heightAfter arity lab h i code) code k

/-- Every item of the code may stand at its height, if the code begins at the first height, and
the code ends at the second. -/
def Levels : Int → List Item → Int → Prop
  | a, [], b => a = b
  | a, i :: code, b => i.Level lab a ∧ Levels (heightAfter arity lab a i code) code b

variable {arity lab} {a b c : Int} {q r : List Item}

@[simp] theorem levels_nil : Levels arity lab a [] b ↔ a = b := Iff.rfl

theorem resume_append (hq : q ≠ []) (r : List Item) : resume lab (q ++ r) = resume lab q := by
  cases q with
  | nil => exact absurd rfl hq
  | cons i q => cases i <;> rfl

/-- Code with levels begins with a label at its own height, if it begins with one. -/
theorem Levels.resume (h : Levels arity lab 0 r c) : resume lab r = 0 := by
  cases r with
  | nil => rfl
  | cons i r =>
    cases i with
    | label l comment => exact h.1.label l rfl
    | instr | directive => rfl

/-- What comes after an item has the same height if more code follows. -/
theorem heightAfter_append {i : Item} (hq : Levels arity lab (heightAfter arity lab a i q) q b)
    (hr : Levels arity lab b r c) :
    heightAfter arity lab a i (q ++ r) = heightAfter arity lab a i q := by
  cases hi : i.fallsThrough with
  | true => simp [heightAfter, hi]
  | false =>
    simp only [heightAfter, hi, Bool.false_eq_true, if_false] at hq ⊢
    cases q with
    | cons j q => exact resume_append (List.cons_ne_nil j q) r
    | nil =>
      rw [← show (0 : Int) = b from hq] at hr
      exact hr.resume

theorem Levels.append (hq : Levels arity lab a q b) (hr : Levels arity lab b r c) :
    Levels arity lab a (q ++ r) c := by
  induction q generalizing a with
  | nil =>
    cases hq
    exact hr
  | cons i q ih =>
    refine ⟨hq.1, ?_⟩
    show Levels arity lab (heightAfter arity lab a i (q ++ r)) (q ++ r) c
    rw [heightAfter_append hq.2 hr]
    exact ih hq.2

/-- An item that goes on to the next one, and perhaps to a label at the same height. -/
theorem Levels.single {i : Item} (ha : 0 ≤ a) (hname : i.name? = none)
    (htarget : ∀ l ∈ i.targets, lab l = a) (hfalls : i.fallsThrough = true)
    (hrise : a + i.rise arity = b) : Levels arity lab a [i] b := by
  refine ⟨⟨ha, ?_, htarget⟩, ?_⟩
  · rw [hname]
    intro l hl
    cases hl
  · rw [heightAfter, if_pos hfalls, hrise]
    rfl

theorem Levels.label {l : String} (ha : 0 ≤ a) (hl : lab l = a) (comment : Option String) :
    Levels arity lab a (Asm.label l comment) a := by
  refine ⟨⟨ha, ?_, nofun⟩, ?_⟩
  · intro l' hl'
    cases hl'
    exact hl
  · exact Int.add_zero a

theorem Levels.branchIf {op : Opcode} {l : String} (ha : 0 ≤ a) (hl : lab l = a)
    (hop : op.branches = true) (hb : op ≠ .b) (r r' : Reg) (comment : Option String) :
    Levels arity lab a (Asm.branchIf op r r' l comment) a := by
  refine .single ha rfl ?_ (Item.fallsThrough_branchIf hop r r' l comment hb) ?_
  · intro l' hl'
    rw [Item.targets_branchIf hop] at hl'
    cases List.mem_singleton.mp hl'
    exact hl
  · rw [Item.rise_branchIf hop, Int.add_zero]

/-- A branch, and code after it that begins with a label at a height of its own. -/
theorem Levels.branch {l : String} (ha : 0 ≤ a) (hl : lab l = a) (hq : Levels arity lab b q c)
    (hb : CMinusMinus.resume lab q = b) : Levels arity lab a (Asm.branch l ++ q) c := by
  refine ⟨⟨ha, nofun, ?_⟩, ?_⟩
  · intro l' hl'
    cases List.mem_singleton.mp hl'
    exact hl
  · rw [heightAfter, List.append_eq, List.nil_append, if_neg (by exact Bool.false_ne_true), hb]
    exact hq

/-- A branch from where the function began. -/
theorem Levels.goto {l : String} (hl : lab l = 0) : Levels arity lab 0 (Asm.branch l) 0 := by
  have hnil : Levels arity lab 0 [] 0 := rfl
  exact Levels.branch (Int.le_refl 0) hl hnil rfl

/-- A point in the second of two pieces has the height it has in that piece. -/
theorem heightAt_append (hq : Levels arity lab a q b) (hr : Levels arity lab b r c) (k : Nat) :
    heightAt arity lab a (q ++ r) (q.length + k) = heightAt arity lab b r k := by
  induction q generalizing a with
  | nil =>
    cases hq
    rw [List.nil_append, List.length_nil, Nat.zero_add]
  | cons i q ih =>
    rw [List.cons_append, List.length_cons, Nat.add_right_comm, heightAt,
      heightAfter_append hq.2 hr]
    exact ih hq.2

/-- Each item of code with levels stands at its height, and what it falls through to is as much
higher as it pushes. -/
theorem Levels.getElem? (h : Levels arity lab a q b) {k : Nat} {i : Item} (hi : q[k]? = some i) :
    i.Level lab (heightAt arity lab a q k) ∧ (i.fallsThrough = true →
      heightAt arity lab a q (k + 1) = heightAt arity lab a q k + i.rise arity) := by
  induction q generalizing a k with
  | nil => cases hi
  | cons j q ih =>
    cases k with
    | zero =>
      cases hi
      refine ⟨h.1, fun hfalls => ?_⟩
      simp only [heightAt, heightAfter, hfalls, if_true]
    | succ k => exact ih h.2 hi

/-- Code with levels is charted from where it begins at no height, if what comes before it has
only labels that stand below. -/
theorem Levels.charted (h : Levels arity lab 0 q b) {front : List Item}
    (hfront : ∀ l ∈ labels front, lab l < 0) :
    Charted arity (front ++ q) front.length
      fun i => heightAt arity lab 0 q (i - front.length) := by
  have hget : ∀ {i item}, front.length ≤ i → (front ++ q)[i]? = some item →
      q[i - front.length]? = some item := by
    intro i item hi hitem
    rwa [List.getElem?_append_right hi] at hitem
  refine ⟨by rw [Nat.sub_self, heightAt], ?_, ?_⟩
  · intro i item j hi hstep
    cases hstep with
    | next hitem hfalls =>
      refine ⟨Nat.le_succ_of_le hi, ?_⟩
      rw [Nat.succ_sub hi]
      exact (h.getElem? (hget hi hitem)).2 hfalls
    | jump hitem hl hlabel =>
      have hlevel := (h.getElem? (hget hi hitem)).1
      have htarget := hlevel.target _ hl
      by_cases hj : front.length ≤ j
      · refine ⟨hj, ?_⟩
        have hland := (h.getElem? (hget hj hlabel)).1.label _ rfl
        rw [Item.rise_of_target hl, Int.add_zero, ← hland, htarget]
      · rw [List.getElem?_append_left (Nat.lt_of_not_le hj)] at hlabel
        have hbelow := hfront _ (mem_labels.mpr ⟨_, List.mem_of_getElem? hlabel⟩)
        have hnonneg := hlevel.nonneg
        omega
  · intro i hi hlt
    have hitem := List.getElem?_eq_getElem hlt
    exact (h.getElem? (hget hi hitem)).1.nonneg

end Levels

/-! ## Labels that are to be chosen -/

/-- Some heights for the labels with the numbers from `m` to below `n` make sure of a property,
given those of the known labels. -/
def Solvable (known : List (String × Int)) (m n : Nat) (P : (String → Int) → Prop) : Prop :=
  m ≤ n ∧ ∃ δ : Nat → Int, ∀ lab : String → Int, (∀ p ∈ known, lab p.1 = p.2) →
    (∀ k, m ≤ k → k < n → lab (Asm.numbered k) = δ k) → P lab

namespace Solvable

variable {known : List (String × Int)} {m n o : Nat} {P Q : (String → Int) → Prop}

theorem of_known (h : ∀ lab : String → Int, (∀ p ∈ known, lab p.1 = p.2) → P lab) :
    Solvable known m m P :=
  ⟨Nat.le_refl m, fun _ => 0, fun lab hknown _ => h lab hknown⟩

theorem mono (hPQ : ∀ lab : String → Int, (∀ p ∈ known, lab p.1 = p.2) → P lab → Q lab)
    (h : Solvable known m n P) : Solvable known m n Q := by
  obtain ⟨hle, δ, hP⟩ := h
  exact ⟨hle, δ, fun lab hknown hlab => hPQ lab hknown (hP lab hknown hlab)⟩

theorem weaken {known' : List (String × Int)} (h : Solvable known m n P)
    (hsub : ∀ p ∈ known, p ∈ known') : Solvable known' m n P := by
  obtain ⟨hle, δ, hP⟩ := h
  exact ⟨hle, δ, fun lab hknown => hP lab fun p hp => hknown p (hsub p hp)⟩

/-- The labels of two pieces of code are chosen apart. -/
theorem and (hP : Solvable known m n P) (hQ : Solvable known n o Q) :
    Solvable known m o fun lab => P lab ∧ Q lab := by
  obtain ⟨hmn, δ, hP⟩ := hP
  obtain ⟨hno, ε, hQ⟩ := hQ
  refine ⟨Nat.le_trans hmn hno, fun k => if k < n then δ k else ε k,
    fun lab hknown hlab => ⟨?_, ?_⟩⟩
  · refine hP lab hknown fun k hm hn => ?_
    exact (hlab k hm (Nat.lt_of_lt_of_le hn hno)).trans (if_pos hn)
  · refine hQ lab hknown fun k hn ho => ?_
    exact (hlab k (Nat.le_trans hmn hn) ho).trans (if_neg (Nat.not_lt.mpr hn))

/-- The next label is given a height. -/
theorem fresh (h : Int) (hP : Solvable ((Asm.numbered m, h) :: known) (m + 1) n P) :
    Solvable known m n P := by
  obtain ⟨hmn, δ, hP⟩ := hP
  refine ⟨Nat.le_of_succ_le hmn, fun k => if k = m then h else δ k, fun lab hknown hlab => ?_⟩
  refine hP lab (List.forall_mem_cons.mpr ⟨?_, hknown⟩) fun k hm hn => ?_
  · exact (hlab m (Nat.le_refl m) hmn).trans (if_pos rfl)
  · exact (hlab k (Nat.le_of_succ_le hm) hn).trans (if_neg (Nat.ne_of_gt hm))

end Solvable

end CMinusMinus
