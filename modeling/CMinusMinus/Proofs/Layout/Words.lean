import Mathlib.Data.List.Nodup
import CMinusMinus.Proofs.Typing.Expressions

/-!
# The words of storage

Storage of a scalar is one word, and storage of a struct is the words of its fields in the order
of their declarations.  Each word has a path, the names of the fields that lead to it, and a
distance from the beginning of the storage.  In storage that is laid out the distances are those
of consecutive words, and no two words have one path (`Shape.Laid.words`).  So a path and a
distance tell each other (`Words.distance_eq_iff`).
-/

namespace CMinusMinus

/-! ## Words -/

mutual

/-- The words of storage in order, each with its path and its distance from the beginning. -/
def Shape.words : Shape StructDef → List (List String × Nat)
  | .scalar _ => [([], 0)]
  | .struct d => d.words

/-- The words of a struct in order. -/
def StructDef.words : StructDef → List (List String × Nat)
  | ⟨_, _, fs, _⟩ => Field.listWords fs

/-- The words of a field in order, seen from the struct that it is in. -/
def Field.words : Field StructDef → List (List String × Nat)
  | ⟨name, _, offset, shape⟩ => shape.words.map fun w => (name :: w.1, offset + w.2)

/-- The words of fields in order. -/
def Field.listWords : List (Field StructDef) → List (List String × Nat)
  | [] => []
  | f :: fs => f.words ++ Field.listWords fs

end

theorem StructDef.words_eq (d : StructDef) : d.words = Field.listWords d.fields := by
  cases d with
  | mk => rw [StructDef.words]

theorem Field.words_eq (f : Field StructDef) :
    f.words = f.shape.words.map fun w => (f.name :: w.1, f.offset + w.2) := by
  cases f with
  | mk => rw [Field.words]

@[simp] theorem Field.listWords_append (fs gs : List (Field StructDef)) :
    Field.listWords (fs ++ gs) = Field.listWords fs ++ Field.listWords gs := by
  induction fs with
  | nil => rfl
  | cons f fs ih => rw [List.cons_append, Field.listWords, Field.listWords, ih, List.append_assoc]

@[simp] theorem Field.listWords_singleton (f : Field StructDef) :
    Field.listWords [f] = f.words := by
  rw [Field.listWords, Field.listWords, List.append_nil]

theorem Field.mem_listWords {fs : List (Field StructDef)} {w : List String × Nat} :
    w ∈ Field.listWords fs ↔ ∃ f ∈ fs, w ∈ f.words := by
  induction fs with
  | nil => simp [Field.listWords]
  | cons f fs ih => simp [Field.listWords, ih]

/-! ## Distances -/

/-- The distances of so many consecutive words. -/
def consecutive (n : Nat) : List Nat := (List.range n).map (wordSize * ·)

theorem consecutive_add (m n : Nat) :
    consecutive (m + n) = consecutive m ++ (consecutive n).map (wordSize * m + ·) := by
  rw [consecutive, List.range_add, List.map_append, List.map_map, consecutive, consecutive,
    List.map_map]
  congr 1
  refine List.map_congr_left fun i _ => ?_
  exact Nat.mul_add _ _ _

theorem mem_consecutive {n x : Nat} (h : x ∈ consecutive n) : x + wordSize ≤ wordSize * n := by
  obtain ⟨i, hi, rfl⟩ := List.mem_map.mp h
  have hlt := List.mem_range.mp hi
  exact Nat.mul_le_mul_left wordSize hlt

theorem consecutive_nodup (n : Nat) : (consecutive n).Nodup :=
  List.nodup_range.map fun _ _ h => Nat.eq_of_mul_eq_mul_left (by decide) h

/-- The words take so many bytes, one after another from the beginning. -/
structure Words (ws : List (List String × Nat)) (size : Nat) : Prop where
  size : size = wordSize * ws.length
  distances : ws.map Prod.snd = consecutive ws.length
  paths : (ws.map Prod.fst).Nodup

namespace Words

variable {ws : List (List String × Nat)} {size : Nat}

theorem within (h : Words ws size) {w : List String × Nat} (hw : w ∈ ws) :
    w.2 + wordSize ≤ size := by
  have hmem : w.2 ∈ consecutive ws.length := h.distances ▸ List.mem_map_of_mem hw
  rw [h.size]
  exact mem_consecutive hmem

/-- Words have the same distance exactly if they have the same path. -/
theorem distance_eq_iff (h : Words ws size) {v w : List String × Nat} (hv : v ∈ ws) (hw : w ∈ ws) :
    v.2 = w.2 ↔ v.1 = w.1 := by
  have hdistances : (ws.map Prod.snd).Nodup := h.distances ▸ consecutive_nodup ws.length
  constructor
  · intro heq
    rw [List.inj_on_of_nodup_map hdistances hv hw heq]
  · intro heq
    rw [List.inj_on_of_nodup_map h.paths hv hw heq]

/-- One more field after those of a struct. -/
theorem snoc (h : Words ws size) {f : Field StructDef} (hoffset : f.offset = size)
    (hshape : Words f.shape.words f.shape.size) (hfresh : ∀ w ∈ ws, ∀ p, w.1 ≠ f.name :: p) :
    Words (ws ++ f.words) (size + f.shape.size) := by
  rw [Field.words_eq]
  constructor
  · rw [List.length_append, List.length_map, Nat.mul_add, ← h.size, ← hshape.size]
  · rw [List.map_append, h.distances, List.length_append, List.length_map, consecutive_add,
      ← hshape.distances, ← h.size, ← hoffset, List.map_map, List.map_map]
    rfl
  · rw [List.map_append, List.map_map]
    refine List.Nodup.append h.paths ?_ ?_
    · have hnames : (f.shape.words.map fun w => f.name :: w.1) =
          (f.shape.words.map Prod.fst).map (f.name :: ·) := by rw [List.map_map]; rfl
      show (f.shape.words.map fun w => f.name :: w.1).Nodup
      rw [hnames]
      exact hshape.paths.map (List.cons_injective)
    · intro p hp hp'
      obtain ⟨w, hw, rfl⟩ := List.mem_map.mp hp
      obtain ⟨w', -, heq⟩ := List.mem_map.mp hp'
      exact hfresh w hw _ heq.symm

end Words

mutual

/-- The words of storage that is laid out are consecutive. -/
theorem Shape.Laid.words : ∀ {sh : Shape StructDef}, sh.Laid → Words sh.words sh.size
  | _, .scalar _ => ⟨rfl, rfl, List.nodup_singleton _⟩
  | .struct d, .struct h => by
    rw [Shape.words, StructDef.words_eq]
    exact h.words

theorem FieldsLaid.words : ∀ {fs : List (Field StructDef)} {size : Nat}, FieldsLaid fs size →
    Words (Field.listWords fs) size
  | _, _, .nil => ⟨rfl, rfl, List.nodup_nil⟩
  | _, _, .snoc hfs hfresh hoffset hshape => by
    rw [Field.listWords_append, Field.listWords_singleton]
    refine hfs.words.snoc hoffset hshape.words ?_
    -- a path begins with the name of its field, and no field before has the new one's name
    intro w hw p heq
    obtain ⟨g, hg, hw⟩ := Field.mem_listWords.mp hw
    rw [Field.words_eq] at hw
    obtain ⟨v, -, rfl⟩ := List.mem_map.mp hw
    exact hfresh g hg (List.cons.inj heq).1

end

/-! ## Locations -/

theorem StructDef.name_of_field? {d : StructDef} {name : String} {f : Field StructDef}
    (h : d.field? name = some f) : f.name = name := by
  have htest := List.find?_some h
  exact eq_of_beq htest

namespace Exp

/-- The variable that a location is part of. -/
def root? : Exp → Option Ident
  | .ident x => some x
  | .access _ _ loc _ => loc.root?
  | _ => none

/-- The fields that a location leads through, the outermost first. -/
def fieldPath : Exp → List String
  | .access _ _ loc f => loc.fieldPath ++ [f.name]
  | _ => []

@[simp] theorem fieldPath_ident (x : Ident) : (Exp.ident x).fieldPath = [] := rfl

end Exp

/-- A word of a location is one of the storage that the location lies in. -/
theorem Locates.mem_words {env : Env} {e : Exp} {s : Storage} {n : Nat} {sh : Shape StructDef}
    (h : Locates env e s n sh) {w : List String × Nat} (hw : w ∈ sh.words) :
    (e.fieldPath ++ w.1, n + w.2) ∈ s.shape.words := by
  induction h generalizing w with
  | ident =>
    rw [Exp.fieldPath_ident, List.nil_append, Nat.zero_add]
    exact hw
  | @access _ loc f s n d g hloc hfield _ ih =>
    have hname : g.name = f.name := StructDef.name_of_field? hfield
    have hinner : (g.name :: w.1, g.offset + w.2) ∈ (Shape.struct d).words := by
      rw [Shape.words, StructDef.words_eq]
      refine Field.mem_listWords.mpr ⟨g, List.mem_of_find?_eq_some hfield, ?_⟩
      rw [Field.words_eq]
      exact List.mem_map_of_mem hw
    have houter := ih hinner
    rw [hname, ← Nat.add_assoc] at houter
    rw [Exp.fieldPath, List.append_assoc]
    exact houter

/-- The word of a location that holds one. -/
theorem Locates.mem_words_scalar {env : Env} {e : Exp} {s : Storage} {n : Nat} {t : Ty}
    (h : Locates env e s n (.scalar t)) : (e.fieldPath, n) ∈ s.shape.words := by
  have hword := h.mem_words (w := ([], 0)) (List.mem_singleton.mpr rfl)
  rwa [List.append_nil] at hword

end CMinusMinus
