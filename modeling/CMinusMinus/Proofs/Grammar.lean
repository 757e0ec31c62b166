import CMinusMinus.Parse
import CMinusMinus.Proofs.Sequencing

/-!
# Trees of the grammar

A tree is *formed* when it has the shape in which texts are read: names are spelled like names,
a field is asked of a location, only a location is assigned to, and no node is of unknown kind.
The passes over trees need no more than this to come to their end.
-/

namespace CMinusMinus

/-! ## Names -/

/-- How names are spelled: as the scanner takes them, and not like a keyword. -/
structure IsName (s : String) : Prop where
  spelled : ∃ c cs, s.toList = c :: cs ∧ Token.beginsName c = true ∧
    ∀ d ∈ cs, Token.continuesName d = true
  notKeyword : Keyword.ofText? s = none

namespace Token

/-- The text of a name token is a name. -/
def Scanned (t : Token) : Prop := t.kind = .name → IsName t.text

theorem kindOfWord_eq_name {w : List Char} (h : kindOfWord w = .name) :
    Keyword.ofText? (String.ofList w) = none := by
  unfold kindOfWord at h
  split at h
  · cases h
  · assumption

/-- A token that is measured as a name has the characters of one. -/
theorem measure_name {c : Char} {cs : List Char} {p : Position} {n : Nat}
    (h : measure c cs p = .ok (.name, n)) :
    IsName (textOf .name (c :: cs.take n)) := by
  unfold measure at h
  split at h
  · next hc =>
    injection h with h
    obtain ⟨hk, hn⟩ := Prod.mk.inj h
    have htake : cs.take n = cs.takeWhile continuesName := by
      rw [← hn]
      exact (List.prefix_iff_eq_take.mp (List.takeWhile_prefix _)).symm
    rw [htake]
    refine ⟨⟨c, cs.takeWhile continuesName, by simp [textOf], hc, fun d hd => ?_⟩,
      kindOfWord_eq_name hk⟩
    exact List.all_eq_true.mp List.all_takeWhile d hd
  · split at h
    · obtain ⟨_, _, h⟩ := bind_eq_ok.mp h
      cases h
    · split at h
      · split at h <;> cases h
      · split at h <;> cases h

/-- Every token that the scanner returns is scanned. -/
theorem scanned_of_scanFrom {cs : List Char} {p : Position} {ts : List Token}
    (h : scanFrom cs p = .ok ts) : ∀ t ∈ ts, t.Scanned := by
  fun_induction scanFrom cs p generalizing ts with
  | case1 cs p q hq =>
    cases h
    intro t ht
    cases List.mem_singleton.mp ht
    intro hk
    cases hk
  | case2 cs p c rest q hq ih =>
    obtain ⟨⟨kind, n⟩, hm, h⟩ := bind_eq_ok.mp h
    obtain ⟨tail, htail, h⟩ := bind_eq_ok.mp h
    cases h
    intro t ht
    rcases List.mem_cons.mp ht with rfl | ht
    · intro hk
      cases hk
      exact measure_name hm
    · exact ih _ htail t ht

end Token

/-- The identifier is spelled like a name. -/
def Ident.Named (x : Ident) : Prop := IsName x.name

/-! ## Expressions -/

namespace Exp

mutual

/-- The expression has the shape in which expressions are read. -/
def Formed : Exp → Prop
  | .int .. | .string .. | .bool .. => True
  | .ident x => x.Named
  | .access _ _ loc f => loc.isLocation = true ∧ loc.Formed ∧ f.Named
  | .assign _ l r => l.isLocation = true ∧ l.Formed ∧ r.Formed
  | .call _ f _ args => f.Named ∧ AllFormed args
  | .neg _ e | .not _ e => e.Formed
  | .binary _ op l r => op ∈ BinOp.all ∧ l.Formed ∧ r.Formed
  | .unknown _ => False
termination_by structural e => e

/-- All expressions of a list are formed. -/
def AllFormed : List Exp → Prop
  | [] => True
  | e :: es => e.Formed ∧ AllFormed es
termination_by structural es => es

end

/-- Whether the expression is an assignment. -/
def isAssignment : Exp → Bool
  | .assign .. => true
  | _ => false

/-- Whether the expression is a call. -/
def isCall : Exp → Bool
  | .call .. => true
  | _ => false

end Exp

/-! ## Declarations of variables -/

namespace TypeNode

/-- Whether the type is `int`, `bool` or `void`. -/
def isWordType : TypeNode → Bool
  | .int _ | .bool _ | .void _ => true
  | _ => false

/-- The type has the shape in which types of variables are read. -/
def Formed : TypeNode → Prop
  | .struct _ x => x.Named
  | .unknown _ => False
  | _ => True

theorem formed_of_isWordType {t : TypeNode} (h : t.isWordType = true) : t.Formed := by
  cases t with
  | int | bool | void => trivial
  | struct => cases h
  | unknown => cases h

end TypeNode

namespace VarDecl

/-- The declaration has the shape in which variables and fields are read. -/
structure Formed (d : VarDecl) : Prop where
  role : d.role = .variable
  type : d.type.Formed
  name : d.name.Named

/-- The declaration has the shape in which formals are read. -/
structure FormedFormal (d : VarDecl) : Prop where
  role : d.role = .formal
  type : d.type.isWordType = true
  name : d.name.Named

end VarDecl

/-! ## Statements -/

namespace Stmt

mutual

/-- The statement has the shape in which statements are read. -/
def Formed : Stmt → Prop
  | .assign _ e => e.isAssignment = true ∧ e.Formed
  | .increment _ e | .decrement _ e | .read _ e => e.isLocation = true ∧ e.Formed
  | .write _ e => e.Formed
  | .ifThen _ e b | .while _ e b => e.Formed ∧ BlockFormed b
  | .ifElse _ e b₁ b₂ => e.Formed ∧ BlockFormed b₁ ∧ BlockFormed b₂
  | .call _ e => e.isCall = true ∧ e.Formed
  | .return _ none => True
  | .return _ (some e) => e.Formed
  | .unknown _ => False
termination_by structural s => s

/-- The block has the shape in which blocks are read. -/
def BlockFormed : Block Stmt → Prop
  | ⟨ds, _, ss⟩ => (∀ d ∈ ds.items, d.Formed) ∧ AllFormed ss
termination_by structural b => b

/-- All statements of a list are formed. -/
def AllFormed : List Stmt → Prop
  | [] => True
  | s :: ss => s.Formed ∧ AllFormed ss
termination_by structural ss => ss

end

end Stmt

/-! ## Programs -/

/-- The function has the shape in which functions are read. -/
structure FnDecl.Formed (d : FnDecl) : Prop where
  returns : d.returns.isWordType = true
  name : d.name.Named
  formals : ∀ f ∈ d.formals.items, f.FormedFormal
  body : Stmt.BlockFormed d.body

/-- The struct has the shape in which structs are read. -/
structure StructDecl.Formed (d : StructDecl) : Prop where
  name : d.name.Named
  nonempty : d.fields.items ≠ []
  fields : ∀ f ∈ d.fields.items, f.Formed

/-- The declaration has the shape in which declarations are read. -/
def Decl.Formed : Decl → Prop
  | .var d => d.Formed
  | .fn d => d.Formed
  | .struct d => d.Formed
  | .unknown _ => False

/-- All declarations of the program are formed. -/
def Program.Formed (p : Program) : Prop := ∀ d ∈ p.decls, d.Formed

end CMinusMinus
