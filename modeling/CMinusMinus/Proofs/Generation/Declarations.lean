import CMinusMinus.Generate
import CMinusMinus.Proofs.Sequencing
import CMinusMinus.Proofs.Typing.Functions

/-!
# Code of declarations

The code of a program is that of its declarations one after another (`decls_cons`).
-/

namespace CMinusMinus.Generate

/-- The code of a declaration, with the labels before and after it. -/
inductive DeclCode (ls : Labels) : Decl → List Item → Labels → Prop where
  | var {d : VarDecl} {code : List Item} : global d = .ok code → DeclCode ls (.var d) code ls
  | fn {d : FnDecl} {frame : Frame} {code : List Item} {ls' : Labels} :
    d.frame = some frame → function d frame ls = .ok (code, ls') → DeclCode ls (.fn d) code ls'
  | struct {d : StructDecl} : DeclCode ls (.struct d) [] ls

/-- The code of declarations is that of the first one and that of the rest. -/
theorem decls_cons {d : Decl} {ds : List Decl} {ls : Labels} {current current' : Option String}
    {items : List Item} (h : decls ls current (d :: ds) = .ok (items, current')) :
    ∃ code ls' current₁ rest, DeclCode ls d code ls' ∧
      decls ls' current₁ ds = .ok (rest, current') ∧ items = code ++ rest := by
  cases d with
  | var d =>
    rw [decls] at h
    cases hrole : d.role with
    | formal =>
      rw [hrole] at h
      cases h
    | «variable» =>
      cases hcode : global d with
      | error fault =>
        rw [hrole, hcode] at h
        cases h
      | ok code =>
        rw [hrole, hcode] at h
        obtain ⟨_, hfirst, h⟩ := bind_eq_ok.mp h
        cases hfirst
        obtain ⟨⟨rest, _⟩, hrest, h⟩ := bind_eq_ok.mp h
        cases h
        exact ⟨code, ls, current, rest, .var hcode, hrest, rfl⟩
  | fn d =>
    rw [decls] at h
    cases hframe : d.frame with
    | none =>
      rw [hframe] at h
      cases h
    | some frame =>
      rw [hframe] at h
      dsimp only at h
      cases hcode : function d frame ls with
      | error fault =>
        rw [hcode] at h
        cases h
      | ok r =>
        rw [hcode] at h
        obtain ⟨_, hfirst, h⟩ := bind_eq_ok.mp h
        cases hfirst
        obtain ⟨⟨rest, _⟩, hrest, h⟩ := bind_eq_ok.mp h
        cases h
        exact ⟨r.1, r.2, none, rest, .fn hframe hcode, hrest, rfl⟩
  | struct d =>
    rw [decls] at h
    obtain ⟨_, hfirst, h⟩ := bind_eq_ok.mp h
    cases hfirst
    obtain ⟨⟨rest, _⟩, hrest, h⟩ := bind_eq_ok.mp h
    cases h
    exact ⟨[], ls, current, rest, .struct, hrest, rfl⟩
  | unknown =>
    rw [decls] at h
    cases h

/-- The code of each function is a piece of the code of the declarations. -/
theorem mem_decls {ds : List Decl} {ls : Labels} {current current' : Option String}
    {items : List Item} (h : decls ls current ds = .ok (items, current')) {d : FnDecl}
    (hd : d ∈ Decl.functions ds) :
    ∃ frame ls₁ ls₂ code before after, d.frame = some frame ∧
      function d frame ls₁ = .ok (code, ls₂) ∧ items = before ++ (code ++ after) := by
  induction ds generalizing ls current items with
  | nil => cases hd
  | cons d' ds ih =>
    obtain ⟨code', ls', current₁, rest, hcode', hrest, rfl⟩ := decls_cons h
    have htail : d ∈ Decl.functions ds → ∃ frame ls₁ ls₂ code before after,
        d.frame = some frame ∧ function d frame ls₁ = .ok (code, ls₂) ∧
          code' ++ rest = before ++ (code ++ after) := by
      intro hd
      obtain ⟨frame, ls₁, ls₂, code, before, after, hframe, hcode, rfl⟩ := ih hrest hd
      exact ⟨frame, ls₁, ls₂, code, code' ++ before, after, hframe, hcode,
        (List.append_assoc _ _ _).symm⟩
    cases hcode' with
    | var | struct => exact htail hd
    | fn hframe hcode =>
      rcases List.mem_cons.mp hd with rfl | hd
      · exact ⟨_, ls, ls', code', [], rest, hframe, hcode, rfl⟩
      · exact htail hd

end CMinusMinus.Generate
