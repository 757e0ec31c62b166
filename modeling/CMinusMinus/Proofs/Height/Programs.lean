import Mathlib
import CMinusMinus.Proofs.Compilation
import CMinusMinus.Proofs.Generation.Declarations
import CMinusMinus.Proofs.Height.Functions

/-!
# Heights in the code of programs

In a program without errors the code of every function is balanced (`heights_balanced`).  Type
checking makes sure that a call passes as many arguments as what it calls pops, which is the
number of formals of the function with that label.
-/

namespace CMinusMinus

open Generate

/-- The number of formals of the function with a label. -/
def Program.arity (p : Program) (label : String) : Nat :=
  ((p.functions.find? fun d => functionLabel d.name.name = label).map
    (·.formals.items.length)).getD 0

/-! ## Code without comments -/

@[simp] theorem Item.rise_bare (arity : String → Nat) (i : Item) :
    i.bare.rise arity = i.rise arity := by
  cases i <;> rfl

@[simp] theorem Item.targets_bare (i : Item) : i.bare.targets = i.targets := by
  cases i <;> rfl

@[simp] theorem Item.fallsThrough_bare (i : Item) : i.bare.fallsThrough = i.fallsThrough := by
  cases i <;> rfl

/-- Code goes on in the same way without its comments. -/
theorem Follows.of_bare {code : List Item} {i j : Nat} {item : Item}
    (h : Follows (code.map Item.bare) i item j) :
    ∃ item', item = item'.bare ∧ Follows code i item' j := by
  have hget : ∀ {i : Nat} {item : Item}, (code.map Item.bare)[i]? = some item →
      ∃ item', code[i]? = some item' ∧ item = item'.bare := by
    intro i item hitem
    rw [List.getElem?_map] at hitem
    obtain ⟨item', hitem', hbare⟩ := Option.map_eq_some_iff.mp hitem
    exact ⟨item', hitem', hbare.symm⟩
  cases h with
  | next hitem hfalls =>
    obtain ⟨item', hitem', rfl⟩ := hget hitem
    rw [Item.fallsThrough_bare] at hfalls
    exact ⟨item', rfl, .next hitem' hfalls⟩
  | jump hitem hl hlabel =>
    obtain ⟨item', hitem', rfl⟩ := hget hitem
    obtain ⟨label, hlabel', hbare⟩ := hget hlabel
    rw [Item.targets_bare] at hl
    cases label with
    | label l comment =>
      cases hbare
      exact ⟨item', rfl, .jump hitem' hl hlabel'⟩
    | instr | directive => cases hbare

theorem Charted.finish {arity : String → Nat} {code : List Item} {first : Nat}
    {height : Nat → Int} (h : Charted arity code first height) (o : CodeOptions) :
    Charted arity (o.finish code) first height := by
  rw [CodeOptions.finish]
  split
  · exact h
  · refine ⟨h.start, ?_, ?_⟩
    · intro i item j hi hstep
      obtain ⟨item', rfl, hstep'⟩ := hstep.of_bare
      rw [Item.rise_bare]
      exact h.follows hi hstep'
    · intro i hi hlt
      rw [List.length_map] at hlt
      exact h.nonneg hi hlt

theorem CodeOptions.finish_append (o : CodeOptions) (items items' : List Item) :
    o.finish (items ++ items') = o.finish items ++ o.finish items' := by
  rw [finish, finish, finish]
  split
  · rfl
  · exact List.map_append

/-! ## Programs -/

/-- A call passes as many arguments as are counted for what it calls. -/
theorem Program.Typed.counts {p : Program} {env : Env} (h : p.Typed env) : env.Counts p.arity := by
  intro name sig hfind
  have hnone : Scopes.find? ([[]] : Env) name = none := rfl
  rcases DeclsTyped.function_of_find? h rfl Env.sound_empty hfind with hbefore | hafter
  · rw [hnone] at hbefore
    cases hbefore
  · obtain ⟨d, hd, rfl, env₁, -, -, -, htyped⟩ := hafter
    have hlength : sig.params.length = d.formals.items.length := by
      cases htyped.signature_sound with
      | function _ harity => exact harity.trans htyped.arity
    have hfirst : p.functions.find? (fun d' => functionLabel d'.name.name =
        functionLabel d.name.name) = some d := find?_of_nodup (DeclsTyped.labels_nodup h rfl) hd
    rw [Program.arity, hfirst]
    exact hlength

/-- The code of each function of the program is balanced, and with or without its comments it is
a piece of what is emitted, in which every path to a point climbs to the height of the point. -/
def Compilation.Balanced (c : Compilation) (o : CodeOptions) : Prop :=
  ∃ p items, c.program = some p ∧ (c.emit o).result = .ok items ∧
    ∀ d ∈ p.functions, ∃ frame ls ls' code before after height, d.frame = some frame ∧
      function d frame ls = .ok (code, ls') ∧ items = before ++ (o.finish code ++ after) ∧
      Generate.Balanced p.arity d ls code (front d frame).length height ∧
      ∀ i h, Climb p.arity (o.finish code) (front d frame).length i h → h = height i

/-- The code of a program without errors is balanced. -/
theorem heights_balanced {file : Option String} {source : String} {c : Compilation}
    (hc : Compilation.analyze file source = .ok c) (herrors : c.hasErrors = false)
    (o : CodeOptions) : c.Balanced o := by
  obtain ⟨p, hp, hfault, rfl⟩ := Compilation.analysis_of_analyze hc herrors
  obtain ⟨q, env, hq, htyped, -⟩ :=
    Compilation.typed_of_analysis (Program.parse_formed hp) hfault herrors
  obtain ⟨⟨items, current⟩, hitems⟩ := htyped.generateFrom o none
  rw [Program.generateFrom] at hitems
  obtain ⟨⟨raw, current'⟩, hraw, hfinish⟩ := bind_eq_ok.mp hitems
  cases hfinish
  refine ⟨q, o.finish raw, hq, ?_, ?_⟩
  · have hcurrent : (Compilation.analysis file p).current = none := rfl
    simp only [Compilation.emit, hq, hcurrent, Program.generateFrom, hraw, bind, Except.bind]
  · intro d hd
    obtain ⟨frame, ls, ls', code, before, after, hframe, hcode, hsplit⟩ := mem_decls hraw hd
    obtain ⟨sig, env₁, -, hwithin, -, hfn⟩ :=
      DeclsTyped.typedWithin htyped rfl Env.sound_empty hd
    have hcounts : env₁.Counts q.arity := fun _ _ hfind => htyped.counts (hwithin hfind)
    obtain ⟨height, hbalanced⟩ := balanced_function hcounts hfn hcode
    refine ⟨frame, ls, ls', code, o.finish before, o.finish after, height, hframe, hcode, ?_,
      hbalanced, fun i h hclimb => ((hbalanced.charted.finish o).climb hclimb).2⟩
    rw [hsplit, CodeOptions.finish_append, CodeOptions.finish_append]

set_option maxRecDepth 100000 in
/-- A function that returns from inside a loop, and a call of it among pending operands. -/
theorem heights_balanced_of_loop :
    ∃ c, Compilation.analyze none
        "int f(int a, bool b) { while (b && a < 9) { if (b) { return a; } a++; } return a; }
         void main() { cout << 2 * f(1, true) + 3; }" = .ok c ∧
      c.hasErrors = false ∧ c.Balanced { comments := false } := by
  have haccepts : Compilation.accepts
      "int f(int a, bool b) { while (b && a < 9) { if (b) { return a; } a++; } return a; }
         void main() { cout << 2 * f(1, true) + 3; }" = true :=
    Compilation.accepts_of_chars rfl (by decide +kernel)
  obtain ⟨c, hc, herrors⟩ := Compilation.analyze_of_accepts haccepts
  exact ⟨c, hc, herrors, heights_balanced hc herrors { comments := false }⟩

end CMinusMinus
