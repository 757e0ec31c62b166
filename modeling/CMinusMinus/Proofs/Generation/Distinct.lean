import CMinusMinus.Proofs.Generation.Declarations
import CMinusMinus.Proofs.Generation.Numbers
import CMinusMinus.Proofs.Height.Programs
import CMinusMinus.Proofs.Rules.Programs

/-!
# The labels of a program

The labels that the code of a program defines are those of the numbers used, those of its functions
and global variables, one before the end of each function, and for the main function also `__start`
(`labels_decls`).  That one is the label of a function or variable named `_start` as well, and no
other label is defined twice: the labels are different exactly if nothing has that name
(`Compilation.labels_nodup_iff`).
-/

namespace CMinusMinus

open Asm Generate

/-! ## Names with labels -/

/-- The name that a declaration defines a label for. -/
def Decl.labelled? : Decl → Option String
  | .var d => some d.name.name
  | .fn d => some d.name.name
  | .struct _ | .unknown _ => none

/-- The names whose labels the code of a declaration defines.  The second label of the main function
is that of `_start`. -/
def Decl.entries : Decl → List String
  | .var d => [d.name.name]
  | .fn d => d.name.name :: if d.name.name = "main" then ["_start"] else []
  | .struct _ | .unknown _ => []

/-- The names of functions, whose ends have labels. -/
def Decl.exits : Decl → List String
  | .fn d => [d.name.name]
  | .var _ | .struct _ | .unknown _ => []

namespace DeclsTyped

variable {env env' : Env} {ds : List Decl}

theorem labelled_find?_eq_none (h : DeclsTyped env ds env') (henv : env.length = 1) :
    ∀ x ∈ ds.filterMap Decl.labelled?, env.find? x = none := by
  have hhead : ∀ {env : Env} {x : String}, env.length = 1 → env.inner? x = none →
      env.find? x = none := by
    intro env x henv hfresh
    obtain ⟨scope, rfl⟩ := List.length_eq_one_iff.mp henv
    rw [Scopes.find?_single]
    exact hfresh
  induction h with
  | nil => nofun
  | var _ _ hd _ _ _ ih =>
    refine List.forall_mem_cons.mpr ⟨hd.name ▸ hhead henv hd.fresh, fun x hx => ?_⟩
    exact (Env.within_insert henv hd.fresh _).find?_eq_none
      (ih (Env.length_insert henv _ _) x hx)
  | fn hfresh hf _ ih =>
    refine List.forall_mem_cons.mpr ⟨hf.name ▸ hhead henv hfresh, fun x hx => ?_⟩
    exact (Env.within_insert henv hfresh _).find?_eq_none
      (ih (Env.length_insert henv _ _) x hx)
  | struct hfresh _ _ _ ih =>
    exact fun x hx => (Env.within_insert henv hfresh _).find?_eq_none
      (ih (Env.length_insert henv _ _) x hx)

/-- No two functions or variables have one name. -/
theorem labelled_nodup (h : DeclsTyped env ds env') (henv : env.length = 1) :
    (ds.filterMap Decl.labelled?).Nodup := by
  have hnew : ∀ {env env' : Env} {ds : List Decl} {x : String} {s : Symbol}, env.length = 1 →
      env.inner? x = none → DeclsTyped (env.insert x s) ds env' →
        x ∉ ds.filterMap Decl.labelled? := by
    intro env env' ds x s henv hfresh hrest hx
    have hne : env ≠ [] := List.length_pos_iff.mp (by rw [henv]; exact Nat.one_pos)
    have hnone := hrest.labelled_find?_eq_none (Env.length_insert henv _ _) x hx
    rw [Scopes.find?_insert hne hfresh, if_pos rfl] at hnone
    cases hnone
  induction h with
  | nil => exact List.nodup_nil
  | var _ _ hd _ _ hrest ih =>
    exact List.nodup_cons.mpr
      ⟨hd.name ▸ hnew henv hd.fresh hrest, ih (Env.length_insert henv _ _)⟩
  | fn hfresh hf hrest ih =>
    exact List.nodup_cons.mpr
      ⟨hf.name ▸ hnew henv hfresh hrest, ih (Env.length_insert henv _ _)⟩
  | struct _ _ _ _ ih => exact ih (Env.length_insert henv _ _)

theorem isName_labelled (h : DeclsTyped env ds env') :
    ∀ x ∈ ds.filterMap Decl.labelled?, IsName x := by
  induction h with
  | nil => nofun
  | var _ hname _ _ _ _ ih => exact List.forall_mem_cons.mpr ⟨hname, ih⟩
  | fn _ hf _ ih => exact List.forall_mem_cons.mpr ⟨hf.named, ih⟩
  | struct _ _ _ _ ih => exact ih

end DeclsTyped

/-- Entries are the names of functions and variables, and one `_start` for each main function. -/
theorem Decl.count_entries (ds : List Decl) (x : String) :
    (ds.flatMap entries).count x = (ds.filterMap labelled?).count x +
      if x = "_start" then (ds.flatMap exits).count "main" else 0 := by
  induction ds with
  | nil => simp
  | cons d ds ih =>
    rw [List.flatMap_cons, List.flatMap_cons, List.count_append, List.count_append, ih]
    cases d with
    | var d =>
      have hhead : (var d :: ds).filterMap labelled? = d.name.name :: ds.filterMap labelled? := rfl
      rw [hhead, List.count_cons, entries, exits, List.count_singleton, List.count_nil,
        Nat.zero_add]
      omega
    | fn d =>
      have hhead : (fn d :: ds).filterMap labelled? = d.name.name :: ds.filterMap labelled? := rfl
      rw [hhead, List.count_cons, entries, exits, List.count_cons, List.count_singleton]
      by_cases hmain : d.name.name = "main"
      · rw [if_pos hmain, List.count_singleton]
        by_cases hx : x = "_start"
        · simp only [hx, hmain, if_true, beq_self_eq_true]
          omega
        · simp [hx, Ne.symm hx, Nat.add_comm]
      · rw [if_neg hmain, List.count_nil]
        simp [hmain]
        omega
    | struct | unknown =>
      rw [List.filterMap_cons_none rfl, entries, exits, List.count_nil, List.count_nil,
        Nat.zero_add,
        Nat.zero_add]

theorem Decl.flatMap_exits (ds : List Decl) :
    ds.flatMap exits = (functions ds).map (·.name.name) := by
  induction ds with
  | nil => rfl
  | cons d ds ih =>
    rw [List.flatMap_cons, ih]
    cases d <;> rfl

/-! ## Labels of declarations -/

/-- The code defines the labels of the numbers from `m` on and below `n`, of the entries and before
the ends of the functions. -/
structure Labelled (m n : Nat) (entries exits : List String) (q : List Item) : Prop where
  le : m ≤ n
  perm : (labels q).Perm ((List.range' m (n - m)).map numbered ++
    (entries.map functionLabel ++ exits.map exitLabel))

namespace Labelled

variable {k m n : Nat} {es es' xs xs' : List String} {q r : List Item}

theorem nil : Labelled m m [] [] [] := by
  refine ⟨Nat.le_refl m, ?_⟩
  rw [Nat.sub_self]
  exact .refl []

theorem append (hq : Labelled m k es xs q) (hr : Labelled k n es' xs' r) :
    Labelled m n (es ++ es') (xs ++ xs') (q ++ r) := by
  refine ⟨Nat.le_trans hq.le hr.le, List.perm_iff_count.mpr fun l => ?_⟩
  have hcount := List.perm_iff_count.mp hq.perm l
  have hcount' := List.perm_iff_count.mp hr.perm l
  rw [labels_append, Numbers.range'_append hq.le hr.le]
  simp only [List.map_append, List.count_append] at hcount hcount' ⊢
  omega

end Labelled

namespace Generate

theorem labels_prologue (formals locals : Int) : labels (Asm.prologue formals locals) = [] := by
  rw [Asm.prologue]
  split <;> rfl

theorem labels_epilogue (exit : String) (formals : Int) (isMain : Bool) :
    labels (Asm.epilogue exit formals isMain) = [exit] := by
  cases isMain <;> rfl

theorem labels_functionEntry (name : String) :
    labels (Asm.functionEntry (functionLabel name) (name == "main")) =
      (name :: if name = "main" then ["_start"] else []).map functionLabel := by
  by_cases hmain : name = "main"
  · subst hmain
    rfl
  · rw [beq_false_of_ne hmain, if_neg hmain]
    rfl

/-- The labels in the code of a function. -/
theorem labelled_function {d : FnDecl} {frame : Frame} {ls ls' : Labels} {q : List Item}
    (h : function d frame ls = .ok (q, ls')) :
    Labelled ls.next ls'.next (Decl.entries (.fn d)) (Decl.exits (.fn d)) q := by
  obtain ⟨body, hbody, rfl⟩ := function_eq_ok.mp h
  have hnumbers := numbers_block hbody
  refine ⟨hnumbers.le, List.perm_iff_count.mpr fun l => ?_⟩
  have hcount := List.perm_iff_count.mp hnumbers.perm l
  rw [labels_append, labels_append, labels_append, labels_prologue, labels_epilogue,
    labels_functionEntry]
  simp only [Decl.entries, Decl.exits, List.count_append, List.map_cons, List.map_nil,
    List.count_nil] at hcount ⊢
  omega

theorem labelled_global {d : VarDecl} {s : Storage} (hd : d.name.binding = .bound (.storage s))
    (hname : s.name = d.name.name) (hmain : d.name.name ≠ "main")
    {q : List Item} (h : global d = .ok q) (m : Nat) :
    Labelled m m (Decl.entries (.var d)) (Decl.exits (.var d)) q := by
  refine ⟨Nat.le_refl m, ?_⟩
  rw [slot_of_bound hd h, Nat.sub_self, Decl.entries, Decl.exits, hname]
  have hlabel : globalLabel d.name.name = functionLabel d.name.name := by
    rw [functionLabel, if_neg hmain, globalLabel]
  rw [hlabel]
  exact .refl _

/-- The labels in the code of a program, if only a function is named `main`. -/
theorem labelled_decls {env env' : Env} {ds : List Decl} (h : DeclsTyped env ds env')
    (hmain : ∀ d, .var d ∈ ds → d.name.name ≠ "main") {ls : Labels}
    {current current' : Option String} {items : List Item}
    (hcode : decls ls current ds = .ok (items, current')) :
    ∃ n, Labelled ls.next n (ds.flatMap Decl.entries) (ds.flatMap Decl.exits) items := by
  induction h generalizing ls current items with
  | nil =>
    cases hcode
    exact ⟨_, .nil⟩
  | var _ _ hd _ _ _ ih =>
    obtain ⟨code, ls', current₁, rest, hfirst, hrest, rfl⟩ := decls_cons hcode
    cases hfirst with
    | var hcode =>
      obtain ⟨n, hlabelled⟩ := ih (fun d hd => hmain d (List.mem_cons_of_mem _ hd)) hrest
      exact ⟨n, (labelled_global hd.binding hd.name (hmain _ List.mem_cons_self) hcode
        _).append hlabelled⟩
  | fn _ _ _ ih =>
    obtain ⟨code, ls', current₁, rest, hfirst, hrest, rfl⟩ := decls_cons hcode
    cases hfirst with
    | fn _ hcode =>
      obtain ⟨n, hlabelled⟩ := ih (fun d hd => hmain d (List.mem_cons_of_mem _ hd)) hrest
      exact ⟨n, (labelled_function hcode).append hlabelled⟩
  | struct _ _ _ _ ih =>
    obtain ⟨code, ls', current₁, rest, hfirst, hrest, rfl⟩ := decls_cons hcode
    cases hfirst with
    | struct => exact ih (fun d hd => hmain d (List.mem_cons_of_mem _ hd)) hrest

end Generate

/-! ## Distinct labels -/

/-- The labels of a program are different if its entries are. -/
theorem Labelled.nodup_iff {m n : Nat} {entries exits : List String} {q : List Item}
    (h : Labelled m n entries exits q) (hnames : ∀ x ∈ entries, IsName x) (hexits : exits.Nodup) :
    (labels q).Nodup ↔ entries.Nodup := by
  have hnumbers : ((List.range' m (n - m)).map numbered).Nodup :=
    (List.nodup_map_iff fun _ _ => numbered_injective).mpr List.nodup_range'
  have hends : (exits.map exitLabel).Nodup :=
    (List.nodup_map_iff fun _ _ => exitLabel_injective).mpr hexits
  have hentries : (entries.map functionLabel).Nodup ↔ entries.Nodup :=
    List.nodup_map_iff fun _ _ => functionLabel_injective
  have hapart : ∀ l ∈ entries.map functionLabel, ∀ l' ∈ exits.map exitLabel, l ≠ l' := by
    simp only [List.mem_map]
    rintro _ ⟨x, hx, rfl⟩ _ ⟨y, -, rfl⟩
    exact functionLabel_ne_exitLabel (hnames x hx) y
  have hfresh : ∀ l ∈ (List.range' m (n - m)).map numbered,
      ∀ l' ∈ entries.map functionLabel ++ exits.map exitLabel, l ≠ l' := by
    simp only [List.mem_map, List.mem_append]
    rintro _ ⟨k, -, rfl⟩ _ (⟨x, -, rfl⟩ | ⟨x, -, rfl⟩)
    · exact numbered_ne_functionLabel k x
    · exact numbered_ne_exitLabel k x
  rw [h.perm.nodup_iff, List.nodup_append, List.nodup_append, hentries]
  exact ⟨fun h => h.2.1.1, fun h => ⟨hnumbers, ⟨h, hends, hapart⟩, hfresh⟩⟩

theorem labels_finish (o : CodeOptions) (q : List Item) : labels (o.finish q) = labels q := by
  rw [CodeOptions.finish]
  split
  · rfl
  · rw [labels, List.filterMap_map]
    refine List.filterMap_congr fun i _ => ?_
    cases i <;> rfl

namespace DeclsTyped

variable {env env' : Env} {ds : List Decl}

theorem exits_nodup (h : DeclsTyped env ds env') (henv : env.length = 1) :
    (ds.flatMap Decl.exits).Nodup :=
  Decl.flatMap_exits ds ▸ h.names_nodup henv

theorem isName_entries (h : DeclsTyped env ds env') : ∀ x ∈ ds.flatMap Decl.entries, IsName x := by
  intro x hx
  have hcount := List.one_le_count_iff.mpr hx
  rw [Decl.count_entries] at hcount
  by_cases hstart : x = "_start"
  · exact hstart ▸ isName_start
  · rw [if_neg hstart] at hcount
    exact h.isName_labelled x (List.one_le_count_iff.mp hcount)

/-- A variable does not have the name of a function. -/
theorem var_ne_of_mem_exits (h : DeclsTyped env ds env') (henv : env.length = 1) {x : String}
    (hx : x ∈ ds.flatMap Decl.exits) : ∀ d, .var d ∈ ds → d.name.name ≠ x := by
  rintro d hd rfl
  obtain ⟨f, hf, hname⟩ := List.mem_flatMap.mp hx
  have hapart := List.pairwise_filterMap.mp (h.labelled_nodup henv)
  have hsymm : Std.Symm fun a b : Decl => ∀ y, a.labelled? = some y →
      ∀ z, b.labelled? = some z → y ≠ z :=
    ⟨fun _ _ hab y hy z hz => (hab z hz y hy).symm⟩
  cases f with
  | fn f =>
    have hne : Decl.var d ≠ .fn f := nofun
    exact hapart.forall hd hf hne _ rfl _ rfl (List.mem_singleton.mp hname)
  | var | struct | unknown => cases hname

/-- In typed declarations with a main function the entries are different exactly if nothing is named
`_start`. -/
theorem entries_nodup_iff (h : DeclsTyped env ds env') (henv : env.length = 1)
    (hmain : "main" ∈ ds.flatMap Decl.exits) :
    (ds.flatMap Decl.entries).Nodup ↔ ∀ d ∈ ds, d.labelled? ≠ some "_start" := by
  have hnames := List.nodup_iff_count_le_one.mp (h.labelled_nodup henv)
  have hone : 1 ≤ (ds.flatMap Decl.exits).count "main" := List.one_le_count_iff.mpr hmain
  have hexits := List.nodup_iff_count_le_one.mp (h.exits_nodup henv) "main"
  have hstart : (∀ d ∈ ds, d.labelled? ≠ some "_start") ↔
      (ds.filterMap Decl.labelled?).count "_start" = 0 := by
    rw [List.count_eq_zero, List.mem_filterMap]
    exact ⟨fun h ⟨d, hd, hx⟩ => h d hd hx, fun h d hd hx => h ⟨d, hd, hx⟩⟩
  rw [List.nodup_iff_count_le_one, hstart]
  constructor
  · intro hcount
    have hle := hcount "_start"
    rw [Decl.count_entries, if_pos rfl] at hle
    omega
  · intro hzero x
    rw [Decl.count_entries]
    split
    · next hx =>
      rw [hx, hzero]
      omega
    · exact hnames x

/-- In the code of typed declarations with a main function the labels are different exactly if
nothing is named `_start`. -/
theorem nodup_labels (h : DeclsTyped env ds env') (henv : env.length = 1)
    (hmain : "main" ∈ ds.flatMap Decl.exits) {ls : Generate.Labels}
    {current current' : Option String} {items : List Item}
    (hitems : Generate.decls ls current ds = .ok (items, current')) :
    (labels items).Nodup ↔ ∀ d ∈ ds, d.labelled? ≠ some "_start" := by
  obtain ⟨n, hlabelled⟩ := labelled_decls h (h.var_ne_of_mem_exits henv hmain) hitems
  rw [hlabelled.nodup_iff h.isName_entries (h.exits_nodup henv)]
  exact h.entries_nodup_iff henv hmain

end DeclsTyped

/-- The labels in the items of a program without errors are different exactly if no function and no
global variable is named `_start`. -/
theorem Compilation.labels_nodup_iff {file : Option String} {source : String} {c : Compilation}
    (hc : Compilation.analyze file source = .ok c) (herrors : c.hasErrors = false)
    (o : CodeOptions) : ∃ p items, c.program = some p ∧ (c.emit o).result = .ok items ∧
      ((labels items).Nodup ↔ ∀ d ∈ p.decls, d.labelled? ≠ some "_start") := by
  obtain ⟨p, hp, hfault, rfl⟩ := Compilation.analysis_of_analyze hc herrors
  have hformed := Program.parse_formed hp
  obtain ⟨q, env, hq, htyped, hhas⟩ := Compilation.typed_of_analysis hformed hfault herrors
  have hmain : "main" ∈ q.decls.flatMap Decl.exits := by
    obtain ⟨d, hd, hname⟩ := Compilation.exists_main_of_analysis hfault hq hhas
    rw [Decl.flatMap_exits]
    exact hname ▸ List.mem_map_of_mem hd
  obtain ⟨⟨items, current⟩, hitems⟩ := htyped.generateFrom o none
  rw [Program.generateFrom] at hitems
  obtain ⟨⟨raw, current'⟩, hraw, hfinish⟩ := bind_eq_ok.mp hitems
  cases hfinish
  refine ⟨q, o.finish raw, hq, ?_, ?_⟩
  · have hcurrent : (Compilation.analysis file p).current = none := rfl
    simp only [Compilation.emit, hq, hcurrent, Program.generateFrom, hraw, bind, Except.bind]
  · rw [labels_finish]
    exact DeclsTyped.nodup_labels htyped rfl hmain hraw

set_option maxRecDepth 100000 in
/-- Functions and variables with names that look like labels of other sorts. -/
theorem Compilation.labels_nodup_iff_of_names :
    ∃ c, Compilation.analyze none
        "int _f; int f_Exit; bool start; int L0(int main) { if (main < 1) { return 1; } return 2; }
         void f() { start = true; } void main() { f(); cout << L0(_f); }" = .ok c ∧
      c.hasErrors = false ∧
      ∃ p items, c.program = some p ∧ (c.emit {}).result = .ok items ∧
        ((labels items).Nodup ↔ ∀ d ∈ p.decls, d.labelled? ≠ some "_start") := by
  have haccepts : Compilation.accepts
      "int _f; int f_Exit; bool start; int L0(int main) { if (main < 1) { return 1; } return 2; }
         void f() { start = true; } void main() { f(); cout << L0(_f); }" = true :=
    Compilation.accepts_of_chars rfl (by decide +kernel)
  obtain ⟨c, hc, herrors⟩ := Compilation.analyze_of_accepts haccepts
  exact ⟨c, hc, herrors, Compilation.labels_nodup_iff hc herrors {}⟩

set_option maxRecDepth 100000 in
/-- A function named `_start` has the label that a program is started at. -/
theorem Compilation.labels_of_start :
    ∃ c items, Compilation.analyze none "void _start() { } void main() { _start(); }" = .ok c ∧
      c.hasErrors = false ∧ (c.emit {}).result = .ok items ∧ ¬ (labels items).Nodup := by
  exact Compilation.exists_emit rfl (by decide +kernel)

end CMinusMinus
