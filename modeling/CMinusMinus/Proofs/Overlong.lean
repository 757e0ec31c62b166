import CMinusMinus.Proofs.Compilation
import CMinusMinus.Proofs.Printing.Programs
import CMinusMinus.Proofs.Text

/-!
# Numbers with too many digits

Name resolution logs where each accepted local lies and how large each accepted struct is, and a
number with too many digits cannot be logged.  On a tree that was read, this is all that can stop
the pass: it comes to its end exactly if all these numbers can be written, and otherwise stops at
the first that cannot (`Program.Formed.fault_eq`).

The size of a struct can be exponential in the length of the text, so there are texts of this kind
(`Tower.program`).
-/

namespace CMinusMinus

open Outcome

/-! ## Numbers that can be written -/

theorem Text.fitsChunks_iff {chunks n : Nat} :
    fitsChunks chunks n = true ↔ n < 10 ^ (10 * chunks) := by
  induction chunks generalizing n with
  | zero => simp [fitsChunks]
  | succ chunks ih =>
    have hpow : 10 ^ (10 * (chunks + 1)) = 10 ^ (10 * chunks) * chunk := by
      rw [Nat.mul_succ, Nat.pow_add, chunk]
    have hpos : 0 < 10 ^ (10 * chunks) := Nat.pow_pos (by decide)
    rw [fitsChunks, hpow]
    split
    · next hlt => exact iff_of_true rfl (Nat.lt_of_lt_of_le hlt (Nat.le_mul_of_pos_left _ hpos))
    · rw [ih, Nat.div_lt_iff_lt_mul (by decide)]

theorem Text.isWritten_iff {number : Int} :
    isWritten number = true ↔ number.natAbs < 10 ^ maxDigits := by
  rw [isWritten, fitsChunks_iff, Nat.mul_div_cancel' (by decide)]

/-! ## The numbers of a tree -/

/-- Where the variable lies in a frame, if it was accepted and has a place there. -/
def VarDecl.offset? (d : VarDecl) : Option Int :=
  d.storage?.bind fun s =>
    match s.place with
    | .frame offset => some offset
    | _ => none

/-- Where the accepted ones among the variables lie in a frame. -/
def VarDecl.offsets (ds : List VarDecl) : List Int := ds.filterMap VarDecl.offset?

/-- The numbers that are logged of a declaration, in the order of the log. -/
def Decl.numbers : Decl → List Int
  | .fn d => VarDecl.offsets (Stmt.blockLocals d.body)
  | .struct d =>
    match d.name.binding with
    | .bound (.struct s) => [(s.size : Int)]
    | _ => []
  | .var _ | .unknown _ => []

/-- The numbers that are logged of a program. -/
def Program.numbers (p : Program) : List Int := p.decls.flatMap Decl.numbers

/-- The first of the numbers that cannot be written. -/
def overlong? (ns : List Int) : Option Int := ns.find? fun n => !Text.isWritten n

theorem overlong?_append (ns ms : List Int) :
    overlong? (ns ++ ms) = (overlong? ns).or (overlong? ms) := List.find?_append

theorem overlong?_eq_none {ns : List Int} :
    overlong? ns = none ↔ ∀ n ∈ ns, Text.isWritten n = true := by
  simp [overlong?, List.find?_eq_none]

theorem VarDecl.offsets_cons (d : VarDecl) (ds : List VarDecl) :
    offsets (d :: ds) = d.offset?.toList ++ offsets ds := by
  rw [offsets, List.filterMap_cons]
  cases d.offset? <;> rfl

theorem VarDecl.offsets_append (ds es : List VarDecl) :
    offsets (ds ++ es) = offsets ds ++ offsets es := List.filterMap_append

/-! ## Where a pass halts -/

/-- The pass stops at the first of the numbers that cannot be written, and at nothing else. -/
def Outcome.Halts {α : Type} (o : Resolved α) (ns : List Int) : Prop :=
  o.fault = (overlong? ns).map fun n => ⟨.overlong n, none⟩

namespace Outcome.Halts

variable {α β : Type} {o : Resolved α} {ns : List Int} {stopped : α → β} {next : α → Resolved β}

theorem of_fault (h : o.fault = none) : o.Halts [] := h

theorem map (h : o.Halts ns) (f : α → β) : (o.map f).Halts ns := h

/-- The numbers of a sequence are those of its parts, the first before the second. -/
theorem andThen (view : β → List Int) (h : o.Halts ns) {ms : List Int}
    (hstopped : view (stopped o.value) = ns ++ ms)
    (hnext : o.fault = none →
      ∃ ms, (next o.value).Halts ms ∧ view (next o.value).value = ns ++ ms) :
    (o.andThen stopped next).Halts (view (o.andThen stopped next).value) := by
  cases hfault : o.fault with
  | none =>
    obtain ⟨ms, hhalts, hview⟩ := hnext hfault
    have hns : overlong? ns = none := Option.map_eq_none_iff.mp (h.symm.trans hfault)
    rw [Halts, andThen_of_fault_none hfault, hview, overlong?_append, hns]
    exact hhalts
  | some fault =>
    obtain ⟨n, hn, rfl⟩ := Option.map_eq_some_iff.mp (h.symm.trans hfault)
    have hsequence : o.andThen stopped next =
        ⟨stopped o.value, o.reports, some ⟨.overlong n, none⟩⟩ := by
      rw [Outcome.andThen, hfault]
    rw [Halts, hsequence, hstopped, overlong?_append, hn]
    rfl

/-- What comes to its end adds no numbers. -/
theorem after (view : β → List Int) (h : o.fault = none)
    (hnext : (next o.value).Halts (view (next o.value).value)) :
    (o.andThen stopped next).Halts (view (o.andThen stopped next).value) :=
  andThen view (of_fault h) rfl fun _ => ⟨_, hnext, rfl⟩

end Outcome.Halts

namespace Resolve

theorem halts_logged {α : Type} (number : Option Int) (a : α) :
    (logged number a).Halts number.toList := by
  cases number with
  | none => rfl
  | some n =>
    rw [Halts, Option.toList_some, overlong?, List.find?_singleton]
    cases hn : Text.isWritten n with
    | true =>
      rw [logged_of_isWritten hn]
      rfl
    | false =>
      rw [logged_of_not_isWritten hn]
      rfl

theorem halts_localVar (env : Env) (frame : Frame) {d : VarDecl} (h : d.type.Formed) :
    (localVar env frame d).Halts (localVar env frame d).value.1.offset?.toList := by
  obtain ⟨hstorage, hplace⟩ := declare_value env (taken env d.name.name)
    (fun shape => .frame (frame.localOffset shape.size)) h
  refine Halts.after (fun v : VarDecl × Env × Frame => v.1.offset?.toList)
    (fault_declare env _ _ h) ?_
  generalize (declare env (taken env d.name.name)
    (fun shape => .frame (frame.localOffset shape.size)) d).value = v at hstorage hplace
  have hnumber : localNumber frame v.2 = v.1.offset? := by
    rw [VarDecl.offset?, hstorage]
    cases hs : v.2 with
    | none => rfl
    | some s =>
      rw [localNumber, Option.map_some, Option.bind_some, (hplace s hs).2.1]
  dsimp only
  rw [value_logged, ← hnumber]
  exact halts_logged _ _

theorem halts_localVars (env : Env) (frame : Frame) {ds : List VarDecl}
    (h : ∀ d ∈ ds, d.type.Formed) :
    (localVars env frame ds).Halts (VarDecl.offsets (localVars env frame ds).value.1) := by
  induction ds generalizing env frame with
  | nil => rfl
  | cons d ds ih =>
    obtain ⟨hd, hds⟩ := List.forall_mem_cons.mp h
    rw [localVars]
    exact Halts.andThen (fun v : List VarDecl × Env × Frame => VarDecl.offsets v.1)
      (halts_localVar env frame hd) (VarDecl.offsets_cons _ _)
      fun _ => ⟨_, (ih _ _ hds).map _, VarDecl.offsets_cons _ _⟩

/-! ## Statements -/

/-- The numbers that are logged of a resolved statement. -/
abbrev stmtNumbers (v : Stmt × Frame) : List Int := VarDecl.offsets v.1.locals

/-- The numbers that are logged of a resolved block. -/
abbrev blockNumbers (v : Block Stmt × Frame) : List Int := VarDecl.offsets (Stmt.blockLocals v.1)

mutual

theorem halts_stmt (env : Env) (frame : Frame) : ∀ {s : Stmt}, s.Formed →
    (stmt env frame s).Halts (stmtNumbers (stmt env frame s).value)
  | .assign _ e, h | .increment _ e, h | .decrement _ e, h | .read _ e, h | .call _ e, h => by
    rw [stmt]
    exact (Halts.of_fault (h.2.total env).1).map _
  | .write _ e, h | .return _ (some e), h => by
    rw [stmt]
    exact (Halts.of_fault (Exp.Formed.total env (e := e) h).1).map _
  | .return _ none, _ => rfl
  | .ifThen _ e b, h | .while _ e b, h => by
    rw [stmt]
    exact Halts.after stmtNumbers (h.1.total env).1 ((halts_block _ _ h.2).map _)
  | .ifElse _ e b₁ b₂, h => by
    rw [stmt]
    refine Halts.after stmtNumbers (h.1.total env).1 ?_
    exact Halts.andThen stmtNumbers (halts_block _ _ h.2.1) (VarDecl.offsets_append _ _)
      fun _ => ⟨_, (halts_block _ _ h.2.2).map _, VarDecl.offsets_append _ _⟩

theorem halts_block (env : Env) (frame : Frame) : ∀ {b : Block Stmt}, Stmt.BlockFormed b →
    (block env frame b).Halts (blockNumbers (block env frame b).value)
  | ⟨ds, _, ss⟩, h => by
    rw [block]
    exact Halts.andThen blockNumbers (halts_localVars env frame fun d hd => (h.1 d hd).type)
      (VarDecl.offsets_append _ _)
      fun _ => ⟨_, (halts_stmts _ _ h.2).map _, VarDecl.offsets_append _ _⟩

theorem halts_stmts (env : Env) (frame : Frame) : ∀ {ss : List Stmt}, Stmt.AllFormed ss →
    (stmts env frame ss).Halts (VarDecl.offsets (Stmt.listLocals (stmts env frame ss).value.1))
  | [], _ => rfl
  | s :: ss, h => by
    rw [stmts]
    exact Halts.andThen (fun v : List Stmt × Frame => VarDecl.offsets (Stmt.listLocals v.1))
      (halts_stmt env frame h.1) (VarDecl.offsets_append _ _)
      fun _ => ⟨_, (halts_stmts _ _ h.2).map _, VarDecl.offsets_append _ _⟩

end

/-! ## Declarations -/

/-- The numbers that are logged of a resolved function. -/
abbrev fnNumbers (v : FnDecl × Env) : List Int := (Decl.fn v.1).numbers

/-- The numbers that are logged of a resolved struct. -/
abbrev structNumbers (v : StructDecl × Env) : List Int := (Decl.struct v.1).numbers

theorem halts_fnDecl (env : Env) {d : FnDecl} (h : d.Formed) :
    (fnDecl env d).Halts (Decl.fn (fnDecl env d).value.1).numbers := by
  obtain ⟨returns, hr, -⟩ := TypeNode.type_of_isWordType h.returns
  have hformals := fun env frame => fault_formals env frame fun f hf =>
    TypeNode.formed_of_isWordType (h.formals f hf).type
  unfold fnDecl
  rw [hr]
  dsimp only
  refine Halts.after fnNumbers (fault_name env _ _) (Halts.after fnNumbers (hformals _ _) ?_)
  exact Halts.andThen fnNumbers (halts_block _ _ h.body) (List.append_nil _).symm
    fun _ => ⟨[], .of_fault rfl, (List.append_nil _).symm⟩

theorem halts_structDecl (env : Env) {d : StructDecl} (h : d.Formed) :
    (structDecl env d).Halts (Decl.struct (structDecl env d).value.1).numbers := by
  have hfields := fault_fields env [] 0 fun f hf => (h.fields f hf).type
  unfold structDecl
  refine Halts.after structNumbers rfl (Halts.after structNumbers hfields ?_)
  dsimp only
  split
  · exact .of_fault rfl
  · rw [value_logged]
    exact halts_logged _ _

theorem halts_decl (env : Env) {d : Decl} (h : d.Formed) :
    (decl env d).Halts (decl env d).value.1.numbers := by
  cases d with
  | var d =>
    have hd : d.Formed := h
    rw [decl, hd.role]
    exact (Halts.of_fault (fault_declare env _ _ hd.type)).map _
  | fn d => exact halts_fnDecl env h
  | struct d => exact halts_structDecl env h
  | unknown => exact h.elim

theorem halts_decls (env : Env) {ds : List Decl} (h : ∀ d ∈ ds, d.Formed) :
    (decls env ds).Halts ((decls env ds).value.1.flatMap Decl.numbers) := by
  induction ds generalizing env with
  | nil => rfl
  | cons d ds ih =>
    obtain ⟨hd, hds⟩ := List.forall_mem_cons.mp h
    rw [decls]
    exact Halts.andThen (fun v : List Decl × Env × Bool => v.1.flatMap Decl.numbers)
      (halts_decl env hd) List.flatMap_cons fun _ => ⟨_, (ih _ hds).map _, List.flatMap_cons⟩

end Resolve

/-! ## Programs -/

namespace Program.Formed

variable {p : Program} (h : p.Formed)
include h

/-- Name resolution of a formed program stops at the first number that cannot be written, and at
nothing else. -/
theorem fault_eq :
    p.resolve.fault = (overlong? p.resolve.program.numbers).map fun n => ⟨.overlong n, none⟩ := by
  rw [fault_resolve]
  exact Resolve.halts_decls _ h

theorem fault_of_overlong {n : Int} (hn : overlong? p.resolve.program.numbers = some n) :
    p.resolve.fault = some ⟨.overlong n, none⟩ := by
  rw [h.fault_eq, hn]
  rfl

theorem fault_of_written (hn : overlong? p.resolve.program.numbers = none) :
    p.resolve.fault = none := by
  rw [h.fault_eq, hn]
  rfl

end Program.Formed

/-! ## Structs of one shape -/

namespace Resolve

/-- Fields of one shape take the size of it, once for each of them. -/
theorem size_fields {env : Env} {sh : Shape StructDef} {ds : List VarDecl}
    (hshape : ∀ d ∈ ds, ∃ type, shape env d = .pure (type, some sh))
    (hnodup : (ds.map (·.name.name)).Nodup) {before : List (Field StructDef)}
    (hbefore : ∀ f ∈ before, f.name ∉ ds.map (·.name.name)) (size : Nat) :
    (fields env before size ds).value.2.2 = size + ds.length * sh.size := by
  induction ds generalizing before size with
  | nil => simp [fields, Outcome.pure]
  | cons d ds ih =>
    obtain ⟨⟨type, hd⟩, hds⟩ := List.forall_mem_cons.mp hshape
    obtain ⟨hnew, hnodup⟩ := List.nodup_cons.mp hnodup
    have htaken : takenField before d.name.name = none := by
      refine if_neg fun hany => ?_
      obtain ⟨f, hf, hname⟩ := List.any_eq_true.mp hany
      exact hbefore f hf (List.mem_cons.mpr (.inl (beq_iff_eq.mp hname)))
    rw [fields, declare, htaken, hd, pure_andThen]
    dsimp only
    rw [pure_andThen, value_map]
    dsimp only [addField]
    rw [ih hds hnodup, List.length_cons]
    · ring
    · intro f hf hmem
      rcases List.mem_append.mp hf with hf | hf
      · exact hbefore f hf (List.mem_cons_of_mem _ hmem)
      · cases List.mem_singleton.mp hf
        exact hnew hmem

/-- A struct with fields of one shape is entered into the scope with the size that they take. -/
theorem struct_of_shape {scope : Scope Symbol} {d : StructDecl} {sh : Shape StructDef}
    (hfresh : scope.find? d.name.name = none)
    (hshape : ∀ f ∈ d.fields.items, ∃ type, shape [scope] f = .pure (type, some sh))
    (hnodup : (d.fields.items.map (·.name.name)).Nodup)
    (hfault : (decl [scope] (.struct d)).fault = none) :
    ∃ s : StructDef, s.size = d.fields.items.length * sh.size ∧ Text.isWritten s.size = true ∧
      (decl [scope] (.struct d)).value.2 = [scope ++ [(d.name.name, .struct s)]] := by
  have htaken : taken [scope] d.name.name = none := Option.map_eq_none_iff.mpr hfresh
  have hsize := size_fields hshape hnodup (List.forall_mem_nil _) 0
  rw [decl, structDecl, fault_map, htaken, fault_andThen, fault_andThen] at hfault
  obtain ⟨-, hfields, hlogged⟩ := hfault
  rw [decl, structDecl, value_map, htaken, value_andThen rfl, value_andThen hfields]
  exact ⟨_, hsize.trans (Nat.zero_add _), isWritten_of_logged hlogged,
    congrArg Prod.snd (value_logged _ _)⟩

end Resolve

/-! ## A tower of structs -/

namespace Tower

/-- The name of the struct at a level. -/
def name (k : Nat) : String := "s" ++ toString k

/-- A field of a type. -/
def field (type : TypeNode) (x : String) : VarDecl := ⟨.variable, none, type, { name := x }⟩

/-- The struct at a level: a number on the ground, and above it four structs of the level below. -/
def level : Nat → StructDecl
  | 0 =>
    { span := none, name := { name := name 0 }, fields := { items := [field (.int none) "a"] } }
  | k + 1 =>
    { span := none, name := { name := name (k + 1) },
      fields := { items := ["a", "b", "c", "d"].map (field (.struct none { name := name k })) } }

/-- A function without formals that does nothing. -/
def main : FnDecl :=
  { span := none, returns := .void none, name := { name := "main" }, formals := { items := [] },
    bodySpan := none, body := { decls := { items := [] }, stmts := [] } }

/-- The structs from the ground to a level, and the function. -/
def program (height : Nat) : Program :=
  { decls := (List.range (height + 1)).map (fun k => .struct (level k)) ++ [.fn main] }

theorem name_inj {k j : Nat} (h : name k = name j) : k = j := by
  have htext := congrArg String.toList h
  rw [name, name, String.toList_append, String.toList_append] at htext
  exact Nat.repr_injective (String.toList_inj.mp (List.append_cancel_left htext))

theorem isName_name (k : Nat) : IsName (name k) := by
  have hdigit : ∀ c ∈ (toString k).toList, Text.isDigit c = true := by
    intro c hc
    rw [Nat.toString_eq_ofList_toDigits, String.toList_ofList] at hc
    exact Token.isDigit_of_mem_toDigits hc
  refine ⟨⟨'s', (toString k).toList, String.toList_append, rfl,
    fun c hc => Token.continuesName_of_isDigit (hdigit c hc)⟩, List.find?_eq_none.mpr ?_⟩
  -- a keyword has no digits
  have hletters : ∀ kw : Keyword, kw.text.toList.all (fun c => !c.isDigit) = true := by
    intro kw
    cases kw <;> rfl
  intro kw _ heq
  have hne : (toString k).toList ≠ [] := fun h => Nat.repr_ne_empty (String.toList_eq_nil_iff.mp h)
  obtain ⟨c, cs, hcs⟩ := List.exists_cons_of_ne_nil hne
  have hc : c ∈ (toString k).toList := hcs ▸ List.mem_cons_self
  have hmem : c ∈ kw.text.toList := by
    rw [beq_iff_eq.mp heq, name, String.toList_append]
    exact List.mem_append_right _ hc
  have hnot := List.all_eq_true.mp (hletters kw) c hmem
  rw [Text.isDigit_of_mem_nat hc] at hnot
  cases hnot

theorem isName_letter {c : Char} (hc : Token.beginsName c = true) :
    IsName (String.singleton c) := by
  refine ⟨⟨c, [], String.toList_singleton c, hc, nofun⟩, List.find?_eq_none.mpr ?_⟩
  -- a keyword has more letters than one
  have hlong : ∀ kw : Keyword, kw.text.toList.length ≠ 1 := by
    intro kw
    cases kw <;> nofun
  intro kw _ heq
  exact hlong kw (by rw [beq_iff_eq.mp heq, String.toList_singleton]; rfl)

theorem formed_level (k : Nat) : (level k).Formed := by
  cases k with
  | zero =>
    exact ⟨isName_name 0, nofun, List.forall_mem_singleton.mpr
      ⟨rfl, trivial, isName_letter (c := 'a') rfl⟩⟩
  | succ k =>
    refine ⟨isName_name (k + 1), nofun, List.forall_mem_map.mpr fun x hx =>
      ⟨rfl, isName_name k, ?_⟩⟩
    simp only [List.mem_cons, List.not_mem_nil, or_false] at hx
    rcases hx with rfl | rfl | rfl | rfl
    · exact isName_letter (c := 'a') rfl
    · exact isName_letter (c := 'b') rfl
    · exact isName_letter (c := 'c') rfl
    · exact isName_letter (c := 'd') rfl

theorem form_level (k : Nat) : (level k).form = level k := by cases k <;> rfl

/-- A declaration of the tower is a struct or the function. -/
theorem mem_decls {height : Nat} {d : Decl} (hd : d ∈ (program height).decls) :
    (∃ k, d = .struct (level k)) ∨ d = .fn main := by
  rcases List.mem_append.mp hd with hd | hd
  · obtain ⟨k, -, rfl⟩ := List.mem_map.mp hd
    exact .inl ⟨k, rfl⟩
  · exact .inr (List.mem_singleton.mp hd)

/-- All expressions in declarations of variables are names. -/
theorem writable_fields (ds : VarDecls) : ∀ e ∈ ds.expressions, e.Writable := by
  refine List.forall_mem_flatMap.mpr fun d _ => List.forall_mem_append.mpr
    ⟨?_, List.forall_mem_singleton.mpr trivial⟩
  cases d.type with
  | struct => exact List.forall_mem_singleton.mpr trivial
  | _ => exact nofun

theorem isName_main : IsName "main" where
  spelled := by
    have hall : ['a', 'i', 'n'].all Token.continuesName = true := by decide
    exact ⟨'m', _, by simp, by decide, List.all_eq_true.mp hall⟩
  notKeyword := by decide

theorem formed_main : main.Formed where
  returns := rfl
  name := isName_main
  formals := List.forall_mem_nil _
  body := ⟨List.forall_mem_nil _, trivial⟩

theorem grammatical (height : Nat) : (program height).Grammatical := by
  refine ⟨fun d hd => ?_, fun e he => ?_⟩
  · rcases mem_decls hd with ⟨k, rfl⟩ | rfl
    · exact formed_level k
    · exact formed_main
  · obtain ⟨d, hd, he⟩ := List.mem_flatMap.mp he
    rcases mem_decls hd with ⟨k, rfl⟩ | rfl
    · rw [Decl.expressions] at he
      rcases List.mem_cons.mp he with rfl | he
      · trivial
      · exact writable_fields _ e he
    · cases List.mem_singleton.mp he
      trivial

/-! ### The sizes of its structs -/

/-- What a struct of the form of a level says of its fields. -/
theorem of_form_level {d : StructDecl} {k : Nat} (h : d.form = level k) :
    d.name.name = name k ∧ (d.fields.items.map (·.name.name)).Nodup ∧
      d.fields.items.map VarDecl.form = (level k).fields.items := by
  have hitems : d.fields.items.map VarDecl.form = (level k).fields.items :=
    congrArg (fun d : StructDecl => d.fields.items) h
  have hnames : d.fields.items.map (·.name.name) =
      (level k).fields.items.map (·.name.name) := by
    rw [← hitems, List.map_map]
    rfl
  refine ⟨?_, ?_, hitems⟩
  · have hname := congrArg (fun d : StructDecl => d.name.name) h
    cases k <;> exact hname
  · rw [hnames]
    cases k
    · exact List.nodup_singleton _
    · show ["a", "b", "c", "d"].Nodup
      decide

/-- A field above the ground has the shape of the struct below. -/
theorem shape_of_form {scope : Scope Symbol} {s : StructDef} {k : Nat} {f : VarDecl}
    (hbelow : scope.find? (name k) = some (.struct s))
    (hf : f.form ∈ (level (k + 1)).fields.items) :
    ∃ type, Resolve.shape [scope] f = .pure (type, some (.struct s)) := by
  obtain ⟨x, -, hx⟩ := List.mem_map.mp hf
  have hform : f.type.form = .struct none { name := name k } := congrArg VarDecl.type hx.symm
  cases htype : f.type with
  | struct sp y =>
    rw [htype] at hform
    have hname : y.name = name k := congrArg Ident.name (TypeNode.struct.inj hform).2
    have houter : Scopes.outer? [scope] y.name = some (.struct s) := by
      rw [hname]
      exact hbelow
    refine ⟨.struct sp (y.bind (.struct s)), ?_⟩
    rw [Resolve.shape, htype]
    dsimp only
    rw [houter]
  | _ =>
    rw [htype] at hform
    cases hform

/-- Each level but the ground is four times as large as the one below, so name resolution of all of
them comes to its end only if the size of the last can be written. -/
theorem isWritten_of_fault {m k : Nat} {scope : Scope Symbol} {s : StructDef} {ds : List Decl}
    {rest : List Decl}
    (hform : ds.map Decl.form = (List.range' (k + 1) m).map (fun j => .struct (level j)) ++ rest)
    (hbelow : scope.find? (name k) = some (.struct s)) (hsize : s.size = 4 ^ (k + 1))
    (hfresh : ∀ j, k < j → scope.find? (name j) = none) (hwritten : Text.isWritten s.size = true)
    (hfault : (Resolve.decls [scope] ds).fault = none) :
    Text.isWritten ((4 ^ (k + m + 1) : Nat) : Int) = true := by
  induction m generalizing k scope s ds with
  | zero => rwa [hsize] at hwritten
  | succ m ih =>
    rw [List.range'_succ, List.map_cons, List.cons_append] at hform
    obtain ⟨d, ds, rfl, hd, hrest⟩ := List.map_eq_cons_iff.mp hform
    cases d with
    | var | fn | unknown => cases hd
    | struct d =>
      obtain ⟨hname, hnodup, hitems⟩ := of_form_level (Decl.struct.inj hd)
      rw [Resolve.decls, fault_andThen, fault_map] at hfault
      have hshape := fun f (hf : f ∈ d.fields.items) =>
        shape_of_form hbelow (hitems ▸ List.mem_map_of_mem hf)
      obtain ⟨s', hsize', hwritten', hafter⟩ := Resolve.struct_of_shape
        (by rw [hname]; exact hfresh _ (Nat.lt_succ_self k)) hshape hnodup hfault.1
      rw [hafter] at hfault
      have hlength : d.fields.items.length = 4 := by
        rw [← List.length_map VarDecl.form, hitems]
        rfl
      have hnext := ih (k := k + 1) hrest (s := s') ?_ ?_ ?_ hwritten' hfault.2
      · rwa [Nat.add_right_comm k 1 m] at hnext
      · rw [Scope.find?_append, hname, hfresh _ (Nat.lt_succ_self k)]
        simp [Scope.find?]
      · rw [hsize', hlength]
        show 4 * s.size = _
        rw [hsize, Nat.pow_succ 4 (k + 1), Nat.mul_comm]
      · intro j hj
        rw [Scope.find?_append, hfresh j (Nat.lt_of_succ_lt hj), hname]
        have hne : name j ≠ name (k + 1) := fun h => Nat.ne_of_gt hj (name_inj h)
        simp only [Scope.find?, List.lookup, beq_false_of_ne hne]
        rfl

/-- A field on the ground is a number. -/
theorem shape_of_form_zero {scope : Scope Symbol} {f : VarDecl}
    (hf : f.form ∈ (level 0).fields.items) :
    ∃ type, Resolve.shape [scope] f = .pure (type, some (.scalar .int)) := by
  have hform : f.type.form = .int none := congrArg VarDecl.type (List.mem_singleton.mp hf)
  cases htype : f.type with
  | int sp => exact ⟨.int sp, by rw [Resolve.shape, htype]⟩
  | _ =>
    rw [htype] at hform
    cases hform

/-- Name resolution of a tower comes to its end only if the size of the last struct can be
written. -/
theorem isWritten_of_resolve {height : Nat} {q : Program} (hform : q.form = (program height).form)
    (hfault : q.resolve.fault = none) :
    Text.isWritten ((4 ^ (height + 1) : Nat) : Int) = true := by
  have hdecls : q.decls.map Decl.form =
      .struct (level 0) :: ((List.range' 1 height).map (fun k => .struct (level k)) ++
        [.fn main.form]) := by
    refine (congrArg Program.decls hform).trans ?_
    rw [program, Program.form, List.map_append, List.map_map, List.range_eq_range',
      List.range'_succ, List.map_cons]
    refine congrArg₂ (fun d ds => Decl.struct d :: (ds ++ [Decl.fn main.form])) (form_level 0) ?_
    exact List.map_congr_left fun k _ => congrArg Decl.struct (form_level k)
  rw [Program.fault_resolve] at hfault
  obtain ⟨d, ds, hq, hd, hrest⟩ := List.map_eq_cons_iff.mp hdecls
  cases d with
  | var | fn | unknown => cases hd
  | struct d =>
    obtain ⟨hname, hnodup, hitems⟩ := of_form_level (Decl.struct.inj hd)
    rw [hq, Resolve.decls, fault_andThen, fault_map] at hfault
    have hempty : Scope.find? ([] : Scope Symbol) d.name.name = none := rfl
    obtain ⟨s, hsize, hwritten, hafter⟩ := Resolve.struct_of_shape hempty
      (fun f hf => shape_of_form_zero (hitems ▸ List.mem_map_of_mem hf)) hnodup hfault.1
    have hlength : d.fields.items.length = 1 := by
      rw [← List.length_map VarDecl.form, hitems]
      rfl
    have hbelow : Scope.find? [(name 0, Symbol.struct s)] (name 0) = some (.struct s) := by
      simp [Scope.find?]
    have hlast := isWritten_of_fault (k := 0) hrest hbelow ?_ ?_ hwritten ?_
    · rwa [Nat.zero_add] at hlast
    · rw [hsize, hlength]
      rfl
    · intro j hj
      have hne : name j ≠ name 0 := fun h => Nat.ne_of_gt hj (name_inj h)
      simp only [Scope.find?, List.lookup, beq_false_of_ne hne]
    · have hnext := hfault.2
      rwa [show Scopes.enter ([] : Env) = [[]] from rfl, hafter, hname] at hnext

end Tower

/-! ## Compilations -/

namespace Compilation

/-- Where a program was analyzed, all the numbers were logged. -/
theorem isWritten_of_analyze {file : Option String} {source : String} {p : Program}
    {c : Compilation} (hp : Program.parse file source = .ok p) (hc : analyze file source = .ok c) :
    ∀ n ∈ p.resolve.program.numbers, Text.isWritten n = true := by
  have heq := (Program.parse_formed hp).fault_eq
  rw [(analysis_of_parse hp hc).1] at heq
  exact overlong?_eq_none.mp (Option.map_eq_none_iff.mp heq.symm)

/-- Name resolution of a program that was read stops at the first number to be logged that has too
many digits, and the analysis with it.  If all of them can be written, name resolution and type
checking come to their end, and if nothing is reported, so does code generation, with any
options. -/
theorem compile_of_parse {file : Option String} {source : String} {p : Program}
    (h : Program.parse file source = .ok p) :
    (∀ n, overlong? p.resolve.program.numbers = some n →
      p.resolve.fault = some ⟨.overlong n, none⟩ ∧
        analyze file source = .error (.numeral (toString n))) ∧
    ((∀ n ∈ p.resolve.program.numbers, Text.isWritten n = true) →
      p.resolve.fault = none ∧ (p.resolve.program.check p.resolve.hasMain).fault = none ∧
        ∃ c, analyze file source = .ok c ∧
          c.program = some (p.resolve.program.check p.resolve.hasMain).value ∧
          (c.hasErrors = false → ∀ o : CodeOptions, ∃ items, (c.emit o).result = .ok items ∧
            compile o file source = .ok ((c.emit o).after, some items))) := by
  have hformed := Program.parse_formed h
  refine ⟨fun n hn => ?_, fun hwritten => ?_⟩
  · have hfault := hformed.fault_of_overlong hn
    exact ⟨hfault, analyze_of_fault h hfault⟩
  · have hfault := hformed.fault_of_written (overlong?_eq_none.mpr hwritten)
    exact ⟨hfault, hformed.total_check hfault _, analysis file p, analyze_of_parse h hfault, rfl,
      compile_of_analysis h hfault⟩

set_option maxRecDepth 100000 in
/-- A program with a struct, a recursive function and a shadowed formal is compiled. -/
theorem compile_of_parse_recursive :
    ∃ p items after, Program.parse none
        "struct s { int x; bool y; }; struct s g;
         int f(int n) { if (n <= 0 || g.y) { bool n; n = g.y; return g.x; } return n + f(n - 1); }
         void main() { cin >> g.x; cout << f(3); }" = .ok p ∧
      (∀ n ∈ p.resolve.program.numbers, Text.isWritten n = true) ∧
      p.resolve.fault = none ∧ (p.resolve.program.check p.resolve.hasMain).fault = none ∧
      compile {} none
        "struct s { int x; bool y; }; struct s g;
         int f(int n) { if (n <= 0 || g.y) { bool n; n = g.y; return g.x; } return n + f(n - 1); }
         void main() { cin >> g.x; cout << f(3); }" =
          .ok (after, some items) := by
  have haccepts : accepts
      "struct s { int x; bool y; }; struct s g;
         int f(int n) { if (n <= 0 || g.y) { bool n; n = g.y; return g.x; } return n + f(n - 1); }
         void main() { cin >> g.x; cout << f(3); }" = true :=
    accepts_of_chars rfl (by decide +kernel)
  obtain ⟨p, hp⟩ := parse_of_accepts haccepts
  obtain ⟨_, hanalyzed, -⟩ := analyze_of_accepts haccepts
  have hwritten := isWritten_of_analyze hp hanalyzed
  obtain ⟨hresolve, hcheck, c, hc, -, htotal⟩ := (compile_of_parse hp).2 hwritten
  obtain ⟨items, -, hcompile⟩ := htotal (hasErrors_of_accepts haccepts hc) {}
  exact ⟨p, items, _, hp, hwritten, hresolve, hcheck, hcompile⟩

/-- The text of a tower of 7143 structs is read, and is not analyzed: the size of the last struct
has more than 4300 digits. -/
theorem not_analyzed_tower :
    ∃ p, Program.parse none (Tower.program 7142).text = .ok p ∧ p.resolve.fault ≠ none ∧
      ∀ c, analyze none (Tower.program 7142).text ≠ .ok c := by
  obtain ⟨p, hp, hform⟩ := Program.parse_text (Tower.grammatical 7142) none
  have hfault : p.resolve.fault ≠ none := by
    intro hnone
    have hwritten := Text.isWritten_iff.mp (Tower.isWritten_of_resolve hform hnone)
    rw [Int.natAbs_natCast] at hwritten
    exact absurd hwritten (by decide +kernel)
  exact ⟨p, hp, hfault, fun c hc => hfault (analysis_of_parse hp hc).1⟩

end Compilation

end CMinusMinus
