import CMinusMinus.Proofs.Typing
import CMinusMinus.Syntax

/-!
# Rules of the language

When a program is well formed, by rules that speak of the tree and of nothing that a pass leaves in
it.  A context says what each name that is in scope was declared as: a variable of a type, a
function or a struct.  Declarations extend it, blocks and functions open a scope in it, and
expressions have their types in it.

The rules take a remark on each expression, the names of functions and fields included, and the type
that they give to it.  A remark that is always true makes them rules on the tree alone; the remark
that the node has just this type recorded makes them say that the annotations are right.
-/

namespace CMinusMinus

/-! ## Contexts -/

/-- What a name is declared as. -/
inductive Entity where
  | var (type : Ty)
  | fn (params : List Ty) (returns : Ty)
  | struct (fields : List (String × Ty))

/-- The type of the name itself. -/
def Entity.type : Entity → Ty
  | .var t => t
  | .fn .. => .function
  | .struct _ => .definition

/-- What each name in scope is declared as. -/
abbrev Context := Scopes Entity

/-- What is said of a node and the type that the rules give it. -/
abbrev Remark := Info → Ty → Prop

namespace Remark

/-- Nothing is said. -/
def none : Remark := fun _ _ => True

/-- The type is recorded at the node. -/
def recorded : Remark := fun i t => i.type = some t

end Remark

/-! ## Declarations of variables -/

/-- The written type is that of a variable: no void, and a struct only if it is declared at the
top. -/
inductive TypeNode.Denotes (Γ : Context) : TypeNode → Ty → Prop where
  | int {sp : Option Span} : Denotes Γ (.int sp) .int
  | bool {sp : Option Span} : Denotes Γ (.bool sp) .bool
  | struct {sp : Option Span} {x : Ident} {fields : List (String × Ty)} :
    Γ.outer? x.name = some (.struct fields) → Denotes Γ (.struct sp x) (.struct x.name)

/-- The variables have the types, and none has a name that its scope has already.  The second
context has them too. -/
inductive VarDecl.Declare : Context → List VarDecl → List Ty → Context → Prop where
  | nil {Γ : Context} : Declare Γ [] [] Γ
  | cons {Γ Γ' : Context} {d : VarDecl} {ds : List VarDecl} {t : Ty} {ts : List Ty} :
    d.type.Denotes Γ t → Γ.inner? d.name.name = none →
    Declare (Γ.insert d.name.name (.var t)) ds ts Γ' → Declare Γ (d :: ds) (t :: ts) Γ'

/-! ## Expressions -/

section

variable (note : Remark)

mutual

/-- The expression has the type. -/
inductive Exp.Has (Γ : Context) : Exp → Ty → Prop where
  | int {i : Info} {v : Int} : note i .int → Has Γ (.int i v) .int
  | string {i : Info} {text : String} : note i .string → Has Γ (.string i text) .string
  | bool {i : Info} {b : Bool} : note i .bool → Has Γ (.bool i b) .bool
  | ident {x : Ident} {d : Entity} :
    Γ.find? x.name = some d → note x.info d.type → Has Γ (.ident x) d.type
  | access {i : Info} {k : FieldLink} {loc : Exp} {f : Ident} {name : String}
    {fields : List (String × Ty)} {t : Ty} :
    Has Γ loc (.struct name) → Γ.outer? name = some (.struct fields) →
    fields.lookup f.name = some t → note f.info t → note i t → Has Γ (.access i k loc f) t
  | assign {i : Info} {l r : Exp} {t : Ty} :
    t.IsWord → Has Γ l t → Has Γ r t → note i t → Has Γ (.assign i l r) t
  | call {i : Info} {f : Ident} {sp : Option Span} {args : List Exp} {params : List Ty} {t : Ty} :
    Γ.find? f.name = some (.fn params t) → HaveAll Γ args params → note f.info .function →
    note i t → Has Γ (.call i f sp args) t
  | neg {i : Info} {e : Exp} : Has Γ e .int → note i .int → Has Γ (.neg i e) .int
  | not {i : Info} {e : Exp} : Has Γ e .bool → note i .bool → Has Γ (.not i e) .bool
  | binary {i : Info} {op : BinOp} {l r : Exp} {s t : Ty} :
    op.Types s t → Has Γ l s → Has Γ r s → note i t → Has Γ (.binary i op l r) t

/-- The expressions have the types, one each. -/
inductive Exp.HaveAll (Γ : Context) : List Exp → List Ty → Prop where
  | nil : HaveAll Γ [] []
  | cons {e : Exp} {es : List Exp} {t : Ty} {ts : List Ty} :
    Has Γ e t → HaveAll Γ es ts → HaveAll Γ (e :: es) (t :: ts)

end

/-! ## Statements -/

mutual

/-- The statement of a function with the given result is well formed. -/
inductive Stmt.Obeys (ret : Ty) : Context → Stmt → Prop where
  | assign {Γ : Context} {sp : Option Span} {e : Exp} {t : Ty} :
    e.Has note Γ t → Obeys ret Γ (.assign sp e)
  | increment {Γ : Context} {sp : Option Span} {e : Exp} :
    e.Has note Γ .int → Obeys ret Γ (.increment sp e)
  | decrement {Γ : Context} {sp : Option Span} {e : Exp} :
    e.Has note Γ .int → Obeys ret Γ (.decrement sp e)
  | read {Γ : Context} {sp : Option Span} {e : Exp} {t : Ty} :
    t.IsWord → e.Has note Γ t → Obeys ret Γ (.read sp e)
  | write {Γ : Context} {sp : Option Span} {e : Exp} {t : Ty} :
    t.IsWord ∨ t = .string → e.Has note Γ t → Obeys ret Γ (.write sp e)
  | ifThen {Γ : Context} {sp : Option Span} {e : Exp} {b : Block Stmt} :
    e.Has note Γ .bool → BlockObeys ret Γ.enter b → Obeys ret Γ (.ifThen sp e b)
  | ifElse {Γ : Context} {sp : Option Span} {e : Exp} {yes no : Block Stmt} :
    e.Has note Γ .bool → BlockObeys ret Γ.enter yes → BlockObeys ret Γ.enter no →
    Obeys ret Γ (.ifElse sp e yes no)
  | while {Γ : Context} {sp : Option Span} {e : Exp} {b : Block Stmt} :
    e.Has note Γ .bool → BlockObeys ret Γ.enter b → Obeys ret Γ (.while sp e b)
  | call {Γ : Context} {sp : Option Span} {e : Exp} {t : Ty} :
    e.Has note Γ t → Obeys ret Γ (.call sp e)
  | exit {Γ : Context} {sp : Option Span} : ret = .void → Obeys ret Γ (.return sp none)
  | return {Γ : Context} {sp : Option Span} {e : Exp} :
    ret ≠ .void → e.Has note Γ ret → Obeys ret Γ (.return sp (some e))

/-- The block, whose scope is open, is well formed. -/
inductive Stmt.BlockObeys (ret : Ty) : Context → Block Stmt → Prop where
  | intro {Γ Γ' : Context} {ds : VarDecls} {sp : Option Span} {ss : List Stmt} {ts : List Ty} :
    VarDecl.Declare Γ ds.items ts Γ' → ListObeys ret Γ' ss → BlockObeys ret Γ ⟨ds, sp, ss⟩

/-- The statements are well formed. -/
inductive Stmt.ListObeys (ret : Ty) : Context → List Stmt → Prop where
  | nil {Γ : Context} : ListObeys ret Γ []
  | cons {Γ : Context} {s : Stmt} {ss : List Stmt} :
    Obeys ret Γ s → ListObeys ret Γ ss → ListObeys ret Γ (s :: ss)

end

/-! ## Programs -/

/-- The declaration at the top of a program is well formed, after those that the context has, and
the second context has it too.  A function is in scope in its own body, whose variables share a
scope with the formals.  The fields of a struct have a scope of their own. -/
inductive Decl.Obeys (Γ : Context) : Decl → Context → Prop where
  | var {d : VarDecl} {t : Ty} :
    d.type.Denotes Γ t → Γ.inner? d.name.name = none →
    Obeys Γ (.var d) (Γ.insert d.name.name (.var t))
  | fn {Γ' : Context} {d : FnDecl} {params : List Ty} {returns : Ty} :
    d.returns.type = .ok returns → Γ.inner? d.name.name = none →
    VarDecl.Declare (Scopes.enter (Γ.insert d.name.name (.fn params returns))) d.formals.items
      params Γ' →
    Stmt.BlockObeys note returns Γ' d.body →
    Obeys Γ (.fn d) (Γ.insert d.name.name (.fn params returns))
  | struct {Γ' : Context} {d : StructDecl} {ts : List Ty} :
    Γ.inner? d.name.name = none → VarDecl.Declare Γ.enter d.fields.items ts Γ' →
    Obeys Γ (.struct d)
      (Γ.insert d.name.name (.struct ((d.fields.items.map (·.name.name)).zip ts)))

/-- The declarations are well formed, one after another. -/
inductive Decl.ListObeys : Context → List Decl → Prop where
  | nil {Γ : Context} : ListObeys Γ []
  | cons {Γ Γ' : Context} {d : Decl} {ds : List Decl} :
    Decl.Obeys note Γ d Γ' → ListObeys Γ' ds → ListObeys Γ (d :: ds)

/-- The program is well formed, and each of its expressions is as the remark says. -/
structure Program.Obeys (p : Program) : Prop where
  decls : Decl.ListObeys note [[]] p.decls
  main : ∃ d ∈ p.functions, d.name.name = "main"

end

/-- The program is well formed. -/
def Program.WellFormed (p : Program) : Prop := p.Obeys Remark.none

/-! ## Types are unique -/

section

variable {note note' : Remark} {Γ : Context}

/-- The rules give an expression one type. -/
theorem Exp.Has.unique : ∀ {e : Exp} {s t : Ty}, e.Has note Γ s → e.Has note' Γ t → s = t
  | _, _, _, .int _, .int _ | _, _, _, .string _, .string _ | _, _, _, .bool _, .bool _
  | _, _, _, .neg _ _, .neg _ _ | _, _, _, .not _ _, .not _ _ => rfl
  | _, _, _, .ident h _, .ident h' _ => by
    cases h.symm.trans h'
    rfl
  | _, _, _, .access hloc hstruct hfield _ _, .access hloc' hstruct' hfield' _ _ => by
    cases Exp.Has.unique hloc hloc'
    cases hstruct.symm.trans hstruct'
    exact Option.some.inj (hfield.symm.trans hfield')
  | _, _, _, .assign _ hl _ _, .assign _ hl' _ _ => Exp.Has.unique hl hl'
  | _, _, _, .call hf _ _ _, .call hf' _ _ _ => by
    cases hf.symm.trans hf'
    rfl
  | .binary _ op _ _, _, _, .binary hop _ _ _, .binary hop' _ _ _ => by
    cases op with
    | other => exact hop.elim
    | _ => exact hop.2.trans hop'.2.symm

end

end CMinusMinus
