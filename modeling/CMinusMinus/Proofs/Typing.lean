import CMinusMinus.Resolve.Stmt
import CMinusMinus.Resolve
import CMinusMinus.Proofs.Layout

/-!
# Typing

The judgements that a program without errors satisfies after name resolution and type checking.
They are stated of the annotated tree and say of each node what its annotations are: a location
is known with the storage it lies in and its distance from the beginning of it, an expression
with its type, a declaration with the symbol it introduces, and a block with the scopes and the
frame before and after it.

Nothing in the judgements is about reports.  That a program without reports satisfies them is
the subject of `Proofs.Typing.Soundness`.
-/

namespace CMinusMinus

/-! ## Types of words -/

/-- The types of a single word: numbers and truth values. -/
def Ty.IsWord (t : Ty) : Prop := t = .int ∨ t = .bool

/-- The operator takes operands of the first type and has a result of the second. -/
def BinOp.Types : BinOp → Ty → Ty → Prop
  | .add, s, t | .sub, s, t | .mul, s, t | .div, s, t => s = .int ∧ t = .int
  | .and, s, t | .or, s, t => s = .bool ∧ t = .bool
  | .less, s, t | .greater, s, t | .lessEq, s, t | .greaterEq, s, t => s = .int ∧ t = .bool
  | .equal, s, t | .notEqual, s, t => (s.IsWord ∨ s = .string) ∧ t = .bool
  | .other _, _, _ => False

/-! ## Layouts -/

mutual

/-- The storage is a word, or a struct that is laid out. -/
inductive Shape.Laid : Shape StructDef → Prop where
  | scalar {t : Ty} : t.IsWord → Shape.Laid (.scalar t)
  | struct {d : StructDef} : FieldsLaid d.fields d.size → Shape.Laid (.struct d)

/-- The fields lie one after another from the beginning of a struct, take so many bytes, and
have different names. -/
inductive FieldsLaid : List (Field StructDef) → Nat → Prop where
  | nil : FieldsLaid [] 0
  | snoc {fs : List (Field StructDef)} {size : Nat} {f : Field StructDef} :
    FieldsLaid fs size → (∀ g ∈ fs, g.name ≠ f.name) → f.offset = size → f.shape.Laid →
    FieldsLaid (fs ++ [f]) (size + f.shape.size)

end

/-- The struct's fields are laid out. -/
def StructDef.Laid (d : StructDef) : Prop := FieldsLaid d.fields d.size

/-! ## Scopes -/

/-- What a scope may declare a name as. -/
inductive Symbol.Sound (name : String) : Symbol → Prop where
  | storage {s : Storage} :
    s.name = name → s.place ≠ .unplaced → s.shape.Laid → Sound name (.storage s)
  | function {f : Signature} :
    f.name = name → f.params.length = f.arity → (∀ t ∈ f.params, t.IsWord) →
    (f.returns.IsWord ∨ f.returns = .void) → Sound name (.function f)
  | struct {d : StructDef} : d.Laid → Text.isWritten d.size = true → Sound name (.struct d)

theorem Storage.placed_of_static {s : Storage} (h : s.place = .static) : s.place ≠ .unplaced := by
  rw [h]
  intro hx
  cases hx

theorem Storage.placed_of_frame {s : Storage} {offset : Int} (h : s.place = .frame offset) :
    s.place ≠ .unplaced := by
  rw [h]
  intro hx
  cases hx

/-- Every declaration of the open scopes is sound. -/
def Env.Sound (env : Env) : Prop := ∀ scope ∈ env, ∀ d ∈ scope, d.2.Sound d.1

/-! ## Expressions -/

/-- The location is so many bytes above the beginning of the storage and is of the shape. -/
inductive Locates (env : Env) : Exp → Storage → Nat → Shape StructDef → Prop where
  | ident {x : Ident} {s : Storage} :
    env.find? x.name = some (.storage s) → x.binding = .bound (.storage s) →
    Locates env (.ident x) s 0 s.shape
  | access {i : Info} {loc : Exp} {f : Ident} {s : Storage} {n : Nat} {d : StructDef}
    {g : Field StructDef} :
    Locates env loc s n (.struct d) → d.field? f.name = some g →
    f.binding = .bound (.storage g.storage) →
    Locates env (.access i { owner := some d, target := g.shape.struct? } loc f) s
      (n + g.offset) g.shape

mutual

/-- The expression has the type. -/
inductive HasType (env : Env) : Exp → Ty → Prop where
  | int {i : Info} {v : Int} : HasType env (.int i v) .int
  | string {i : Info} {text : String} : HasType env (.string i text) .string
  | bool {i : Info} {b : Bool} : HasType env (.bool i b) .bool
  | location {e : Exp} {s : Storage} {n : Nat} {t : Ty} :
    Locates env e s n (.scalar t) → t.IsWord → HasType env e t
  | assign {i : Info} {l r : Exp} {s : Storage} {n : Nat} {t : Ty} :
    Locates env l s n (.scalar t) → t.IsWord → HasType env r t →
    HasType env (.assign i l r) t
  | call {i : Info} {f : Ident} {sp : Option Span} {args : List Exp} {sig : Signature} :
    env.find? f.name = some (.function sig) → f.binding = .bound (.function sig) →
    HaveTypes env args sig.params → HasType env (.call i f sp args) sig.returns
  | neg {i : Info} {e : Exp} : HasType env e .int → HasType env (.neg i e) .int
  | not {i : Info} {e : Exp} : HasType env e .bool → HasType env (.not i e) .bool
  | binary {i : Info} {op : BinOp} {l r : Exp} {s t : Ty} :
    op.Types s t → HasType env l s → HasType env r s → HasType env (.binary i op l r) t

/-- The expressions have the types, one each. -/
inductive HaveTypes (env : Env) : List Exp → List Ty → Prop where
  | nil : HaveTypes env [] []
  | cons {e : Exp} {es : List Exp} {t : Ty} {ts : List Ty} :
    HasType env e t → HaveTypes env es ts → HaveTypes env (e :: es) (t :: ts)

end

/-! ## Declarations of variables -/

/-- The declaration introduces the storage, in scopes that do not have its name innermost. -/
structure Introduces (env : Env) (d : VarDecl) (s : Storage) : Prop where
  binding : d.name.binding = .bound (.storage s)
  name : s.name = d.name.name
  laid : s.shape.Laid
  fresh : env.inner? s.name = none

/-- The locals that a block declares, with the scopes and the frame before and after them. -/
inductive LocalsTyped : Env → Frame → List VarDecl → Env → Frame → Prop where
  | nil {env : Env} {frame : Frame} : LocalsTyped env frame [] env frame
  | cons {env env' : Env} {frame frame' : Frame} {d : VarDecl} {ds : List VarDecl}
    {s : Storage} :
    Introduces env d s → s.place = .frame (frame.localOffset s.shape.size) →
    LocalsTyped (env.insert s.name (.storage s)) (frame.addLocal s.shape.size) ds env'
      frame' →
    LocalsTyped env frame (d :: ds) env' frame'

/-- The formals of a function and their types, with the scopes and the frame before and after
them. -/
inductive FormalsTyped : Env → Frame → List VarDecl → List Ty → Env → Frame → Prop where
  | nil {env : Env} {frame : Frame} : FormalsTyped env frame [] [] env frame
  | cons {env env' : Env} {frame frame' : Frame} {d : VarDecl} {ds : List VarDecl}
    {s : Storage} {t : Ty} {ts : List Ty} :
    Introduces env d s → s.place = .frame frame.formalOffset → s.shape = .scalar t → t.IsWord →
    FormalsTyped (env.insert s.name (.storage s)) frame.addFormal ds ts env' frame' →
    FormalsTyped env frame (d :: ds) (t :: ts) env' frame'

/-! ## Statements -/

mutual

/-- The statement of a function with the given result, with the scopes it stands in, and the
frame before and after it. -/
inductive StmtTyped (ret : Ty) : Env → Frame → Stmt → Frame → Prop where
  | assign {env : Env} {frame : Frame} {sp : Option Span} {i : Info} {l r : Exp} {t : Ty} :
    HasType env (.assign i l r) t → StmtTyped ret env frame (.assign sp (.assign i l r)) frame
  | increment {env : Env} {frame : Frame} {sp : Option Span} {e : Exp} {s : Storage} {n : Nat} :
    Locates env e s n (.scalar .int) → StmtTyped ret env frame (.increment sp e) frame
  | decrement {env : Env} {frame : Frame} {sp : Option Span} {e : Exp} {s : Storage} {n : Nat} :
    Locates env e s n (.scalar .int) → StmtTyped ret env frame (.decrement sp e) frame
  | read {env : Env} {frame : Frame} {sp : Option Span} {e : Exp} {s : Storage} {n : Nat}
    {t : Ty} :
    Locates env e s n (.scalar t) → t.IsWord → StmtTyped ret env frame (.read sp e) frame
  | write {env : Env} {frame : Frame} {sp : Option Span} {e : Exp} {t : Ty} :
    HasType env e t → t.IsWord ∨ t = .string → e.info.type = some t →
    StmtTyped ret env frame (.write sp e) frame
  | ifThen {env : Env} {frame frame' : Frame} {sp : Option Span} {e : Exp} {b : Block Stmt} :
    HasType env e .bool → BlockTyped ret env.enter frame b frame' →
    StmtTyped ret env frame (.ifThen sp e b) frame'
  | ifElse {env : Env} {frame frame₁ frame₂ : Frame} {sp : Option Span} {e : Exp}
    {yes no : Block Stmt} :
    HasType env e .bool → BlockTyped ret env.enter frame yes frame₁ →
    BlockTyped ret env.enter frame₁ no frame₂ →
    StmtTyped ret env frame (.ifElse sp e yes no) frame₂
  | while {env : Env} {frame frame' : Frame} {sp : Option Span} {e : Exp} {b : Block Stmt} :
    HasType env e .bool → BlockTyped ret env.enter frame b frame' →
    StmtTyped ret env frame (.while sp e b) frame'
  | call {env : Env} {frame : Frame} {sp : Option Span} {i : Info} {f : Ident}
    {sp' : Option Span} {args : List Exp} {t : Ty} :
    HasType env (.call i f sp' args) t →
    StmtTyped ret env frame (.call sp (.call i f sp' args)) frame
  | exit {env : Env} {frame : Frame} {sp : Option Span} :
    ret = .void → StmtTyped ret env frame (.return sp none) frame
  | return {env : Env} {frame : Frame} {sp : Option Span} {e : Exp} :
    ret.IsWord → HasType env e ret → StmtTyped ret env frame (.return sp (some e)) frame

/-- The block, whose scope is open. -/
inductive BlockTyped (ret : Ty) : Env → Frame → Block Stmt → Frame → Prop where
  | intro {env env' : Env} {frame frame₁ frame₂ : Frame} {ds : VarDecls} {sp : Option Span}
    {ss : List Stmt} :
    LocalsTyped env frame ds.items env' frame₁ → StmtsTyped ret env' frame₁ ss frame₂ →
    BlockTyped ret env frame ⟨ds, sp, ss⟩ frame₂

/-- The statements, one after another. -/
inductive StmtsTyped (ret : Ty) : Env → Frame → List Stmt → Frame → Prop where
  | nil {env : Env} {frame : Frame} : StmtsTyped ret env frame [] frame
  | cons {env : Env} {frame frame₁ frame₂ : Frame} {s : Stmt} {ss : List Stmt} :
    StmtTyped ret env frame s frame₁ → StmtsTyped ret env frame₁ ss frame₂ →
    StmtsTyped ret env frame (s :: ss) frame₂

end

/-! ## Programs -/

/-- The function with its signature, in the scopes that have it already. -/
structure FnTyped (env : Env) (d : FnDecl) (sig : Signature) : Prop where
  named : IsName d.name.name
  name : sig.name = d.name.name
  returns : d.returns.type = .ok sig.returns
  result : sig.returns.IsWord ∨ sig.returns = .void
  arity : sig.arity = d.formals.items.length
  body : ∃ env' frame frame', FormalsTyped env.enter {} d.formals.items sig.params env' frame ∧
    BlockTyped sig.returns env' frame d.body frame' ∧ d.frame = some frame'

/-- The declarations at the top of a program, with the scopes before and after them. -/
inductive DeclsTyped : Env → List Decl → Env → Prop where
  | nil {env : Env} : DeclsTyped env [] env
  | var {env env' : Env} {d : VarDecl} {ds : List Decl} {s : Storage} :
    d.role = .variable → IsName d.name.name → Introduces env d s → s.place = .static →
    Text.isWritten s.shape.size = true →
    DeclsTyped (env.insert s.name (.storage s)) ds env' →
    DeclsTyped env (.var d :: ds) env'
  | fn {env env' : Env} {d : FnDecl} {ds : List Decl} {sig : Signature} :
    env.inner? sig.name = none →
    FnTyped (env.insert sig.name (.function sig)) d sig →
    DeclsTyped (env.insert sig.name (.function sig)) ds env' →
    DeclsTyped env (.fn d :: ds) env'
  | struct {env env' : Env} {d : StructDecl} {ds : List Decl} {layout : StructDef} :
    env.inner? d.name.name = none → layout.Laid → Text.isWritten layout.size = true →
    DeclsTyped (env.insert d.name.name (.struct layout)) ds env' →
    DeclsTyped env (.struct d :: ds) env'

/-- The declarations of the program are typed, and its scope is the given one after them. -/
def Program.Typed (p : Program) (env : Env) : Prop := DeclsTyped [[]] p.decls env

end CMinusMinus
