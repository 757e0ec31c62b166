import CMinusMinus.Resolve

/-!
# Lexical scoping

What the names of a program refer to, told of the tree with its names bound.  A declaration is
accepted if its name is bound; what a list of declarations declares are the accepted ones among
them.  A use stands in some blocks of a function, one inside the other, and refers to what the
innermost of them declares that declares the name at all, or else to a variable of the function,
or else to what is declared at the top before or by the function.

Nothing here keeps track of scopes that are open: each rule looks at the declarations of the tree.
-/

namespace CMinusMinus

/-- Bound to the symbol, if there is one. -/
def Binding.of : Option Symbol → Binding
  | some s => .bound s
  | none => .unresolved

/-! ## What is declared -/

/-- The name with its symbol, if it is bound. -/
def Ident.declared (x : Ident) : Scope Symbol := (x.binding.symbol?.map (x.name, ·)).toList

/-- The accepted ones of some variables, formals or fields. -/
def VarDecl.declared (ds : List VarDecl) : Scope Symbol := ds.flatMap (·.name.declared)

/-- What a declaration at the top of a program declares. -/
def Decl.symbols : Decl → Scope Symbol
  | .var d => d.name.declared
  | .fn d => d.name.declared
  | .struct d => d.name.declared
  | .unknown _ => []

/-- The accepted ones of some declarations at the top of a program. -/
def Decl.declared (ds : List Decl) : Scope Symbol := ds.flatMap Decl.symbols

/-- The fields of a struct as declarations. -/
def StructDef.declared (d : StructDef) : Scope Symbol :=
  d.fields.map fun f => (f.name, .storage f.storage)

/-- The struct of a name. -/
def Scope.struct? (scope : Scope Symbol) (name : String) : Option StructDef :=
  match scope.find? name with
  | some (.struct d) => some d
  | _ => none

/-! ## Variables -/

/-- The shape is that of storage of the written type. -/
inductive TypeNode.Stores : TypeNode → Shape StructDef → Prop where
  | int {sp : Option Span} : Stores (.int sp) (.scalar .int)
  | bool {sp : Option Span} : Stores (.bool sp) (.scalar .bool)
  | struct {sp : Option Span} {x : Ident} {d : StructDef} :
    x.binding = .bound (.struct d) → Stores (.struct sp x) (.struct d)

namespace VarDecl

/-- The variable is not void, its struct is declared at the top, and what is declared earlier in its
scope does not have its name. -/
structure Acceptable (globals earlier : Scope Symbol) (d : VarDecl) : Prop where
  notVoid : d.type.isVoid = false
  struct : ∀ sp x, d.type = .struct sp x → globals.struct? x.name ≠ none
  fresh : earlier.find? d.name.name = none

/-- The variable is bound to a symbol of its own if it is acceptable, and to nothing otherwise.  The
name of its struct is bound to the struct. -/
structure Settled (globals earlier : Scope Symbol) (d : VarDecl) : Prop where
  struct : ∀ sp x, d.type = .struct sp x → x.binding = .of ((globals.struct? x.name).map .struct)
  accepted : d.Acceptable globals earlier → ∃ s : Storage, d.name.binding = .bound (.storage s) ∧
    s.name = d.name.name ∧ s.site = d.span ∧ d.type.Stores s.shape
  rejected : ¬ d.Acceptable globals earlier → d.name.binding = .unresolved

/-- The variables of a scope are settled, each after those before it. -/
def ListSettled (globals : Scope Symbol) (ds : List VarDecl) : Prop :=
  ∀ before d after, ds = before ++ d :: after → d.Settled globals (declared before)

end VarDecl

/-! ## Expressions -/

/-- The struct that a name denotes a variable or a field of. -/
def Ident.struct? (x : Ident) : Option StructDef :=
  match x.binding with
  | .bound (.storage s) => s.shape.struct?
  | _ => none

namespace Exp

/-- The struct that a location denotes. -/
def struct? : Exp → Option StructDef
  | .ident x => x.struct?
  | .access _ _ _ f => f.struct?
  | _ => none

variable (visible : String → Option Symbol)

mutual

/-- The names that the expression uses are bound to what is visible, and the fields to the fields of
the structs that they are asked of. -/
def Scoped : Exp → Prop
  | .int .. | .string .. | .bool .. | .unknown _ => True
  | .ident x => x.binding = .of (visible x.name)
  | .access _ _ loc f =>
    loc.Scoped ∧ f.binding = .of (loc.struct?.bind fun d => d.declared.find? f.name)
  | .assign _ l r | .binary _ _ l r => l.Scoped ∧ r.Scoped
  | .call _ f _ args => f.binding = .of (visible f.name) ∧ ListScoped args
  | .neg _ e | .not _ e => e.Scoped
termination_by structural e => e

/-- All names that the expressions use are bound as they should be. -/
def ListScoped : List Exp → Prop
  | [] => True
  | e :: es => e.Scoped ∧ ListScoped es
termination_by structural es => es

end

end Exp

/-! ## Statements -/

namespace Stmt

/-- The expressions of a statement, those of its blocks apart. -/
def operands : Stmt → List Exp
  | .assign _ e | .increment _ e | .decrement _ e | .read _ e | .write _ e | .call _ e
  | .ifThen _ e _ | .ifElse _ e _ _ | .while _ e _ | .return _ (some e) => [e]
  | .return _ none | .unknown _ => []

/-- The blocks of a statement. -/
def blocks : Stmt → List (Block Stmt)
  | .ifThen _ _ b | .while _ _ b => [b]
  | .ifElse _ _ b₁ b₂ => [b₁, b₂]
  | _ => []

/-- The blocks lie in the body, each in the next one, and the last one in none but the body. -/
inductive Nested (body : Block Stmt) : List (Block Stmt) → Prop where
  | nil : Nested body []
  | cons {b : Block Stmt} {bs : List (Block Stmt)} {s : Stmt} :
    Nested body bs → s ∈ (bs.headD body).stmts → b ∈ s.blocks → Nested body (b :: bs)

end Stmt

/-! ## Declarations -/

namespace FnDecl

/-- What a name refers to in the innermost of some blocks of a function. -/
def visible (globals : Scope Symbol) (d : FnDecl) (blocks : List (Block Stmt)) (name : String) :
    Option Symbol :=
  (blocks.findSome? fun b => (VarDecl.declared b.decls.items).find? name).or
    (((VarDecl.declared (d.formals.items ++ d.body.decls.items)).find? name).or
      (globals.find? name))

/-- The function is bound to a symbol of its own unless its name is declared before.  Its formals
share a scope with the variables of its body, and each block has its own.  It is visible in its own
body. -/
structure Scoped (globals : Scope Symbol) (d : FnDecl) : Prop where
  accepted : globals.find? d.name.name = none →
    ∃ f, d.name.binding = .bound (.function f) ∧ f.name = d.name.name ∧ f.site = d.span
  rejected : globals.find? d.name.name ≠ none → d.name.binding = .unresolved
  vars : VarDecl.ListSettled globals (d.formals.items ++ d.body.decls.items)
  locals : ∀ b bs, Stmt.Nested d.body (b :: bs) → VarDecl.ListSettled globals b.decls.items
  uses : ∀ bs, Stmt.Nested d.body bs → ∀ s ∈ (bs.headD d.body).stmts, ∀ e ∈ s.operands,
    e.Scoped (d.visible (globals ++ d.name.declared) bs)

end FnDecl

/-- The struct is bound to a symbol of its own unless its name is declared before.  Its fields have
a scope of their own. -/
structure StructDecl.Scoped (globals : Scope Symbol) (d : StructDecl) : Prop where
  accepted : globals.find? d.name.name = none →
    ∃ s, d.name.binding = .bound (.struct s) ∧ s.name = d.name.name ∧ s.site = d.span ∧
      s.declared = VarDecl.declared d.fields.items
  rejected : globals.find? d.name.name ≠ none → d.name.binding = .unresolved
  fields : VarDecl.ListSettled globals d.fields.items

/-- The names of the declaration are bound as they should be, after the globals. -/
def Decl.Scoped (globals : Scope Symbol) : Decl → Prop
  | .var d => d.Settled globals globals
  | .fn d => d.Scoped globals
  | .struct d => d.Scoped globals
  | .unknown _ => True

/-- The names of the program are bound as they should be. -/
def Program.Scoped (p : Program) : Prop :=
  ∀ before d after, p.decls = before ++ d :: after → d.Scoped (Decl.declared before)

/-! ## Complaints -/

namespace Ident

/-- Whether there is nothing to bind the identifier to. -/
def isUnresolved (x : Ident) : Bool :=
  match x.binding with
  | .unresolved => true
  | _ => false

/-- What is reported of a name that is bound to nothing. -/
def complaints (cause : String → NameCause) (x : Ident) : List Report :=
  if x.isUnresolved then [(cause x.name).report x.info.span] else []

/-- What is reported of the first link of a chain that fails, after the link before it. -/
def blame (x : Ident) : List Ident → List Report
  | [] => []
  | f :: fs =>
    if f.isUnresolved then
      match x.struct? with
      | some _ => [(NameCause.noField f.name).report f.info.span]
      | none => [NameCause.notStruct.report x.info.span]
    else f.blame fs

end Ident

namespace Exp

/-- The links of a chain of fields, the root first. -/
def links : Exp → List Ident
  | .ident x => [x]
  | .access _ _ loc f => loc.links ++ [f]
  | _ => []

/-- What is reported of a chain: only of the first link that fails. -/
def chainComplaints : List Ident → List Report
  | [] => []
  | x :: fs => if x.isUnresolved then x.complaints .undeclared else x.blame fs

mutual

/-- What is reported of an expression. -/
def complaints : Exp → List Report
  | .int .. | .string .. | .bool .. | .unknown _ => []
  | .ident x => chainComplaints [x]
  | .access _ _ loc f => chainComplaints (loc.links ++ [f])
  | .assign _ l r | .binary _ _ l r => l.complaints ++ r.complaints
  | .call _ f _ args => f.complaints .undeclared ++ listComplaints args
  | .neg _ e | .not _ e => e.complaints
termination_by structural e => e

/-- What is reported of expressions. -/
def listComplaints : List Exp → List Report
  | [] => []
  | e :: es => e.complaints ++ listComplaints es
termination_by structural es => es

end

end Exp

namespace VarDecl

/-- What is reported of the type of a variable. -/
def typeComplaints (d : VarDecl) : List Report :=
  match d.type with
  | .void _ => [NameCause.voidVariable.report d.name.info.span]
  | .struct _ x => x.complaints .unknownStruct
  | _ => []

/-- What is reported of the variables of a scope, after those declared earlier. -/
def listComplaints (cause : String → NameCause) (earlier : Scope Symbol) :
    List VarDecl → List Report
  | [] => []
  | d :: ds =>
    d.typeComplaints ++
      (if (earlier.find? d.name.name).isSome then [(cause d.name.name).report d.name.info.span]
        else []) ++
      listComplaints cause (earlier ++ d.name.declared) ds

end VarDecl

namespace Stmt

mutual

/-- What is reported of a statement. -/
def complaints : Stmt → List Report
  | .assign _ e | .increment _ e | .decrement _ e | .read _ e | .write _ e | .call _ e
  | .return _ (some e) => e.complaints
  | .ifThen _ e b | .while _ e b => e.complaints ++ blockComplaints b
  | .ifElse _ e b₁ b₂ => e.complaints ++ (blockComplaints b₁ ++ blockComplaints b₂)
  | .return _ none | .unknown _ => []
termination_by structural s => s

/-- What is reported of a block. -/
def blockComplaints : Block Stmt → List Report
  | ⟨ds, _, ss⟩ => VarDecl.listComplaints .duplicate [] ds.items ++ listComplaints ss
termination_by structural b => b

/-- What is reported of statements. -/
def listComplaints : List Stmt → List Report
  | [] => []
  | s :: ss => s.complaints ++ listComplaints ss
termination_by structural ss => ss

end

end Stmt

namespace Decl

/-- What is reported of a declaration at the top, after those declared earlier. -/
def complaints (earlier : Scope Symbol) : Decl → List Report
  | .var d => VarDecl.listComplaints .duplicate earlier [d]
  | .fn d =>
    d.name.complaints .duplicate ++
      (VarDecl.listComplaints .duplicate [] (d.formals.items ++ d.body.decls.items) ++
        Stmt.listComplaints d.body.stmts)
  | .struct d =>
    d.name.complaints .duplicate ++ VarDecl.listComplaints .duplicateField [] d.fields.items
  | .unknown _ => []

/-- What is reported of declarations at the top, after those declared earlier. -/
def listComplaints (earlier : Scope Symbol) : List Decl → List Report
  | [] => []
  | d :: ds => d.complaints earlier ++ listComplaints (earlier ++ d.symbols) ds

end Decl

/-- What is reported of a program. -/
def Program.complaints (p : Program) : List Report := Decl.listComplaints [] p.decls

end CMinusMinus
