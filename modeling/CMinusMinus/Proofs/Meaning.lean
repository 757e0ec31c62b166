import CMinusMinus.Proofs.Layout.Words
import CMinusMinus.Proofs.Typing.Functions
import CMinusMinus.Proofs.Word

/-!
# The meaning of programs

What a program does, told of the tree alone and not of its code: of names and not of what they
are bound to, of fields by their names and not by their offsets.

A variable holds a word for each way that leads through its fields to one.  Globals hold zeros at
the start, locals hold nothing until something is stored in them.  Of two operands the right one
is evaluated first, also of `&&` and `||`, which evaluate both.  Arithmetic wraps around at
32 bits, and truth values are the words zero and one.

A program has no meaning where it reads a local that holds nothing, divides by zero, reads more
input than there is, uses the result of a function that ended without one, applies `!`, `&&` or
`||` to words other than the truth values, compares texts, or calls the main function.
-/

namespace CMinusMinus

/-! ## Stores -/

/-- What the words of a variable hold, by the fields that lead to them. -/
abbrev Contents := List String → Option Word

/-- The contents with another word at the end of a path. -/
def Contents.set (c : Contents) (path : List String) (w : Word) : Contents :=
  fun path' => if path' = path then some w else c path'

namespace Scope

variable {σ : Type}

/-- The scope with a change of what it declares a name as. -/
def update (name : String) (f : σ → σ) : Scope σ → Scope σ
  | [] => []
  | d :: scope => if d.1 = name then (d.1, f d.2) :: scope else d :: update name f scope

end Scope

namespace Scopes

variable {σ : Type}

/-- The scopes with a change in the innermost one that has a name. -/
def update (name : String) (f : σ → σ) : Scopes σ → Scopes σ
  | [] => []
  | scope :: outer =>
    if (scope.find? name).isSome then scope.update name f :: outer
    else scope :: update name f outer

end Scopes

/-- The variables, the input that was not read yet, and what was to be seen so far. -/
structure Store where
  globals : Scope Contents
  locals : Scopes Contents := []
  input : List Word
  events : List Event := []

namespace Store

/-- All scopes, the innermost first. -/
def scopes (σ : Store) : Scopes Contents := σ.locals ++ [σ.globals]

/-- What a location holds. -/
def read? (σ : Store) (loc : Exp) : Option Word :=
  (loc.root?.bind fun x => σ.scopes.find? x.name).bind (· loc.fieldPath)

/-- The store with another word in a variable. -/
def assign (σ : Store) (name : String) (path : List String) (w : Word) : Store :=
  if (σ.locals.find? name).isSome then
    { σ with locals := σ.locals.update name (Contents.set · path w) }
  else { σ with globals := σ.globals.update name (Contents.set · path w) }

/-- The store with another word at a location. -/
def write (σ : Store) (loc : Exp) (w : Word) : Store :=
  match loc.root? with
  | some x => σ.assign x.name loc.fieldPath w
  | none => σ

/-- The store with other local scopes. -/
def within (σ : Store) (locals : Scopes Contents) : Store := { σ with locals := locals }

/-- Declares locals in the innermost scope. -/
def declare (σ : Store) (ds : List VarDecl) : Store :=
  σ.within (ds.foldl (fun scopes d => scopes.insert d.name.name fun _ => none) σ.locals)

/-- The store after a word of the input was taken. -/
def take (σ : Store) (w : Word) : Store :=
  { σ with input := σ.input.tail, events := σ.events ++ [.taken w] }

/-- The store with one more printed value. -/
def print (σ : Store) (v : Value) : Store := { σ with events := σ.events ++ [.printed v] }

end Store

/-! ## Operators -/

/-- What the operator makes of two truth values. -/
def Word.connect? (f : Bool → Bool → Bool) (a b : Word) : Option Word :=
  match Word.truth? a, Word.truth? b with
  | some x, some y => some (Word.ofBool (f x y))
  | _, _ => none

/-- What an operator makes of its left and its right operand. -/
def BinOp.combine? : BinOp → Word → Word → Option Word
  | .add, a, b => some (a + b)
  | .sub, a, b => some (a - b)
  | .mul, a, b => some (a * b)
  | .div, a, b => if b = 0 then none else some (a.sdiv b)
  | .and, a, b => Word.connect? (· && ·) a b
  | .or, a, b => Word.connect? (· || ·) a b
  | .less, a, b => some (Word.ofBool (a.slt b))
  | .greater, a, b => some (Word.ofBool (b.slt a))
  | .lessEq, a, b => some (Word.ofBool (a.sle b))
  | .greaterEq, a, b => some (Word.ofBool (b.sle a))
  | .equal, a, b => some (Word.ofBool (a == b))
  | .notEqual, a, b => some (Word.ofBool (a != b))
  | .other _, _, _ => none

/-! ## Evaluation -/

/-- How the execution of a statement ends. -/
inductive Flow where
  /-- With what comes after it. -/
  | next
  /-- With the end of the function, and perhaps its result. -/
  | return (result : Option Word)
  deriving DecidableEq, Repr

/-- The result of a function whose body ends so. -/
def Flow.result : Flow → Option Word
  | .next => none
  | .return result => result

/-- The scope of the formals of a function that is called with words. -/
def VarDecls.bind (formals : VarDecls) (ws : List Word) : Scope Contents :=
  formals.items.zipWith (fun d w => (d.name.name, fun _ => some w)) ws

section Evaluation

variable (ds : List Decl)

mutual

/-- The expression has the value, and its evaluation leads from one store to another. -/
inductive Evaluates : Store → Exp → Value → Store → Prop where
  | int {σ : Store} {i : Info} {v : Int} :
    Evaluates σ (.int i v) (.word (BitVec.ofInt 32 v)) σ
  | bool {σ : Store} {i : Info} {b : Bool} : Evaluates σ (.bool i b) (.word (Word.ofBool b)) σ
  | string {σ : Store} {i : Info} {text : String} : Evaluates σ (.string i text) (.text text) σ
  | location {σ : Store} {e : Exp} {w : Word} :
    e.isLocation = true → σ.read? e = some w → Evaluates σ e (.word w) σ
  | assign {σ σ' : Store} {i : Info} {l r : Exp} {w : Word} :
    Evaluates σ r (.word w) σ' → Evaluates σ (.assign i l r) (.word w) (σ'.write l w)
  | call {σ σ₁ σ₂ : Store} {i : Info} {f : Ident} {sp : Option Span} {args : List Exp}
    {ws : List Word} {w : Word} :
    EvaluatesAll σ args ws σ₁ → f.name ≠ "main" → Invokes σ₁ f.name ws (some w) σ₂ →
    Evaluates σ (.call i f sp args) (.word w) σ₂
  | neg {σ σ' : Store} {i : Info} {e : Exp} {w : Word} :
    Evaluates σ e (.word w) σ' → Evaluates σ (.neg i e) (.word (-w)) σ'
  | not {σ σ' : Store} {i : Info} {e : Exp} {b : Bool} :
    Evaluates σ e (.word (Word.ofBool b)) σ' →
    Evaluates σ (.not i e) (.word (Word.ofBool !b)) σ'
  | binary {σ σ₁ σ₂ : Store} {i : Info} {op : BinOp} {l r : Exp} {a b w : Word} :
    Evaluates σ r (.word b) σ₁ → Evaluates σ₁ l (.word a) σ₂ → op.combine? a b = some w →
    Evaluates σ (.binary i op l r) (.word w) σ₂

/-- The expressions have the words, from left to right. -/
inductive EvaluatesAll : Store → List Exp → List Word → Store → Prop where
  | nil {σ : Store} : EvaluatesAll σ [] [] σ
  | cons {σ σ₁ σ₂ : Store} {e : Exp} {es : List Exp} {w : Word} {ws : List Word} :
    Evaluates σ e (.word w) σ₁ → EvaluatesAll σ₁ es ws σ₂ → EvaluatesAll σ (e :: es) (w :: ws) σ₂

/-- The function of the name, called with the words, ends with the result. -/
inductive Invokes : Store → String → List Word → Option Word → Store → Prop where
  | intro {σ σ' : Store} {name : String} {ws : List Word} {d : FnDecl} {flow : Flow} :
    d ∈ Decl.functions ds → d.name.name = name → d.formals.items.length = ws.length →
    ExecutesBlock (σ.within [d.formals.bind ws]) d.body flow σ' →
    Invokes σ name ws flow.result (σ'.within σ.locals)

/-- The execution of the statement leads from one store to another. -/
inductive Executes : Store → Stmt → Flow → Store → Prop where
  | assign {σ σ' : Store} {sp : Option Span} {e : Exp} {v : Value} :
    Evaluates σ e v σ' → Executes σ (.assign sp e) .next σ'
  | increment {σ : Store} {sp : Option Span} {e : Exp} {w : Word} :
    σ.read? e = some w → Executes σ (.increment sp e) .next (σ.write e (w + 1))
  | decrement {σ : Store} {sp : Option Span} {e : Exp} {w : Word} :
    σ.read? e = some w → Executes σ (.decrement sp e) .next (σ.write e (w - 1))
  | read {σ : Store} {sp : Option Span} {e : Exp} {w : Word} :
    σ.input.head? = some w → Executes σ (.read sp e) .next ((σ.take w).write e w)
  | write {σ σ' : Store} {sp : Option Span} {e : Exp} {v : Value} :
    Evaluates σ e v σ' → Executes σ (.write sp e) .next (σ'.print v)
  | ifTrue {σ σ₁ σ₂ : Store} {sp : Option Span} {e : Exp} {b : Block Stmt} {w : Word}
    {flow : Flow} :
    Evaluates σ e (.word w) σ₁ → w ≠ 0 → ExecutesInner σ₁ b flow σ₂ →
    Executes σ (.ifThen sp e b) flow σ₂
  | ifFalse {σ σ' : Store} {sp : Option Span} {e : Exp} {b : Block Stmt} :
    Evaluates σ e (.word 0) σ' → Executes σ (.ifThen sp e b) .next σ'
  | ifElseTrue {σ σ₁ σ₂ : Store} {sp : Option Span} {e : Exp} {yes no : Block Stmt} {w : Word}
    {flow : Flow} :
    Evaluates σ e (.word w) σ₁ → w ≠ 0 → ExecutesInner σ₁ yes flow σ₂ →
    Executes σ (.ifElse sp e yes no) flow σ₂
  | ifElseFalse {σ σ₁ σ₂ : Store} {sp : Option Span} {e : Exp} {yes no : Block Stmt}
    {flow : Flow} :
    Evaluates σ e (.word 0) σ₁ → ExecutesInner σ₁ no flow σ₂ →
    Executes σ (.ifElse sp e yes no) flow σ₂
  | whileFalse {σ σ' : Store} {sp : Option Span} {e : Exp} {b : Block Stmt} :
    Evaluates σ e (.word 0) σ' → Executes σ (.while sp e b) .next σ'
  | whileReturn {σ σ₁ σ₂ : Store} {sp : Option Span} {e : Exp} {b : Block Stmt} {w : Word}
    {result : Option Word} :
    Evaluates σ e (.word w) σ₁ → w ≠ 0 → ExecutesInner σ₁ b (.return result) σ₂ →
    Executes σ (.while sp e b) (.return result) σ₂
  | whileTrue {σ σ₁ σ₂ σ₃ : Store} {sp : Option Span} {e : Exp} {b : Block Stmt} {w : Word}
    {flow : Flow} :
    Evaluates σ e (.word w) σ₁ → w ≠ 0 → ExecutesInner σ₁ b .next σ₂ →
    Executes σ₂ (.while sp e b) flow σ₃ → Executes σ (.while sp e b) flow σ₃
  | call {σ σ₁ σ₂ : Store} {sp : Option Span} {i : Info} {f : Ident} {sp' : Option Span}
    {args : List Exp} {ws : List Word} {result : Option Word} :
    EvaluatesAll σ args ws σ₁ → f.name ≠ "main" → Invokes σ₁ f.name ws result σ₂ →
    Executes σ (.call sp (.call i f sp' args)) .next σ₂
  | exit {σ : Store} {sp : Option Span} : Executes σ (.return sp none) (.return none) σ
  | return {σ σ' : Store} {sp : Option Span} {e : Exp} {w : Word} :
    Evaluates σ e (.word w) σ' → Executes σ (.return sp (some e)) (.return (some w)) σ'

/-- The execution of the block, whose scope is open. -/
inductive ExecutesBlock : Store → Block Stmt → Flow → Store → Prop where
  | intro {σ σ' : Store} {vs : VarDecls} {sp : Option Span} {ss : List Stmt} {flow : Flow} :
    ExecutesAll (σ.declare vs.items) ss flow σ' → ExecutesBlock σ ⟨vs, sp, ss⟩ flow σ'

/-- The execution of the block in a scope of its own. -/
inductive ExecutesInner : Store → Block Stmt → Flow → Store → Prop where
  | intro {σ σ' : Store} {b : Block Stmt} {flow : Flow} :
    ExecutesBlock (σ.within σ.locals.enter) b flow σ' →
    ExecutesInner σ b flow (σ'.within σ'.locals.tail)

/-- The execution of the statements, up to the first one that ends the function. -/
inductive ExecutesAll : Store → List Stmt → Flow → Store → Prop where
  | nil {σ : Store} : ExecutesAll σ [] .next σ
  | return {σ σ' : Store} {s : Stmt} {ss : List Stmt} {result : Option Word} :
    Executes σ s (.return result) σ' → ExecutesAll σ (s :: ss) (.return result) σ'
  | cons {σ σ₁ σ₂ : Store} {s : Stmt} {ss : List Stmt} {flow : Flow} :
    Executes σ s .next σ₁ → ExecutesAll σ₁ ss flow σ₂ → ExecutesAll σ (s :: ss) flow σ₂

end

end Evaluation

/-! ## Programs -/

/-- The variables of a program as it starts. -/
def Program.start (p : Program) (input : List Word) : Store where
  globals := p.decls.filterMap fun
    | .var d => some (d.name.name, fun _ => some 0)
    | _ => none
  input := input

/-- The main function of the program, called with no words, comes to its end on the input, with so
much to be seen. -/
def Program.Runs (p : Program) (input : List Word) (events : List Event) : Prop :=
  ∃ result σ, Invokes p.decls (p.start input) "main" [] result σ ∧ σ.events = events

end CMinusMinus
