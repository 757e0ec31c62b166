import CMinusMinus.Resolve.Stmt

/-!
# Name resolution

Declarations are visited in order, so a name is visible from its declaration on.  A function is
declared before its formals and body, which may call it; its formals and the locals of its body
share one scope.  The fields of a struct have a scope of their own, which no name is looked up
in.

A rejected function is resolved all the same, and so are the fields of a rejected struct.
-/

namespace CMinusMinus

namespace Resolve

/-- A name for its declaration in the innermost scope: bound to the symbol, and the scopes with
it, unless the name is taken. -/
def name (env : Env) (x : Ident) (symbol : Symbol) : Resolved (Ident × Env) :=
  match taken env x.name with
  | some cause => .reporting (x.fail, env) [cause.report x.info.span]
  | none => .pure (x.bind symbol, env.insert x.name symbol)

/-- Whether the declaration is that of a function named `main`. -/
def isMain : Decl → Bool
  | .fn d => d.name.name == "main"
  | _ => false

/-- The types of a function's formals, if each of them has one. -/
def paramTypes (formals : List VarDecl) : List Ty :=
  if formals.all fun d => (d.type.type matches .ok _) then formals.map (paramType ·.type) else []

/-- What a function of the given result is declared as. -/
def signature (d : FnDecl) (returns : Ty) : Signature :=
  ⟨d.name.name, d.span, returns, d.formals.items.length, paramTypes d.formals.items⟩

/-- A function with its names bound and its frame laid out. -/
def fnDecl (env : Env) (d : FnDecl) : Resolved (FnDecl × Env) :=
  match d.returns.type with
  | .error fault => .stop (d, env) fault
  | .ok returns =>
    (name env d.name (.function (signature d returns))).andThen
      (fun (x, env) => ({ d with name := x }, env)) fun (x, env) =>
        let d := { d with name := x }
        (formals env.enter {} d.formals.items).andThen
          (fun (items, _) => ({ d with formals := { d.formals with items } }, env))
          fun (items, inner, frame) =>
            let d := { d with formals := { d.formals with items } }
            (block inner frame d.body).andThen
              (fun (body, _) => ({ d with body }, env))
              fun (body, frame) => .pure ({ d with body, frame := some frame }, env)

/-- A struct with its names bound.  Whether its name is taken is reported before its fields. -/
def structDecl (env : Env) (d : StructDecl) : Resolved (StructDecl × Env) :=
  let cause := taken env d.name.name
  (Outcome.reporting () (cause.map (·.report d.name.info.span)).toList).andThen
    (fun _ => (d, env)) fun _ =>
      (fields env [] 0 d.fields.items).andThen
        (fun (items, _) => ({ d with fields := { d.fields with items } }, env))
        fun (items, layout, size) =>
          let d := { d with fields := { d.fields with items } }
          match cause with
          | some _ => .pure ({ d with name := d.name.fail }, env)
          | none =>
            let symbol := Symbol.struct ⟨d.name.name, d.span, layout, size⟩
            logged (some size)
              ({ d with name := d.name.bind symbol }, env.insert d.name.name symbol)

/-- A declaration at the top of a program with its names bound. -/
def decl (env : Env) : Decl → Resolved (Decl × Env)
  | .var d =>
    match d.role with
    | .formal => .stop (.var d, env) ⟨.unknownDecl d.kind, d.span⟩
    | .variable =>
      (declare env (taken env d.name.name) (fun _ => .static) d).map fun (d, s) =>
        (.var d, extend env s)
  | .fn d => (fnDecl env d).map fun (d, env) => (.fn d, env)
  | .struct d => (structDecl env d).map fun (d, env) => (.struct d, env)
  | .unknown s => .stop (.unknown s, env) ⟨.unknownDecl (Decl.unknown s).kind, s⟩

/-- Declarations at the top of a program with their names bound, and whether a function named
`main` was among those visited. -/
def decls (env : Env) : List Decl → Resolved (List Decl × Env × Bool)
  | [] => .pure ([], env, false)
  | d :: ds =>
    (decl env d).andThen (fun (d', env) => (d' :: ds, env, isMain d)) fun (d', env) =>
      (decls env ds).map fun (ds, env, main) => (d' :: ds, env, isMain d || main)

end Resolve

/-- What name resolution leaves of a program. -/
structure Resolution where
  program : Program
  /-- The accepted declarations at the top of the program, if the pass came to its end. -/
  globals : Option (Scope Symbol)
  /-- Whether a function named `main` was visited. -/
  hasMain : Bool
  reports : List Report
  fault : Option Fault

namespace Program

/-- The program with its names bound, in scopes that are open already.  There should be none. -/
def resolveIn (enclosing : Env) (p : Program) : Resolution :=
  let o := Resolve.decls enclosing.enter p.decls
  let (decls, env, hasMain) := o.value
  let balance : Option Fault :=
    if enclosing.isEmpty then none else some ⟨.unbalancedScopes, p.span⟩
  let fault := o.fault <|> balance
  { program := { p with decls }
    globals := if fault.isSome then none else some (env.headD [])
    hasMain, reports := o.reports, fault }

/-- The program with its names bound. -/
def resolve (p : Program) : Resolution := p.resolveIn []

end Program

end CMinusMinus
