import CMinusMinus.Check.Stmt

/-!
# Type checking

Only the bodies of functions have types to check; what a declaration may say was settled when
its names were resolved.  A program without a function named `main` is reported at no place of
its text.
-/

namespace CMinusMinus

namespace Check

/-- The function with the types of its expressions. -/
def fnDecl (d : FnDecl) : Checked FnDecl :=
  match d.returns.type with
  | .error fault => .stop d fault
  | .ok returns => (block returns d.body).map fun body => { d with body }

/-- The declaration with the types of its expressions. -/
def decl : Decl → Checked Decl
  | .fn d => (fnDecl d).map .fn
  | d => .pure d

/-- The declarations with the types of their expressions. -/
def decls : List Decl → Checked (List Decl)
  | [] => .pure []
  | d :: ds => (decl d).andThen (· :: ds) fun d => (decls ds).map (d :: ·)

/-- What is reported of a program without a function named `main`. -/
def noMain : Report := ⟨.typing .noMain, { line := some 0, column := some 0 }⟩

end Check

/-- The program with the types of its expressions, given whether it has a function named
`main`. -/
def Program.check (hasMain : Bool) (p : Program) : Checked Program :=
  (Check.decls p.decls).andThen (fun decls => { p with decls }) fun decls =>
    .reporting { p with decls } (if hasMain then [] else [Check.noMain])

end CMinusMinus
