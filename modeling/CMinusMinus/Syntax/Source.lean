import CMinusMinus.Syntax

/-!
# Programs as text

A program is written so that reading the text gives the program again: operators and assignments
inside expressions stand in parentheses, each block is indented by four spaces more than the
block around it, and functions and structs are followed by an empty line unless they come last.

A node of unknown kind has no text, and neither has a formal outside the formals of a function.
`unprintable?` finds the first of them in the order of writing.
-/

namespace CMinusMinus

/-- What cannot be written: the category that was expected and the kind of node that was there. -/
structure Unprintable where
  category : String
  kind : String
  deriving DecidableEq, Repr

/-- The report in words. -/
def Unprintable.message (u : Unprintable) : String :=
  "cannot unparse " ++ u.category ++ " " ++ u.kind

/-! ## Types and variables -/

namespace TypeNode

/-- The type as it is written. -/
def source : TypeNode → String
  | .int _ => "int"
  | .bool _ => "bool"
  | .void _ => "void"
  | .struct _ x => "struct " ++ x.name
  | .unknown _ => ""

/-- What of the type cannot be written. -/
def unprintable? : TypeNode → Option Unprintable
  | .unknown s => some ⟨"type", (TypeNode.unknown s).kind⟩
  | _ => none

end TypeNode

namespace VarDecl

/-- The type and the name. -/
def source (d : VarDecl) : String := d.type.source ++ " " ++ d.name.name

/-- What of the declaration cannot be written, where declarations of variables stand. -/
def unprintable? (d : VarDecl) : Option Unprintable :=
  match d.role with
  | .formal => some ⟨"declaration", d.kind⟩
  | .variable => d.type.unprintable?

end VarDecl

/-! ## Expressions -/

mutual

/-- An expression as it is written.  An assignment needs no parentheses at the `top`, where the
whole expression stands by itself. -/
def Exp.source (top : Bool) : Exp → String
  | .int _ v => toString v
  | .string _ s => "\"" ++ s ++ "\""
  | .bool _ b => if b then "true" else "false"
  | .ident x => x.name
  | .access _ _ loc f => loc.source false ++ "." ++ f.name
  | .assign _ l r =>
    let text := l.source false ++ " = " ++ r.source true
    if top then text else "(" ++ text ++ ")"
  | .call _ f _ args => f.name ++ "(" ++ ", ".intercalate (Exp.sources args) ++ ")"
  | .neg _ e => "(-" ++ e.source false ++ ")"
  | .not _ e => "(!" ++ e.source false ++ ")"
  | .binary _ op l r => "(" ++ l.source false ++ " " ++ op.text ++ " " ++ r.source false ++ ")"
  | .unknown _ => ""
termination_by structural e => e

/-- Each expression of a list as it is written. -/
def Exp.sources : List Exp → List String
  | [] => []
  | e :: es => e.source true :: Exp.sources es
termination_by structural es => es

end

mutual

/-- What of an expression cannot be written. -/
def Exp.unprintable? : Exp → Option Unprintable
  | .int .. | .string .. | .bool .. | .ident _ => none
  | .access _ _ loc _ => loc.unprintable?
  | .assign _ l r => l.unprintable? <|> r.unprintable?
  | .call _ _ _ args => Exp.firstUnprintable? args
  | .neg _ e => e.unprintable?
  | .not _ e => e.unprintable?
  | .binary _ _ l r => l.unprintable? <|> r.unprintable?
  | .unknown i => some ⟨"expression", (Exp.unknown i).kind⟩
termination_by structural e => e

/-- What of a list of expressions cannot be written. -/
def Exp.firstUnprintable? : List Exp → Option Unprintable
  | [] => none
  | e :: es => e.unprintable? <|> Exp.firstUnprintable? es
termination_by structural es => es

end

/-! ## Statements -/

/-- A line of text, as deep in blocks as given. -/
def indented (depth : Nat) (text : String) : String :=
  String.ofList (List.replicate (4 * depth) ' ') ++ text

/-- The lines of declarations of variables. -/
def VarDecls.source (depth : Nat) (ds : VarDecls) : List String :=
  ds.items.map fun d => indented depth (d.source ++ ";")

/-- What of declarations of variables cannot be written. -/
def VarDecls.unprintable? (ds : VarDecls) : Option Unprintable :=
  ds.items.findSome? VarDecl.unprintable?

mutual

/-- The lines of a statement. -/
def Stmt.source (depth : Nat) : Stmt → List String
  | .assign _ e => [indented depth (e.source true ++ ";")]
  | .increment _ e => [indented depth (e.source false ++ "++;")]
  | .decrement _ e => [indented depth (e.source false ++ "--;")]
  | .read _ e => [indented depth ("cin >> " ++ e.source false ++ ";")]
  | .write _ e => [indented depth ("cout << " ++ e.source true ++ ";")]
  | .ifThen _ e b =>
    indented depth ("if (" ++ e.source true ++ ") \x7b") :: Stmt.blockSource (depth + 1) b
      ++ [indented depth "\x7d"]
  | .ifElse _ e b₁ b₂ =>
    indented depth ("if (" ++ e.source true ++ ") \x7b") :: Stmt.blockSource (depth + 1) b₁
      ++ indented depth "\x7d" :: indented depth "else \x7b" :: Stmt.blockSource (depth + 1) b₂
      ++ [indented depth "\x7d"]
  | .while _ e b =>
    indented depth ("while (" ++ e.source true ++ ") \x7b") :: Stmt.blockSource (depth + 1) b
      ++ [indented depth "\x7d"]
  | .call _ e => [indented depth (e.source false ++ ";")]
  | .return _ none => [indented depth "return;"]
  | .return _ (some e) => [indented depth ("return " ++ e.source true ++ ";")]
  | .unknown _ => []
termination_by structural s => s

/-- The lines between the braces of a block. -/
def Stmt.blockSource (depth : Nat) : Block Stmt → List String
  | ⟨decls, _, ss⟩ => decls.source depth ++ Stmt.sources depth ss
termination_by structural b => b

/-- The lines of statements. -/
def Stmt.sources (depth : Nat) : List Stmt → List String
  | [] => []
  | s :: ss => s.source depth ++ Stmt.sources depth ss
termination_by structural ss => ss

end

mutual

/-- What of a statement cannot be written. -/
def Stmt.unprintable? : Stmt → Option Unprintable
  | .assign _ e | .increment _ e | .decrement _ e | .read _ e | .write _ e | .call _ e =>
    e.unprintable?
  | .ifThen _ e b => e.unprintable? <|> Stmt.blockUnprintable? b
  | .ifElse _ e b₁ b₂ =>
    e.unprintable? <|> Stmt.blockUnprintable? b₁ <|> Stmt.blockUnprintable? b₂
  | .while _ e b => e.unprintable? <|> Stmt.blockUnprintable? b
  | .return _ e => e.bind Exp.unprintable?
  | .unknown s => some ⟨"statement", (Stmt.unknown s).kind⟩
termination_by structural s => s

/-- What of a block cannot be written. -/
def Stmt.blockUnprintable? : Block Stmt → Option Unprintable
  | ⟨decls, _, ss⟩ => decls.unprintable? <|> Stmt.firstUnprintable? ss
termination_by structural b => b

/-- What of a list of statements cannot be written. -/
def Stmt.firstUnprintable? : List Stmt → Option Unprintable
  | [] => none
  | s :: ss => s.unprintable? <|> Stmt.firstUnprintable? ss
termination_by structural ss => ss

end

/-! ## Programs -/

namespace Decl

/-- The lines of a declaration at the top of a program. -/
def source : Decl → List String
  | .var d => [d.source ++ ";"]
  | .struct d => ("struct " ++ d.name.name ++ " \x7b") :: d.fields.source 1 ++ ["\x7d;"]
  | .fn d =>
    (d.returns.source ++ " " ++ d.name.name ++ "("
        ++ ", ".intercalate (d.formals.items.map VarDecl.source) ++ ") \x7b")
      :: Stmt.blockSource 1 d.body ++ ["\x7d"]
  | .unknown _ => []

/-- What of a declaration at the top of a program cannot be written. -/
def unprintable? : Decl → Option Unprintable
  | .var d => d.unprintable?
  | .struct d => d.fields.unprintable?
  | .fn d =>
    d.formals.items.findSome? (·.type.unprintable?) <|> d.returns.unprintable?
      <|> Stmt.blockUnprintable? d.body
  | .unknown s => some ⟨"declaration", (Decl.unknown s).kind⟩

/-- Whether an empty line follows the declaration. -/
def standsApart : Decl → Bool
  | .fn _ | .struct _ => true
  | _ => false

/-- The lines of the declarations of a program. -/
def sources : List Decl → List String
  | [] => []
  | [d] => d.source
  | d :: ds => d.source ++ (if d.standsApart then [""] else []) ++ sources ds

end Decl

namespace Program

/-- The text of a program, leaving out what cannot be written. -/
def text (p : Program) : String := "\n".intercalate (Decl.sources p.decls) ++ "\n"

/-- The text of a program, if all of it can be written. -/
def source (p : Program) : Except Unprintable String :=
  match p.decls.findSome? Decl.unprintable? with
  | some u => .error u
  | none => .ok p.text

end Program

end CMinusMinus
