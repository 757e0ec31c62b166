import CMinusMinus.Proofs.Grammar

/-!
# The grammar

Which lists of tokens are programs, and of which trees.  There is one rule for each production, and
the tree of a derivation is put together as its rules say; spans and annotations are left empty.

Binary operators are told by two small tables, those that group to the left, `x ::= x op y`, and
those that stand alone, `x ::= y op y`; a third one lists the unit productions `x ::= y`.
-/

namespace CMinusMinus

namespace Grammar

/-! ## Expressions -/

/-- The nonterminals that derive expressions, from the loosest to the tightest. -/
inductive Nonterminal where
  | exp | or | and | eq | rel | add | mul | unary | primary | loc
  deriving DecidableEq, Repr

open Nonterminal

/-- The unit productions, `x ::= y`. -/
inductive Passes : Nonterminal → Nonterminal → Prop where
  | exp : Passes exp or
  | or : Passes or and
  | and : Passes and eq
  | eq : Passes eq rel
  | rel : Passes rel add
  | add : Passes add mul
  | mul : Passes mul unary
  | unary : Passes unary primary
  | primary : Passes primary loc

/-- The operators of the productions `x ::= x op y`. -/
inductive Groups : Nonterminal → Nonterminal → Mark → BinOp → Prop where
  | or : Groups or and .or .or
  | and : Groups and eq .and .and
  | plus : Groups add mul .plus .add
  | minus : Groups add mul .minus .sub
  | times : Groups mul unary .times .mul
  | divide : Groups mul unary .divide .div

/-- The operators of the productions `x ::= y op y`. -/
inductive Alone : Nonterminal → Nonterminal → Mark → BinOp → Prop where
  | equals : Alone eq rel .equals .equal
  | notEquals : Alone eq rel .notEquals .notEqual
  | less : Alone rel add .less .less
  | greater : Alone rel add .greater .greater
  | lessEq : Alone rel add .lessEq .lessEq
  | greaterEq : Alone rel add .greaterEq .greaterEq

/-- The name that a token is. -/
def identOf (t : Token) : Ident := { name := t.text }

mutual

/-- The nonterminal derives the tokens, and this is the tree of the derivation. -/
inductive Derives : Nonterminal → List Token → Exp → Prop where
  | pass {x y : Nonterminal} {ts : List Token} {e : Exp} :
    Passes x y → Derives y ts e → Derives x ts e
  | groups {x y : Nonterminal} {m : Mark} {op : BinOp} {ts us : List Token} {t : Token}
    {l r : Exp} :
    Groups x y m op → Derives x ts l → t.kind = .mark m → Derives y us r →
    Derives x (ts ++ t :: us) (.binary {} op l r)
  | alone {x y : Nonterminal} {m : Mark} {op : BinOp} {ts us : List Token} {t : Token}
    {l r : Exp} :
    Alone x y m op → Derives y ts l → t.kind = .mark m → Derives y us r →
    Derives x (ts ++ t :: us) (.binary {} op l r)
  | assign {ts us : List Token} {t : Token} {l r : Exp} :
    Derives or ts l → l.isLocation = true → t.kind = .mark .assign → Derives exp us r →
    Derives exp (ts ++ t :: us) (.assign {} l r)
  | not {t : Token} {ts : List Token} {e : Exp} :
    t.kind = .mark .not → Derives unary ts e → Derives unary (t :: ts) (.not {} e)
  | neg {t : Token} {ts : List Token} {e : Exp} :
    t.kind = .mark .minus → Derives unary ts e → Derives unary (t :: ts) (.neg {} e)
  | int {t : Token} {v : Nat} :
    t.kind = .numeral → Text.decimal? t.text.toList = some v → Derives primary [t] (.int {} v)
  | string {t : Token} : t.kind = .string → Derives primary [t] (.string {} t.text)
  | true {t : Token} : t.kind = .keyword .true → Derives primary [t] (.bool {} Bool.true)
  | false {t : Token} : t.kind = .keyword .false → Derives primary [t] (.bool {} Bool.false)
  | group {t u : Token} {ts : List Token} {e : Exp} :
    t.kind = .mark .leftParen → Derives exp ts e → u.kind = .mark .rightParen →
    Derives primary (t :: ts ++ [u]) e
  | call {f t u : Token} {ts : List Token} {es : List Exp} :
    f.kind = .name → t.kind = .mark .leftParen → Arguments ts es →
    u.kind = .mark .rightParen →
    Derives primary (f :: t :: ts ++ [u]) (.call {} (identOf f) none es)
  | name {t : Token} : t.kind = .name → Derives loc [t] (.ident (identOf t))
  | field {ts : List Token} {e : Exp} {t f : Token} :
    Derives loc ts e → t.kind = .mark .dot → f.kind = .name →
    Derives loc (ts ++ [t, f]) (.access {} {} e (identOf f))

/-- Expressions with commas between them, or none. -/
inductive Arguments : List Token → List Exp → Prop where
  | none : Arguments [] []
  | some {ts : List Token} {es : List Exp} : ArgumentList ts es → Arguments ts es

/-- Expressions with commas between them. -/
inductive ArgumentList : List Token → List Exp → Prop where
  | last {ts : List Token} {e : Exp} : Derives exp ts e → ArgumentList ts [e]
  | cons {ts us : List Token} {t : Token} {e : Exp} {es : List Exp} :
    Derives exp ts e → t.kind = .mark .comma → ArgumentList us es →
    ArgumentList (ts ++ t :: us) (e :: es)

end

/-! ## Declarations of variables -/

/-- The token names a word type. -/
inductive WordType : Token → TypeNode → Prop where
  | int {t : Token} : t.kind = .keyword .int → WordType t (.int none)
  | bool {t : Token} : t.kind = .keyword .bool → WordType t (.bool none)
  | void {t : Token} : t.kind = .keyword .void → WordType t (.void none)

/-- A variable of a word type, or of a struct. -/
inductive Variable : List Token → VarDecl → Prop where
  | word {t x u : Token} {type : TypeNode} :
    WordType t type → x.kind = .name → u.kind = .mark .semi →
    Variable [t, x, u] ⟨.variable, none, type, identOf x⟩
  | struct {t s x u : Token} :
    t.kind = .keyword .struct → s.kind = .name → x.kind = .name → u.kind = .mark .semi →
    Variable [t, s, x, u] ⟨.variable, none, .struct none (identOf s), identOf x⟩

/-- Any number of variables. -/
inductive Variables : List Token → List VarDecl → Prop where
  | nil : Variables [] []
  | cons {ts us : List Token} {d : VarDecl} {ds : List VarDecl} :
    Variable ts d → Variables us ds → Variables (ts ++ us) (d :: ds)

/-- Formals with commas between them. -/
inductive FormalList : List Token → List VarDecl → Prop where
  | last {t x : Token} {type : TypeNode} :
    WordType t type → x.kind = .name → FormalList [t, x] [⟨.formal, none, type, identOf x⟩]
  | cons {t x u : Token} {ts : List Token} {type : TypeNode} {ds : List VarDecl} :
    WordType t type → x.kind = .name → u.kind = .mark .comma → FormalList ts ds →
    FormalList (t :: x :: u :: ts) (⟨.formal, none, type, identOf x⟩ :: ds)

/-- Formals with commas between them, or none. -/
inductive Formals : List Token → List VarDecl → Prop where
  | none : Formals [] []
  | some {ts : List Token} {ds : List VarDecl} : FormalList ts ds → Formals ts ds

/-! ## Statements -/

/-- The expression is an assignment or a call, and this is the statement that it makes. -/
inductive Acts : Exp → Stmt → Prop where
  | assign {i : Info} {l r : Exp} : Acts (.assign i l r) (.assign none (.assign i l r))
  | call {i : Info} {f : Ident} {sp : Option Span} {es : List Exp} :
    Acts (.call i f sp es) (.call none (.call i f sp es))

mutual

/-- A statement. -/
inductive Statement : List Token → Stmt → Prop where
  | read {t a u : Token} {ts : List Token} {e : Exp} :
    t.kind = .keyword .cin → a.kind = .mark .read → Derives loc ts e → u.kind = .mark .semi →
    Statement (t :: a :: ts ++ [u]) (.read none e)
  | write {t a u : Token} {ts : List Token} {e : Exp} :
    t.kind = .keyword .cout → a.kind = .mark .write → Derives exp ts e → u.kind = .mark .semi →
    Statement (t :: a :: ts ++ [u]) (.write none e)
  | ifThen {t p q : Token} {ts us : List Token} {e : Exp} {b : Block Stmt} :
    t.kind = .keyword .if → p.kind = .mark .leftParen → Derives exp ts e →
    q.kind = .mark .rightParen → Braces us b →
    Statement (t :: p :: ts ++ q :: us) (.ifThen none e b)
  | ifElse {t p q v : Token} {ts us vs : List Token} {e : Exp} {b₁ b₂ : Block Stmt} :
    t.kind = .keyword .if → p.kind = .mark .leftParen → Derives exp ts e →
    q.kind = .mark .rightParen → Braces us b₁ → v.kind = .keyword .else → Braces vs b₂ →
    Statement (t :: p :: ts ++ q :: us ++ v :: vs) (.ifElse none e b₁ b₂)
  | while {t p q : Token} {ts us : List Token} {e : Exp} {b : Block Stmt} :
    t.kind = .keyword .while → p.kind = .mark .leftParen → Derives exp ts e →
    q.kind = .mark .rightParen → Braces us b →
    Statement (t :: p :: ts ++ q :: us) (.while none e b)
  | exit {t u : Token} :
    t.kind = .keyword .return → u.kind = .mark .semi → Statement [t, u] (.return none none)
  | return {t u : Token} {ts : List Token} {e : Exp} :
    t.kind = .keyword .return → Derives exp ts e → u.kind = .mark .semi →
    Statement (t :: ts ++ [u]) (.return none (some e))
  | act {u : Token} {ts : List Token} {e : Exp} {s : Stmt} :
    Derives exp ts e → Acts e s → u.kind = .mark .semi → Statement (ts ++ [u]) s
  | increment {o u : Token} {ts : List Token} {e : Exp} :
    Derives exp ts e → e.isLocation = Bool.true → o.kind = .mark .plusPlus → u.kind = .mark .semi →
    Statement (ts ++ [o, u]) (.increment none e)
  | decrement {o u : Token} {ts : List Token} {e : Exp} :
    Derives exp ts e → e.isLocation = Bool.true → o.kind = .mark .minusMinus →
    u.kind = .mark .semi → Statement (ts ++ [o, u]) (.decrement none e)

/-- Variables and then statements in braces. -/
inductive Braces : List Token → Block Stmt → Prop where
  | intro {p q : Token} {ts us : List Token} {ds : List VarDecl} {ss : List Stmt} :
    p.kind = .mark .leftCurly → Variables ts ds → Statements us ss → q.kind = .mark .rightCurly →
    Braces (p :: ts ++ us ++ [q]) ⟨{ items := ds }, none, ss⟩

/-- Any number of statements. -/
inductive Statements : List Token → List Stmt → Prop where
  | nil : Statements [] []
  | cons {ts us : List Token} {s : Stmt} {ss : List Stmt} :
    Statement ts s → Statements us ss → Statements (ts ++ us) (s :: ss)

end

/-! ## Programs -/

/-- A declaration at the top of a program. -/
inductive Declaration : List Token → Decl → Prop where
  | struct {t x p q u : Token} {ts : List Token} {ds : List VarDecl} :
    t.kind = .keyword .struct → x.kind = .name → p.kind = .mark .leftCurly → Variables ts ds →
    ds ≠ [] → q.kind = .mark .rightCurly → u.kind = .mark .semi →
    Declaration (t :: x :: p :: ts ++ [q, u])
      (.struct { span := none, name := identOf x, fields := { items := ds } })
  | var {ts : List Token} {d : VarDecl} : Variable ts d → Declaration ts (.var d)
  | fn {t x p q : Token} {ts us : List Token} {type : TypeNode} {ds : List VarDecl}
    {b : Block Stmt} :
    WordType t type → x.kind = .name → p.kind = .mark .leftParen → Formals ts ds →
    q.kind = .mark .rightParen → Braces us b →
    Declaration (t :: x :: p :: ts ++ q :: us)
      (.fn { span := none, returns := type, name := identOf x, formals := { items := ds },
             bodySpan := none, body := b })

/-- Any number of declarations. -/
inductive Declarations : List Token → List Decl → Prop where
  | nil : Declarations [] []
  | cons {ts us : List Token} {d : Decl} {ds : List Decl} :
    Declaration ts d → Declarations us ds → Declarations (ts ++ us) (d :: ds)

end Grammar

/-! ## Tokens -/

/-- The texts that the scanner gives to tokens of a kind. -/
def TokenKind.Spells : TokenKind → String → Prop
  | .eof, text => text = ""
  | .keyword k, text => text = k.text
  | .mark m, text => text = m.text
  | .name, text => IsName text
  | .numeral, text => text ≠ "" ∧ (∀ c ∈ text.toList, Text.isDigit c = true) ∧
      text.length ≤ Text.maxDigits ∧ ∃ v, Text.decimal? text.toList = some v ∧ v ≤ Token.intMax
  | .string, text => ∀ c ∈ text.toList, c ≠ '\n' ∧ c ≠ Token.nul

/-- The token has a text that the scanner gives to tokens of its kind. -/
def Token.Spelled (t : Token) : Prop := t.kind.Spells t.text

/-- The tokens have their texts and end in the end of the text, which is nowhere else. -/
structure Token.Text (tokens : List Token) : Prop where
  spelled : ∀ t ∈ tokens, t.Spelled
  ends : ∃ ts eof, tokens = ts ++ [eof] ∧ eof.kind = .eof ∧ ∀ t ∈ ts, t.kind ≠ .eof

/-- The tokens before the end of the text are derived as a program, of which this is the tree. -/
def Program.Derived (tokens : List Token) (p : Program) : Prop :=
  ∃ ts eof ds, tokens = ts ++ [eof] ∧ p = { decls := ds } ∧ Grammar.Declarations ts ds

end CMinusMinus
