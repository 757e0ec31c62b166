import CMinusMinus.Token

/-!
# Syntax errors

The first token that no program can have at its place is refused, with the cause.  Most causes
are a token that has to come next and does not; `Wanted` lists these by what the token would be
for, since the message depends on that and not only on the token.
-/

namespace CMinusMinus

/-- What the next token has to be. -/
inductive Wanted where
  | structName | variableName | variableEnd
  | definedName | fieldsStart | fieldsEnd | structEnd
  | functionName | formalsStart | formalName | formalsEnd | bodyStart
  | statementEnd
  | readArrow | readEnd
  | writeArrow | writeEnd
  | conditionStart (keyword : Keyword) | conditionEnd
  | thenStart | elseStart | loopStart
  | returnEnd
  | locationName | accessName
  | groupEnd | argsEnd
  deriving DecidableEq, Repr

namespace Wanted

/-- The kind of the token. -/
def kind : Wanted → TokenKind
  | .structName | .variableName | .definedName | .functionName | .formalName | .locationName
  | .accessName => .name
  | .variableEnd | .structEnd | .statementEnd | .readEnd | .writeEnd | .returnEnd => .mark .semi
  | .fieldsStart | .bodyStart | .thenStart | .elseStart | .loopStart => .mark .leftCurly
  | .fieldsEnd => .mark .rightCurly
  | .formalsStart | .conditionStart _ => .mark .leftParen
  | .formalsEnd | .conditionEnd | .groupEnd | .argsEnd => .mark .rightParen
  | .readArrow => .mark .read
  | .writeArrow => .mark .write

/-- The token in words. -/
def message : Wanted → String
  | .structName => "[PAR-0030] expected struct name"
  | .variableName => "[PAR-0031] expected variable name"
  | .variableEnd => "[PAR-0032] expected ';' after variable declaration"
  | .definedName => "[PAR-0041] expected struct name"
  | .fieldsStart => "[PAR-0042] expected '\x7b' after struct name"
  | .fieldsEnd => "[PAR-0044] expected '\x7d' after struct body"
  | .structEnd => "[PAR-0045] expected ';' after struct declaration"
  | .functionName => "[PAR-0050] expected function name"
  | .formalsStart => "[PAR-0051] expected '(' after function name"
  | .formalName => "[PAR-0052] expected parameter name"
  | .formalsEnd => "[PAR-0053] expected ')' after parameters"
  | .bodyStart => "[PAR-0054] expected '\x7b' to start function body"
  | .statementEnd => "[PAR-0071] expected ';' after statement"
  | .readArrow => "[PAR-0081] expected '>>' after 'cin'"
  | .readEnd => "[PAR-0082] expected ';' after input statement"
  | .writeArrow => "[PAR-0091] expected '<<' after 'cout'"
  | .writeEnd => "[PAR-0092] expected ';' after output statement"
  | .conditionStart keyword => "[PAR-0100] expected '(' after '" ++ keyword.text ++ "'"
  | .conditionEnd => "[PAR-0101] expected ')' after condition"
  | .thenStart => "[PAR-0111] expected '\x7b' after if condition"
  | .elseStart => "[PAR-0112] expected '\x7b' after 'else'"
  | .loopStart => "[PAR-0121] expected '\x7b' after while condition"
  | .returnEnd => "[PAR-0131] expected ';' after return value"
  | .locationName => "[PAR-0220] expected identifier"
  | .accessName => "[PAR-0221] expected field name after '.'"
  | .groupEnd => "[PAR-0230] expected ')' after expression"
  | .argsEnd => "[PAR-0252] expected ')' after arguments"

end Wanted

/-- Why a token is refused. -/
inductive SyntaxCause where
  /-- Another token has to come here. -/
  | expected (wanted : Wanted)
  /-- No declaration begins here. -/
  | topLevel
  /-- No type stands here. -/
  | typeName
  /-- A struct without fields. -/
  | noFields
  /-- The text ends inside a block. -/
  | unclosedBlock
  /-- A declaration after a statement. -/
  | lateDecl
  /-- The operand of `++` or `--` is no location. -/
  | stepTarget
  /-- An expression that is no statement. -/
  | idleExp
  /-- The left side of an assignment is no location. -/
  | assignTarget
  /-- A second equality operator without parentheses. -/
  | equalityChain
  /-- A second relational operator without parentheses. -/
  | relationalChain
  /-- No expression begins here. -/
  | expression
  deriving DecidableEq, Repr

/-- A token that is refused, and why. -/
structure SyntaxError where
  cause : SyntaxCause
  token : Token
  deriving DecidableEq, Repr

/-- The error in words. -/
def SyntaxError.message (e : SyntaxError) : String :=
  match e.cause with
  | .expected wanted => wanted.message ++ ", got " ++ e.token.shown ++ " instead"
  | .topLevel => "[PAR-0010] unexpected token at top level: " ++ e.token.shown
  | .typeName => "[PAR-0020] expected type name, got " ++ e.token.shown ++ " instead"
  | .noFields => "[PAR-0043] struct must declare at least one field"
  | .unclosedBlock => "[PAR-0060] expected '\x7d' before end of file"
  | .lateDecl => "[PAR-0061] declarations must precede statements in a block"
  | .stepTarget => "[PAR-0070] operand of '" ++ e.token.text ++ "' must be a location"
  | .idleExp => "[PAR-0072] expression statement must be an assignment or a call"
  | .assignTarget => "[PAR-0200] left-hand side of '=' must be a location"
  | .equalityChain => "[PAR-0210] equality operators are non-associative; use parentheses"
  | .relationalChain => "[PAR-0211] relational operators are non-associative; use parentheses"
  | .expression => "[PAR-0240] unexpected token in expression: " ++ e.token.shown

end CMinusMinus
