import CMinusMinus.Position
import CMinusMinus.Text.Quoted

/-!
# Tokens

The words of the language: twelve keywords, twenty-five marks, names, numerals and string
literals, and the end of the text.  A string literal's text is what stands between its quotes,
with its escapes as they were written.
-/

namespace CMinusMinus

/-- Words that are no names. -/
inductive Keyword where
  | int | bool | void | true | false | struct | cin | cout | if | else | while | return
  deriving DecidableEq, Repr

namespace Keyword

/-- Every keyword. -/
def all : List Keyword :=
  [.int, .bool, .void, .true, .false, .struct, .cin, .cout, .if, .else, .while, .return]

/-- How the keyword is spelled. -/
def text : Keyword → String
  | .int => "int"
  | .bool => "bool"
  | .void => "void"
  | .true => "true"
  | .false => "false"
  | .struct => "struct"
  | .cin => "cin"
  | .cout => "cout"
  | .if => "if"
  | .else => "else"
  | .while => "while"
  | .return => "return"

/-- The keyword of a spelling. -/
def ofText? (word : String) : Option Keyword := all.find? (·.text == word)

theorem mem_all (k : Keyword) : k ∈ all := by cases k <;> decide

theorem ofText?_text (k : Keyword) : ofText? k.text = some k := by cases k <;> decide

end Keyword

/-- Punctuation and operators. -/
inductive Mark where
  | write | read | plusPlus | minusMinus | and | or | equals | notEquals | lessEq | greaterEq
  | leftCurly | rightCurly | leftParen | rightParen | semi | comma | dot
  | plus | minus | times | divide | not | less | greater | assign
  deriving DecidableEq, Repr

namespace Mark

/-- Every mark, those of two characters before those of one, so that the first mark found at a
place is the longest there. -/
def all : List Mark :=
  [.write, .read, .plusPlus, .minusMinus, .and, .or, .equals, .notEquals, .lessEq, .greaterEq,
   .leftCurly, .rightCurly, .leftParen, .rightParen, .semi, .comma, .dot,
   .plus, .minus, .times, .divide, .not, .less, .greater, .assign]

/-- How the mark is spelled, character by character. -/
def spelling : Mark → List Char
  | .write => ['<', '<']
  | .read => ['>', '>']
  | .plusPlus => ['+', '+']
  | .minusMinus => ['-', '-']
  | .and => ['&', '&']
  | .or => ['|', '|']
  | .equals => ['=', '=']
  | .notEquals => ['!', '=']
  | .lessEq => ['<', '=']
  | .greaterEq => ['>', '=']
  | .leftCurly => ['{']
  | .rightCurly => ['}']
  | .leftParen => ['(']
  | .rightParen => [')']
  | .semi => [';']
  | .comma => [',']
  | .dot => ['.']
  | .plus => ['+']
  | .minus => ['-']
  | .times => ['*']
  | .divide => ['/']
  | .not => ['!']
  | .less => ['<']
  | .greater => ['>']
  | .assign => ['=']

/-- How the mark is spelled. -/
def text (m : Mark) : String := String.ofList m.spelling

/-- The longest mark at the beginning of a text. -/
def first? (cs : List Char) : Option Mark := all.find? fun m => m.spelling.isPrefixOf cs

theorem mem_all (m : Mark) : m ∈ all := by cases m <;> decide

theorem spelling_ne_nil (m : Mark) : m.spelling ≠ [] := by cases m <;> decide

theorem first?_spelling (m : Mark) : first? m.spelling = some m := by cases m <;> decide

end Mark

/-- What a token is. -/
inductive TokenKind where
  /-- The end of the text. -/
  | eof
  | name
  | numeral
  | string
  | keyword (k : Keyword)
  | mark (m : Mark)
  deriving DecidableEq, Repr

namespace TokenKind

/-- Every kind of token. -/
def all : List TokenKind :=
  [.eof, .name, .numeral, .string] ++ Keyword.all.map .keyword ++ Mark.all.map .mark

/-- The name of a kind in token listings. -/
def label : TokenKind → String
  | .eof => "EOF"
  | .name => "ID"
  | .numeral => "INTLIT"
  | .string => "STRINGLIT"
  | .keyword .int => "INT"
  | .keyword .bool => "BOOL"
  | .keyword .void => "VOID"
  | .keyword .true => "TRUE"
  | .keyword .false => "FALSE"
  | .keyword .struct => "STRUCT"
  | .keyword .cin => "CIN"
  | .keyword .cout => "COUT"
  | .keyword .if => "IF"
  | .keyword .else => "ELSE"
  | .keyword .while => "WHILE"
  | .keyword .return => "RETURN"
  | .mark .leftCurly => "LCURLY"
  | .mark .rightCurly => "RCURLY"
  | .mark .leftParen => "LPAREN"
  | .mark .rightParen => "RPAREN"
  | .mark .semi => "SEMI"
  | .mark .comma => "COMMA"
  | .mark .dot => "DOT"
  | .mark .write => "WRITE"
  | .mark .read => "READ"
  | .mark .plusPlus => "PLUSPLUS"
  | .mark .minusMinus => "MINUSMINUS"
  | .mark .plus => "PLUS"
  | .mark .minus => "MINUS"
  | .mark .times => "TIMES"
  | .mark .divide => "DIVIDE"
  | .mark .not => "NOT"
  | .mark .and => "AND"
  | .mark .or => "OR"
  | .mark .equals => "EQUALS"
  | .mark .notEquals => "NOTEQUALS"
  | .mark .less => "LESS"
  | .mark .greater => "GREATER"
  | .mark .lessEq => "LESSEQ"
  | .mark .greaterEq => "GREATEREQ"
  | .mark .assign => "ASSIGN"

/-- The kind with a given name. -/
def ofLabel? (s : String) : Option TokenKind := all.find? (·.label == s)

theorem mem_all (k : TokenKind) : k ∈ all := by
  cases k with
  | keyword k => cases k <;> decide
  | mark m => cases m <;> decide
  | _ => decide

end TokenKind

/-- A word of a text and where it begins. -/
structure Token where
  kind : TokenKind
  text : String
  line : Nat
  column : Nat
  deriving DecidableEq, Repr

namespace Token

/-- Where the token begins. -/
def position (t : Token) : Position := ⟨t.line, t.column⟩

/-- Where the token's text would stand if it were written at its position. -/
def span (t : Token) : Span := Span.of t.position t.text.length

/-- How messages name a token: its text in quotes, or the end of the file. -/
def shown (t : Token) : String :=
  if t.kind = .eof then "end-of-file" else Text.quoted t.text

end Token

end CMinusMinus
