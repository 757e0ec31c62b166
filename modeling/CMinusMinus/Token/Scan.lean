import CMinusMinus.Text.Number
import CMinusMinus.Token
import CMinusMinus.Token.Error

/-!
# Scanning

A text is read as gaps and lexemes in turn.  A *gap* is blanks and comments; a comment runs from
`#` or `//` to the end of its line.  A *lexeme* is measured: `measure` finds the kind of the
token at a place and how many characters belong to it after the first, and the scanner takes just
these.  So a text is the concatenation of what the scanner read, whatever `measure` answers.

The character NUL counts as an end of the text inside comments and string literals, and begins no
token.
-/

namespace CMinusMinus

open Text (isLetter isDigit isAlphanumeric)

namespace Token

/-! ## Gaps -/

/-- The character that ends comments and string literals as the end of the text does. -/
def nul : Char := '\x00'

/-- The characters between tokens. -/
def isBlank (c : Char) : Bool := c = ' ' || c = '\t' || c = '\r' || c = '\n'

/-- Whether a comment begins with `c`, before `cs`. -/
def opensComment (c : Char) (cs : List Char) : Bool :=
  c = '#' || (c = '/' && cs.head? = some '/')

/-- What follows the gap at the beginning of a text, and where it begins.  Inside a comment,
`inComment` holds. -/
def skipGap (inComment : Bool) : List Char → Position → List Char × Position
  | [], p => ([], p)
  | c :: cs, p =>
    if inComment then
      if c = nul then (c :: cs, p) else skipGap (c != '\n') cs (p.advance c)
    else if isBlank c then skipGap false cs (p.advance c)
    else if opensComment c cs then skipGap true cs (p.advance c)
    else (c :: cs, p)

theorem length_skipGap (inComment : Bool) (cs : List Char) (p : Position) :
    (skipGap inComment cs p).1.length ≤ cs.length := by
  induction cs generalizing inComment p with
  | nil => simp [skipGap]
  | cons c cs ih =>
    unfold skipGap
    split
    · split
      · simp
      · exact Nat.le_succ_of_le (ih ..)
    · split
      · exact Nat.le_succ_of_le (ih ..)
      · split
        · exact Nat.le_succ_of_le (ih ..)
        · simp

/-! ## Names -/

/-- The characters a name begins with. -/
def beginsName (c : Char) : Bool := isLetter c || c = '_'

/-- The characters a name goes on with. -/
def continuesName (c : Char) : Bool := isAlphanumeric c || c = '_'

/-- A word is a keyword if it is spelled like one, else a name. -/
def kindOfWord (word : List Char) : TokenKind :=
  match Keyword.ofText? (String.ofList word) with
  | some k => .keyword k
  | none => .name

/-! ## Numerals -/

/-- The largest integer literal. -/
def intMax : Nat := 2147483647

/-- Accepts a run of digits that is followed by `rest`, which begins at `next`. -/
def checkNumeral (digits rest : List Char) (start next : Position) : Except ScanError Unit :=
  match rest.head?.filter beginsName with
  | some c => .error (.refused ⟨.nameAfterNumeral c, next⟩)
  | none =>
    match if digits.length ≤ Text.maxDigits then Text.decimal? digits else none with
    | none => .error (.unreadable (String.ofList digits))
    | some value =>
      if value ≤ intMax then .ok ()
      else .error (.refused ⟨.numeralRange (String.ofList digits), start⟩)

/-! ## String literals -/

/-- The characters that a backslash may stand before. -/
def isEscapable (c : Char) : Bool := c ∈ ['n', 't', '\'', '"', '?', '\\']

/-- The number of characters up to the closing quote, and with it, of the string literal that
begins at `start` and goes on with the given text at the given place. -/
def closeString (start : Position) : List Char → Position → Except LexError Nat
  | [], _ => .error ⟨.unterminatedString, start⟩
  | ['\\'], p => .error ⟨.unknownEscape nul, p.advance '\\'⟩
  | '\\' :: c :: cs, p =>
    if isEscapable c then
      (· + 2) <$> closeString start cs ((p.advance '\\').advance c)
    else .error ⟨.unknownEscape c, p.advance '\\'⟩
  | c :: cs, p =>
    if c = '"' then .ok 1
    else if c = '\n' || c = nul then .error ⟨.unterminatedString, start⟩
    else (· + 1) <$> closeString start cs (p.advance c)

/-! ## Tokens -/

/-- The kind of the token that begins with `c` at `p`, and the number of its characters among
those after `c`. -/
def measure (c : Char) (cs : List Char) (p : Position) : Except ScanError (TokenKind × Nat) :=
  if beginsName c then
    let tail := cs.takeWhile continuesName
    .ok (kindOfWord (c :: tail), tail.length)
  else if isDigit c then do
    let tail := cs.takeWhile isDigit
    checkNumeral (c :: tail) (cs.dropWhile isDigit) p (p.after (c :: tail))
    .ok (.numeral, tail.length)
  else if c = '"' then
    match closeString p cs (p.advance c) with
    | .ok n => .ok (.string, n)
    | .error e => .error (.refused e)
  else
    match Mark.first? (c :: cs) with
    | some m => .ok (.mark m, m.spelling.length - 1)
    | none => .error (.refused ⟨.unexpected c, p⟩)

/-- The text of a token from its lexeme: a string literal's quotes are left out. -/
def textOf (kind : TokenKind) (lexeme : List Char) : String :=
  String.ofList (if kind = .string then lexeme.tail.dropLast else lexeme)

/-- The tokens of a text that begins at `p`, the end of the text being the last of them. -/
def scanFrom (cs : List Char) (p : Position) : Except ScanError (List Token) :=
  match _h : skipGap false cs p with
  | ([], q) => .ok [⟨.eof, "", q.line, q.column⟩]
  | (c :: rest, q) => do
    let (kind, n) ← measure c rest q
    let lexeme := c :: rest.take n
    let tokens ← scanFrom (rest.drop n) (q.after lexeme)
    .ok (⟨kind, textOf kind lexeme, q.line, q.column⟩ :: tokens)
termination_by cs.length
decreasing_by
  have := length_skipGap false cs p
  rw [_h] at this
  simp only [List.length_cons, List.length_drop] at this ⊢
  omega

/-- The tokens of a text. -/
def scan (source : String) : Except ScanError (List Token) :=
  scanFrom source.toList .start

end Token

end CMinusMinus
