/-!
# Codes of diagnostics

Every code that a message may begin with belongs to the family of the stage that reports it.  A
code that is listed stays reserved, also where no message uses it now.
-/

namespace CMinusMinus.Diagnostic

/-- The stages that report diagnostics. -/
inductive Family where
  /-- Scanning. -/
  | lex
  /-- Reading the program from its tokens. -/
  | par
  /-- Reading the source file. -/
  | drv
  /-- Reading the source file for a listing. -/
  | cmc
  /-- Name resolution. -/
  | res
  /-- Type checking. -/
  | typ
  deriving DecidableEq, Repr

namespace Family

/-- Every family. -/
def all : List Family := [.lex, .par, .drv, .cmc, .res, .typ]

/-- The letters of a family's codes. -/
def letters : Family → String
  | .lex => "LEX"
  | .par => "PAR"
  | .drv => "DRV"
  | .cmc => "CMC"
  | .res => "RES"
  | .typ => "TYP"

/-- The family of some letters. -/
def ofLetters? (s : String) : Option Family := all.find? (·.letters == s)

/-- The numbers of a family's codes, in increasing order. -/
def numbers : Family → List Nat
  | .lex => [10, 20, 30, 31, 40]
  | .par =>
    [10, 20, 30, 31, 32, 40, 41, 42, 43, 44, 45, 50, 51, 52, 53, 54, 60, 61, 62, 70, 71, 72,
     80, 81, 82, 90, 91, 92, 100, 101, 110, 111, 112, 120, 121, 130, 131, 200, 210, 211, 220,
     221, 230, 240, 250, 251, 252]
  | .drv => [10]
  | .cmc => [10]
  | .res => [10, 20, 30, 31, 40, 50, 60]
  | .typ =>
    [10, 20, 30, 40, 41, 42, 43, 50, 60, 61, 62, 70, 71, 72, 80, 81, 90, 91, 92, 93, 100, 101,
     102, 103, 110, 111, 112, 120]

/-- A number in four digits. -/
def fourDigits (n : Nat) : String :=
  String.ofList ([n / 1000, n / 100, n / 10, n].map fun d => Nat.digitChar (d % 10))

/-- The codes of a family. -/
def codes (f : Family) : List String :=
  f.numbers.map fun n => f.letters ++ "-" ++ fourDigits n

end Family

end CMinusMinus.Diagnostic
