import CMinusMinus.Diagnostic
import CMinusMinus.Text.Pad

/-!
# Diagnostics with the line they are about

Below the header of a diagnostic stands the line of the source with its number, and below the
place in that line a row of carets.  The row ends where the place ends, or with the line where
the place goes on in another one; it is one caret long at least.
-/

namespace CMinusMinus.Diagnostic

/-- The file whose line is shown, if a line is. -/
def fileShown? (d : Diagnostic) : Option String :=
  d.file.filter fun f => f != "" && d.locus.line.any (· != 0)

/-- The columns to mark in a line of the given length: the first one, and how many. -/
def marked (l : Locus) (line column : Int) (length : Nat) : Nat × Nat :=
  let start := max 1 column
  let stop :=
    match l.endLine, l.endColumn with
    | some endLine, some endColumn =>
      if endLine = line then max start endColumn else (length : Int) + 1
    | _, _ => start
  (start.toNat, max 1 (stop - start).toNat)

/-- The line of the source and the carets below it. -/
def excerpt (d : Diagnostic) (lines : List (List Char)) : List String :=
  match d.locus.line with
  | none => []
  | some line =>
    match if line ≤ 0 then none else lines[line.toNat - 1]? with
    | none => []
    | some text =>
      let number := toString line
      let width := max 5 number.length
      (Text.padLeft width number ++ " | " ++ String.ofList text) ::
        match d.locus.column with
        | none => []
        | some column =>
          let (start, count) := marked d.locus line column text.length
          [Text.blanks width ++ " | " ++ Text.blanks (start - 1)
            ++ String.ofList (List.replicate count '^')]

/-- The header and, if the lines of the file are known, the excerpt. -/
def shown (directory : String) (lines : Option (List (List Char))) (d : Diagnostic) :
    List String :=
  d.header directory ::
    match d.fileShown?, lines with
    | some _, some lines => d.excerpt lines
    | _, _ => []

end CMinusMinus.Diagnostic
