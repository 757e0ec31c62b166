/-!
# Texts in columns

A text that is shorter than its column is filled up with blanks; a longer one is not cut.
-/

namespace CMinusMinus.Text

/-- So many blanks. -/
def blanks (n : Nat) : String := String.ofList (List.replicate n ' ')

/-- The text at the left of a column. -/
def padRight (width : Nat) (s : String) : String := s ++ blanks (width - s.length)

/-- The text at the right of a column. -/
def padLeft (width : Nat) (s : String) : String := blanks (width - s.length) ++ s

theorem length_padRight (width : Nat) (s : String) :
    (padRight width s).length = max width s.length := by
  simp [padRight, blanks]
  omega

theorem length_padLeft (width : Nat) (s : String) :
    (padLeft width s).length = max width s.length := by
  simp [padLeft, blanks]
  omega

end CMinusMinus.Text
