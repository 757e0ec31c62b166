/-!
# Labels of names

The label of a function or global is its name after an underscore, except that the main function
is `main`.  The end of a function has the function's label with a suffix that no name can have.
-/

namespace CMinusMinus.Generate

/-- The label of a function. -/
def functionLabel (name : String) : String := if name = "main" then "main" else "_" ++ name

/-- The label before the end of a function. -/
def exitLabel (name : String) : String := functionLabel name ++ ".exit"

/-- The label of a global. -/
def globalLabel (name : String) : String := "_" ++ name

end CMinusMinus.Generate
