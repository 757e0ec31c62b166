import CMinusMinus.Text.Quoted

/-!
# Plain values

What a listing shows where a tree or an item was expected and something else was there.
-/

namespace CMinusMinus.Text

/-- Values that have no structure of their own. -/
inductive Value where
  | none
  | bool (b : Bool)
  | int (n : Int)
  | text (s : String)
  | list (items : List Value)

namespace Value

/-- The name of the kind of value. -/
def kind : Value → String
  | .none => "NoneType"
  | .bool _ => "bool"
  | .int _ => "int"
  | .text _ => "str"
  | .list _ => "list"

mutual

/-- How a value is shown. -/
def shown : Value → String
  | .none => "None"
  | .bool b => if b then "True" else "False"
  | .int n => toString n
  | .text s => quoted s
  | .list items => "[" ++ ", ".intercalate (shownAll items) ++ "]"
termination_by structural v => v

/-- How each of some values is shown. -/
def shownAll : List Value → List String
  | [] => []
  | v :: vs => v.shown :: shownAll vs
termination_by structural vs => vs

end

end Value

end CMinusMinus.Text
