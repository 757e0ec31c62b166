import CMinusMinus.Asm
import CMinusMinus.Text.Value

/-!
# Assembly as text

One line for each item.  Instructions and directives are indented by a tab, operands follow after
another, and a comment after two more.
-/

namespace CMinusMinus

/-- How an operand is written. -/
def Operand.text : Operand → String
  | .reg r => "$" ++ r.name
  | .imm v => toString v
  | .label name => name
  | .indexed base offset => toString offset ++ "($" ++ base.name ++ ")"

namespace Item

/-- How a comment is written after an item; an empty one is left out. -/
def commentText (comment : Option String) : String :=
  match comment.filter (· != "") with
  | some c => "\t\t# " ++ c
  | none => ""

/-- The line of an item. -/
def text : Item → String
  | .instr op args comment =>
    "\t" ++ op.name
      ++ (if args.isEmpty then "" else "\t" ++ ", ".intercalate (args.map Operand.text))
      ++ commentText comment
  | .label name comment => name ++ ":" ++ commentText comment
  | .directive d =>
    "\t." ++ d.name ++ (if d.args.isEmpty then "" else " " ++ ", ".intercalate d.args)

/-- The report of a value that stands for an item and is none. -/
def refusal (v : Text.Value) : String := "not an assembly item: " ++ v.shown

/-- The lines of items, each ended by a line feed.  Without items there is one empty line. -/
def render (items : List Item) : String := "\n".intercalate (items.map text) ++ "\n"

end Item

end CMinusMinus
