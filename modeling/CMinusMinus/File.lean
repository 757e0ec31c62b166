import CMinusMinus.Text.Lines
import CMinusMinus.Text.Quoted

/-!
# Files

What comes of reading a source file: its text, or a reason why there is none.  The text has its
line ends made uniform.
-/

namespace CMinusMinus

/-- Why the operating system refuses a file: its number for the reason, and the reason. -/
structure FileError where
  number : Nat
  reason : String
  deriving DecidableEq, Repr

namespace FileError

/-- No file of the name. -/
def missing : FileError := ⟨2, "No such file or directory"⟩

/-- A step of the path is no directory. -/
def notDirectory : FileError := ⟨20, "Not a directory"⟩

/-- The path is that of a directory. -/
def isDirectory : FileError := ⟨21, "Is a directory"⟩

/-- A step of the path is too long. -/
def nameTooLong : FileError := ⟨36, "File name too long"⟩

/-- The refusals with a text of their own. -/
def known : List FileError := [missing, notDirectory, isDirectory, nameTooLong]

/-- The refusal of a number, with the given reason if the number is not known. -/
def ofNumber (number : Nat) (reason : String) : FileError :=
  (known.find? (·.number == number)).getD ⟨number, reason⟩

/-- The refusal of a path in words. -/
def message (e : FileError) (path : String) : String :=
  "[Errno " ++ toString e.number ++ "] " ++ e.reason ++ ": " ++ Text.quoted path

end FileError

/-- What comes of reading a file. -/
inductive FileRead where
  | text (source : String)
  | refused (e : FileError)
  /-- The bytes are no UTF-8. -/
  | undecodable
  /-- The path has a character that no path can have. -/
  | badPath
  deriving DecidableEq, Repr

namespace FileRead

/-- Reading the bytes of a file. -/
def ofBytes (bytes : ByteArray) : FileRead :=
  match String.fromUTF8? bytes with
  | some s => .text (String.ofList (Text.uniformLineEnds s.toList))
  | none => .undecodable

/-- The lines of a file, as far as there are any. -/
def lines? : FileRead → Option (List (List Char))
  | .text source => some (Text.lines source.toList)
  | _ => none

end FileRead

/-- Whether a path can be one: NUL ends a path before its end. -/
def isPath (path : String) : Bool := !path.toList.contains '\x00'

end CMinusMinus
