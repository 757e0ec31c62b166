import CMinusMinus.Command
import Std.Time.Format

/-!
# The command line

Reads the file that the command line names, and carries out what the command answers.
-/

namespace CMinusMinus.Main

/-- How the compiler is called. -/
def usage : String :=
  "usage: cminusminus [-h] [-v] [-l] (check | codegen | tok | ast | unparse | sym) [options] source"

/-- Why the operating system refuses a file. -/
def fileError : IO.Error → FileError
  | .alreadyExists _ code reason | .interrupted _ code reason | .noFileOrDirectory _ code reason
  | .invalidArgument _ code reason | .permissionDenied _ code reason
  | .resourceExhausted _ code reason | .inappropriateType _ code reason
  | .noSuchThing _ code reason | .otherError code reason | .resourceBusy code reason
  | .resourceVanished code reason | .unsupportedOperation code reason
  | .hardwareFault code reason | .unsatisfiedConstraints code reason
  | .illegalOperation code reason | .protocolError code reason | .timeExpired code reason =>
    .ofNumber code.toInt32.toInt.natAbs reason
  | e => ⟨0, toString e⟩

/-- Reads a file. -/
def read (path : String) : IO FileRead := do
  if !isPath path then return .badPath
  try return .ofBytes (← IO.FS.readBinFile path)
  catch e => return .refused (fileError e)

/-- The time, to the second. -/
def now : IO String := do
  let time ← Std.Time.PlainDateTime.now
  return time.format "uuuu-MM-dd HH:mm:ss"

/-- Writes messages to standard error. -/
def log (f : Log.Format) (ms : List Log.Message) : IO Unit := do
  for m in ms do
    if let some line := f.line? (← now) m then IO.eprint line

/-- What is said of a command that breaks off. -/
def crashText : Command.Crash → String
  | .undecodable => "the source file is not UTF-8"
  | .numeral => "a numeral cannot be read or written"
  | .badPath => "a path has a character that no path can have"
  | .unwritable e => e.reason

/-- Writes the file that a command has written, if there is one. -/
def write (f : Log.Format) (w : Command.Writing) : IO (Option Command.Crash) := do
  if !isPath w.path then return some .badPath
  try IO.FS.writeFile w.path w.text
  catch e => return some (.unwritable (fileError e))
  log f w.logged
  return none

/-- Carries out a command. -/
def carryOut (cmd : Command) : IO UInt32 := do
  let response := cmd.run (← IO.currentDir).toString (← read cmd.path)
  log cmd.logFormat response.messages
  IO.print response.output
  let crash ← match response.writing with
    | some w => write cmd.logFormat w
    | none => pure none
  match response.exit, crash with
  | .ok code, none => return code.toUInt32
  | .error crash, _ | _, some crash =>
    IO.eprintln (crashText crash)
    return 1

end CMinusMinus.Main

/-- The compiler. -/
def main (args : List String) : IO UInt32 :=
  match CMinusMinus.Command.ofArguments args with
  | .ok cmd => CMinusMinus.Main.carryOut cmd
  | .error .help => do
    IO.println CMinusMinus.Main.usage
    return 0
  | .error .usage => do
    IO.eprintln CMinusMinus.Main.usage
    return 2
