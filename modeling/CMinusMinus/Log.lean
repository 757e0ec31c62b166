/-!
# Log messages

What the compiler tells about its own work are messages of four levels.  A log admits the
messages up to its own level; a `silent` log admits none.  A stamped log writes the time and the
level before each message.
-/

namespace CMinusMinus.Log

/-- Levels of logs and messages, from the fewest messages to the most. -/
inductive Level where
  | silent
  | error
  | warning
  | info
  | debug
  deriving DecidableEq, Repr

namespace Level

/-- Every level. -/
def all : List Level := [.silent, .error, .warning, .info, .debug]

/-- How the level is written. -/
def label : Level → String
  | .silent => "SILENT"
  | .error => "ERROR"
  | .warning => "WARNING"
  | .info => "INFO"
  | .debug => "DEBUG"

/-- The level of a name. -/
def ofLabel? (s : String) : Option Level := all.find? (·.label == s)

/-- The place of a level in the order. -/
def rank : Level → Nat
  | .silent => 0
  | .error => 1
  | .warning => 2
  | .info => 3
  | .debug => 4

/-- Whether a log of the first level admits a message of the second. -/
def admits (log message : Level) : Bool := message.rank ≤ log.rank

end Level

/-- A message and its level. -/
structure Message where
  level : Level
  text : String
  deriving DecidableEq, Repr

namespace Message

/-- An error of the program, for its author. -/
def error (text : String) : Message := ⟨.error, text⟩

/-- A step of the compilation. -/
def info (text : String) : Message := ⟨.info, text⟩

/-- A detail of a step. -/
def debug (text : String) : Message := ⟨.debug, text⟩

/-- The beginning of a stage, on a file if one is named. -/
def stage (name : String) (file : Option String := none) : Message :=
  info (match file.filter (· != "") with
    | some f => name ++ " '" ++ f ++ "'"
    | none => name ++ "...")

end Message

/-- How messages are written. -/
structure Format where
  level : Level := .warning
  stamped : Bool := false
  deriving DecidableEq, Repr

/-- What a log of some format writes of a message at a given time, if it admits the message. -/
def Format.line? (f : Format) (time : String) (m : Message) : Option String :=
  if f.level.admits m.level then
    some ((if f.stamped then time ++ " [" ++ m.level.label ++ "] " else "") ++ m.text ++ "\n")
  else none

/-- What a log writes of messages, each at the given time.  Without a format every message is
written as it is. -/
def text (f : Option Format) (time : String) (ms : List Message) : String :=
  String.join (ms.filterMap fun m =>
    match f with
    | some f => f.line? time m
    | none => some (m.text ++ "\n"))

end CMinusMinus.Log
