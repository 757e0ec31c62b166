import CMinusMinus.Generate
import CMinusMinus.Text.Digit

/-!
# Command lines

A command line is options, the name of a command, and then the command's own options and the one
file it works on, in any order.  An option has a short spelling of one dash and a letter or a
long one of two dashes and a word, and a long one may be cut off where only one option begins
like it.  A value follows its option as the next word, after `=`, or right after the letter;
letters without values may stand in a row after one dash.

After the word `--` there are no options.  A word with a dash in front is no option either if it
is a negative number or has a blank in it.
-/

namespace CMinusMinus.Command

/-- What a command does with its file. -/
inductive Action where
  | check
  | code
  | tokens
  | outline
  | source
  | symbols
  deriving DecidableEq, Repr

/-- The command of a name. -/
def Action.ofName? (s : String) : Option Action :=
  [("check", .check), ("analyze", .check), ("codegen", .code), ("gen", .code), ("tok", .tokens),
   ("tokens", .tokens), ("ast", .outline), ("unparse", .source), ("sym", .symbols),
   ("symbols", .symbols)].lookup s

/-- The options. -/
inductive Flag where
  | help
  /-- More messages, each time it is given. -/
  | verbose
  /-- Messages with time and level. -/
  | stamped
  /-- The file to write to. -/
  | output
  | noComments
  | poolStrings
  /-- The end of the text among the tokens. -/
  | includeEnd
  deriving DecidableEq, Repr

namespace Flag

/-- Whether a value belongs to the option. -/
def takesValue : Flag → Bool
  | .output => true
  | _ => false

/-- The options that every command has. -/
def common : List (String × Flag) := [("-h", .help), ("--help", .help)]

/-- The options before the command. -/
def global : List (String × Flag) :=
  common ++ [("-v", .verbose), ("--verbose", .verbose), ("-l", .stamped), ("--log", .stamped)]

/-- The options of a command. -/
def ofAction : Action → List (String × Flag)
  | .code =>
    common ++ [("--output", .output), ("-o", .output), ("--no-comments", .noComments),
      ("--pool-strings", .poolStrings)]
  | .tokens => common ++ [("--include-eof", .includeEnd), ("-I", .includeEnd)]
  | _ => common

end Flag

/-- What the options say. -/
structure Settings where
  verbosity : Nat := 0
  stamped : Bool := false
  /-- The file to write to; the empty name stands for standard output. -/
  output : String := ""
  code : CodeOptions := {}
  includeEnd : Bool := false
  deriving DecidableEq, Repr

/-- Why no command is carried out. -/
inductive Halt where
  /-- The command line is wrong. -/
  | usage
  /-- The command line asks for help. -/
  | help
  deriving DecidableEq, Repr

/-- What is attached to an option: after `=`, or right after its letter. -/
inductive Attached where
  | none
  | equals (value : List Char)
  | letters (rest : List Char)
  deriving DecidableEq, Repr

/-- What a word is. -/
inductive Word where
  | value
  | unknown
  | option (flag : Flag) (attached : Attached)
  deriving DecidableEq, Repr

/-! ## Words -/

/-- The options that a parser knows by their spellings. -/
abbrev Flags := List (String × Flag)

/-- Whether the text after a dash makes a negative number, with a point or without. -/
def isNumber (cs : List Char) : Bool :=
  let cs := if cs.getLast? = some '\n' then cs.dropLast else cs
  let isDecimal (c : Char) : Bool := (Text.digitValue? c).isSome
  match cs.dropWhile isDecimal with
  | [] => !cs.isEmpty
  | '.' :: digits => !digits.isEmpty && digits.all isDecimal
  | _ => false

/-- A word cut at its first `=`, if it has one. -/
def cutEquals (cs : List Char) : List Char × Attached :=
  match cs.dropWhile (· != '=') with
  | [] => (cs, .none)
  | _ :: value => (cs.takeWhile (· != '='), .equals value)

/-- The options that a word with a dash in front may stand for, if it spells none in full. -/
def candidates (flags : Flags) (cs : List Char) : List Word :=
  match cs with
  | '-' :: '-' :: _ =>
    let (name, attached) := cutEquals cs
    flags.filterMap fun (spelling, flag) =>
      if name.isPrefixOf spelling.toList then some (.option flag attached) else none
  | dash :: letter :: rest =>
    ((flags.lookup (String.ofList [dash, letter])).map (.option · (.letters rest))).toList
  | _ => []

/-- What a word is among the words that may be options; a word that more than one option begins
like is wrong. -/
def classify (flags : Flags) (word : String) : Except Halt Word :=
  let cs := word.toList
  if cs.head? != some '-' then .ok .value
  else match flags.lookup word with
    | some flag => .ok (.option flag .none)
    | none =>
      if cs.length = 1 then .ok .value
      else
        let (name, attached) := cutEquals cs
        match flags.lookup (String.ofList name) with
        | some flag => .ok (.option flag attached)
        | none =>
          match candidates flags cs with
          | [w] => .ok w
          | _ :: _ => .error .usage
          | [] => .ok (if isNumber cs.tail || cs.contains ' ' then .value else .unknown)

/-- Refuses words that more than one option begins like. -/
def screen (flags : Flags) (words : List String) : Except Halt Unit :=
  (words.takeWhile (· != "--")).forM fun w => (classify flags w).map fun _ => ()

/-! ## Options -/

/-- What one word says. -/
structure Row where
  /-- Options with their values. -/
  options : List (Flag × String) := []
  /-- An option whose value is the next word. -/
  waiting : Option Flag := none
  /-- Whether the word goes on with a letter that is no option. -/
  stray : Bool := false

/-- The option by itself. -/
def Row.single (flag : Flag) : Row :=
  if flag.takesValue then { waiting := some flag } else { options := [(flag, "")] }

/-- The option with a value after `=`. -/
def Row.valued (flag : Flag) (value : List Char) : Except Halt Row :=
  if flag.takesValue then .ok { options := [(flag, String.ofList value)] } else .error .usage

/-- The options of a dash, the letter of `flag` and the given text. -/
def row (flags : Flags) (flag : Flag) : List Char → Except Halt Row
  | [] => .ok (.single flag)
  | '=' :: value => Row.valued flag value
  | c :: cs =>
    if flag.takesValue then Row.valued flag (c :: cs)
    else if c = '-' then .error .usage
    else match flags.lookup (String.ofList ['-', c]) with
      | none => .ok { options := [(flag, "")], stray := true }
      | some next => (row flags next cs).map fun r => { r with options := (flag, "") :: r.options }

/-- The options of a word. -/
def expand (flags : Flags) (flag : Flag) : Attached → Except Halt Row
  | .none => .ok (.single flag)
  | .equals value => Row.valued flag value
  | .letters rest => row flags flag rest

/-- The settings with one more option. -/
def Settings.set (s : Settings) (option : Flag × String) : Except Halt Settings :=
  match option.1 with
  | .help => .error .help
  | .verbose => .ok { s with verbosity := s.verbosity + 1 }
  | .stamped => .ok { s with stamped := true }
  | .output => .ok { s with output := option.2 }
  | .noComments => .ok { s with code := { s.code with comments := false } }
  | .poolStrings => .ok { s with code := { s.code with pool := true } }
  | .includeEnd => .ok { s with includeEnd := true }

/-- The settings with more options. -/
def Settings.setAll (s : Settings) (options : List (Flag × String)) : Except Halt Settings :=
  options.foldlM Settings.set s

/-! ## The command and its file -/

/-- What has been read of a command line.  `stray` tells whether some word had no place in it. -/
structure Reading where
  settings : Settings := {}
  file : Option String := none
  stray : Bool := false

namespace Reading

/-- A word that has no place. -/
def addStray (r : Reading) : Reading := { r with stray := true }

/-- The options of one word. -/
def addRow (r : Reading) (row : Row) : Except Halt Reading :=
  (r.settings.setAll row.options).map fun settings =>
    { r with settings, stray := r.stray || row.stray }

/-- A file, unless there is one already. -/
def addFile (r : Reading) (word : String) : Reading :=
  if r.file.isSome then r.addStray else { r with file := some word }

/-- The words after `--`.  Where the file came before, `--` must stand right behind it. -/
def addRest (r : Reading) (behindFile : Bool) (words : List String) : Reading :=
  match r.file, words with
  | none, file :: rest => { r with file := some file, stray := r.stray || !rest.isEmpty }
  | _, _ => { r with stray := r.stray || !(behindFile && words.isEmpty) }

end Reading

/-- The words up to the command, the command's name, and the words after it. -/
def readGlobal (r : Reading) : List String → Except Halt (Reading × String × List String)
  | [] => .error .usage
  | word :: rest =>
    if word = "--" then .error .usage
    else do
      match ← classify Flag.global word with
      | .value => .ok (r, word, rest)
      | .unknown => readGlobal r.addStray rest
      | .option flag attached =>
        let row ← expand Flag.global flag attached
        readGlobal (← r.addRow row) rest

/-- The words after the command.  `behindFile` tells whether the last one was the file. -/
def readLocal (flags : Flags) (behindFile : Bool) (r : Reading) :
    List String → Except Halt Reading
  | [] => .ok r
  | word :: rest =>
    if word = "--" then .ok (r.addRest behindFile rest)
    else do
      match ← classify flags word with
      | .value => readLocal flags r.file.isNone (r.addFile word) rest
      | .unknown => readLocal flags false r.addStray rest
      | .option flag attached =>
        let row ← expand flags flag attached
        match row.waiting, rest with
        | none, rest => readLocal flags false (← r.addRow row) rest
        | some _, [] => .error .usage
        | some waiting, value :: rest =>
          if value = "--" then .error .usage
          else
            match ← classify flags value with
            | .value =>
              let row := { row with options := row.options ++ [(waiting, value)] }
              readLocal flags false (← r.addRow row) rest
            | _ => .error .usage

end Command

/-- A command: what to do with which file. -/
structure Command where
  action : Command.Action
  file : String
  settings : Command.Settings := {}
  deriving DecidableEq, Repr

/-- The command of a command line. -/
def Command.ofArguments (words : List String) : Except Command.Halt Command := do
  Command.screen Command.Flag.global words
  let (r, name, rest) ← Command.readGlobal {} words
  match Command.Action.ofName? name with
  | none => .error .usage
  | some action =>
    let flags := Command.Flag.ofAction action
    Command.screen flags rest
    let r ← Command.readLocal flags false r rest
    match r.file with
    | some file =>
      if r.stray then .error .usage else .ok { action, file, settings := r.settings }
    | none => .error .usage

end CMinusMinus
