/-!
# Paths

A path is a text cut at slashes.  Empty steps and steps `.` stand for nothing.  A path that
begins with a slash is absolute; exactly two slashes at the beginning are kept as two, any other
number counts as one.

`tidy` drops the steps that stand for nothing and keeps `..`, since the directory before it may
be a link.  `absolute` is for messages: it puts the current directory before a relative path and
lets every `..` cancel the step before it.
-/

namespace CMinusMinus.Text.Path

/-- The text cut at every slash. -/
def cut : List Char → List (List Char)
  | [] => [[]]
  | c :: cs =>
    if c = '/' then [] :: cut cs
    else match cut cs with
      | [] => [[c]]
      | step :: steps => (c :: step) :: steps

/-- The steps that stand for something. -/
def steps (path : String) : List String :=
  ((cut path.toList).filter fun step => step != [] && step != ['.']).map String.ofList

/-- The slashes a path begins with: none, one, or two where there are exactly two. -/
def root (path : String) : String :=
  match path.toList with
  | '/' :: '/' :: '/' :: _ => "/"
  | '/' :: '/' :: _ => "//"
  | '/' :: _ => "/"
  | _ => ""

/-- A path from its root and its steps; the path of no step and no root is `.`. -/
def join (root : String) (steps : List String) : String :=
  let path := root ++ "/".intercalate steps
  if path = "" then "." else path

/-- The path without the steps that stand for nothing. -/
def tidy (path : String) : String :=
  join (root path) (steps path)

/-- One more step, on steps in reverse.  A step up cancels the step before it, unless that is a
step up itself; at the root it stands for nothing, and before it nothing is known. -/
def climb (rooted : Bool) (done : List String) (step : String) : List String :=
  if step != ".." then step :: done
  else match done with
    | [] => if rooted then [] else [".."]
    | last :: rest => if last = ".." then ".." :: done else rest

/-- The path with every `..` cancelled that can be. -/
def flat (path : String) : String :=
  let start := root path
  join start ((steps path).foldl (climb (start != "")) []).reverse

/-- A relative path behind a directory, with a slash between them unless the directory ends in
one or is none. -/
def behind (directory path : String) : String :=
  if directory = "" || directory.toList.getLast? == some '/' then directory ++ path
  else directory ++ "/" ++ path

/-- The path as seen from the root, given the current directory. -/
def absolute (directory path : String) : String :=
  flat (if root path = "" then behind directory path else path)

end CMinusMinus.Text.Path
