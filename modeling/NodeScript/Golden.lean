import NodeScript.Files
import NodeScript.LineDiff
import NodeScript.Run.Session
import NodeScript.Text.Blank

/-!
# Golden programs

A golden program is a file with its recorded output beside it: for `name.json` the output is in `name.json.expected`, and what it
reads in `name.json.input` if that is there. Running it and comparing the two says whether it still does what it did.
-/

namespace NodeScript

/-- The text that has been written. -/
def Sink.text (s : Sink) : String :=
  (String.fromUTF8? s.written).getD ""

/-- The message of a run that has no result. -/
def Halt.message : Halt → String
  | failed e => e.message
  | outOfFuel => "the run did not end"

namespace Golden

/-- What became of a golden program. -/
inductive Outcome where
  | passed
  | diff (text : String)
  | error (message : String)
  deriving DecidableEq, Repr

/-- A golden program and what became of it. -/
structure Result where
  name : String
  outcome : Outcome
  deriving DecidableEq, Repr

/-- Whether the output was the recorded one. -/
def Result.passed (r : Result) : Bool :=
  r.outcome = .passed

/-- A text without the blanks at its end. -/
def trimmed (s : String) : String :=
  String.ofList (Text.trimEnd s.toList)

/-- The result as it is shown. -/
def Result.text (r : Result) : String :=
  match r.outcome with
  | .passed => "  ok    " ++ r.name
  | .diff text => "  diff  " ++ r.name ++ "\n" ++ trimmed text
  | .error message => "  error " ++ r.name ++ ": " ++ trimmed message

/-- Runs the program of a text, and compares what it writes with what is expected. -/
def compare (config : Config) (source expected input : String) : Outcome :=
  match runText source config ⟨input.toUTF8.toList⟩ .unlimited with
  | (.error halt, _) => .error halt.message
  | (.ok _, m) => if m.sink.text = expected then .passed else .diff (lineDiff expected m.sink.text)

/-- What becomes of the program at a path. A missing input is an empty one. -/
def outcome (files : Files) (config : Config) (path : String) : Outcome :=
  match files.readText path with
  | .error e => .error ("cannot read program: " ++ e.message)
  | .ok source => match files.readText (path ++ ".expected") with
    | .error e => .error ("cannot read expected output: " ++ e.message)
    | .ok expected => match files.readText (path ++ ".input") with
      | .ok input => compare config source expected input
      | .error .notFound => compare config source expected ""
      | .error e => .error ("cannot read input: " ++ e.message)

/-- The name that a path ends with: its last part that is neither empty nor `.`. Where that is `..` there is none, and the path
stands for it. -/
def fileName (path : String) : String :=
  match (FileTree.parts path).reverse.find? fun part => part ≠ "" ∧ part ≠ "." with
  | some name => if name = ".." then path else name
  | none => path

/-- Runs the program at a path. -/
def run (files : Files) (config : Config) (path : String) : Result :=
  ⟨fileName path, outcome files config path⟩

/-! ## Directories -/

/-- Whether a file of this name is a program: what stands after its last dot is `json`, and something stands before it. -/
def isProgramName (name : String) : Bool :=
  let (ending, before) := (name.toList.reverse.takeWhile (· ≠ '.'), name.toList.reverse.dropWhile (· ≠ '.'))
  String.ofList ending.reverse = "json" && 1 < before.length

/-- The results of the programs of a directory. -/
structure Summary where
  results : List Result
  deriving DecidableEq, Repr

namespace Summary

/-- How many programs passed. -/
def passed (s : Summary) : Nat :=
  s.results.countP Result.passed

/-- How many programs did not pass. -/
def failed (s : Summary) : Nat :=
  s.results.length - s.passed

/-- Whether every program passed. -/
def allPassed (s : Summary) : Bool :=
  s.failed = 0

/-- The summary as it is shown. -/
def text (s : Summary) : String :=
  s.results.foldl (fun text r => text ++ r.text ++ "\n") "" ++
    "\n" ++ toString s.passed ++ " passed, " ++ toString s.failed ++ " failed\n"

end Summary

/-- Runs the programs of a directory in the order of their names. -/
def runDirectory (files : Files) (config : Config) (path : String) : Except FileFault Summary :=
  (files.list path).map fun entries =>
    let names := (entries.filter fun e => e.isFile && isProgramName e.name).map DirEntry.name
    let sorted := names.mergeSort fun a b => a ≤ b
    ⟨sorted.map fun name => run files config (path ++ "/" ++ name)⟩

end Golden

end NodeScript
