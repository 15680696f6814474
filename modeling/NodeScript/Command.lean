import NodeScript.Golden
import NodeScript.Json.Printer
import NodeScript.Tree.Dump

/-!
# The command line

Three commands: `run` runs programs one after another, `check` only loads them, and `test` runs the golden programs of a
directory. The call limit is given by an option before or after the name of the command, or else by a variable.
-/

namespace NodeScript

/-- What to do. -/
inductive Command where
  | run (files : List String) (parsed : Bool)
  | check (files : List String)
  | test (directory : String)
  deriving DecidableEq, Repr

namespace Command

/-! ## Arguments -/

/-- The variable that gives the call limit. -/
def limitVariable : String := "BISON_MAX_CALL_DEPTH"

/-- The option that gives the call limit. -/
def limitOption : String := "--max-call-depth"

/-- A call limit: an integer of 64 bits without a minus sign. -/
def limit? (text : String) : Option Nat :=
  match text.toList with
  | '-' :: _ => none
  | cs => match Decimal.integer? cs with
    | some n => if n.toNat < UInt64.size then some n.toNat else none
    | none => none

/-- What is given on one side of the command's name, or on the other. -/
structure Given where
  limit : Option Nat
  parsed : Bool
  names : List String

/-- Nothing is given yet. -/
def Given.nothing : Given := ⟨none, false, []⟩

/-- Notes a call limit, which may be given once on each side. -/
def Given.withLimit (g : Given) (text : String) : Option Given :=
  match g.limit, limit? text with
  | none, some n => some { g with limit := some n }
  | _, _ => none

/-- An argument that starts an option; a single dash does not. -/
def isOption (arg : String) : Bool :=
  arg.startsWith "-" && arg ≠ "-"

/-- The value of the option for the call limit, if it is given in one argument with it. -/
def joinedLimit? (arg : String) : Option String :=
  let start := (limitOption ++ "=").toList
  if start.isPrefixOf arg.toList then some (String.ofList (arg.toList.drop start.length)) else none

/-- The name of a command and what is given before and after it. -/
structure Line where
  before : Given
  name : String
  after : Given

/-- The arguments after the name of a command: options and names in any order, and only names after `--`. -/
def argumentsAfter (flagged : Bool) : Given → List String → Option Given
  | g, [] => some g
  | g, arg :: rest =>
    if arg = "--" then
      if rest.any (· = "") then none else some { g with names := g.names ++ rest }
    else if arg = limitOption then match rest with
      | value :: rest =>
        if isOption value then none else (g.withLimit value).bind fun g => argumentsAfter flagged g rest
      | [] => none
    else if arg = "--parsed" then
      if flagged && !g.parsed then argumentsAfter flagged { g with parsed := true } rest else none
    else match joinedLimit? arg with
      | some value => (g.withLimit value).bind fun g => argumentsAfter flagged g rest
      | none =>
        if isOption arg || arg = "" then none else argumentsAfter flagged { g with names := g.names ++ [arg] } rest

/-- All arguments: options for the call limit, the name of a command, and what follows it. -/
def arguments : Given → List String → Option Line
  | _, [] => none
  | g, arg :: rest =>
    if arg = limitOption then match rest with
      | value :: rest =>
        if isOption value then none else (g.withLimit value).bind fun g => arguments g rest
      | [] => none
    else match joinedLimit? arg with
      | some value => (g.withLimit value).bind fun g => arguments g rest
      | none =>
        if arg = "run" ∨ arg = "check" ∨ arg = "test" then
          (argumentsAfter (arg = "run") .nothing rest).map fun after => ⟨g, arg, after⟩
        else none

/-- The call limit of a line. The variable stands in on each side where the option is not given, and has to be a limit there;
what is given after the name of the command counts before what is given ahead of it, and an option before the variable. -/
def limitOf (line : Line) (setting : Option String) : Option Nat :=
  match line.before.limit, line.after.limit, setting with
  | some _, some n, _ => some n
  | before, after, some text => (limit? text).map fun n => (after.or before).getD n
  | before, after, none => some ((after.or before).getD Config.standard.callLimit)

/-- The command of a name with what is given after it. -/
def ofName (name : String) (given : Given) : Option Command :=
  match name, given.names with
  | "run", file :: files => some (.run (file :: files) given.parsed)
  | "check", file :: files => some (.check (file :: files))
  | "test", [directory] => some (.test directory)
  | _, _ => none

/-- The command of a line of arguments and its limits, given what the variable holds. -/
def parse? (args : List String) (setting : Option String) : Option (Command × Config) := do
  let line ← arguments .nothing args
  let limit ← limitOf line setting
  let command ← ofName line.name line.after
  return (command, ⟨limit⟩)

/-! ## Doing it -/

/-- What a command leaves behind. -/
structure Report where
  code : Nat
  stdout : String
  stderr : String
  deriving DecidableEq, Repr

/-- The report of a command that did nothing. -/
def Report.success : Report := ⟨0, "", ""⟩

/-- The report of something that came before. -/
def Report.after (stdout stderr : String) (r : Report) : Report :=
  ⟨r.code, stdout ++ r.stdout, stderr ++ r.stderr⟩

/-- The report of a file or a directory that cannot be read. -/
def unreadable (what : String) (e : FileFault) : Report :=
  ⟨1, "", "error: reading " ++ what ++ ": " ++ e.message ++ "\n"⟩

/-- The errors of a file, each line after its path. -/
def errorLines (path : String) (log : ErrorLog) : String :=
  (Text.lines log.text).foldl (fun text line => text ++ path ++ ": " ++ line ++ "\n") ""

/-- Runs files one after another; the input that one leaves goes to the next. A file is read when its turn comes, and the first
that fails ends it. -/
def runFiles {μ : Type → Type} [Monad μ] (read : String → μ (Except FileFault String)) (config : Config) (parsed : Bool) :
    List String → Source → μ Report
  | [], _ => return .success
  | path :: rest, source => do
    match ← read path with
    | .error e => return unreadable path e
    | .ok text => match Program.ofText text with
      | .error log => return ⟨1, "", errorLines path log⟩
      | .ok program =>
        let dump := if parsed then (Program.dump program).pretty 0 ++ "\n" else ""
        match Program.run program config source .unlimited with
        | (.ok _, m) =>
          let later ← runFiles read config parsed rest m.source
          return later.after m.sink.text dump
        | (.error halt, m) => return ⟨1, m.sink.text, dump ++ path ++ ": " ++ halt.message ++ "\n"⟩

/-- Loads files, and says of each whether it is a program. A file that cannot be read ends it. -/
def checkFiles (files : Files) : List String → Report
  | [] => .success
  | path :: rest =>
    match files.readText path with
    | .error e => unreadable path e
    | .ok text => match Program.ofText text with
      | .error log => { (checkFiles files rest).after "" (errorLines path log) with code := 1 }
      | .ok _ => (checkFiles files rest).after (path ++ ": ok\n") ""

/-- Runs the golden programs of a directory. -/
def testDirectory (files : Files) (config : Config) (path : String) : Report :=
  match Golden.runDirectory files config path with
  | .error e => unreadable ("golden directory " ++ path) e
  | .ok summary => ⟨if summary.allPassed then 0 else 1, summary.text, ""⟩

/-- Does what a command says. -/
def perform (files : Files) (config : Config) (input : Source) : Command → Report
  | .run paths parsed => Id.run (runFiles (fun path => pure (files.readText path)) config parsed paths input)
  | .check paths => checkFiles files paths
  | .test directory => testDirectory files config directory

end Command

end NodeScript
