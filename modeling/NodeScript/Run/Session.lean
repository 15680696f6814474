import NodeScript.Load.Program
import NodeScript.Run.Config
import NodeScript.Run.Interp

/-!
# Sessions

A session runs one program after another against the same variables, the same input and the same output. A program on its own
is a session of one program.
-/

namespace NodeScript

/-- The fuel of a run: more than any run uses up in a lifetime. -/
def runFuel : Nat := Nat.pow 2 62

/-- The state before a program runs. -/
def Machine.start (source : Source) (sink : Sink) : Machine :=
  ⟨.empty, .empty, source, sink, 0⟩

namespace Interp

/-- Runs a whole program, and flushes its output. -/
def program (r : Interp) (code : Block FuncId) : Exec Unit := do
  match ← r.block code with
  | .completed => Exec.flush
  | .returned _ => Exec.fault .returnOutsideFunction

end Interp

/-- What lives on from program to program. -/
structure Session where
  machine : Machine
  config : Config
  /-- The number of the next function. -/
  nextFunc : FuncId

namespace Session

variable {α : Type}

/-- A session without any variable. -/
def start (config : Config) (source : Source) (sink : Sink) : Session :=
  ⟨.start source sink, config, 0⟩

/-- The interpreter of a session with an amount of fuel. -/
def interpWith (s : Session) (fuel : Nat) : Interp :=
  NodeScript.interp s.config.callLimit fuel

/-- The interpreter of a session. -/
def interp (s : Session) : Interp :=
  s.interpWith runFuel

/-- Does a step, and goes on from the state that it reaches. -/
def perform (s : Session) (x : Exec α) : Except Halt α × Session :=
  match x s.machine with
  | .ok a machine => (.ok a, { s with machine })
  | .error e machine => (.error e, { s with machine })

/-- Gives the functions of a program numbers that no function of the session has. -/
def number (s : Session) (program : Program) : Block FuncId × Session :=
  let (code, next) := Program.number program s.nextFunc
  (code, { s with nextFunc := next })

/-- Runs a program with an amount of fuel. -/
def runWith (s : Session) (fuel : Nat) (program : Program) : Except Halt Unit × Session :=
  let (code, s) := s.number program
  s.perform ((s.interpWith fuel).program code)

/-- Runs a program. -/
def run (s : Session) (program : Program) : Except Halt Unit × Session :=
  s.runWith runFuel program

/-- Executes one instruction. -/
def execute (s : Session) (stmt : Stmt FuncId) : Except Halt Flow × Session :=
  s.perform (s.interp.stmt stmt)

/-- Evaluates one expression. -/
def evaluate (s : Session) (e : Expr FuncId) : Except Halt Value × Session :=
  s.perform (s.interp.expr e)

/-- Calls a function with slots. -/
def call (s : Session) (f : Func) (args : List SlotId) (kwargs : List (String × SlotId)) : Except Halt SlotId × Session :=
  s.perform (Interp.invoke s.config.callLimit s.interp f args kwargs)

end Session

/-! ## Programs on their own -/

/-- Runs a program from an empty environment with an amount of fuel; gives how it ended and the state it reached. -/
def Program.runWith (program : Program) (fuel : Nat) (config : Config) (source : Source) (sink : Sink) :
    Except Halt Unit × Machine :=
  let (result, s) := (Session.start config source sink).runWith fuel program
  (result, s.machine)

/-- Runs a program from an empty environment. -/
def Program.run (program : Program) (config : Config) (source : Source) (sink : Sink) : Except Halt Unit × Machine :=
  program.runWith runFuel config source sink

/-- The failure of a document that does not load: that of its first error. -/
def Failure.ofLog (log : ErrorLog) : Failure :=
  match log.errors with
  | e :: _ => .ofLoadError e
  | [] => ⟨.malformedNode "document could not be loaded", none⟩

/-- Loads and runs the result of reading a document. -/
def runLoaded (loaded : Except ErrorLog Program) (config : Config) (source : Source) (sink : Sink) :
    Except Halt Unit × Machine :=
  match loaded with
  | .ok program => Program.run program config source sink
  | .error log => (.error (.failed (.ofLog log)), .start source sink)

/-- Runs the program that a text holds. -/
def runText (source : String) (config : Config) (input : Source) (sink : Sink) : Except Halt Unit × Machine :=
  runLoaded (Program.ofText source) config input sink

/-- Runs the program of a document. -/
def runJson (doc : Json) (config : Config) (input : Source) (sink : Sink) : Except Halt Unit × Machine :=
  runLoaded (Program.ofJson doc) config input sink

end NodeScript
