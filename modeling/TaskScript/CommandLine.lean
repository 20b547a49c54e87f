import TaskScript.Demo
import TaskScript.Document.Event
import TaskScript.Sandbox.Tick

/-!
# The command line

What the command line prints and how it exits, as a function of its arguments and of the file that
they name.  Reading the file and printing are left to the caller.

## Contents
- `Command`, `Invocation`: the arguments, taken apart; `Invocation.file?`: the file to read.
- `Printed`: the lines of a command and how it ended.
- `Invocation.report`: the lines, the messages and the exit code.
-/

namespace TaskScript.CommandLine

/-- What the command line is asked to do. -/
inductive Command where
  | demo (ticks : Option String)
  | check (path : Option String)
  | run (path : Option String) (ticks : Option String)
  | help
deriving DecidableEq, Repr

/-- The arguments of the command line, taken apart. -/
structure Invocation where
  command : Command
  /-- Whether events are printed as JSON. -/
  json : Bool
deriving DecidableEq, Repr

namespace Invocation

/-- Takes the arguments apart.  The option for JSON may stand anywhere and more than once. -/
def ofArgs (args : List String) : Invocation :=
  let json := args.contains "--json"
  let command := match args.filter (· != "--json") with
    | "demo" :: rest => .demo rest.head?
    | "check" :: rest => .check rest.head?
    | "run" :: rest => .run rest.head? rest[1]?
    | _ => .help
  { command, json }

/-- The file that has to be read. -/
def file? (i : Invocation) : Option String :=
  match i.command with
  | .check path | .run path _ => path
  | .demo _ | .help => none

end Invocation

/-- How a command ends before its time: with a message, or on a coordinate out of range. -/
inductive Failure where
  | message (text : String)
  | overflow (cause : Overflow)
deriving DecidableEq, Repr

/-- The lines that a command prints, and how it ends. -/
structure Printed where
  lines : List String
  result : Except Failure Unit

/-- A command that ends before it prints anything. -/
def Printed.fail (text : String) : Printed :=
  ⟨[], .error (.message text)⟩

/-- What the command line leaves behind. -/
structure Report where
  stdout : List String
  stderr : List String
  exitCode : Nat
deriving DecidableEq, Repr

/-- How the command line is used. -/
def usage : List String :=
  ["kernel-cli <command>",
    "commands:",
    "  demo [ticks] [--json]",
    "    runs the built-in survey and lumber scenario",
    "  check <scenario.json>",
    "    builds every task program and reports formation errors",
    "  run <scenario.json> [ticks] [--json]",
    "    loads the scenario and advances it, printing task events",
    "    --json prints one event object per line instead of text",
    "logging: RUST_LOG=debug kernel-cli ..."]

/-- A number of ticks: decimal digits, after a plus sign or not, up to the largest 64-bit number. -/
def ticks? (text : String) : Option Nat :=
  let digits := match text.toList with
    | '+' :: rest => rest
    | chars => chars
  let value := Decimal.digitsValue (Json.Reader.digits digits)
  if digits ≠ [] ∧ digits.all Char.isDigit ∧ value < 18446744073709551616 then some value else none

/-- The number of ticks that an argument asks for. -/
def ticksOr (usual : Nat) : Option String → Except String Nat
  | none => .ok usual
  | some text =>
    match ticks? text with
    | some n => .ok n
    | none => .error ("invalid ticks: " ++ text)

/-- The scenario in a file. Where the text is no scenario, the message ends with the name of the file; the reader's
account of what is wrong with the text, which the program prints after it, is left out. -/
def scenario (path : Option String) (contents : Except String String) : Except String Scenario :=
  match path, contents with
  | none, _ => .error "missing scenario path"
  | some path, .error reason => .error ("failed to read " ++ path ++ ": " ++ reason)
  | some path, .ok text =>
    match Scenario.parse? text with
    | some s => .ok s
    | none => .error ("invalid scenario " ++ path)

/-! ## Running -/

/-- A task state in the summary. -/
def statusText : TaskStatus → String
  | .unassigned => "Unassigned"
  | .assignedTo actor => "AssignedTo(ActorId(" ++ toString actor.val ++ "))"
  | .completed => "Completed"

/-- The line of a task in the summary. -/
def taskLine (t : Task) : String :=
  toString t.id ++ " " ++ t.name ++ " priority=" ++ toString t.priority.toInt ++ " " ++
    statusText t.status

/-- The line of an actor in the summary. -/
def actorLine (actor : ActorId) (a : ActorState) : String :=
  let carrying := match a.carrying with
    | some item => item.label
    | none => "nothing"
  toString actor ++ " at " ++ toString a.position ++ " alive=" ++
    (if a.alive then "true" else "false") ++ " carrying " ++ carrying ++ " " ++ a.activity.label

/-- How a sandbox stands: the tick, the tasks, and the actors. -/
def summary (s : Sandbox) : List String :=
  ["-- tick " ++ toString s.tick ++ " --"] ++ s.foreman.board.toList.map taskLine ++
    s.world.actors.toList.map fun (actor, a) => actorLine actor a

/-- Advances a sandbox tick by tick, printing the events of each tick when it is over, and at the
end, unless events are printed as JSON, the summary.  `lines` holds what was printed before. -/
def runSandbox (json : Bool) (dt : Float) : Nat → Sandbox → Array String → Printed
  | 0, s, lines => ⟨lines.toList ++ (if json then [] else summary s), .ok ()⟩
  | n + 1, s, lines =>
    match s.advanceTime dt with
    | .error o => ⟨lines.toList, .error (.overflow o)⟩
    | .ok (s, _) =>
      let (foreman, events) := s.foreman.drainEvents
      let printed := events.map fun e => if json then e.line else e.text
      runSandbox json dt n { s with foreman } (lines ++ printed.toArray)

/-! ## Checking -/

/-- Tries to make jobs of the tasks of a scenario, with a supply of names for them alone.  Returns a
line for each task, and how many were rejected. -/
def checkTasks : List TaskSpec → Factory → List String × Nat
  | [], _ => ([], 0)
  | spec :: rest, factory =>
    let made := do
      let program ← spec.program.build
      factory.createJobs spec.name spec.priority program spec.targets
    match made with
    | .ok (factory, jobs) =>
      let (lines, rejected) := checkTasks rest factory
      (("ok " ++ spec.name ++ " (" ++ toString jobs.length ++ " task(s))") :: lines, rejected)
    | .error e =>
      let (lines, rejected) := checkTasks rest factory
      (("rejected " ++ spec.name ++ ": " ++ e.message) :: lines, rejected + 1)

/-- Checks the tasks of a scenario one by one, and then whether it can be set up. -/
def checkScenario (s : Scenario) : Printed :=
  let (lines, rejected) := checkTasks s.tasks {}
  match Sandbox.ofScenario s with
  | .error e => ⟨lines, .error (.message ("scenario setup: " ++ e.message))⟩
  | .ok _ =>
    if 0 < rejected then ⟨lines, .error (.message (toString rejected ++ " task(s) rejected"))⟩
    else ⟨lines, .ok ()⟩

/-! ## Commands -/

/-- The number of ticks of a demonstration. -/
def demoTicks : Nat := 60

/-- The seconds of a tick of the demonstration. -/
def demoDt : Float := 0.1

namespace Invocation

/-- Runs a command, given what reading its file came to. -/
def print (i : Invocation) (contents : Except String String) : Printed :=
  match i.command with
  | .help => ⟨usage, .ok ()⟩
  | .demo ticks =>
    match ticksOr demoTicks ticks, Demo.sandbox with
    | .error text, _ => .fail text
    | .ok _, .error e => .fail e.message
    | .ok n, .ok s => runSandbox i.json demoDt n s #[]
  | .check path =>
    match scenario path contents with
    | .error text => .fail text
    | .ok s => checkScenario s
  | .run path ticks =>
    match scenario path contents with
    | .error text => .fail text
    | .ok scenario =>
      match ticksOr scenario.ticks.toNat ticks, Sandbox.ofScenario scenario with
      | .error text, _ => .fail text
      | .ok _, .error e => .fail e.message
      | .ok n, .ok s => runSandbox i.json scenario.dt n s #[]

/-- What a command leaves behind.  A failed one names its error and shows how the command line is
used. -/
def report (i : Invocation) (contents : Except String String) : Report :=
  let printed := i.print contents
  match printed.result with
  | .ok () => ⟨printed.lines, [], 0⟩
  | .error (.message text) => ⟨printed.lines ++ usage, ["error: " ++ text], 2⟩
  | .error (.overflow o) => ⟨printed.lines, [o.message], 101⟩

end Invocation

end TaskScript.CommandLine
