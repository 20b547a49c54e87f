import TaskScript.Evaluation
import TaskScript.Task.Basic

/-!
# Execution of programs

An execution is one actor's run of one job, spread over as many turns as it takes.  It keeps a stack
of frames from the statement being run out to the root, so that a turn goes on where the last one
stopped.  Only actions take time: an action is requested once, with the first turn that has time to
give, and holds the execution until the actor reports that it has finished.

A turn runs statements one step after the other.  It ends when an action has to be waited for, when
the program is done, when a step fails, or when the turn has used up its steps.  A step that fails
leaves the execution as it was before the step.

## Contents
- `Progress`, `Frame`, `Execution`, `Execution.start`.
- `Deed`: what a step did that can be told from outside.
- `Execution.step`: runs the innermost frame once; `Execution.turn`: a whole turn.
-/

namespace TaskScript

/-- How far a statement has got. -/
inductive Progress where
  | notStarted
  | active
  | completed
deriving DecidableEq, Repr, Inhabited

/-- A statement being run, with what has to be remembered between its steps. -/
inductive Frame where
  /-- `next` children have been entered. -/
  | sequence (id : StatementId) (next : Nat)
  /-- `entered` is set once a branch was chosen. -/
  | ifThen (id : StatementId) (entered : Bool)
  /-- `inBody` is set from a condition that held until the body is done. -/
  | whileDo (id : StatementId) (inBody : Bool)
  /-- `started` is set once the action was requested. -/
  | action (id : StatementId) (started : Bool)
  | simple (id : StatementId)
deriving DecidableEq, Repr

namespace Frame

/-- The statement of a frame. -/
def id : Frame → StatementId
  | .sequence id _ | .ifThen id _ | .whileDo id _ | .action id _ | .simple id => id

/-- Whether the frame is that of a loop. -/
def isLoop : Frame → Bool
  | .whileDo _ _ => true
  | _ => false

/-- The frame with which a statement is entered. -/
def enter (id : StatementId) : Option Statement → Frame
  | some (.sequence _) => .sequence id 0
  | some (.ifThen _ _ _) => .ifThen id false
  | some (.whileDo _ _) => .whileDo id false
  | some (.leaf (.action _)) => .action id false
  | some (.leaf _) | none => .simple id

/-- Whether the frame is that of an action. -/
def isAction : Frame → Bool
  | .action _ _ => true
  | _ => false

end Frame

/-- One actor's run of one job. -/
structure Execution where
  program : Program
  /-- The cube that the job was created for. -/
  selected : Option Cube
  /-- How many steps a turn may take. -/
  maxSteps : Nat
  env : Environment := ∅
  /-- The progress of every statement of the arena. -/
  progress : Array Progress
  /-- The statements being run, the innermost first. -/
  stack : List Frame := []
  /-- The time that the current turn still has to give to an action. -/
  allowance : Float := 0.0
  finished : Bool := false

/-- What one step did that can be told from outside. -/
inductive Deed where
  /-- A condition was evaluated. -/
  | decided (id : StatementId) (holds : Bool)
  /-- A variable was bound. -/
  | bound (id : StatementId) (name : String) (value : Value)
  | printed (id : StatementId) (value : Value)
  /-- An action was requested. -/
  | requested (id : StatementId) (request : Request)
  /-- An action was found finished. -/
  | retired (id : StatementId)
deriving DecidableEq, Repr

namespace Deed

/-- The value that was printed. -/
def printed? : Deed → Option Value
  | .printed _ value => some value
  | _ => none

/-- The request that was made. -/
def request? : Deed → Option Request
  | .requested _ request => some request
  | _ => none

end Deed

/-- What a step leads to: the execution after it, what it did, and whether the turn goes on. -/
structure Step where
  execution : Execution
  deed : Option Deed := none
  goesOn : Bool := true

/-- How a turn ends if nothing fails: the program goes on in another turn, or it is done. -/
inductive Outcome where
  | suspended
  | completed
deriving DecidableEq, Repr

/-- A whole turn: the execution after it, what was done in it, and how it ended. -/
structure Turn where
  execution : Execution
  deeds : List Deed
  result : Except Fault Outcome

namespace Turn

/-- The values printed in a turn. -/
def output (t : Turn) : List Value :=
  t.deeds.filterMap (·.printed?)

/-- The requests made in a turn. -/
def requests (t : Turn) : List Request :=
  t.deeds.filterMap (·.request?)

end Turn

/-- The request for an action, its target evaluated. -/
def Scope.request (scope : Scope) : Action → Except Fault Request
  | .moveTo target => return .moveTo scope.self (← scope.position target)
  | .work target => return .work scope.self (← scope.position target)
  | .follow target => return .follow scope.self (← scope.actor target)
  | .attack target => return .attack scope.self (← scope.actor target)

/-- Whether a condition holds.  A value that is no truth value does not. -/
def Scope.holds (scope : Scope) (condition : Expr) : Except Fault Bool :=
  return (← scope.evaluate condition) == .boolean true

namespace Execution

/-- The run of a job before its first turn.  A turn may always take one step. -/
def start (job : Job) (maxSteps : UInt32) : Execution where
  program := job.program
  selected := job.selected
  maxSteps := max maxSteps.toNat 1
  progress := Array.replicate job.program.size .notStarted

variable (e : Execution)

/-- The names of the statements being run, the root first. -/
def callStack : List StatementId :=
  (e.stack.map (·.id)).reverse

/-- What an expression of the program can observe. -/
def scope (view : WorldView) (actor : ActorId) : Scope where
  view
  self := actor
  env := e.env
  selected := e.selected

/-! ## Moves of the stack -/

/-- Notes how far a statement has got. -/
def setProgress (id : StatementId) (p : Progress) : Execution :=
  { e with progress := e.progress.setIfInBounds id p }

/-- Starts to run a statement.  An action is not under way before it is requested; every other
statement is. -/
def enter (id : StatementId) : Execution :=
  let frame := Frame.enter id (e.program.statement? id)
  let entered := if frame.isAction then e else e.setProgress id .active
  { entered with stack := frame :: e.stack }

/-- Changes what is remembered of the innermost statement. -/
def replaceTop (frame : Frame) : Execution :=
  { e with stack := frame :: e.stack.tail }

/-- Is done with the innermost statement. -/
def completeTop : Execution :=
  match e.stack with
  | [] => e
  | frame :: rest => { e.setProgress frame.id .completed with stack := rest }

/-- Forgets the progress of statements. -/
def reset (ids : List StatementId) : Execution :=
  ids.foldl (fun e id => e.setProgress id .notStarted) e

/-- Is done with the innermost statements of `frames` up to and including the first loop. -/
def unwind : List Frame → Execution → Execution
  | [], e => { e with stack := [] }
  | frame :: rest, e =>
    let e := e.setProgress frame.id .completed
    if frame.isLoop then { e with stack := rest } else unwind rest e

/-! ## Steps -/

/-- Runs the innermost frame once. -/
def step (around : Surroundings) (actor : ActorId) (frame : Frame) : Except Fault Step :=
  let scope := e.scope around.toWorldView actor
  match frame, e.program.statement? frame.id with
  | .sequence id next, some (.sequence children) =>
    match children[next]? with
    | some child => .ok { execution := (e.replaceTop (.sequence id (next + 1))).enter child }
    | none => .ok { execution := e.completeTop }
  | .ifThen id false, some (.ifThen condition thenBranch elseBranch) => do
    let holds ← scope.holds condition
    let deed := some (.decided id holds)
    match if holds then some thenBranch else elseBranch with
    | some branch => return { execution := (e.replaceTop (.ifThen id true)).enter branch, deed }
    | none => return { execution := e.completeTop, deed }
  | .whileDo id false, some (.whileDo condition body) => do
    let holds ← scope.holds condition
    let deed := some (.decided id holds)
    if holds then
      let fresh := e.reset (e.program.subtree body)
      return { execution := (fresh.replaceTop (.whileDo id true)).enter body, deed }
    else return { execution := e.completeTop, deed }
  | .whileDo id true, some _ => .ok { execution := e.replaceTop (.whileDo id false) }
  | .action id false, some (.leaf (.action a)) =>
    if 0.0 < e.allowance then do
      let request ← scope.request a
      let started := (e.setProgress id .active).replaceTop (.action id true)
      return { execution := { started with allowance := 0.0 }
               deed := some (.requested id request)
               goesOn := false }
    else .ok { execution := e, goesOn := false }
  | .action id true, some _ =>
    if around.isFinished actor then
      .ok { execution := e.completeTop, deed := some (.retired id) }
    else .ok { execution := { e with allowance := 0.0 }, goesOn := false }
  | .simple id, some (.leaf (.assign name value)) => do
    let value ← scope.evaluate value
    return { execution := ({ e with env := e.env.insert name value }).completeTop
             deed := some (.bound id name value) }
  | .simple id, some (.leaf (.print value)) => do
    let value ← scope.evaluate value
    return { execution := e.completeTop, deed := some (.printed id value) }
  | .simple _, some (.leaf .breakLoop) => .ok { execution := unwind e.stack e }
  | _, _ => .ok { execution := e.completeTop }

/-- Steps until the turn ends, `n` times at most.  `done` holds what was done so far in the turn,
the latest first. -/
def steps (around : Surroundings) (actor : ActorId) : Nat → Execution → List Deed → Turn
  | n, e, done =>
    match e.stack, n with
    | [], _ => ⟨{ e with finished := true }, done.reverse, .ok .completed⟩
    | _ :: _, 0 => ⟨e, done.reverse, .ok .suspended⟩
    | frame :: _, n + 1 =>
      match e.step around actor frame with
      | .error fault => ⟨e, done.reverse, .error fault⟩
      | .ok s =>
        let done := s.deed.toList ++ done
        if s.goesOn then steps around actor n s.execution done
        else ⟨s.execution, done.reverse, .ok .suspended⟩

/-- One turn with `dt` seconds to give to an action.  A negative time counts as none.  Once the
program is done, further turns change nothing. -/
def turn (around : Surroundings) (actor : ActorId) (dt : Float) : Turn :=
  if e.finished then ⟨e, [], .ok .completed⟩
  else
    let e := { e with allowance := if 0.0 < dt then dt else 0.0 }
    let e := if e.stack.isEmpty then e.enter e.program.root else e
    steps around actor e.maxSteps e []

end Execution

end TaskScript
