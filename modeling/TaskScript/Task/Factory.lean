import TaskScript.Task.Basic

/-!
# Making jobs

A factory turns programs into jobs with names that it has not used before.  Names count upwards and
stay at the largest number once they reach it.

## Contents
- `Factory.allocate`, `Factory.reserveThrough`: the supply of names.
- `Factory.createJobs`: one job per target cube, or a single one.
-/

namespace TaskScript

/-- A supply of task names: the next one to use. -/
structure Factory where
  nextId : UInt64 := 1
deriving DecidableEq, Repr

namespace Factory

/-- Takes the next name. -/
def allocate (f : Factory) : Factory × TaskId :=
  ({ nextId := successor f.nextId }, ⟨f.nextId⟩)

/-- Never uses `id` or a smaller name again. -/
def reserveThrough (f : Factory) (id : TaskId) : Factory :=
  { nextId := max f.nextId (successor id.val) }

/-- One job for each of the cubes, in their order. -/
def jobsFor (name : String) (priority : Int64) (program : Program) :
    List Cube → Factory → Factory × List Job
  | [], f => (f, [])
  | c :: rest, f =>
    let (f, id) := f.allocate
    let (f, jobs) := jobsFor name priority program rest f
    (f, { id, name, priority, program, selected := some c } :: jobs)

/-- Makes jobs of a well-formed program: one for each target when it reads the selected cube, which
takes at least one target, and otherwise a single job, whatever the targets. -/
def createJobs (f : Factory) (name : String) (priority : Int64) (program : Program)
    (targets : List Cube) : Except FormationError (Factory × List Job) := do
  program.check
  if program.usesSelected then
    if targets.isEmpty then throw .missingSelection
    return jobsFor name priority program targets f
  else
    let (f, id) := f.allocate
    return (f, [{ id, name, priority, program, selected := none }])

end Factory

end TaskScript
