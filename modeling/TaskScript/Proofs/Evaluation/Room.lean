import TaskScript.Execution
import TaskScript.Proofs.Cube.Room
import TaskScript.Proofs.Script.Literals
import TaskScript.Proofs.Task.Lookup

/-!
# `Proofs.Evaluation.Room`: evaluation that stays in range

An expression computes cubes in two ways: it searches the world, and it looks for a passable neighbour of a cube. The
first succeeds in every world whose cubes have room; the second can be asked of any cube that a task names. So if
every cube has room that an expression can get hold of (the literals in it, what the variables hold, the cube the task
was created for), its evaluation ends with a value or with an error of the task's own, and a cube that is its value has
room again.

## Contents
- `Value.HasRoom`, `Request.HasRoom`, `WorldView.HasRoom`, `Scope.HasRoom`, `Fault.InRange`.
- `Scope.HasRoom.position`, `boolean`, `evaluate`, `holds`, `request`: **evaluation stays in range**.
-/

namespace TaskScript

/-! ## What has room -/

variable {size : Extent}

/-- A value that is no cube, or a cube that has room. -/
def Value.HasRoom (size : Extent) : Value → Prop
  | .position c => c.HasRoom size
  | .boolean _ | .actor _ => True

/-- A request that sends nobody to a cube without room. -/
def Request.HasRoom (size : Extent) : Request → Prop
  | .moveTo _ target => target.HasRoom size
  | .work _ _ | .follow _ _ | .attack _ _ => True

/-- A view of a world whose cubes have room, and those on which actors stand. -/
structure WorldView.HasRoom (size : Extent) (view : WorldView) : Prop where
  inBounds : ∀ c, view.inBounds c = true → c.HasRoom size
  position : ∀ a c, view.position? a = some c → c.HasRoom size

/-- The variables hold no cube without room. -/
def Environment.HasRoom (size : Extent) (env : Environment) : Prop :=
  ∀ (name : String) (v : Value), env[name]? = some v → v.HasRoom size

/-- **Every cube that an expression can observe has room.** -/
structure Scope.HasRoom (size : Extent) (scope : Scope) : Prop where
  view : scope.view.HasRoom size
  env : Environment.HasRoom size scope.env
  selected : ∀ c, scope.selected = some c → c.HasRoom size

theorem Environment.hasRoom_empty : Environment.HasRoom size ∅ := by
  intro name v hv
  rw [Std.ExtTreeMap.getElem?_empty] at hv
  cases hv

theorem Environment.HasRoom.insert {env : Environment} (h : Environment.HasRoom size env) (name : String) {v : Value}
    (hv : v.HasRoom size) : Environment.HasRoom size (env.insert name v) :=
  fun _ _ hv' => of_lookup_insert h hv hv'

/-- **A fault that is no overflow**: the task can answer for it. -/
def Fault.InRange : Fault → Prop
  | .error _ => True
  | .overflow _ => False

/-! ## Evaluation -/

namespace Scope

variable {scope : Scope} {α : Type} {P : α → Prop}

theorem endsIn_require {cause : EvaluationError} {answer : Option α} (h : ∀ a, answer = some a → P a) :
    EndsIn Fault.InRange P (require cause answer) := by
  cases answer with
  | none => trivial
  | some a => exact h a rfl

theorem endsIn_groupOf (a : ActorId) : EndsIn Fault.InRange (fun _ => True) (scope.groupOf a) :=
  endsIn_require fun _ _ => trivial

namespace HasRoom

variable (h : scope.HasRoom size)

include h

theorem here : EndsIn Fault.InRange (Cube.HasRoom size) scope.here :=
  endsIn_require fun c hc => h.view.position scope.self c hc

theorem read {expected : ValueKind} {unpack : Value → Option α}
    (hunpack : ∀ v a, v.HasRoom size → unpack v = some a → P a) (name : String) :
    EndsIn Fault.InRange P (scope.read name expected unpack) := by
  have hbound : EndsIn Fault.InRange (Value.HasRoom size) (require (.unboundVariable name) scope.env[name]?) :=
    endsIn_require (h.env name)
  exact hbound.bind fun v hv => endsIn_require fun a ha => hunpack v a hv ha

/-- A search of the world stays in the world. -/
theorem scanCube (target : ScanTarget) : EndsIn Fault.InRange (Cube.HasRoom size) (scope.scanCube target) := by
  refine h.here.bind fun origin _ => ?_
  have hsearch := Search.succeeds_nearest? (p := scope.cubeMatches target) h.view.inBounds origin
  refine (hsearch.mapError Fault.overflow).bind fun found hfound => ?_
  exact endsIn_require fun c hc => h.view.inBounds c (hfound c hc)

theorem scanActor (target : ScanTarget) : EndsIn Fault.InRange (fun _ => True) (scope.scanActor target) := by
  refine h.here.bind fun origin _ => ?_
  refine (h.scanCube target).bind fun c _ => ?_
  exact endsIn_require fun _ _ => trivial

theorem actor (expr : ActorExpr) : EndsIn Fault.InRange (fun _ => True) (scope.actor expr) := by
  cases expr with
  | this => trivial
  | friend => exact h.scanActor .factionMate
  | enemy => exact h.scanActor .nonFactionMate
  | any => exact h.scanActor .anyActor
  | «variable» name => exact h.read (fun _ _ _ _ => trivial) name

/-- **The cube that an expression denotes has room**, if it denotes one. -/
theorem position {expr : PositionExpr} (hliterals : ∀ c ∈ expr.literals, c.HasRoom size) :
    EndsIn Fault.InRange (Cube.HasRoom size) (scope.position expr) := by
  induction expr with
  | literal c => exact hliterals c List.mem_cons_self
  | here => exact h.here
  | selected => exact endsIn_require h.selected
  | log => exact h.scanCube .log
  | boulder => exact h.scanCube .boulder
  | workshop => exact h.scanCube .workshop
  | nextTo inner ih =>
    refine (ih hliterals).bind fun centre hcentre => ?_
    have hsearch := Cube.succeeds_findNeighbour hcentre scope.view.isPassable
    refine (hsearch.mapError Fault.overflow).bind fun found hfound => ?_
    -- what can be entered is of the world
    exact endsIn_require fun c hc => h.view.inBounds c (Bool.and_eq_true_iff.mp (hfound c hc)).1
  | positionOf expr =>
    exact (h.actor expr).bind fun a _ => endsIn_require fun c hc => h.view.position a c hc
  | «variable» name =>
    refine h.read (fun v c hv hc => ?_) name
    cases v with
    | position c' =>
      cases hc
      exact hv
    | boolean _ => cases hc
    | actor _ => cases hc

/-- Questions about the groups of two actors. -/
theorem compare (expr : ActorExpr) (f : GroupId → GroupId → Bool) :
    EndsIn Fault.InRange (fun _ => True)
      (do
        let other ← scope.actor expr
        let own ← scope.groupOf scope.self
        return f own (← scope.groupOf other)) := by
  refine (h.actor expr).bind fun other _ => ?_
  refine (endsIn_groupOf scope.self).bind fun own _ => ?_
  exact (endsIn_groupOf other).bind fun _ _ => trivial

theorem boolean {expr : BoolExpr} (hliterals : ∀ c ∈ expr.literals, c.HasRoom size) :
    EndsIn Fault.InRange (fun _ => True) (scope.boolean expr) := by
  induction expr with
  | literal b => trivial
  | not inner ih => exact (ih hliterals).bind fun _ _ => trivial
  | and left right ihl ihr =>
    have hright := ihr fun c hc => hliterals c (List.mem_append_right _ hc)
    refine (ihl fun c hc => hliterals c (List.mem_append_left _ hc)).bind fun b _ => ?_
    cases b with
    | true => exact hright
    | false => trivial
  | or left right ihl ihr =>
    have hright := ihr fun c hc => hliterals c (List.mem_append_right _ hc)
    refine (ihl fun c hc => hliterals c (List.mem_append_left _ hc)).bind fun b _ => ?_
    cases b with
    | true => trivial
    | false => exact hright
  | isSolid expr => exact (h.position hliterals).bind fun _ _ => trivial
  | isPassable expr => exact (h.position hliterals).bind fun _ _ => trivial
  | isFriend expr => exact h.compare expr (· == ·)
  | isEnemy expr => exact h.compare expr (· != ·)
  | isAlive expr => exact (h.actor expr).bind fun _ _ => trivial
  | carriesItem expr =>
    refine (h.actor expr).bind fun other _ => ?_
    split <;> trivial
  | «variable» name => exact h.read (fun _ _ _ _ => trivial) name

/-- **The value of an expression has room**, if it has one. -/
theorem evaluate {expr : Expr} (hliterals : ∀ c ∈ expr.literals, c.HasRoom size) :
    EndsIn Fault.InRange (Value.HasRoom size) (scope.evaluate expr) := by
  cases expr with
  | bool expr => exact (h.boolean hliterals).bind fun _ _ => trivial
  | position expr => exact (h.position hliterals).bind fun _ hc => hc
  | actor expr => exact (h.actor expr).bind fun _ _ => trivial

theorem holds {condition : Expr} (hliterals : ∀ c ∈ condition.literals, c.HasRoom size) :
    EndsIn Fault.InRange (fun _ => True) (scope.holds condition) :=
  (h.evaluate hliterals).bind fun _ _ => trivial

/-- **A request has room**, if one is made. -/
theorem request {a : Action} (hliterals : ∀ c ∈ a.literals, c.HasRoom size) :
    EndsIn Fault.InRange (Request.HasRoom size) (scope.request a) := by
  cases a with
  | moveTo target => exact (h.position hliterals).bind fun _ hc => hc
  | work target => exact (h.position hliterals).bind fun _ _ => trivial
  | follow target => exact (h.actor target).bind fun _ _ => trivial
  | attack target => exact (h.actor target).bind fun _ _ => trivial

end HasRoom

end Scope

end TaskScript
