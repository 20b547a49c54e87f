import Mathlib.Data.List.Sort
import TaskScript.Proofs.Sandbox.Sight

/-!
# `Proofs.Sandbox.Dead`: the dead are invisible

The dead stay in the world. One of them lies in some cube, may have an item on it, and is still a member of its group;
an expression can name it by a variable, or be evaluated for it. All that an expression learns is that it is dead and
what its group is.

A world hides most of this by itself: it lists the living of a cube, and tells where the living are. There is one
question that it answers for the dead as well, whether an actor carries an item, and there it is the evaluator that
has to ask first whether the actor lives. So the argument goes in two parts. What an expression is worth does not
depend on the items of the dead (`Scope.evaluate_recarry`), and nothing else in what is observed tells two worlds
apart that differ in their dead (`World.SameButForDead.scope_eq`).

## Contents
- `Scope.recarry`, `boolean_recarry`, `evaluate_recarry`: **items of the dead do not matter**.
- `ActorState.SameUnlessDead`, `World.SameButForDead`: worlds that differ in their dead.
- `lookup_cases`, `living?_eq`, `actorsAt_eq`, `scope_eq`: what such worlds have in common.
- `World.dead_are_invisible`: **expressions do not tell them apart**.
-/

namespace TaskScript

open Std

/-! ## Who carries an item -/

namespace Scope

variable {scope : Scope} {carrying : ActorId → Bool}

/-- The same scope with other answers to who carries an item. -/
def recarry (scope : Scope) (carrying : ActorId → Bool) : Scope :=
  { scope with view := { scope.view with isCarrying := carrying } }

/-- No actor is searched for by what it carries. -/
theorem actor_recarry (expr : ActorExpr) : (scope.recarry carrying).actor expr = scope.actor expr := by
  cases expr <;> rfl

theorem position_recarry (expr : PositionExpr) :
    (scope.recarry carrying).position expr = scope.position expr := by
  induction expr with
  | nextTo inner ih =>
    unfold position
    rw [ih]
    rfl
  | positionOf expr =>
    unfold position
    rw [actor_recarry]
    rfl
  | _ => rfl

/-- **Whether an actor carries an item is asked of the living only.** -/
theorem boolean_recarry (h : ∀ a, scope.view.isAlive a = true → carrying a = scope.view.isCarrying a)
    (expr : BoolExpr) : (scope.recarry carrying).boolean expr = scope.boolean expr := by
  induction expr with
  | literal | «variable» => rfl
  | not inner ih =>
    unfold boolean
    rw [ih]
  | and left right ihl ihr | or left right ihl ihr =>
    unfold boolean
    rw [ihl, ihr]
  | isSolid expr | isPassable expr =>
    unfold boolean
    rw [position_recarry]
    rfl
  | isFriend expr | isEnemy expr | isAlive expr =>
    unfold boolean
    rw [actor_recarry]
    rfl
  | carriesItem expr =>
    unfold boolean
    rw [actor_recarry]
    cases scope.actor expr with
    | error fault => rfl
    | ok other =>
      show (if scope.view.isAlive other then pure (carrying other) else throw _) =
        if scope.view.isAlive other then pure (scope.view.isCarrying other) else throw _
      by_cases halive : scope.view.isAlive other = true
      · rw [h other halive]
      · rw [if_neg halive, if_neg halive]

/-- **Expressions do not depend on what the dead carry.** -/
theorem evaluate_recarry (h : ∀ a, scope.view.isAlive a = true → carrying a = scope.view.isCarrying a)
    (expr : Expr) : (scope.recarry carrying).evaluate expr = scope.evaluate expr := by
  unfold evaluate
  cases expr with
  | bool expr => dsimp only; rw [boolean_recarry h]
  | position expr => dsimp only; rw [position_recarry]
  | actor expr => dsimp only; rw [actor_recarry]

end Scope

/-! ## Worlds that differ in their dead -/

/-- An actor that is the same as another one, unless they are both dead. The dead may differ in where they lie, what
they carry and what they were busy with. -/
inductive ActorState.SameUnlessDead : ActorState → ActorState → Prop
  | same (x : ActorState) : SameUnlessDead x x
  | dead {x x' : ActorState} :
      x.alive = false → x'.alive = false → x'.group = x.group → SameUnlessDead x x'

namespace World

/-- Two worlds that are the same apart from where the dead lie, what they carry and what they were busy with. -/
structure SameButForDead (w w' : World) : Prop where
  config : w'.config = w.config
  terrain : w'.terrain = w.terrain
  logs : w'.logs = w.logs
  boulders : w'.boulders = w.boulders
  actors : ∀ a : ActorId, Option.Rel ActorState.SameUnlessDead w.actors[a]? w'.actors[a]?

namespace SameButForDead

variable {w w' : World} (h : w.SameButForDead w')

include h

/-- Under a name there is the same actor in both worlds, or there are two dead ones of one group. -/
theorem lookup_cases (a : ActorId) :
    w'.actors[a]? = w.actors[a]? ∨
      ∃ x x', w.actors[a]? = some x ∧ w'.actors[a]? = some x' ∧
        x.alive = false ∧ x'.alive = false ∧ x'.group = x.group := by
  have hactor := h.actors a
  generalize w.actors[a]? = y at hactor ⊢
  generalize w'.actors[a]? = y' at hactor ⊢
  cases hactor with
  | none => exact .inl rfl
  | some hsame =>
    cases hsame with
    | same => exact .inl rfl
    | dead hdead hdead' hgroup => exact .inr ⟨_, _, rfl, rfl, hdead, hdead', hgroup⟩

/-- The living are the same in both worlds, in every respect. -/
theorem living?_eq (a : ActorId) : w'.living? a = w.living? a := by
  unfold living?
  rcases h.lookup_cases a with heq | ⟨x, x', hx, hx', hdead, hdead', -⟩
  · rw [heq]
  · simp [hx, hx', Option.filter, hdead, hdead']

theorem group?_eq (a : ActorId) : w'.surroundings.group? a = w.surroundings.group? a := by
  show w'.actors[a]?.map _ = w.actors[a]?.map _
  rcases h.lookup_cases a with heq | ⟨x, x', hx, hx', -, -, hgroup⟩
  · rw [heq]
  · simp [hx, hx', hgroup]

theorem isAlive_eq (a : ActorId) : w'.surroundings.isAlive a = w.surroundings.isAlive a := by
  show w'.actors[a]?.any _ = w.actors[a]?.any _
  rcases h.lookup_cases a with heq | ⟨x, x', hx, hx', hdead, hdead', -⟩
  · rw [heq]
  · simp [hx, hx', hdead, hdead']

/-- The living carry the same in both worlds. Nothing of the kind is said of the dead. -/
theorem isCarrying_eq {a : ActorId} (ha : w.surroundings.isAlive a = true) :
    w'.surroundings.isCarrying a = w.surroundings.isCarrying a := by
  show w'.actors[a]?.any _ = w.actors[a]?.any _
  rcases h.lookup_cases a with heq | ⟨x, x', hx, -, hdead, -, -⟩
  · rw [heq]
  · simp [surroundings, hx, hdead] at ha

/-- The actors of a cube are its living ones, and they are listed in the order of their names. -/
theorem actorsAt_eq (c : Cube) : w'.actorsAt c = w.actorsAt c := by
  have hirrefl : Std.Irrefl fun a b : ActorId => a.val < b.val := ⟨fun a => UInt64.lt_irrefl a.val⟩
  have hantisymm : Std.Antisymm fun a b : ActorId => a.val < b.val :=
    ⟨fun a b hab hba => (UInt64.lt_asymm hab hba).elim⟩
  apply (pairwise_actorsAt w' c).eq_of_mem_iff (pairwise_actorsAt w c)
  intro a
  rw [mem_actorsAt_iff, mem_actorsAt_iff, h.living?_eq]

/-- **What is observed in two such worlds** differs in the items of actors, and not in those of the living. -/
theorem scope_eq (self : ActorId) (env : Environment) (selected : Option Cube) :
    w'.scope self env selected = (w.scope self env selected).recarry w'.surroundings.isCarrying := by
  have hbounds : w'.inBounds = w.inBounds := by
    funext c
    simp [inBounds, h.config]
  have hterrain : w'.terrainAt = w.terrainAt := by
    funext c
    simp [terrainAt, h.terrain]
  have hactors : w'.actorsAt = w.actorsAt := funext h.actorsAt_eq
  have hliving : w'.living? = w.living? := funext h.living?_eq
  have hgroup : w'.surroundings.group? = w.surroundings.group? := funext h.group?_eq
  have halive : w'.surroundings.isAlive = w.surroundings.isAlive := funext h.isAlive_eq
  simp only [surroundings] at hgroup halive
  simp only [scope, Scope.recarry, surroundings, hbounds, hterrain, h.logs, h.boulders, hactors, hliving, hgroup,
    halive]

end SameButForDead

/-- **The dead are invisible.** In two worlds that are the same apart from where the dead lie, what they carry and what
they were busy with, every expression has the same value, or ends with the same error, whoever it is evaluated for. -/
theorem dead_are_invisible {w w' : World} (h : w.SameButForDead w') (self : ActorId) (env : Environment)
    (selected : Option Cube) (expr : Expr) :
    (w'.scope self env selected).evaluate expr = (w.scope self env selected).evaluate expr := by
  rw [h.scope_eq]
  apply Scope.evaluate_recarry
  intro a ha
  exact h.isCarrying_eq ha

/-- A living actor, and somebody else. -/
def aftermath (other : ActorState) : World where
  config := { worldSize := ⟨3, 1, 1⟩ }
  actors := (ExtTreeMap.empty.insert ⟨1⟩ { group := ⟨1⟩, position := ⟨0, 0, 0⟩ }).insert ⟨2⟩ other

theorem sameButForDead_aftermath {x x' : ActorState} (hdead : x.alive = false) (hdead' : x'.alive = false)
    (hgroup : x'.group = x.group) : (aftermath x).SameButForDead (aftermath x') where
  config := rfl
  terrain := rfl
  logs := rfl
  boulders := rfl
  actors a := by
    unfold aftermath
    simp only [lookup_insert]
    split
    · exact .some (.dead hdead hdead' hgroup)
    · split
      · exact .some (.same _)
      · exact .none

/-- A fallen enemy has a log on it in one world and none in another. The worlds would tell; an expression asks whether
the enemy lives, and learns no more. -/
theorem aftermath_hides_fallen :
    let fallen : ActorState := { group := ⟨2⟩, position := ⟨1, 0, 0⟩, alive := false }
    let w := aftermath { fallen with carrying := some .log }
    let w' := aftermath { fallen with position := ⟨2, 0, 0⟩, activity := .moving ⟨0, 0, 0⟩ 0.0 }
    let env : Environment := (∅ : Environment).insert "fallen" (.actor ⟨2⟩)
    let expr : Expr := .bool (.carriesItem (.variable "fallen"))
    w.SameButForDead w' ∧
      w.surroundings.isCarrying ⟨2⟩ = true ∧ w'.surroundings.isCarrying ⟨2⟩ = false ∧
      (w'.scope ⟨1⟩ env none).evaluate expr = (w.scope ⟨1⟩ env none).evaluate expr ∧
      (w.scope ⟨1⟩ env none).evaluate expr = .error (.error (.unknownActor ⟨2⟩)) := by
  intro fallen w w' env expr
  have hsame : w.SameButForDead w' := sameButForDead_aftermath rfl rfl rfl
  exact ⟨hsame, by decide +kernel, by decide +kernel, dead_are_invisible hsame ⟨1⟩ env none expr, by decide +kernel⟩

end World

end TaskScript
