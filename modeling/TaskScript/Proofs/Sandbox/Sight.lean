import TaskScript.Proofs.Sandbox.Bounds
import TaskScript.Proofs.Scan.Nearest

/-!
# `Proofs.Sandbox.Sight`: the actors that a search names

A search for an actor goes in two passes: the first looks for the nearest cube in which somebody qualifies, and the
second asks once more who qualifies in that cube, and takes the first of them. Both ask the same list,
`Scope.candidatesAt`, so the second pass never comes back with empty hands; and since a cube lists its actors in
ascending order, what it takes is the lowest.

That nobody is overlooked rests on where actors are: a search sees the cubes of the world and nothing else, and a
sandbox never leaves its grid.

## Contents
- `ScanTarget.Admits`, `World.Qualifies`: **who is looked for**.
- `mem_actorsAt_iff`, `pairwise_actorsAt`: the actors in a cube.
- `mem_candidatesAt_iff`, `scanActor_cases`: **the two passes**.
- `nearest_actor_named`: **the nearest qualifying actor is named**.
-/

namespace TaskScript

open Std

/-! ## Who is looked for -/

/-- Whether a member of one group looks for members of another. -/
def ScanTarget.Admits (target : ScanTarget) (own other : GroupId) : Prop :=
  match target with
  | .anyActor => True
  | .factionMate => other = own
  | .nonFactionMate => other ≠ own
  | .log | .boulder | .workshop => False

namespace World

/-- An actor in a cube that `e`, whose group is `own`, looks for: it is another one, it lives, and its group is one
that is looked for. -/
structure Qualifies (w : World) (target : ScanTarget) (e : ActorId) (own : GroupId) (a : ActorId) (c : Cube) :
    Prop where
  other : a ≠ e
  living : ∃ y, w.living? a = some y ∧ y.position = c ∧ target.Admits own y.group

/-- What an expression observes that is evaluated for an actor of the world. -/
def scope (w : World) (e : ActorId) (env : Environment) (selected : Option Cube) : Scope where
  view := w.surroundings.toWorldView
  self := e
  env := env
  selected := selected

variable {w : World} {a e : ActorId} {c : Cube} {x y : ActorState}

/-! ## The actors in a cube -/

theorem mem_actorsAt_iff : a ∈ w.actorsAt c ↔ ∃ y, w.living? a = some y ∧ y.position = c := by
  simp only [actorsAt, List.mem_map, List.mem_filter, Prod.exists, ExtTreeMap.mem_toList_iff_getElem?_eq_some,
    living?_eq_some_iff, Bool.and_eq_true, beq_iff_eq]
  constructor
  · rintro ⟨b, y, ⟨hy, halive, hposition⟩, rfl⟩
    exact ⟨y, ⟨hy, halive⟩, hposition⟩
  · rintro ⟨y, ⟨hy, halive⟩, hposition⟩
    exact ⟨a, y, ⟨hy, halive, hposition⟩, rfl⟩

/-- A cube lists its actors in ascending order. -/
theorem pairwise_actorsAt (w : World) (c : Cube) : (w.actorsAt c).Pairwise fun a b => a.val < b.val := by
  unfold actorsAt
  rw [List.pairwise_map]
  apply List.Pairwise.filter
  apply w.actors.ordered_keys_toList.imp
  intro a b h
  exact compare_eq_lt.mp h

theorem isAlive_of_living (h : w.living? a = some y) : w.surroundings.isAlive a = true := by
  obtain ⟨ha, halive⟩ := living?_eq_some_iff.mp h
  simp [surroundings, ha, halive]

theorem group?_of_living (h : w.living? a = some y) : w.surroundings.group? a = some y.group := by
  simp [surroundings, (living?_eq_some_iff.mp h).1]

theorem here_of_living (h : w.living? e = some x) (env : Environment) (selected : Option Cube) :
    (w.scope e env selected).here = .ok x.position := by
  simp [Scope.here, scope, surroundings, h, Scope.require]

theorem here_of_not_living (h : w.living? e = none) (env : Environment) (selected : Option Cube) :
    (w.scope e env selected).here = .error (.error (.unknownActor e)) := by
  simp [Scope.here, scope, surroundings, h, Scope.require]

/-! ## The two passes -/

/-- What the group of a candidate is asked says whether it is looked for. -/
theorem admits_iff {expr : ActorExpr} {target : ScanTarget} (own other : GroupId) :
    expr.scanTarget? = some target →
      ((match target with
        | .factionMate => (some own).isSome && some other == some own
        | .nonFactionMate => some other != some own
        | _ => true) = true ↔ target.Admits own other) := by
  intro hexpr
  cases expr with
  | any =>
    cases hexpr
    simp only [ScanTarget.Admits]
  | friend =>
    cases hexpr
    simp [ScanTarget.Admits]
  | enemy =>
    cases hexpr
    simp [ScanTarget.Admits]
  | this => cases hexpr
  | «variable» name => cases hexpr

section

variable {expr : ActorExpr} {target : ScanTarget} {env : Environment} {selected : Option Cube}
  (hexpr : expr.scanTarget? = some target)

include hexpr

theorem actor_eq_scanActor (scope : Scope) : scope.actor expr = scope.scanActor target := by
  cases expr <;> cases hexpr <;> rfl

theorem cubeMatches_iff (scope : Scope) :
    scope.cubeMatches target c = true ↔ ∃ a, a ∈ scope.candidatesAt target c := by
  have hcubes : scope.cubeMatches target c = !(scope.candidatesAt target c).isEmpty := by
    cases expr <;> cases hexpr <;> rfl
  rw [hcubes, Bool.not_eq_true', List.isEmpty_eq_false_iff_exists_mem]

variable (hliving : w.living? e = some x)

include hliving

/-- **The candidates in a cube are those who qualify there.** -/
theorem mem_candidatesAt_iff :
    a ∈ (w.scope e env selected).candidatesAt target c ↔ w.Qualifies target e x.group a c := by
  have hown : (w.scope e env selected).view.group? (w.scope e env selected).self = some x.group :=
    group?_of_living hliving
  unfold Scope.candidatesAt
  rw [hown, List.mem_filter]
  constructor
  · rintro ⟨hmem, hcandidate⟩
    obtain ⟨y, hy, hposition⟩ := mem_actorsAt_iff.mp hmem
    have hgroup : (w.scope e env selected).view.group? a = some y.group := group?_of_living hy
    rw [Bool.and_eq_true, Bool.and_eq_true, bne_iff_ne, hgroup] at hcandidate
    obtain ⟨⟨hother, -⟩, hwanted⟩ := hcandidate
    exact ⟨hother, y, hy, hposition, (admits_iff x.group y.group hexpr).mp hwanted⟩
  · rintro ⟨hother, y, hy, hposition, hadmits⟩
    have hgroup : (w.scope e env selected).view.group? a = some y.group := group?_of_living hy
    have halive : (w.scope e env selected).view.isAlive a = true := isAlive_of_living hy
    refine ⟨mem_actorsAt_iff.mpr ⟨y, hy, hposition⟩, ?_⟩
    rw [Bool.and_eq_true, Bool.and_eq_true, bne_iff_ne, hgroup]
    exact ⟨⟨hother, halive⟩, (admits_iff x.group y.group hexpr).mpr hadmits⟩

/-- The first candidate is the lowest. -/
theorem head?_candidatesAt (h : ((w.scope e env selected).candidatesAt target c).head? = some a) :
    w.Qualifies target e x.group a c ∧ ∀ b, w.Qualifies target e x.group b c → a.val ≤ b.val := by
  have hsorted : ((w.scope e env selected).candidatesAt target c).Pairwise fun a b => a.val < b.val :=
    (pairwise_actorsAt w c).filter _
  obtain ⟨rest, hlist⟩ := List.head?_eq_some_iff.mp h
  constructor
  · rw [← mem_candidatesAt_iff hexpr hliving, hlist]
    exact List.mem_cons_self
  · intro b hb
    rw [← mem_candidatesAt_iff hexpr hliving, hlist] at hb
    rw [hlist, List.pairwise_cons] at hsorted
    rcases List.mem_cons.mp hb with rfl | hrest
    · exact UInt64.le_refl _
    · exact UInt64.le_of_lt (hsorted.1 b hrest)

variable (hsize : w.config.worldSize.Roomy) (hinside : w.inBounds x.position = true)

include hsize hinside

/-- **A search for an actor**: the first candidate in the first cube of the search order that has one. -/
theorem scanActor_cases (env : Environment) (selected : Option Cube) :
    ((w.scope e env selected).actor expr = .error (.error (.noMatch target x.position)) ∧
        ∀ b c, w.inBounds c = true → ¬w.Qualifies target e x.group b c) ∨
      ∃ a c, (w.scope e env selected).actor expr = .ok a ∧ w.Qualifies target e x.group a c ∧
        (∀ b c', w.inBounds c' = true → w.Qualifies target e x.group b c' →
          x.position.distance c ≤ x.position.distance c') ∧
        ∀ b, w.Qualifies target e x.group b c → a.val ≤ b.val := by
  -- the search for a cube accepts those in which somebody qualifies
  have hmatches : ∀ c, (w.scope e env selected).cubeMatches target c = true ↔
      ∃ b, w.Qualifies target e x.group b c := by
    intro c
    rw [cubeMatches_iff hexpr]
    exact exists_congr fun b => mem_candidatesAt_iff hexpr hliving
  have hnearest : nearest? (w.scope e env selected).view.inBounds ((w.scope e env selected).cubeMatches target)
      x.position =
      .ok ((w.config.worldSize.searchOrder x.position).find? ((w.scope e env selected).cubeMatches target)) :=
    nearest?_eq hsize hinside _
  rw [actor_eq_scanActor hexpr, Scope.scanActor, Scope.scanCube, here_of_living hliving]
  cases hfound : (w.config.worldSize.searchOrder x.position).find? ((w.scope e env selected).cubeMatches target) with
  | none =>
    left
    rw [hfound] at hnearest
    constructor
    · simp [hnearest, Scope.require, Except.mapError, bind, Except.bind]
    · intro b c hc hqualifies
      have hno := Extent.find?_searchOrder_none hsize hinside hfound hc
      have hyes := (hmatches c).mpr ⟨b, hqualifies⟩
      rw [hno] at hyes
      cases hyes
  | some c =>
    right
    rw [hfound] at hnearest
    obtain ⟨-, hmatch, hleast⟩ := Extent.find?_searchOrder_some hsize hinside hfound
    obtain ⟨b, hb⟩ := (hmatches c).mp hmatch
    have hmem : b ∈ (w.scope e env selected).candidatesAt target c := (mem_candidatesAt_iff hexpr hliving).mpr hb
    obtain ⟨a, rest, hlist⟩ := List.exists_cons_of_ne_nil (List.ne_nil_of_mem hmem)
    have hhead : ((w.scope e env selected).candidatesAt target c).head? = some a := by rw [hlist]; rfl
    obtain ⟨hqualifies, hlowest⟩ := head?_candidatesAt hexpr hliving hhead
    refine ⟨a, c, ?_, hqualifies, fun b c' hc' hb => hleast c' hc' ((hmatches c').mpr ⟨b, hb⟩), hlowest⟩
    simp [hnearest, hhead, Scope.require, Except.mapError, bind, Except.bind]

end

end World

namespace Sandbox

open World (Qualifies)

variable {s : Sandbox} {expr : ActorExpr} {target : ScanTarget}

/-- **An actor search names the nearest qualifying actor.** In a sandbox that is no larger than coordinates reach, the
actor that is named qualifies, nobody who qualifies is closer to the one that searches, and nobody who qualifies in
its cube is lower. There is no match exactly if nobody qualifies. Whoever is dead or unknown cannot search. -/
theorem nearest_actor_named (h : Reachable s) (hsize : s.world.config.worldSize.Roomy)
    (hexpr : expr.scanTarget? = some target) (e : ActorId) (env : Environment) (selected : Option Cube) :
    (s.world.living? e = none →
        (s.world.scope e env selected).actor expr = .error (.error (.unknownActor e))) ∧
      ∀ x, s.world.living? e = some x →
        (∀ a, (s.world.scope e env selected).actor expr = .ok a →
          ∃ c, Qualifies s.world target e x.group a c ∧
            (∀ b c', Qualifies s.world target e x.group b c' →
              x.position.distance c ≤ x.position.distance c') ∧
            ∀ b, Qualifies s.world target e x.group b c → a.val ≤ b.val) ∧
        ((s.world.scope e env selected).actor expr = .error (.error (.noMatch target x.position)) ↔
          ∀ b c, ¬Qualifies s.world target e x.group b c) ∧
        ((∃ b c, Qualifies s.world target e x.group b c) →
          ∃ a, (s.world.scope e env selected).actor expr = .ok a) := by
  obtain ⟨size, hsited⟩ := h.sited
  have hinside : ∀ (a : ActorId) (y : ActorState), s.world.living? a = some y → s.world.inBounds y.position = true := by
    intro a y hy
    exact hsited.world.inBounds_iff.mpr (hsited.world.actors a y (World.living?_eq_some_iff.mp hy).1).position
  -- whoever qualifies is alive, so the search does not leave out their cube
  have hqualifies : ∀ {own b c}, Qualifies s.world target e own b c → s.world.inBounds c = true := by
    rintro own b c ⟨-, y, hy, rfl, -⟩
    exact hinside b y hy
  constructor
  · intro hdead
    rw [World.actor_eq_scanActor hexpr, Scope.scanActor, World.here_of_not_living hdead]
    rfl
  · intro x hx
    rcases World.scanActor_cases hexpr hx hsize (hinside e x hx) env selected with
      ⟨hactor, hnone⟩ | ⟨a, c, hactor, ha, hleast, hlowest⟩
    · have hnobody : ∀ b c, ¬Qualifies s.world target e x.group b c := fun b c hb => hnone b c (hqualifies hb) hb
      rw [hactor]
      refine ⟨fun a ha => ?_, ⟨fun _ => hnobody, fun _ => rfl⟩, fun ⟨b, c, hb⟩ => (hnobody b c hb).elim⟩
      cases ha
    · rw [hactor]
      refine ⟨fun a' ha' => ?_, ⟨fun heq => ?_, fun hnobody => (hnobody a c ha).elim⟩, fun _ => ⟨a, rfl⟩⟩
      · cases ha'
        exact ⟨c, ha, fun b c' hb => hleast b c' (hqualifies hb) hb, hlowest⟩
      · cases heq

/-- An actor faces three of another group. One of them is far off, and the other two stand in the same cube. -/
def ambush : Sandbox :=
  let s := ((new {}).addGroup ⟨1⟩).addGroup ⟨2⟩
  let s := (s.spawnActor ⟨1⟩ ⟨1⟩ ⟨0, 0, 0⟩).1
  let s := (s.spawnActor ⟨2⟩ ⟨2⟩ ⟨9, 0, 0⟩).1
  let s := (s.spawnActor ⟨4⟩ ⟨2⟩ ⟨1, 1, 0⟩).1
  (s.spawnActor ⟨3⟩ ⟨2⟩ ⟨1, 1, 0⟩).1

theorem reachable_ambush : Reachable ambush := by
  have hgroups := ((Reachable.new {}).perform (.addGroup ⟨1⟩) trivial).perform (.addGroup ⟨2⟩) trivial
  have hself := hgroups.perform (.spawnActor ⟨1⟩ ⟨1⟩ ⟨0, 0, 0⟩) trivial
  have hfar := hself.perform (.spawnActor ⟨2⟩ ⟨2⟩ ⟨9, 0, 0⟩) trivial
  exact (hfar.perform (.spawnActor ⟨4⟩ ⟨2⟩ ⟨1, 1, 0⟩) trivial).perform (.spawnActor ⟨3⟩ ⟨2⟩ ⟨1, 1, 0⟩) trivial

/-- It names the lower one of the two that are close. -/
theorem ambush_names_lowest :
    Reachable ambush ∧ ambush.world.config.worldSize.Roomy ∧ ActorExpr.enemy.scanTarget? = some .nonFactionMate ∧
      (ambush.world.scope ⟨1⟩ ∅ none).actor .enemy = .ok ⟨3⟩ := by
  have hsize : ambush.world.config.worldSize.Roomy := by decide +kernel
  have hexpr : ActorExpr.enemy.scanTarget? = some .nonFactionMate := rfl
  obtain ⟨-, hsearch⟩ := nearest_actor_named reachable_ambush hsize hexpr ⟨1⟩ ∅ none
  obtain ⟨hnamed, -, hsome⟩ := hsearch { group := ⟨1⟩, position := ⟨0, 0, 0⟩ } (by decide +kernel)
  have hthird : Qualifies ambush.world .nonFactionMate ⟨1⟩ ⟨1⟩ ⟨3⟩ ⟨1, 1, 0⟩ :=
    ⟨by decide, { group := ⟨2⟩, position := ⟨1, 1, 0⟩ }, by decide +kernel, rfl, by unfold ScanTarget.Admits; decide⟩
  obtain ⟨a, ha⟩ := hsome ⟨_, _, hthird⟩
  obtain ⟨c, ⟨-, y, hy, hposition, hadmits⟩, hleast, hlowest⟩ := hnamed a ha
  have hclose := hleast _ _ hthird
  have hall : ∀ p ∈ ambush.world.actors.toList, p.2.group ≠ ⟨1⟩ → Cube.distance ⟨0, 0, 0⟩ p.2.position ≤ 1 →
      p.1 = ⟨3⟩ ∨ p.1 = ⟨4⟩ ∧ p.2.position = ⟨1, 1, 0⟩ := by decide +kernel
  have hmem := ExtTreeMap.mem_toList_iff_getElem?_eq_some.mpr (World.living?_eq_some_iff.mp hy).1
  refine ⟨reachable_ambush, hsize, hexpr, ?_⟩
  rcases hall (a, y) hmem hadmits (hposition ▸ hclose) with hthree | ⟨hfour, hthere⟩
  · rw [ha]
    exact congrArg Except.ok hthree
  · have hsame := hlowest ⟨3⟩ (hposition ▸ hthere ▸ hthird)
    rw [show a = ⟨4⟩ from hfour] at hsame
    exact absurd hsame (by decide)

end Sandbox

end TaskScript
