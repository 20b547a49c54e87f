import TaskScript.Proofs.Sandbox.Visit

/-!
# `Proofs.Sandbox.Walks`: how actors get from place to place

Nothing moves an actor but its own walk, and a walk goes on only into cubes that can be entered. `Carried` tells
what a tick of an activity makes of an actor with respect to its place, `Leads` what a visit makes of all of them.
An actor that is elsewhere after a tick was visited in it, and walked there on that visit
(`exists_visit_of_moved`).

## Contents
- `World.walk_ends`, `World.Carried`, `carried_advanceActivity`: **walks**.
- `World.stands?`, `World.Leads`, `Visited.leads`: **visits**.
- `VisitIn`, `exists_visit_of_moved`: **ticks**.
-/

namespace TaskScript

open Std

namespace World

variable {w w' : World} {actor : ActorId} {a : ActorState}

/-! ## Walks -/

/-- A walk has come to a cube that can be entered, if it has come anywhere. -/
theorem walk_ends {arrived : Cube → Bool} {goal : Cube} {n : Nat} {position : Cube} {credit : Float} {walk : Walk}
    (h : w.walk arrived goal n position credit = .ok walk) :
    walk.position = position ∨ w.isPassable walk.position = true := by
  induction n generalizing position credit with
  | zero =>
    cases h
    exact .inl rfl
  | succ n ih =>
    unfold World.walk at h
    dsimp only at h
    generalize (if 0.0 < w.config.timings.moveSecondsPerCube then _ else _ : Float) = cost at h
    split at h
    · cases h
      exact .inl rfl
    split at h
    · cases h
      exact .inl rfl
    obtain ⟨next, -, h⟩ := bind_eq_ok h
    split at h
    · rename_i hpassable
      right
      rcases ih h with heq | hpassable'
      · rw [heq]
        exact hpassable
      · exact hpassable'
    · cases h
      exact .inl rfl

/-- **What a tick of its activity makes of an actor**: it stays as it is, comes to a cube that can be entered, or
works. -/
inductive Carried (w : World) (actor : ActorId) (a : ActorState) : World → Prop
  | rests : Carried w actor a w
  | walks {position activity} :
      position = a.position ∨ w.isPassable position = true →
      Carried w actor a (w.withActor actor { a with position, activity })
  | works {target} : Carried w actor a ((w.applyWork actor target).clearActivity actor)

theorem carried_setActivity (h : w.actors[actor]? = some a) (activity : Activity) :
    Carried w actor a (w.setActivity actor activity) := by
  rw [setActivity, updateActor_eq h]
  exact .walks (.inl rfl)

theorem carried_settleWalk (h : w.actors[actor]? = some a) {walk : Walk} (goOn : Float → Activity)
    (hwalk : walk.position = a.position ∨ w.isPassable walk.position = true) :
    Carried w actor a (w.settleWalk actor walk goOn).1 := by
  rw [settleWalk_eq h]
  exact .walks hwalk

theorem carried_advanceActivity (hliving : w.living? actor = some a) {dt : Float} {result : World × Bool}
    (h : w.advanceActivity actor dt = .ok result) : Carried w actor a result.1 := by
  have hactor := (living?_eq_some_iff.mp hliving).1
  unfold advanceActivity at h
  rw [hliving] at h
  dsimp only at h
  split at h
  · cases h
    exact .rests
  · obtain ⟨walk, hwalk, h⟩ := bind_eq_ok h
    cases h
    exact carried_settleWalk hactor _ (walk_ends hwalk)
  · unfold advanceFollow at h
    split at h
    · cases h
      exact carried_setActivity hactor .idle
    · obtain ⟨walk, hwalk, h⟩ := bind_eq_ok h
      cases h
      exact carried_settleWalk hactor _ (walk_ends hwalk)
  · split at h <;> cases h
    · exact carried_setActivity hactor _
    · exact .works
  · split at h <;> cases h
    · exact carried_setActivity hactor _
    · exact carried_setActivity hactor .idle

/-! ## Visits -/

/-- Where an actor stands, dead or alive. -/
def stands? (w : World) (actor : ActorId) : Option Cube :=
  w.actors[actor]?.map (·.position)

/-- **Where everybody has come to**: nowhere else, but for one actor, which may have come to a cube that could be
entered and still can. -/
def Leads (w : World) (actor : ActorId) (w' : World) : Prop :=
  ∀ b, w'.stands? b = w.stands? b ∨
    actor = b ∧ ∃ c, w'.stands? b = some c ∧ w.isPassable c = true ∧ w'.isPassable c = true

/-- Nothing has changed about places. -/
def SamePlaces (w w' : World) : Prop :=
  (∀ b, w'.stands? b = w.stands? b) ∧ ∀ c, w'.isPassable c = w.isPassable c

theorem samePlaces_refl (w : World) : SamePlaces w w :=
  ⟨fun _ => rfl, fun _ => rfl⟩

theorem stands?_updateActor {change : ActorState → ActorState} (hchange : ∀ x, (change x).position = x.position)
    (b : ActorId) : (w.updateActor actor change).stands? b = w.stands? b := by
  rw [stands?, stands?, actors_updateActor]
  split
  · cases w.actors[b]? with
    | none => rfl
    | some x => exact congrArg some (hchange x)
  · rfl

theorem stands?_setActivity (activity : Activity) (b : ActorId) :
    (w.setActivity actor activity).stands? b = w.stands? b := by
  apply stands?_updateActor
  intro x
  rfl

/-- What an actor is busy with is no matter for places. -/
theorem SamePlaces.setActivity (h : SamePlaces w w') (actor : ActorId) (activity : Activity) :
    SamePlaces w (w'.setActivity actor activity) :=
  ⟨fun b => (stands?_setActivity activity b).trans (h.1 b), fun c => h.2 c⟩

theorem Leads.of_samePlaces {w₁ w₂ : World} (h : Leads w₁ actor w₂) (hbefore : SamePlaces w w₁)
    (hafter : SamePlaces w₂ w') : Leads w actor w' := by
  intro b
  rcases h b with heq | ⟨hb, c, hc, hpassable, hpassable'⟩
  · exact .inl ((hafter.1 b).trans (heq.trans (hbefore.1 b)))
  · exact .inr ⟨hb, c, (hafter.1 b).trans hc, hbefore.2 c ▸ hpassable, (hafter.2 c).trans hpassable'⟩

theorem Carried.leads (h : Carried w actor a w') (hactor : w.actors[actor]? = some a) : Leads w actor w' := by
  intro b
  cases h with
  | rests => exact .inl rfl
  | @walks position activity hwalk =>
    have hstands : (w.withActor actor { a with position, activity }).stands? b =
        if actor = b then some position else w.stands? b := by
      rw [stands?, actors_withActor]
      split <;> rfl
    by_cases hb : actor = b
    · rw [if_pos hb] at hstands
      rcases hwalk with heq | hpassable
      · left
        rw [hstands, stands?, ← hb, hactor, heq]
        rfl
      · exact .inr ⟨hb, position, hstands, hpassable, hpassable⟩
    · rw [if_neg hb] at hstands
      exact .inl hstands
  | @works target =>
    obtain ⟨carrying, hcarrying⟩ := (works_applyWork hactor target).withCarrying hactor
    left
    rw [clearActivity, stands?_setActivity, stands?, hcarrying, stands?]
    split
    · rename_i hb
      rw [← hb, hactor]
      rfl
    · rfl

end World

namespace Sandbox

open World (Leads SamePlaces)

variable {s s' : Sandbox} {dt : Float} {actor : ActorId} {a : ActorState}

theorem samePlaces_absorbed (s : Sandbox) (actor : ActorId) (shift : Shift) :
    SamePlaces s.world (s.absorbed actor shift).world :=
  keeps_absorbed (fun _ actor activity h => h.setActivity actor activity) shift (World.samePlaces_refl s.world)

theorem samePlaces_readied (h : s.readied dt actor a = .ok s') : SamePlaces s.world s'.world :=
  keeps_readied (fun _ actor activity h => h.setActivity actor activity) h (World.samePlaces_refl s.world)

/-- **A visit moves nobody but the actor that is visited**, and that into a cube that can be entered. -/
theorem Visited.leads (h : Visited s dt actor a s') (hlives : s.world.lives actor = true) :
    Leads s.world actor s'.world := by
  -- the actor that moves on lives still, whatever its turn was
  have hcarried : ∀ {s₁ : Sandbox} {result : World × Bool}, s.readied dt actor a = .ok s₁ →
      s₁.world.advanceActivity actor dt = .ok result → Leads s₁.world actor result.1 := by
    intro s₁ result hready hadvance
    obtain ⟨a₁, hliving⟩ := World.lives_iff.mp ((lives_readied hready actor).trans hlives)
    exact (World.carried_advanceActivity hliving hadvance).leads (World.living?_eq_some_iff.mp hliving).1
  cases h with
  | goesOn hready hadvance _ =>
    exact (hcarried hready hadvance).of_samePlaces (samePlaces_readied hready) (World.samePlaces_refl _)
  | @settles s₁ world shift hready hadvance _ =>
    exact (hcarried hready hadvance).of_samePlaces (samePlaces_readied hready)
      (samePlaces_absorbed { s₁ with world } actor shift)

/-! ## Ticks -/

/-- **A visit in a tick**: the actors before it in the row have been visited, and it leads from `s₁` to `s₂`. -/
def VisitIn (s : Sandbox) (dt : Float) (actor : ActorId) (s₁ s₂ : Sandbox) : Prop :=
  ∃ before after m₁ m₂, s.world.livingActors = before ++ actor :: after ∧
    before.foldlM (visitActor (tickTime dt)) (s.ticked, { tick := successor s.tick }) = .ok (s₁, m₁) ∧
    visitActor (tickTime dt) (s₁, m₁) actor = .ok (s₂, m₂)

/-- In a row of visits, an actor comes to a cube by being visited. -/
theorem exists_visit_of_moved {row : List ActorId} {m m' : Metrics} {c : Cube}
    (h : row.foldlM (visitActor dt) (s, m) = .ok (s', m')) (hlives : ∀ b ∈ row, s.world.lives b = true)
    (hstart : s.world.stands? actor ≠ some c) (hend : s'.world.stands? actor = some c) :
    ∃ before after s₁ m₁ s₂ m₂, row = before ++ actor :: after ∧
      before.foldlM (visitActor dt) (s, m) = .ok (s₁, m₁) ∧ visitActor dt (s₁, m₁) actor = .ok (s₂, m₂) ∧
      s₁.world.stands? actor ≠ some c ∧ s₂.world.stands? actor = some c ∧
      s₁.world.isPassable c = true ∧ s₂.world.isPassable c = true := by
  induction row generalizing s m with
  | nil =>
    cases h
    exact absurd hend hstart
  | cons b rest ih =>
    rw [List.foldlM_cons] at h
    obtain ⟨⟨s₁, m₁⟩, hvisit, hrest⟩ := bind_eq_ok h
    have hlive := hlives b List.mem_cons_self
    obtain ⟨a, hliving⟩ := World.lives_iff.mp hlive
    have hvisited := visited_of_visitActor (World.living?_eq_some_iff.mp hliving).1 hvisit
    by_cases hc : s₁.world.stands? actor = some c
    · -- the first visit after which the actor is there is its own
      rcases hvisited.leads hlive actor with heq | ⟨rfl, c', hc', hpassable, hpassable'⟩
      · exact absurd (heq.symm.trans hc) hstart
      · cases hc.symm.trans hc'
        exact ⟨[], rest, s, m, s₁, m₁, rfl, rfl, hvisit, hstart, hc, hpassable, hpassable'⟩
    · have hlives₁ : ∀ b' ∈ rest, s₁.world.lives b' = true := fun b' hb' =>
        (hvisited.lives hlive b').trans (hlives b' (List.mem_cons_of_mem _ hb'))
      obtain ⟨before, after, s₂, m₂, s₃, m₃, hrow, hbefore, hthere⟩ := ih hrest hlives₁ hc
      refine ⟨b :: before, after, s₂, m₂, s₃, m₃, congrArg (b :: ·) hrow, ?_, hthere⟩
      rw [List.foldlM_cons, hvisit]
      exact hbefore

/-- **An actor that is elsewhere after a tick** has walked there when it was visited, and the cube could be
entered. -/
theorem visitIn_of_moved {m : Metrics} {c : Cube} (h : s.advanceTime dt = .ok (s', m))
    (hstart : s.world.stands? actor ≠ some c) (hend : s'.world.stands? actor = some c) :
    ∃ s₁ s₂, VisitIn s dt actor s₁ s₂ ∧ s₁.world.stands? actor ≠ some c ∧ s₂.world.stands? actor = some c ∧
      s₁.world.isPassable c = true ∧ s₂.world.isPassable c = true := by
  rw [advanceTime_eq] at h
  obtain ⟨before, after, s₁, m₁, s₂, m₂, hrow, hbefore, hvisit, hthere⟩ :=
    exists_visit_of_moved (s := s.ticked) h (fun b hb => World.lives_of_mem_livingActors hb) hstart hend
  exact ⟨s₁, s₂, ⟨before, after, m₁, m₂, hrow, hbefore, hvisit⟩, hthere⟩

end Sandbox

end TaskScript
