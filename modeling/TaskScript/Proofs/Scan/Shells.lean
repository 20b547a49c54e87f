import TaskScript.Proofs.Cube.Metric

/-!
# `Proofs.Scan.Shells`: the shells around a cube

The order in which a search goes through a world, said without the search. Shell 0 is the cube that is searched from;
the next shell consists of the neighbours in the world of the cubes of a shell, in the order of those cubes and then
in that of their neighbours, as far as no earlier shell holds them.

In a box that leaves room for the neighbours of its cubes, shell `k` consists of the cubes at distance `k`
(`mem_shell_iff`): no neighbour of a cube is further away than one more, and every cube has a neighbour in the box that
is closer by one. So the shells up to the largest extent of the box hold all of its cubes, each once.

## Contents
- `Cube.around`, `unfound`, `shell`, `shellsBelow`: **the shells**, and the cubes before a shell.
- `mem_shell_iff`, `mem_shellsBelow_iff`: **shells are distances**.
- `Extent.searchOrder`: all cubes of a box, shell by shell.
-/

namespace TaskScript

/-! ## The shells -/

/-- The neighbours of a cube in their order. A cube that misses one of them counts as having none. -/
def Cube.around (c : Cube) : List Cube :=
  match c.neighbours with
  | .ok ns => ns
  | .error _ => []

section

variable (inBounds : Cube → Bool) (origin : Cube)

/-- The cubes of the world among the given ones that are not found yet, each once, where it comes first. -/
def unfound (found cubes : List Cube) : List Cube :=
  (cubes.filter fun c => inBounds c && !found.contains c).eraseDups

mutual

/-- The cubes of the first `k` shells, one shell after the other. -/
def shellsBelow : Nat → List Cube
  | 0 => []
  | k + 1 => shellsBelow k ++ shell k

/-- **The shells around a cube.** The first is the cube itself, the next one the neighbours in the world of the cubes
of a shell, in their order, each once and without those that this shell or an earlier one holds. -/
def shell : Nat → List Cube
  | 0 => [origin]
  | k + 1 => unfound inBounds (shellsBelow k ++ shell k) ((shell k).flatMap Cube.around)

end

end

/-- All cubes of a box in the order in which a search from `origin` comes to them. -/
def Extent.searchOrder (size : Extent) (origin : Cube) : List Cube :=
  shellsBelow size.contains origin size.diameter

variable {inBounds : Cube → Bool} {origin c n : Cube} {k : Nat}

theorem shellsBelow_succ :
    shellsBelow inBounds origin (k + 1) = shellsBelow inBounds origin k ++ shell inBounds origin k :=
  rfl

theorem shell_succ :
    shell inBounds origin (k + 1) =
      unfound inBounds (shellsBelow inBounds origin (k + 1)) ((shell inBounds origin k).flatMap Cube.around) :=
  rfl

theorem mem_unfound_iff {found cubes : List Cube} :
    c ∈ unfound inBounds found cubes ↔ c ∈ cubes ∧ inBounds c = true ∧ c ∉ found := by
  unfold unfound
  rw [List.mem_eraseDups, List.mem_filter]
  simp

theorem nodup_eraseDups (cubes : List Cube) : cubes.eraseDups.Nodup := by
  -- by length, since what is left after a cube is not the rest, but the rest without that cube
  induction hn : cubes.length using Nat.strongRecOn generalizing cubes with
  | _ n ih =>
    cases cubes with
    | nil => simp
    | cons c rest =>
      rw [List.eraseDups_cons, List.nodup_cons]
      have hshorter := List.length_filter_le (fun b => !b == c) rest
      constructor
      · simp
      · exact ih _ (by simp only [List.length_cons] at hn; omega) _ rfl

theorem mem_shell_succ_iff :
    c ∈ shell inBounds origin (k + 1) ↔
      (∃ b ∈ shell inBounds origin k, c ∈ b.around) ∧ inBounds c = true ∧
        c ∉ shellsBelow inBounds origin (k + 1) := by
  rw [shell_succ, mem_unfound_iff, List.mem_flatMap]

/-- No cube is in two shells, or twice in one. -/
theorem nodup_shellsBelow (k : Nat) : (shellsBelow inBounds origin k).Nodup := by
  induction k with
  | zero => exact List.nodup_nil
  | succ k ih =>
    rw [shellsBelow_succ, List.nodup_append]
    cases k with
    | zero => simp [shellsBelow, shell]
    | succ k =>
      refine ⟨ih, nodup_eraseDups _, ?_⟩
      intro a ha b hb heq
      subst heq
      exact (mem_shell_succ_iff.mp hb).2.2 ha

/-- The first shells come first. -/
theorem shellsBelow_prefix (inBounds : Cube → Bool) (origin : Cube) {j k : Nat} (h : j ≤ k) :
    shellsBelow inBounds origin j <+: shellsBelow inBounds origin k := by
  induction h with
  | refl => exact List.prefix_refl _
  | step _ ih =>
    rw [shellsBelow_succ]
    exact ih.trans (List.prefix_append _ _)

/-- Behind an empty shell there is nothing. -/
theorem shellsBelow_eq_of_shell_eq_nil {j : Nat} (h : shell inBounds origin j = []) (hjk : j ≤ k) :
    shellsBelow inBounds origin k = shellsBelow inBounds origin j ∧ shell inBounds origin k = [] := by
  induction hjk with
  | refl => exact ⟨rfl, h⟩
  | step _ ih =>
    rw [shellsBelow_succ, ih.1, ih.2, shell_succ, ih.2]
    simp [unfound]

/-! ## Shells are distances -/

section

variable {size : Extent} (hsize : size.Roomy)

include hsize

theorem Extent.exists_neighbours (hc : size.contains c = true) : ∃ ns, c.neighbours = .ok ns :=
  Cube.exists_neighbours (Cube.hasRoom_of_contains hsize hc)

theorem Extent.mem_around_iff (hc : size.contains c = true) : n ∈ c.around ↔ c.distance n = 1 := by
  obtain ⟨ns, hns⟩ := Extent.exists_neighbours hsize hc
  unfold Cube.around
  rw [hns]
  exact Cube.mem_neighbours_iff hns

variable (horigin : size.contains origin = true)

include horigin

/-- Both kinds of lists at once, since a shell leaves out what is in those before it. -/
theorem mem_shells_iff (k : Nat) :
    (∀ c, c ∈ shellsBelow size.contains origin k ↔ size.contains c = true ∧ origin.distance c < k) ∧
      ∀ c, c ∈ shell size.contains origin k ↔ size.contains c = true ∧ origin.distance c = k := by
  induction k with
  | zero =>
    constructor
    · intro c
      simp [shellsBelow]
    · intro c
      simp only [shell, List.mem_singleton]
      constructor
      · intro h
        subst h
        exact ⟨horigin, Cube.distance_self c⟩
      · intro h
        exact (Cube.eq_of_distance_eq_zero h.2).symm
  | succ k ih =>
    obtain ⟨hbelow, hshell⟩ := ih
    have hbelow' : ∀ c, c ∈ shellsBelow size.contains origin (k + 1) ↔
        size.contains c = true ∧ origin.distance c < k + 1 := by
      intro c
      rw [shellsBelow_succ, List.mem_append, hbelow, hshell, ← and_or_left]
      exact and_congr_right fun _ => by omega
    refine ⟨hbelow', fun c => ?_⟩
    rw [mem_shell_succ_iff, hbelow']
    constructor
    · rintro ⟨⟨b, hb, hnext⟩, hc, hnew⟩
      -- a neighbour of shell `k` is at most one further out, and what is closer is left out
      obtain ⟨hinside, hdistance⟩ := (hshell b).mp hb
      have hone := (Extent.mem_around_iff hsize hinside).mp hnext
      have htriangle := Cube.distance_triangle origin b c
      have hfar : ¬origin.distance c < k + 1 := fun hlt => hnew ⟨hc, hlt⟩
      exact ⟨hc, by omega⟩
    · rintro ⟨hc, hdistance⟩
      obtain ⟨b, hinside, hcloser, hone⟩ := Extent.exists_closer horigin hc hdistance
      refine ⟨⟨b, (hshell b).mpr ⟨hinside, hcloser⟩, (Extent.mem_around_iff hsize hinside).mpr hone⟩, hc, ?_⟩
      omega

/-- **Shell `k` consists of the cubes of the box at distance `k`.** -/
theorem mem_shell_iff : c ∈ shell size.contains origin k ↔ size.contains c = true ∧ origin.distance c = k :=
  (mem_shells_iff hsize horigin k).2 c

theorem mem_shellsBelow_iff :
    c ∈ shellsBelow size.contains origin k ↔ size.contains c = true ∧ origin.distance c < k :=
  (mem_shells_iff hsize horigin k).1 c

theorem shell_eq_nil_of_le (h : size.diameter ≤ k) : shell size.contains origin k = [] := by
  rw [List.eq_nil_iff_forall_not_mem]
  intro c hc
  obtain ⟨hinside, hdistance⟩ := (mem_shell_iff hsize horigin).mp hc
  have hlt := Extent.distance_lt_diameter horigin hinside
  omega

/-- **The search order holds the cubes of the box**, each once (`nodup_shellsBelow`). -/
theorem Extent.mem_searchOrder_iff : c ∈ size.searchOrder origin ↔ size.contains c = true := by
  rw [searchOrder, mem_shellsBelow_iff hsize horigin]
  constructor
  · exact And.left
  · intro h
    exact ⟨h, Extent.distance_lt_diameter horigin h⟩

/-- In the search order, distances do not decrease. -/
theorem Extent.pairwise_searchOrder :
    (size.searchOrder origin).Pairwise fun a b => origin.distance a ≤ origin.distance b := by
  have hbelow : ∀ k, (shellsBelow size.contains origin k).Pairwise
      fun a b => origin.distance a ≤ origin.distance b := by
    intro k
    induction k with
    | zero => exact List.Pairwise.nil
    | succ k ih =>
      rw [shellsBelow_succ, List.pairwise_append]
      refine ⟨ih, ?_, ?_⟩
      · rw [List.pairwise_iff_forall_sublist]
        intro a b hab
        have hfirst := (mem_shell_iff hsize horigin).mp (hab.subset List.mem_cons_self)
        have hsecond := (mem_shell_iff hsize horigin).mp (hab.subset (List.mem_cons_of_mem _ List.mem_cons_self))
        omega
      · intro a ha b hb
        have hfirst := (mem_shellsBelow_iff hsize horigin).mp ha
        have hsecond := (mem_shell_iff hsize horigin).mp hb
        omega
  exact hbelow size.diameter

end

end TaskScript
