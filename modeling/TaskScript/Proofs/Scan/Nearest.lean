import TaskScript.Proofs.Scan.Shells

/-!
# `Proofs.Scan.Nearest`: the search is exact

The search keeps the cubes it knows in a set and the next shell in a list that grows as a shell is tested. What it
tests, and in which order, is the search order of the box (`Extent.searchOrder`), up to the first cube that is
accepted (`testedUntil`).

The loop over the shells is followed by its fuel. When shell `k` is about to be tested, the shells below it have been,
nothing in them was accepted, and the known cubes are those below shell `k + 1`. A shell that is not empty is closer
than the diameter of the box, so the fuel does not run out before the shells do.

## Contents
- `testedUntil`: the cubes that a search through a list tests.
- `foldl_discover`, `sweep_ends`: **one shell**.
- `shells_ends`, `scan_eq`: **all shells**.
- `find?_searchOrder_some`, `find?_searchOrder_none`: what is found is nearest.
- `scan_exact`: **the search is exact**.
-/

namespace TaskScript

/-! ## Searching a list -/

/-- The cubes up to the first that `p` accepts, and that one. -/
def testedUntil (p : Cube → Bool) : List Cube → List Cube
  | [] => []
  | c :: rest => if p c then [c] else c :: testedUntil p rest

variable {p : Cube → Bool}

theorem testedUntil_prefix (cubes : List Cube) : testedUntil p cubes <+: cubes := by
  induction cubes with
  | nil => exact List.prefix_refl _
  | cons c rest ih =>
    unfold testedUntil
    split
    · simp
    · simpa using ih

/-- Where nothing is accepted, the search goes on. -/
theorem testedUntil_append_of_none {cubes : List Cube} (h : cubes.find? p = none) (others : List Cube) :
    testedUntil p (cubes ++ others) = cubes ++ testedUntil p others := by
  induction cubes with
  | nil => rfl
  | cons c rest ih =>
    simp only [List.find?_cons] at h
    split at h
    · cases h
    · rename_i hc
      simp [testedUntil, hc, ih h]

/-- Where something is accepted, it ends. -/
theorem testedUntil_append_of_some {cubes : List Cube} {c : Cube} (h : cubes.find? p = some c)
    (others : List Cube) : testedUntil p (cubes ++ others) = testedUntil p cubes := by
  induction cubes with
  | nil => cases h
  | cons b rest ih =>
    simp only [List.find?_cons] at h
    split at h
    · rename_i hb
      simp [testedUntil, hb]
    · rename_i hb
      simp [testedUntil, hb, ih h]

theorem testedUntil_of_none {cubes : List Cube} (h : cubes.find? p = none) : testedUntil p cubes = cubes := by
  simpa [testedUntil] using testedUntil_append_of_none h []

/-- The cube that is found is the last one tested, and the first that is accepted. -/
theorem testedUntil_of_some {cubes : List Cube} {c : Cube} (h : cubes.find? p = some c) :
    ∃ before, testedUntil p cubes = before ++ [c] ∧ ∀ b ∈ before, p b = false := by
  obtain ⟨hc, before, after, rfl, hbefore⟩ := List.find?_eq_some_iff_append.mp h
  have hnone : before.find? p = none := by
    rw [List.find?_eq_none]
    intro b hb
    simpa using hbefore b hb
  refine ⟨before, ?_, fun b hb => by simpa using hbefore b hb⟩
  rw [testedUntil_append_of_none hnone]
  simp [testedUntil, hc]

/-! ## One shell -/

section

variable {inBounds : Cube → Bool} {found : List Cube}

theorem unfound_cons (c : Cube) (rest : List Cube) :
    unfound inBounds found (c :: rest) =
      if inBounds c && !found.contains c then c :: unfound inBounds (found ++ [c]) rest
      else unfound inBounds found rest := by
  unfold unfound
  rw [List.filter_cons]
  split
  · rw [List.eraseDups_cons, List.filter_filter]
    congr 3
    funext b
    by_cases hb : b = c <;> simp [hb]
  · rfl

theorem unfound_append (cubes others : List Cube) :
    unfound inBounds found (cubes ++ others) =
      unfound inBounds found cubes ++ unfound inBounds (found ++ unfound inBounds found cubes) others := by
  induction cubes generalizing found with
  | nil => simp [unfound]
  | cons c rest ih =>
    rw [List.cons_append, unfound_cons, unfound_cons]
    split
    · simp [ih]
    · exact ih

namespace Search

variable {s s' : Search}

/-- **What a search notes** when it looks at some cubes: those it did not know, for the next shell. -/
structure Notes (inBounds : Cube → Bool) (found cubes : List Cube) (s s' : Search) : Prop where
  next : s'.next = (unfound inBounds found cubes).reverse ++ s.next
  seen : ∀ c, s'.seen.contains c = (found ++ unfound inBounds found cubes).contains c

theorem Notes.trans {cubes others : List Cube} {s'' : Search} (h : Notes inBounds found cubes s s')
    (h' : Notes inBounds (found ++ unfound inBounds found cubes) others s' s'') :
    Notes inBounds found (cubes ++ others) s s'' := by
  constructor
  · rw [h'.next, h.next, unfound_append]
    simp
  · intro c
    rw [h'.seen, unfound_append, List.append_assoc]

theorem discover_eq (hseen : ∀ c, s.seen.contains c = found.contains c) (c : Cube) :
    s.discover inBounds c =
      if inBounds c && !found.contains c then { s with seen := s.seen.insert c, next := c :: s.next } else s := by
  unfold discover
  rw [hseen]

theorem foldl_discover (inBounds : Cube → Bool) (hseen : ∀ c, s.seen.contains c = found.contains c)
    (cubes : List Cube) :
    Notes inBounds found cubes s (cubes.foldl (discover inBounds) s) ∧
      (cubes.foldl (discover inBounds) s).tested = s.tested := by
  induction cubes generalizing found s with
  | nil => exact ⟨⟨by simp [unfound], by simpa [unfound] using hseen⟩, rfl⟩
  | cons c rest ih =>
    rw [List.foldl_cons, discover_eq hseen]
    split
    · rename_i hnew
      have hseen' : ∀ b, (s.seen.insert c).contains b = (found ++ [c]).contains b := by
        intro b
        rw [Std.HashSet.contains_insert, hseen, Bool.eq_iff_iff]
        simp only [Bool.or_eq_true, beq_iff_eq, List.contains_iff_mem, List.mem_append, List.mem_singleton]
        rw [or_comm, @eq_comm _ c b]
      obtain ⟨hnotes, htested⟩ := ih (s := { s with seen := s.seen.insert c, next := c :: s.next }) hseen'
      refine ⟨⟨?_, ?_⟩, htested⟩
      · rw [hnotes.next, unfound_cons, if_pos hnew]
        simp
      · intro b
        rw [hnotes.seen, unfound_cons, if_pos hnew, List.append_assoc]
        rfl
    · rename_i hold
      obtain ⟨hnotes, htested⟩ := ih hseen
      refine ⟨⟨?_, ?_⟩, htested⟩
      · rw [hnotes.next, unfound_cons, if_neg hold]
      · intro b
        rw [hnotes.seen, unfound_cons, if_neg hold]

theorem expand_eq {c : Cube} (h : ∃ ns, c.neighbours = .ok ns) (s : Search) :
    s.expand inBounds c = .ok (c.around.foldl (discover inBounds) s) := by
  obtain ⟨ns, hns⟩ := h
  unfold Cube.around
  rw [hns]
  exact foldlM_of_mapM hns (discover inBounds) s

/-- **A shell is tested up to the first cube that is accepted.** If none is, the neighbours of all its cubes have been
looked at. -/
theorem sweep_ends {cubes : List Cube} (hneighbours : ∀ c ∈ cubes, ∃ ns, c.neighbours = .ok ns)
    (hseen : ∀ c, s.seen.contains c = found.contains c) :
    Succeeds (fun result => result.1 = cubes.find? p ∧
        result.2.tested.reverse = s.tested.reverse ++ testedUntil p cubes ∧
        (cubes.find? p = none → Notes inBounds found (cubes.flatMap Cube.around) s result.2))
      (sweep inBounds p cubes s) := by
  induction cubes generalizing found s with
  | nil => exact ⟨rfl, by simp [testedUntil], fun _ => ⟨by simp [unfound], by simpa [unfound] using hseen⟩⟩
  | cons c rest ih =>
    unfold sweep
    rw [List.find?_cons]
    by_cases hc : p c = true
    · simp [hc, testedUntil, EndsIn]
    · simp only [hc, testedUntil]
      rw [expand_eq (hneighbours c List.mem_cons_self)]
      obtain ⟨hnotes, htested⟩ := foldl_discover (s := { s with tested := c :: s.tested }) inBounds hseen c.around
      have hrest := ih (fun b hb => hneighbours b (List.mem_cons_of_mem _ hb)) hnotes.seen
      refine hrest.mono fun result hresult => ⟨hresult.1, ?_, fun hnone => ?_⟩
      · rw [hresult.2.1, htested]
        simp
      · have hnotes' := hnotes.trans (hresult.2.2 hnone)
        exact ⟨hnotes'.next, hnotes'.seen⟩

end Search

end

/-! ## All shells -/

section

variable {size : Extent} {origin c : Cube} (hsize : size.Roomy) (horigin : size.contains origin = true)

include hsize horigin

/-- The search order goes on behind a shell that is not empty. -/
theorem Extent.searchOrder_eq_append {k : Nat} (hshell : shell size.contains origin k ≠ []) :
    k < size.diameter ∧ ∃ rest, size.searchOrder origin =
      shellsBelow size.contains origin k ++ (shell size.contains origin k ++ rest) := by
  have hclose : k < size.diameter :=
    Nat.lt_of_not_le fun hfar => hshell (shell_eq_nil_of_le hsize horigin hfar)
  obtain ⟨rest, hrest⟩ := shellsBelow_prefix size.contains origin hclose
  refine ⟨hclose, rest, ?_⟩
  rw [searchOrder, ← hrest, shellsBelow_succ, List.append_assoc]

/-- **The search, from the moment at which shell `k` is about to be tested.** -/
theorem Search.shells_ends {n k : Nat} {s : Search} (hfuel : size.diameter ≤ n + k)
    (hshell : shell size.contains origin k ≠ [])
    (hseen : ∀ c, s.seen.contains c = (shellsBelow size.contains origin (k + 1)).contains c)
    (htested : s.tested.reverse = shellsBelow size.contains origin k)
    (hbelow : (shellsBelow size.contains origin k).find? p = none) :
    Succeeds (fun result => result.1 = (size.searchOrder origin).find? p ∧
        result.2.tested.reverse = testedUntil p (size.searchOrder origin))
      (shells size.contains p n (shell size.contains origin k) s) := by
  obtain ⟨hclose, rest, horder⟩ := Extent.searchOrder_eq_append hsize horigin hshell
  induction n generalizing k s rest with
  | zero => omega
  | succ n ih =>
    have hneighbours : ∀ c ∈ shell size.contains origin k, ∃ ns, c.neighbours = .ok ns := by
      intro c hc
      exact Extent.exists_neighbours hsize ((mem_shell_iff hsize horigin).mp hc).1
    unfold shells
    refine (Search.sweep_ends (s := { s with next := [] }) hneighbours hseen).bind fun result hresult => ?_
    obtain ⟨found?, s'⟩ := result
    obtain ⟨hfound, htested', hnotes⟩ := hresult
    dsimp only at hfound htested' hnotes ⊢
    subst hfound
    cases hmatch : (shell size.contains origin k).find? p with
    | some c =>
      have htest := testedUntil_append_of_some hmatch rest
      simp only [Option.isSome_some, Bool.true_or, if_true]
      constructor
      · simp [horder, List.find?_append, hbelow, hmatch]
      · rw [htested', htested, horder, testedUntil_append_of_none hbelow, htest]
    | none =>
      -- nothing is accepted up to the next shell, and that shell is what has been noted
      have hbelow' : (shellsBelow size.contains origin (k + 1)).find? p = none := by
        rw [shellsBelow_succ, List.find?_append, hbelow, hmatch]
        rfl
      have htested'' : s'.tested.reverse = shellsBelow size.contains origin (k + 1) := by
        rw [htested', htested, testedUntil_of_none hmatch, shellsBelow_succ]
      have hnext : s'.next.reverse = shell size.contains origin (k + 1) := by
        rw [(hnotes hmatch).next, List.append_nil, List.reverse_reverse, shell_succ]
      simp only [Option.isSome_none, Bool.false_or]
      split
      · rename_i hempty
        have hlast : shell size.contains origin (k + 1) = [] := by
          rw [← hnext, List.isEmpty_iff.mp hempty]
          rfl
        have hall : size.searchOrder origin = shellsBelow size.contains origin (k + 1) :=
          (shellsBelow_eq_of_shell_eq_nil hlast hclose).1
        rw [hall]
        exact ⟨hbelow'.symm, htested''.trans (testedUntil_of_none hbelow').symm⟩
      · rename_i hmore
        have hshell' : shell size.contains origin (k + 1) ≠ [] := by
          intro hlast
          apply hmore
          rw [hlast, List.reverse_eq_nil_iff] at hnext
          simp [hnext]
        obtain ⟨hclose', rest', horder'⟩ := Extent.searchOrder_eq_append hsize horigin hshell'
        rw [hnext]
        exact ih (by omega) hshell' (hnotes hmatch).seen htested'' hbelow' hclose' rest' horder'

omit horigin in
/-- The largest extent of a roomy box is far below the number of cubes there are. -/
theorem Extent.diameter_le_count : size.diameter ≤ Cube.count := by
  obtain ⟨hx, hy, hz⟩ := hsize
  have hcount : 2147483647 ≤ Cube.count := by decide
  unfold diameter
  omega

/-- **The search tests the search order** up to the first cube that is accepted. -/
theorem scan_eq (p : Cube → Bool) :
    scan size.contains p origin = .ok {
      found := (size.searchOrder origin).find? p
      tested := testedUntil p (size.searchOrder origin) } := by
  have hseen : ∀ c, (Std.HashSet.emptyWithCapacity.insert origin : Std.HashSet Cube).contains c =
      (shellsBelow size.contains origin 1).contains c := by
    intro c
    rw [Std.HashSet.contains_insert, Std.HashSet.contains_emptyWithCapacity, Bool.or_false, Bool.eq_iff_iff,
      beq_iff_eq, @eq_comm _ origin c]
    simp [shellsBelow, shell]
  have hstart := Search.shells_ends (p := p) (n := Cube.count) (k := 0)
    (s := { seen := Std.HashSet.emptyWithCapacity.insert origin, next := [], tested := [] })
    hsize horigin (Extent.diameter_le_count hsize) (by simp [shell]) hseen rfl rfl
  obtain ⟨⟨found, s⟩, hshells, hfound, htested⟩ := hstart.exists_ok
  have hshells' : Search.shells size.contains p Cube.count [origin]
      { seen := Std.HashSet.emptyWithCapacity.insert origin, next := [], tested := [] } = .ok (found, s) := hshells
  dsimp only at hfound htested
  unfold scan
  rw [if_pos horigin, hshells', ← hfound, ← htested]
  rfl

theorem nearest?_eq (p : Cube → Bool) :
    nearest? size.contains p origin = .ok ((size.searchOrder origin).find? p) := by
  unfold nearest?
  rw [scan_eq hsize horigin]
  rfl

/-! ## What is found is nearest -/

/-- **What is found matches, and nothing that matches is closer.** -/
theorem Extent.find?_searchOrder_some (h : (size.searchOrder origin).find? p = some c) :
    size.contains c = true ∧ p c = true ∧
      ∀ b, size.contains b = true → p b = true → origin.distance c ≤ origin.distance b := by
  obtain ⟨hc, before, after, horder, hbefore⟩ := List.find?_eq_some_iff_append.mp h
  refine ⟨?_, hc, fun b hb hmatch => ?_⟩
  · rw [← Extent.mem_searchOrder_iff hsize horigin, horder]
    simp
  · have hmem : b ∈ before ++ c :: after := by
      rw [← horder]
      exact (Extent.mem_searchOrder_iff hsize horigin).mpr hb
    have hsorted := Extent.pairwise_searchOrder hsize horigin
    rw [horder, List.pairwise_append, List.pairwise_cons] at hsorted
    rcases List.mem_append.mp hmem with hfirst | hlater
    · have hno := hbefore b hfirst
      simp [hmatch] at hno
    · rcases List.mem_cons.mp hlater with rfl | hafter
      · exact Nat.le_refl _
      · exact hsorted.2.1.1 b hafter

/-- **What is not found is not there.** -/
theorem Extent.find?_searchOrder_none (h : (size.searchOrder origin).find? p = none)
    (hc : size.contains c = true) : p c = false := by
  have hno := List.find?_eq_none.mp h c ((Extent.mem_searchOrder_iff hsize horigin).mpr hc)
  simpa using hno

end

/-- **The search is exact.** In a box that is no larger than coordinates reach, nothing is tested from a cube outside.
From a cube inside, shell `k` around it consists of the cubes of the box at distance `k`, and the search comes to an
end. It tests cubes in the order of the shells, none of them twice. If it finds a cube, that is the first tested that
is accepted, and none that would be accepted is closer; if it finds none, all cubes of the box were tested in vain. -/
theorem scan_exact {size : Extent} (hsize : size.Roomy) (origin : Cube) (p : Cube → Bool) :
    (size.contains origin = false →
        scan size.contains p origin = .ok { found := none, tested := [] } ∧
          nearest? size.contains p origin = .ok none) ∧
      (size.contains origin = true →
        (∀ k c, c ∈ shell size.contains origin k ↔ size.contains c = true ∧ origin.distance c = k) ∧
        ∃ found tested, scan size.contains p origin = .ok { found, tested } ∧
          nearest? size.contains p origin = .ok found ∧ found = (size.searchOrder origin).find? p ∧
          tested <+: size.searchOrder origin ∧ tested.Nodup ∧
          (∀ c, found = some c →
            (∃ before, tested = before ++ [c] ∧ ∀ b ∈ before, p b = false) ∧ p c = true ∧
              size.contains c = true ∧
              ∀ b, size.contains b = true → p b = true → origin.distance c ≤ origin.distance b) ∧
          (found = none → ∀ c, size.contains c = true → c ∈ tested ∧ p c = false)) := by
  constructor
  · intro horigin
    have hscan : scan size.contains p origin = .ok { found := none, tested := [] } := by
      unfold scan
      simp [horigin]
    refine ⟨hscan, ?_⟩
    unfold nearest?
    rw [hscan]
    rfl
  · intro horigin
    have hprefix := testedUntil_prefix (p := p) (size.searchOrder origin)
    refine ⟨fun k c => mem_shell_iff hsize horigin, _, _, scan_eq hsize horigin p, nearest?_eq hsize horigin p, rfl,
      hprefix, (nodup_shellsBelow size.diameter).sublist hprefix.sublist, ?_, ?_⟩
    · intro c hfound
      obtain ⟨hinside, hc, hleast⟩ := Extent.find?_searchOrder_some hsize horigin hfound
      exact ⟨testedUntil_of_some hfound, hc, hinside, hleast⟩
    · intro hfound c hinside
      rw [testedUntil_of_none hfound, Extent.mem_searchOrder_iff hsize horigin]
      exact ⟨hinside, Extent.find?_searchOrder_none hsize horigin hfound hinside⟩

/-- Of the cubes on two faces of a small box, which all touch the one in the middle, the search finds the one that
comes first in the order of the neighbours. -/
theorem scan_exact_middle :
    Extent.Roomy ⟨3, 3, 3⟩ ∧
      nearest? (Extent.contains ⟨3, 3, 3⟩) (fun c => c.z == 2 || c.x == 2) ⟨1, 1, 1⟩ =
        .ok (some ⟨0, 0, 2⟩) := by
  have hsize : Extent.Roomy ⟨3, 3, 3⟩ := by decide
  obtain ⟨-, hinside⟩ := scan_exact hsize ⟨1, 1, 1⟩ (fun c => c.z == 2 || c.x == 2)
  obtain ⟨-, found, tested, -, hnearest, hfound, -⟩ := hinside (by decide)
  refine ⟨hsize, ?_⟩
  rw [hnearest, hfound]
  apply congrArg Except.ok
  decide +kernel

end TaskScript
