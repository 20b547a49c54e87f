import TaskScript.Proofs.Json.Rearranged

/-!
# `Proofs.Json.Canonical`: documents sorted by key

A table of members keeps them sorted by key. There is only one way to sort members of different keys, so the canonical
form of a proper document is one and the same for all its arrangements: two documents that differ in the order of their
members are the same once they are read into tables.

## Contents
- `InOrder`, `InOrder.eq_of_perm`, `foldl_insertMember_eq_iff`: **sorted members**.
- `Rearranged.canonical_eq`: **one canonical form for all arrangements**.
- `IsCanonical`, with `IsCanonical.obj`, `IsCanonical.single` and `IsCanonical.pair`: documents in canonical form.
-/

namespace TaskScript

namespace Json

/-! ## Sorted members -/

/-- Members sorted by key, no two of one key. -/
def InOrder (members : List (String × Json)) : Prop :=
  members.Pairwise fun m m' => m.1 < m'.1

theorem InOrder.of_keys {members : List (String × Json)} (h : (members.map Prod.fst).Pairwise (· < ·)) :
    InOrder members :=
  List.pairwise_map.mp h

/-- An insertion brings in no key but its own. -/
theorem mem_insertMember {key : String} {value : Json} {members : List (String × Json)} {m : String × Json}
    (h : m ∈ insertMember key value members) : m.1 = key ∨ m ∈ members := by
  induction members with
  | nil =>
    rw [List.mem_singleton.mp h]
    exact .inl rfl
  | cons m' rest ih =>
    rw [insertMember] at h
    split_ifs at h
    · rcases List.mem_cons.mp h with rfl | hm
      · exact .inl rfl
      · exact .inr hm
    · rcases List.mem_cons.mp h with rfl | hm
      · exact .inl rfl
      · exact .inr (List.mem_cons_of_mem m' hm)
    · rcases List.mem_cons.mp h with rfl | hm
      · exact .inr List.mem_cons_self
      · exact (ih hm).imp_right (List.mem_cons_of_mem m')

/-- Keys are compared as they are inserted, so a sorted row stays sorted; a member under the same key is replaced.
-/
theorem InOrder.insertMember {members : List (String × Json)} (h : InOrder members) (key : String) (value : Json) :
    InOrder (Json.insertMember key value members) := by
  induction members with
  | nil => exact List.pairwise_singleton _ _
  | cons m rest ih =>
    obtain ⟨hfirst, hrest⟩ := List.pairwise_cons.mp h
    rw [Json.insertMember]
    split_ifs with hlt heq
    · refine List.pairwise_cons.mpr ⟨fun m' hm' => ?_, h⟩
      rcases List.mem_cons.mp hm' with rfl | hm'
      · exact hlt
      · exact String.lt_trans hlt (hfirst m' hm')
    · subst heq
      exact List.pairwise_cons.mpr ⟨hfirst, hrest⟩
    · have hkey : m.1 < key :=
        Decidable.byContradiction fun hge => heq (String.le_antisymm (String.not_lt.mp hge) (String.not_lt.mp hlt))
      refine List.pairwise_cons.mpr ⟨fun m' hm' => ?_, ih hrest⟩
      rcases mem_insertMember hm' with hm' | hm'
      · exact hm' ▸ hkey
      · exact hfirst m' hm'

theorem InOrder.foldl_insertMember {members sorted : List (String × Json)} (h : InOrder sorted) :
    InOrder (members.foldl (fun sorted m => Json.insertMember m.1 m.2 sorted) sorted) := by
  induction members generalizing sorted with
  | nil => exact h
  | cons m rest ih => exact ih (h.insertMember m.1 m.2)

/-- There is only one way to sort members of different keys. -/
theorem InOrder.eq_of_perm {members members' : List (String × Json)} (h : InOrder members) (h' : InOrder members')
    (hperm : members.Perm members') : members = members' := by
  refine List.Perm.eq_of_pairwise ?_ h h' hperm
  intro m m' _ _ hlt hgt
  exact absurd (String.lt_trans hlt hgt) (String.lt_irrefl m.1)

/-- A strict order leaves no room for a second member under one key. -/
theorem InOrder.nodup {members : List (String × Json)} (h : InOrder members) : (members.map Prod.fst).Nodup := by
  refine List.pairwise_map.mpr (h.imp fun {m m'} hlt heq => ?_)
  rw [heq] at hlt
  exact String.lt_irrefl m'.1 hlt

/-- Members of different keys, sorted as they are by `Json.canonical`. -/
theorem foldl_insertMember_eq_iff {members sorted : List (String × Json)} (hnodup : (members.map Prod.fst).Nodup) :
    members.foldl (fun sorted m => insertMember m.1 m.2 sorted) [] = sorted ↔
      InOrder sorted ∧ members.Perm sorted := by
  have hperm : members.Perm (members.foldl (fun sorted m => insertMember m.1 m.2 sorted) []) :=
    @foldl_insertMember_perm members [] hnodup
  constructor
  · rintro rfl
    exact ⟨InOrder.foldl_insertMember .nil, hperm⟩
  · rintro ⟨hin, hperm'⟩
    exact InOrder.eq_of_perm (InOrder.foldl_insertMember .nil) hin (hperm.symm.trans hperm')

/-! ## Canonical forms -/

/-- The members of a canonical object are those of the original in their order, each in canonical form. They are
sorted in a second pass. -/
theorem canonicalMembers_eq_map (members : List (String × Json)) :
    canonicalMembers members = members.map fun m => (m.1, m.2.canonical) := by
  induction members with
  | nil => rfl
  | cons m rest ih => rw [canonicalMembers, ih, List.map_cons]

mutual

/-- **A document has one canonical form**, whatever its arrangement. -/
theorem Rearranged.canonical_eq {d j : Json} : Rearranged d j → d.IsProper → j.canonical = d.canonical
  | .scalar _, _ => rfl
  | .arr hitems, h => by rw [Json.canonical, Json.canonical, hitems.canonicalItems_eq h]
  | @Rearranged.obj members members' shuffled hmembers hperm, h => by
    have hshuffled : (canonicalMembers members).Perm (canonicalMembers shuffled) := by
      rw [← hmembers.canonicalMembers_eq h.2, canonicalMembers_eq_map, canonicalMembers_eq_map]
      exact hperm.map _
    have hnodup : ((canonicalMembers members).map Prod.fst).Nodup := by
      rw [canonicalMembers_eq_map, List.map_map]
      exact h.1
    obtain ⟨hin, hsorted⟩ := (foldl_insertMember_eq_iff hnodup).mp rfl
    have hnodup' := (hshuffled.map Prod.fst).nodup_iff.mp hnodup
    rw [Json.canonical, Json.canonical]
    exact congrArg Json.obj ((foldl_insertMember_eq_iff hnodup').mpr ⟨hin, hshuffled.symm.trans hsorted⟩)

/-- The items of an array keep their places, and may be rearranged inside. -/
theorem RearrangedItems.canonicalItems_eq {items items' : List Json} :
    RearrangedItems items items' → AreProper items → canonicalItems items' = canonicalItems items
  | .nil, _ => rfl
  | .cons hitem hrest, h => by
    rw [canonicalItems, canonicalItems, hitem.canonical_eq h.1, hrest.canonicalItems_eq h.2]

theorem RearrangedMembers.canonicalMembers_eq {members members' : List (String × Json)} :
    RearrangedMembers members members' → AreMembersProper members →
      canonicalMembers members' = canonicalMembers members
  | .nil, _ => rfl
  | .cons hvalue hrest, h => by
    rw [canonicalMembers, canonicalMembers, hvalue.canonical_eq h.1, hrest.canonicalMembers_eq h.2]

end

/-- A document in canonical form. -/
structure IsCanonical (d : Json) : Prop where
  proper : d.IsProper
  canonical : d.canonical = d

theorem isCanonical_of_isScalar {d : Json} (hd : d.isScalar = true) : d.IsCanonical where
  proper := isProper_of_isScalar hd
  canonical := by
    cases d with
    | null | bool | int | float | str => rfl
    | arr | obj | unreadable => cases hd

theorem areMembersProper_iff {members : List (String × Json)} :
    AreMembersProper members ↔ ∀ m ∈ members, m.2.IsProper := by
  induction members with
  | nil => simp [AreMembersProper]
  | cons m rest ih => simp [AreMembersProper, ih]

/-- An object is in canonical form if its members are sorted and each is in canonical form. -/
theorem IsCanonical.obj {members : List (String × Json)} (hin : InOrder members)
    (h : ∀ m ∈ members, m.2.IsCanonical) : (Json.obj members).IsCanonical where
  proper := ⟨hin.nodup, areMembersProper_iff.mpr fun m hm => (h m hm).proper⟩
  canonical := by
    have hmembers : canonicalMembers members = members := by
      rw [canonicalMembers_eq_map]
      refine (List.map_congr_left fun m hm => ?_).trans (List.map_id members)
      exact Prod.ext rfl (h m hm).canonical
    rw [Json.canonical, hmembers]
    exact congrArg Json.obj ((foldl_insertMember_eq_iff hin.nodup).mpr ⟨hin, .refl members⟩)

/-- The documents that a foreman writes have one member or two, which is where canonical forms are asked for. -/
theorem IsCanonical.single {d : Json} (h : d.IsCanonical) (name : String) : (Json.obj [(name, d)]).IsCanonical :=
  .obj (List.pairwise_singleton _ _) (List.forall_mem_singleton.mpr h)

theorem IsCanonical.pair {left right : Json} {name name' : String} (hl : left.IsCanonical) (hr : right.IsCanonical)
    (hlt : name < name') : (Json.obj [(name, left), (name', right)]).IsCanonical :=
  .obj (List.pairwise_pair.mpr hlt) (List.forall_mem_cons.mpr ⟨hl, List.forall_mem_singleton.mpr hr⟩)

end Json

end TaskScript
