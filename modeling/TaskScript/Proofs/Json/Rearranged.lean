import Mathlib.Data.List.Forall2
import Mathlib.Tactic.SplitIfs
import TaskScript.Json.Basic

/-!
# `Proofs.Json.Rearranged`: documents in another order

The members of an object may come in any order: a text keeps the order in which a document was written, a table
of members sorts them by key. A reader of records does not mind (`record?_perm`), and what a reader does not mind
anywhere in a document is said by `Always`: whatever the order of the members, of the objects inside too, the
document has a property.

To sort the members by key loses nothing as long as no object has two members of one key (`IsProper`).

## Contents
- `IsProper`, `Rearranged`: **proper documents and their arrangements**.
- `Rearranged.isReadable`, `IsProper.rearranged_self`, `IsProper.rearranged_canonical`.
- `record?_perm`: the order of the members is nothing to a record.
- `Always`, `ReadsAs`, with `Always.scalar`, `Always.obj`, `Always.record`, `Always.single`, `Always.pair` and
  `Always.list`: **what holds of a document in every arrangement**, form by form.
-/

namespace TaskScript

namespace Json

/-! ## Proper documents -/

mutual

/-- A document is proper if every part of it has a value and no object in it has two members of one key. -/
def IsProper : Json → Prop
  | .unreadable => False
  | .arr items => AreProper items
  | .obj members => (members.map Prod.fst).Nodup ∧ AreMembersProper members
  | .null | .bool _ | .int _ | .float _ | .str _ => True

/-- Every item is proper. -/
def AreProper : List Json → Prop
  | [] => True
  | item :: rest => item.IsProper ∧ AreProper rest

/-- The value of every member is proper. -/
def AreMembersProper : List (String × Json) → Prop
  | [] => True
  | (_, value) :: rest => value.IsProper ∧ AreMembersProper rest

end

/-- A document without parts. -/
def isScalar : Json → Bool
  | .null | .bool _ | .int _ | .float _ | .str _ => true
  | .arr _ | .obj _ | .unreadable => false

theorem isProper_of_isScalar {d : Json} (hd : d.isScalar = true) : d.IsProper := by
  cases d with
  | null | bool | int | float | str => trivial
  | arr | obj | unreadable => cases hd

theorem isReadable_of_isScalar {d : Json} (hd : d.isScalar = true) : d.isReadable = true := by
  cases d with
  | null | bool | int | float | str => rfl
  | arr | obj | unreadable => cases hd

/-! ## Arrangements -/

mutual

/-- **Another arrangement of a document**: the members of its objects in another order. -/
inductive Rearranged : Json → Json → Prop
  | scalar {d : Json} : d.isScalar = true → Rearranged d d
  | arr {items items' : List Json} :
      RearrangedItems items items' → Rearranged (.arr items) (.arr items')
  | obj {members members' shuffled : List (String × Json)} :
      RearrangedMembers members members' → members'.Perm shuffled →
      Rearranged (.obj members) (.obj shuffled)

/-- The items of an array, each in another arrangement, in their order. -/
inductive RearrangedItems : List Json → List Json → Prop
  | nil : RearrangedItems [] []
  | cons {item item' : Json} {rest rest' : List Json} :
      Rearranged item item' → RearrangedItems rest rest' →
      RearrangedItems (item :: rest) (item' :: rest')

/-- The members of an object, the value of each in another arrangement, still in their order. -/
inductive RearrangedMembers : List (String × Json) → List (String × Json) → Prop
  | nil : RearrangedMembers [] []
  | cons {name : String} {value value' : Json} {rest rest' : List (String × Json)} :
      Rearranged value value' → RearrangedMembers rest rest' →
      RearrangedMembers ((name, value) :: rest) ((name, value') :: rest')

end

theorem Rearranged.eq_of_isScalar {d j : Json} (h : Rearranged d j) (hd : d.isScalar = true) : j = d := by
  cases h with
  | scalar => rfl
  | arr | obj => cases hd

/-- Only `null` is arranged as `null`. -/
theorem Rearranged.eq_null {d : Json} (h : Rearranged d .null) : d = .null := by
  cases h with
  | scalar => rfl

/-- An arrangement of an array is an array. -/
theorem Rearranged.exists_items {items : List Json} {j : Json} (h : Rearranged (.arr items) j) :
    ∃ items', j = .arr items' ∧ RearrangedItems items items' := by
  cases h with
  | scalar hd => cases hd
  | arr hitems => exact ⟨_, rfl, hitems⟩

theorem RearrangedMembers.keys {members members' : List (String × Json)}
    (h : RearrangedMembers members members') : members'.map Prod.fst = members.map Prod.fst := by
  induction members generalizing members' with
  | nil =>
    cases h
    rfl
  | cons m rest ih =>
    cases h with
    | cons _ hrest => rw [List.map_cons, List.map_cons, ih hrest]

/-! ### An arrangement is readable -/

theorem areMembersReadable_iff {members : List (String × Json)} :
    areMembersReadable members = true ↔ ∀ m ∈ members, m.2.isReadable = true := by
  induction members with
  | nil => simp [areMembersReadable]
  | cons m rest ih => simp [areMembersReadable, ih]

mutual

theorem Rearranged.isReadable {d j : Json} : Rearranged d j → j.isReadable = true
  | .scalar hd => isReadable_of_isScalar hd
  | .arr hitems => hitems.areReadable
  | .obj hmembers hperm => by
    rw [Json.isReadable, areMembersReadable_iff]
    intro m hm
    exact areMembersReadable_iff.mp hmembers.areMembersReadable m (hperm.mem_iff.mpr hm)

theorem RearrangedItems.areReadable {items items' : List Json} :
    RearrangedItems items items' → areReadable items' = true
  | .nil => rfl
  | .cons hitem hrest => by
    rw [Json.areReadable, hitem.isReadable, hrest.areReadable]
    rfl

theorem RearrangedMembers.areMembersReadable {members members' : List (String × Json)} :
    RearrangedMembers members members' → areMembersReadable members' = true
  | .nil => rfl
  | .cons hvalue hrest => by
    rw [Json.areMembersReadable, hvalue.isReadable, hrest.areMembersReadable]
    rfl

end

/-! ### The arrangements of a proper document -/

mutual

/-- The order in which a document is written is one of its arrangements. -/
theorem IsProper.rearranged_self : ∀ {d : Json}, d.IsProper → Rearranged d d
  | .null, _ | .bool _, _ | .int _, _ | .float _, _ | .str _, _ => .scalar rfl
  | .arr _, h => .arr (AreProper.rearranged_self h)
  | .obj _, h => .obj (AreMembersProper.rearranged_self h.2) (.refl _)
  | .unreadable, h => False.elim h

theorem AreProper.rearranged_self : ∀ {items : List Json}, AreProper items → RearrangedItems items items
  | [], _ => .nil
  | _ :: _, h => .cons (IsProper.rearranged_self h.1) (AreProper.rearranged_self h.2)

theorem AreMembersProper.rearranged_self :
    ∀ {members : List (String × Json)}, AreMembersProper members → RearrangedMembers members members
  | [], _ => .nil
  | _ :: _, h => .cons (IsProper.rearranged_self h.1) (AreMembersProper.rearranged_self h.2)

end

/-- So is the order in which the members of the whole document are shuffled. -/
theorem IsProper.rearranged_of_perm {members shuffled : List (String × Json)} (h : (obj members).IsProper)
    (hperm : members.Perm shuffled) : Rearranged (.obj members) (.obj shuffled) :=
  .obj (AreMembersProper.rearranged_self h.2) hperm

theorem insertMember_perm {key : String} {value : Json} {members : List (String × Json)}
    (h : key ∉ members.map Prod.fst) : (insertMember key value members).Perm ((key, value) :: members) := by
  induction members with
  | nil => exact .refl _
  | cons m rest ih =>
    obtain ⟨hne, hrest⟩ := not_or.mp (List.mem_cons.not.mp h)
    rw [insertMember]
    split_ifs
    · exact .refl _
    · exact ((ih hrest).cons m).trans (.swap _ _ _)

/-- Members of different keys are sorted without loss. -/
theorem foldl_insertMember_perm {members sorted : List (String × Json)}
    (h : ((sorted ++ members).map Prod.fst).Nodup) :
    (sorted ++ members).Perm (members.foldl (fun sorted m => insertMember m.1 m.2 sorted) sorted) := by
  induction members generalizing sorted with
  | nil =>
    rw [List.append_nil]
    exact .refl _
  | cons m rest ih =>
    have hfresh : m.1 ∉ sorted.map Prod.fst := by
      intro hm
      rw [List.map_append, List.nodup_append] at h
      exact h.2.2 m.1 hm m.1 List.mem_cons_self rfl
    have hperm : (sorted ++ m :: rest).Perm (insertMember m.1 m.2 sorted ++ rest) :=
      List.perm_middle.trans ((insertMember_perm hfresh).symm.append_right rest)
    exact hperm.trans (ih ((hperm.map Prod.fst).nodup_iff.mp h))

mutual

/-- To sort the members by key is to put a document in another order. -/
theorem IsProper.rearranged_canonical : ∀ {d : Json}, d.IsProper → Rearranged d d.canonical
  | .null, _ | .bool _, _ | .int _, _ | .float _, _ | .str _, _ => .scalar rfl
  | .arr _, h => .arr (AreProper.rearranged_canonical h)
  | .obj members, h => by
    have hmembers := AreMembersProper.rearranged_canonical h.2
    have hnodup : (([] ++ canonicalMembers members).map Prod.fst).Nodup := by
      rw [List.nil_append, hmembers.keys]
      exact h.1
    exact .obj hmembers (foldl_insertMember_perm hnodup)
  | .unreadable, h => False.elim h

theorem AreProper.rearranged_canonical :
    ∀ {items : List Json}, AreProper items → RearrangedItems items (canonicalItems items)
  | [], _ => .nil
  | _ :: _, h => .cons (IsProper.rearranged_canonical h.1) (AreProper.rearranged_canonical h.2)

theorem AreMembersProper.rearranged_canonical :
    ∀ {members : List (String × Json)},
      AreMembersProper members → RearrangedMembers members (canonicalMembers members)
  | [], _ => .nil
  | _ :: _, h => .cons (IsProper.rearranged_canonical h.1) (AreMembersProper.rearranged_canonical h.2)

end

/-! ## Records -/

@[simp]
theorem record?_nil (members : List (String × Json)) : record? [] (.obj members) = some [] := rfl

@[simp]
theorem record?_cons (field : Field) (fields : List Field) (members : List (String × Json)) :
    record? (field :: fields) (.obj members) =
      (field.lookup? members).bind fun value => (record? fields (.obj members)).map (value :: ·) := by
  rw [record?, List.mapM_cons]
  cases field.lookup? members with
  | none => rfl
  | some value => cases h : fields.mapM (·.lookup? members) <;> simp [record?, h]

/-- The order of the members is nothing to a field: no member of its name, one, or several. -/
theorem lookup?_perm {members members' : List (String × Json)} (h : members.Perm members') (field : Field) :
    field.lookup? members = field.lookup? members' := by
  -- all that is looked at are the members of the name, and of one member there is one order
  have hfilter := h.filter (·.1 == field.name)
  simp only [Field.lookup?]
  generalize members.filter (·.1 == field.name) = found at hfilter
  generalize members'.filter (·.1 == field.name) = found' at hfilter
  match found, found' with
  | [], found' => rw [List.nil_perm.mp hfilter]
  | [m], found' => rw [List.singleton_perm.mp hfilter]
  | _ :: _ :: _, [] | _ :: _ :: _, [_] => cases hfilter.length_eq
  | _ :: _ :: _, _ :: _ :: _ => rfl

theorem record?_perm {members members' : List (String × Json)} (h : members.Perm members')
    (fields : List Field) : record? fields (.obj members) = record? fields (.obj members') := by
  simp only [record?, lookup?_perm h]

/-! ## What holds in every arrangement -/

/-- **What holds of a document in every arrangement.** The document is proper, so its own order and the order
of the keys are among the arrangements. -/
structure Always (d : Json) (P : Json → Prop) : Prop where
  proper : d.IsProper
  holds : ∀ j, Rearranged d j → P j

/-- **A document is read as a value**, whatever its arrangement. -/
abbrev ReadsAs {α : Type} (d : Json) (read : Json → Option α) (a : α) : Prop :=
  d.Always fun j => read j = some a

/-- What holds of the members of an object when their values are in any arrangement. -/
structure MembersAlways (members : List (String × Json)) (P : List (String × Json) → Prop) : Prop where
  proper : AreMembersProper members
  holds : ∀ members', RearrangedMembers members members' → P members'

section

variable {d left right : Json} {members : List (String × Json)} {name : String} {P Q R : Json → Prop}
  {M : List (String × Json) → Prop}

theorem Always.self (h : d.Always P) : P d :=
  h.holds d h.proper.rearranged_self

theorem Always.canonical (h : d.Always P) : P d.canonical :=
  h.holds d.canonical h.proper.rearranged_canonical

theorem Always.mono (h : d.Always P) (himp : ∀ j, P j → Q j) : d.Always Q where
  proper := h.proper
  holds j hj := himp j (h.holds j hj)

theorem Always.readable (h : d.Always P) : d.Always fun j => P j ∧ j.isReadable = true where
  proper := h.proper
  holds j hj := ⟨h.holds j hj, hj.isReadable⟩

/-- A scalar has one arrangement. -/
theorem Always.scalar (hd : d.isScalar = true) (h : P d) : d.Always P where
  proper := isProper_of_isScalar hd
  holds j hj := by
    rw [hj.eq_of_isScalar hd]
    exact h

theorem MembersAlways.nil : MembersAlways [] (· = []) where
  proper := trivial
  holds members' hmembers := by
    cases hmembers
    rfl

theorem MembersAlways.cons (hd : d.Always P) (h : MembersAlways members M) :
    MembersAlways ((name, d) :: members) fun members' =>
      ∃ value rest, members' = (name, value) :: rest ∧ P value ∧ M rest where
  proper := ⟨hd.proper, h.proper⟩
  holds members' hmembers := by
    cases hmembers with
    | cons hvalue hrest => exact ⟨_, _, rfl, hd.holds _ hvalue, h.holds _ hrest⟩

/-- An object, its members in another order. -/
theorem Always.obj (hnodup : (members.map Prod.fst).Nodup) (h : MembersAlways members M)
    (himp : ∀ members' shuffled, members'.map Prod.fst = members.map Prod.fst → M members' →
      members'.Perm shuffled → P (.obj shuffled)) :
    (Json.obj members).Always P where
  proper := ⟨hnodup, h.proper⟩
  holds j hj := by
    cases hj with
    | scalar hd => cases hd
    | obj hmembers hperm => exact himp _ _ hmembers.keys (h.holds _ hmembers) hperm

/-- An object that is looked at as a record. -/
theorem Always.record (hnodup : (members.map Prod.fst).Nodup) (h : MembersAlways members M) :
    (Json.obj members).Always fun j =>
      ∃ members', M members' ∧ ∀ fields, record? fields j = record? fields (.obj members') :=
  .obj hnodup h fun members' _ _ hmembers hperm =>
    ⟨members', hmembers, fun fields => (record?_perm hperm fields).symm⟩

/-- An object of a single member has no other order. -/
theorem Always.single (hd : d.Always P) (himp : ∀ content, P content → Q (.obj [(name, content)])) :
    (Json.obj [(name, d)]).Always Q :=
  .obj (List.pairwise_singleton _ name) (.cons hd .nil) fun members' shuffled _ hmembers hperm => by
    obtain ⟨content, _, rfl, hcontent, rfl⟩ := hmembers
    rw [← List.singleton_perm.mp hperm]
    exact himp content hcontent

/-- An array of two. -/
theorem Always.pair (hl : left.Always P) (hr : right.Always Q) :
    (Json.arr [left, right]).Always fun j => ∃ left' right', j = .arr [left', right'] ∧ P left' ∧ Q right' where
  proper := ⟨hl.proper, hr.proper, trivial⟩
  holds j hj := by
    obtain ⟨items, rfl, hitems⟩ := hj.exists_items
    cases hitems with
    | cons hleft htail =>
      cases htail with
      | cons hright hnil =>
        cases hnil
        exact ⟨_, _, rfl, hl.holds _ hleft, hr.holds _ hright⟩

end

/-! ### Lists and missing values -/

section

variable {α : Type} {write : α → Json} {read : Json → Option α} {P : α → Json → Prop} {as : List α}

theorem areProper_map (h : ∀ a ∈ as, (write a).IsProper) : AreProper (as.map write) := by
  induction as with
  | nil => trivial
  | cons a rest ih => exact ⟨h a List.mem_cons_self, ih fun b hb => h b (List.mem_cons_of_mem a hb)⟩

theorem RearrangedItems.forall₂ {items : List Json} (h : ∀ a ∈ as, (write a).Always (P a))
    (hitems : RearrangedItems (as.map write) items) : List.Forall₂ P as items := by
  induction as generalizing items with
  | nil =>
    cases hitems
    exact .nil
  | cons a rest ih =>
    cases hitems with
    | cons hitem hrest =>
      exact .cons ((h a List.mem_cons_self).holds _ hitem)
        (ih (fun b hb => h b (List.mem_cons_of_mem a hb)) hrest)

/-- An array of documents of one kind. -/
theorem Always.list (h : ∀ a ∈ as, (write a).Always (P a)) :
    (Json.arr (as.map write)).Always fun j => ∃ items, j = .arr items ∧ List.Forall₂ P as items where
  proper := areProper_map fun a ha => (h a ha).proper
  holds j hj := by
    obtain ⟨items, rfl, hitems⟩ := hj.exists_items
    exact ⟨items, rfl, hitems.forall₂ h⟩

theorem toList?_eq {items : List Json}
    (h : List.Forall₂ (fun a item => read item = some a) as items) : toList? read (.arr items) = some as := by
  rw [toList?]
  induction h with
  | nil => rfl
  | cons hitem _ ih =>
    rw [List.mapM_cons, hitem, ih]
    rfl

theorem ReadsAs.list (h : ∀ a ∈ as, (write a).ReadsAs read a) :
    (Json.arr (as.map write)).ReadsAs (toList? read) as :=
  (Always.list h).mono fun j ⟨items, hj, hitems⟩ => by
    rw [hj]
    exact toList?_eq hitems

/-- What is not read off `null` is there. -/
theorem toOption?_eq {j : Json} {a : α} (hnull : read .null = none) (h : read j = some a) :
    toOption? read j = some (some a) := by
  cases j with
  | null =>
    rw [hnull] at h
    cases h
  | _ => exact congrArg (Option.map some) h

/-- A document that is there is read, unless it is `null`. -/
theorem toOption?_of_ne_null {j : Json} (h : j ≠ .null) : toOption? read j = (read j).map some := by
  cases j with
  | null => exact absurd rfl h
  | _ => rfl

end

end Json

end TaskScript
