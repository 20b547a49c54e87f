import Std.Data.ExtTreeSet

/-!
# Identifiers

Actors, groups and tasks are named by 64-bit numbers.  Each kind has a type of its own, ordered by
its number, so that an actor is never taken for a group.

## Contents
- `ActorId`, `GroupId`, `TaskId` with their lawful orders and the way they are written.
- `successor`: the next number, which stays at the largest one.
-/

namespace TaskScript

open Std

/-- The number after `n`.  The largest number is its own successor. -/
def successor (n : UInt64) : UInt64 :=
  if n = 18446744073709551615 then n else n + 1

/-- The name of an actor. -/
structure ActorId where
  val : UInt64
deriving DecidableEq, Hashable, Repr, Inhabited

namespace ActorId

instance : Ord ActorId := ⟨compareOn ActorId.val⟩

instance : TransOrd ActorId := inferInstanceAs (TransCmp (compareOn ActorId.val))

instance : LawfulEqOrd ActorId where
  eq_of_compare {a b} h := by
    have key : compare a.val b.val = .eq := h
    cases a
    cases b
    simp_all

instance : ToString ActorId where
  toString a := s!"actor:{a.val}"

end ActorId

/-- The name of a group of actors. -/
structure GroupId where
  val : UInt64
deriving DecidableEq, Hashable, Repr, Inhabited

namespace GroupId

instance : Ord GroupId := ⟨compareOn GroupId.val⟩

instance : TransOrd GroupId := inferInstanceAs (TransCmp (compareOn GroupId.val))

instance : LawfulEqOrd GroupId where
  eq_of_compare {a b} h := by
    have key : compare a.val b.val = .eq := h
    cases a
    cases b
    simp_all

instance : ToString GroupId where
  toString g := s!"group:{g.val}"

end GroupId

/-- The name of a task. -/
structure TaskId where
  val : UInt64
deriving DecidableEq, Hashable, Repr, Inhabited

namespace TaskId

instance : Ord TaskId := ⟨compareOn TaskId.val⟩

instance : TransOrd TaskId := inferInstanceAs (TransCmp (compareOn TaskId.val))

instance : LawfulEqOrd TaskId where
  eq_of_compare {a b} h := by
    have key : compare a.val b.val = .eq := h
    cases a
    cases b
    simp_all

instance : ToString TaskId where
  toString t := s!"task:{t.val}"

end TaskId

end TaskScript
