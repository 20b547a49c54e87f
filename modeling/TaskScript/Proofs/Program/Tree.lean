import TaskScript.Program.Formation

/-!
# `Proofs.Program.Tree`: chains of parents

A statement is added to an arena after its children, so a parent has a larger name than its child. Chains
of parents climb, and hence end before the fuel of `Program.ancestors` does: `ancestors_of_parent?` is the
recursion that `ancestors` stands for, without the fuel.
-/

namespace TaskScript.Program

variable {p : Program}

/-- Parents come after their children in the arena. -/
def ParentsAhead (p : Program) : Prop :=
  ∀ i parent : Nat, p.parent? i = some parent → i < parent ∧ parent < p.size

theorem chain_none (n : Nat) : p.chain n none = [] := by
  cases n <;> rfl

/-- Fuel for the part of the arena ahead of a statement is enough to list all its ancestors. -/
theorem chain_eq_of_le (h : p.ParentsAhead) (n m i : Nat) (hn : p.size - i ≤ n) (hm : p.size - i ≤ m) :
    p.chain n (p.parent? i) = p.chain m (p.parent? i) := by
  induction n generalizing m i with
  | zero =>
    cases hp : p.parent? i with
    | none => rw [chain_none, chain_none]
    | some parent =>
      have := h i parent hp
      omega
  | succ n ih =>
    cases hp : p.parent? i with
    | none => rw [chain_none, chain_none]
    | some parent =>
      obtain ⟨hlt, hsize⟩ := h i parent hp
      obtain ⟨m, rfl⟩ : ∃ k, m = k + 1 := ⟨m - 1, by omega⟩
      rw [chain, chain, ih m parent (by omega) (by omega)]

/-- A statement without a parent has no ancestors. -/
theorem ancestors_of_parent?_eq_none {i : StatementId} (hi : p.parent? i = none) : p.ancestors i = [] := by
  rw [ancestors, hi, chain_none]

/-- **The ancestors of a statement** are its parent and the ancestors of that. -/
theorem ancestors_of_parent? (h : p.ParentsAhead) {i parent : Nat}
    (hi : p.parent? i = some parent) : p.ancestors i = parent :: p.ancestors parent := by
  obtain ⟨hlt, hsize⟩ := h i parent hi
  obtain ⟨n, hn⟩ : ∃ n, p.size = n + 1 := ⟨p.size - 1, by omega⟩
  rw [ancestors, ancestors, hi, hn, chain, chain_eq_of_le h n (n + 1) parent (by omega) (by omega)]

end TaskScript.Program
