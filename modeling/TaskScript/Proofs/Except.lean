/-!
# `Proofs.Except`: computations that can fail

The program reports failures by `Except`. Here is how such a computation is taken apart: into its first part and
the rest, and, for a fold, into its steps.

Two kinds of facts are proved about them: what holds if a computation does not fail, and in which ways it can end at
all (`EndsIn`). The second kind is what says that something cannot fail.

## Contents
- `bind_eq_ok`: both parts of a computation that does not fail.
- `EndsIn`, `EndsIn.bind`, `Succeeds`: **how a computation ends**.
- `endsIn_foldlM`, `foldlM_keeps`: what every step keeps, a fold does.
- `exists_mapM`, `mem_iff_of_mapM`, `pairwise_of_mapM`, `foldlM_of_mapM`: **lists of results**.
-/

namespace TaskScript

variable {ε ε' α β σ : Type}

/-- A computation in two parts that does not fail gets through both. -/
theorem bind_eq_ok {x : Except ε α} {next : α → Except ε β} {result : β}
    (h : (x >>= next) = .ok result) : ∃ a, x = .ok a ∧ next a = .ok result := by
  cases x with
  | error _ => cases h
  | ok a => exact ⟨a, rfl, h⟩

/-- To put an error in other words makes no success of it. -/
theorem eq_ok_of_mapError {x : Except ε α} {f : ε → ε'} {a : α} (h : x.mapError f = .ok a) : x = .ok a := by
  cases x with
  | error _ => cases h
  | ok _ =>
    cases h
    rfl

theorem exists_ok_of_isOk {x : Except ε α} (h : x.isOk = true) : ∃ a, x = .ok a := by
  cases x with
  | error _ => cases h
  | ok a => exact ⟨a, rfl⟩

/-! ## How a computation ends -/

/-- **How a computation ends**: with a value of one property, or with an error of another. -/
def EndsIn (E : ε → Prop) (P : α → Prop) : Except ε α → Prop
  | .ok a => P a
  | .error e => E e

/-- A computation that does not fail, and whose value has a property. -/
abbrev Succeeds (P : α → Prop) (x : Except ε α) : Prop :=
  EndsIn (fun _ => False) P x

section

variable {E : ε → Prop} {P : α → Prop} {Q : β → Prop} {x : Except ε α}

theorem EndsIn.of_ok {a : α} (h : EndsIn E P x) (hx : x = .ok a) : P a := by
  rwa [hx] at h

theorem EndsIn.of_error {e : ε} (h : EndsIn E P x) (hx : x = .error e) : E e := by
  rwa [hx] at h

theorem EndsIn.bind {next : α → Except ε β} (h : EndsIn E P x) (hnext : ∀ a, P a → EndsIn E Q (next a)) :
    EndsIn E Q (x >>= next) := by
  cases x with
  | error e => exact h
  | ok a => exact hnext a h

theorem EndsIn.mono {P' : α → Prop} (h : EndsIn E P x) (himp : ∀ a, P a → P' a) : EndsIn E P' x := by
  cases x with
  | error e => exact h
  | ok a => exact himp a h

theorem Succeeds.exists_ok (h : Succeeds P x) : ∃ a, x = .ok a ∧ P a := by
  cases x with
  | error e => cases h
  | ok a => exact ⟨a, rfl, h⟩

/-- What cannot fail cannot fail in other words. -/
theorem Succeeds.mapError {E' : ε' → Prop} (h : Succeeds P x) (f : ε → ε') : EndsIn E' P (x.mapError f) := by
  cases x with
  | error e => cases h
  | ok a => exact h

end

/-! ## Folds -/

/-- **What every step keeps, a row of steps does**, and it ends as its steps do. -/
theorem endsIn_foldlM {E : ε → Prop} {P : σ → Prop} {step : σ → α → Except ε σ} {xs : List α}
    (hstep : ∀ s x, x ∈ xs → P s → EndsIn E P (step s x)) {s : σ} (hs : P s) :
    EndsIn E P (xs.foldlM step s) := by
  induction xs generalizing s with
  | nil => exact hs
  | cons x rest ih =>
    rw [List.foldlM_cons]
    have hfirst := hstep s x List.mem_cons_self hs
    exact hfirst.bind fun s₁ hs₁ => ih (fun s x hx => hstep s x (List.mem_cons_of_mem _ hx)) hs₁

/-- What every step keeps, a row of steps does that does not fail. -/
theorem foldlM_keeps {P : σ → Prop} {step : σ → α → Except ε σ} {xs : List α}
    (hstep : ∀ s x s', x ∈ xs → P s → step s x = .ok s' → P s') {s s' : σ} (hs : P s)
    (h : xs.foldlM step s = .ok s') : P s' := by
  have hends : EndsIn (fun _ => True) P (xs.foldlM step s) := by
    refine endsIn_foldlM (fun s₁ x hx hs₁ => ?_) hs
    cases hresult : step s₁ x with
    | error _ => trivial
    | ok s₂ => exact hstep s₁ x s₂ hx hs₁ hresult
  exact hends.of_ok h

/-! ## Lists of results -/

section

variable {f : α → Except ε β} {xs : List α} {ys : List β}

theorem exists_mapM (h : ∀ x ∈ xs, ∃ y, f x = .ok y) : ∃ ys, xs.mapM f = .ok ys := by
  induction xs with
  | nil => exact ⟨[], rfl⟩
  | cons x rest ih =>
    obtain ⟨y, hy⟩ := h x List.mem_cons_self
    obtain ⟨ys, hys⟩ := ih fun x hx => h x (List.mem_cons_of_mem _ hx)
    refine ⟨y :: ys, ?_⟩
    rw [List.mapM_cons, hy, hys]
    rfl

theorem mapM_cons_eq_ok {x : α} (h : (x :: xs).mapM f = .ok ys) :
    ∃ y rest, f x = .ok y ∧ xs.mapM f = .ok rest ∧ ys = y :: rest := by
  rw [List.mapM_cons] at h
  obtain ⟨y, hy, h⟩ := bind_eq_ok h
  obtain ⟨rest, hrest, h⟩ := bind_eq_ok h
  cases h
  exact ⟨y, rest, hy, hrest, rfl⟩

/-- The list of the results holds the results, and nothing else. -/
theorem mem_iff_of_mapM (h : xs.mapM f = .ok ys) (y : β) : y ∈ ys ↔ ∃ x ∈ xs, f x = .ok y := by
  induction xs generalizing ys with
  | nil =>
    cases h
    simp
  | cons x rest ih =>
    obtain ⟨z, zs, hz, hzs, rfl⟩ := mapM_cons_eq_ok h
    simp only [List.mem_cons, exists_eq_or_imp, ih hzs, hz, Except.ok.injEq, @eq_comm _ z y]

/-- Results come in the order of what they were computed from. -/
theorem pairwise_of_mapM {R : α → α → Prop} {S : β → β → Prop} (h : xs.mapM f = .ok ys) (hxs : xs.Pairwise R)
    (hf : ∀ x x' y y', R x x' → f x = .ok y → f x' = .ok y' → S y y') : ys.Pairwise S := by
  induction xs generalizing ys with
  | nil =>
    cases h
    exact .nil
  | cons x rest ih =>
    obtain ⟨z, zs, hz, hzs, rfl⟩ := mapM_cons_eq_ok h
    obtain ⟨hfirst, hrest⟩ := List.pairwise_cons.mp hxs
    refine List.pairwise_cons.mpr ⟨fun y hy => ?_, ih hzs hrest⟩
    obtain ⟨x', hx', hy⟩ := (mem_iff_of_mapM hzs y).mp hy
    exact hf x x' z y (hfirst x' hx') hz hy

/-- A fold that computes what it needs as it goes along is a fold over the list of the results. -/
theorem foldlM_of_mapM (h : xs.mapM f = .ok ys) (step : σ → β → σ) (s : σ) :
    xs.foldlM (fun s x => return step s (← f x)) s = .ok (ys.foldl step s) := by
  induction xs generalizing ys s with
  | nil =>
    cases h
    rfl
  | cons x rest ih =>
    obtain ⟨z, zs, hz, hzs, rfl⟩ := mapM_cons_eq_ok h
    rw [List.foldlM_cons, hz]
    exact ih hzs (step s z)

end

end TaskScript
