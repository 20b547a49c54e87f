import TaskScript.Document.Expression
import TaskScript.Proofs.Document.Values

/-!
# `Proofs.Document.Expressions`: expressions are read back

The document of an expression is read as that expression, in whatever order the members of its objects stand.
The proofs go form by form, as the documents do: a form with content is an object of a single member, so what is to
be shown of it is that its name leads the reader to the same form, and that the content is read back.

Nothing here depends on what counts as a blank, because no document that is written holds one.

## Contents
- `readsAs` for `ActorExpr`, `PositionExpr`, `BoolExpr` and `Expr`: **expressions are read back**.
- `toJson_eq_str` for `ActorExpr` and `PositionExpr`: the expressions written as strings.
-/

namespace TaskScript

open Json

variable (blank : Json → Bool)

namespace ActorExpr

theorem readsAs : ∀ a : ActorExpr, a.toJson.ReadsAs (ofJson? blank) a
  | .this | .friend | .enemy | .any => .scalar rfl rfl
  | .variable name => .single (.scalar (P := (toString? · = some name)) rfl rfl) fun content h => by
    simp [ofJson?, h]

/-- The expressions written as strings are those without content. -/
theorem toJson_eq_str (a : ActorExpr) (name : String) : a.toJson = .str name ↔ plain? name = some a := by
  constructor
  · intro h
    cases a <;> cases h <;> rfl
  · intro h
    unfold plain? at h
    split at h <;> cases h <;> rfl

end ActorExpr

namespace PositionExpr

theorem readsAs : ∀ p : PositionExpr, p.toJson.ReadsAs (ofJson? blank) p
  | .here | .selected | .log | .boulder | .workshop => .scalar rfl rfl
  | .literal c => .single c.readsAs fun content h => by simp [ofJson?, h]
  | .nextTo centre => .single (readsAs centre) fun content h => by simp [ofJson?, h]
  | .positionOf actor => .single (actor.readsAs blank) fun content h => by simp [ofJson?, h]
  | .variable name => .single (.scalar (P := (toString? · = some name)) rfl rfl) fun content h => by
    simp [ofJson?, h]

/-- The expressions written as strings are those without content. -/
theorem toJson_eq_str (p : PositionExpr) (name : String) : p.toJson = .str name ↔ plain? name = some p := by
  constructor
  · intro h
    cases p <;> cases h <;> rfl
  · intro h
    unfold plain? at h
    split at h <;> cases h <;> rfl

end PositionExpr

theorem BoolExpr.readsAs : ∀ b : BoolExpr, b.toJson.ReadsAs (ofJson? blank) b
  | .literal b => .single (.scalar (P := (toBool? · = some b)) rfl rfl) fun content h => by simp [ofJson?, h]
  | .not inner => .single (readsAs inner) fun content h => by simp [ofJson?, h]
  | .and left right | .or left right =>
    .single (.pair (readsAs left) (readsAs right)) fun content ⟨l, r, hcontent, hl, hr⟩ => by
      simp [hcontent, ofJson?, hl, hr]
  | .isSolid position | .isPassable position =>
    .single (position.readsAs blank) fun content h => by simp [ofJson?, h]
  | .isFriend actor | .isEnemy actor | .isAlive actor | .carriesItem actor =>
    .single (actor.readsAs blank) fun content h => by simp [ofJson?, h]
  | .variable name => .single (.scalar (P := (toString? · = some name)) rfl rfl) fun content h => by
    simp [ofJson?, h]

theorem Expr.readsAs : ∀ e : Expr, e.toJson.ReadsAs (ofJson? blank) e
  | .bool expr => .single (expr.readsAs blank) fun content h => by simp [ofJson?, h]
  | .position expr => .single (expr.readsAs blank) fun content h => by simp [ofJson?, h]
  | .actor expr => .single (expr.readsAs blank) fun content h => by simp [ofJson?, h]

end TaskScript
