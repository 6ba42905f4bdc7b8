import LinearProgram.LinearForm

/-!
# Constraints

A constraint bounds a linear form from above, from below, or on both sides.
Negating it gives a constraint with the same solutions.
-/

namespace LinearProgram

/-- How the value of a form stands to its bound. -/
inductive Relation where
  | atMost
  | atLeast
  | equal
  deriving DecidableEq

namespace Relation

/-- The relation between the negated sides. -/
def flip : Relation → Relation
  | atMost => atLeast
  | atLeast => atMost
  | equal => equal

def symbol : Relation → String
  | atMost => "<="
  | atLeast => ">="
  | equal => "="

theorem flip_flip (r : Relation) : r.flip.flip = r := by cases r <;> rfl

end Relation

/-- A linear form, a relation and a bound. `index` is the position in the
model that owns the constraint, and zero before a model does. -/
structure Constraint (α : Type) where
  form : LinearForm α
  relation : Relation
  bound : α
  index : Nat := 0
  deriving BEq

namespace LinearForm

variable {α : Type}

def atMost (f : LinearForm α) (bound : α) : Constraint α := ⟨f, .atMost, bound, 0⟩

def atLeast (f : LinearForm α) (bound : α) : Constraint α := ⟨f, .atLeast, bound, 0⟩

def equals (f : LinearForm α) (bound : α) : Constraint α := ⟨f, .equal, bound, 0⟩

end LinearForm

namespace Constraint

variable {α : Type} [Scalar α]

/-- Multiplies both sides by minus one. -/
def negate (c : Constraint α) : Constraint α :=
  { c with form := -c.form, relation := c.relation.flip, bound := -c.bound }

/-- Whether an assignment satisfies the constraint within a tolerance. -/
def isSatisfied (c : Constraint α) (assignment : List α) (tolerance : α) : Bool :=
  let value := c.form.eval assignment
  match c.relation with
  | .atMost => value ≤ c.bound + tolerance
  | .atLeast => c.bound - tolerance ≤ value
  | .equal => near tolerance value c.bound

end Constraint

end LinearProgram
