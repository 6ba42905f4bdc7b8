import LinearProgram.LinearForm

/-!
# Objectives

A linear form together with the sense in which it is optimised.
-/

namespace LinearProgram

inductive Sense where
  | minimize
  | maximize
  deriving DecidableEq

namespace Sense

def flip : Sense → Sense
  | minimize => maximize
  | maximize => minimize

def symbol : Sense → String
  | minimize => "min"
  | maximize => "max"

end Sense

structure Objective (α : Type) where
  form : LinearForm α
  sense : Sense
  deriving BEq

namespace Objective

variable {α : Type} [Scalar α]

/-- Minimising a form is maximising its negation; the best points stay the same. -/
def negate (o : Objective α) : Objective α := ⟨-o.form, o.sense.flip⟩

def eval (o : Objective α) (assignment : List α) : α := o.form.eval assignment

end Objective

end LinearProgram
