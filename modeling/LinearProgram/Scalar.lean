/-!
# Scalars

The numbers a linear program is written in. `Scalar` lists the operations and
comparisons that solving needs and assumes no law about them, so that one
algorithm runs on `Float` and is reasoned about over `Rat`:

* `magnitude`, `near`: distances under a tolerance;
* `sum`: the left-to-right sum, which starts from negative zero;
* `standardTolerance`: the tolerance of the floating-point solver.
-/

namespace LinearProgram

/-- The arithmetic and the decidable comparisons that solving uses. -/
class Scalar (α : Type) extends Zero α, One α, Neg α, Add α, Sub α, Mul α, Div α, LT α, LE α, BEq α
    where
  decidableLT : DecidableLT α
  decidableLE : DecidableLE α

attribute [reducible, instance] Scalar.decidableLT Scalar.decidableLE

instance : Scalar Float where
  zero := 0
  one := 1
  decidableLT := inferInstance
  decidableLE := inferInstance

instance : Scalar Rat where
  zero := 0
  one := 1
  decidableLT := inferInstance
  decidableLE := inferInstance

/-- Tolerance of every comparison the floating-point solver makes. -/
def standardTolerance : Float := 1e-9

variable {α : Type} [Scalar α]

/-- Absolute value up to the sign of zero, which no comparison sees. -/
def magnitude (x : α) : α := if x < 0 then -x else x

/-- Whether two numbers differ by at most the tolerance. -/
def near (tolerance x y : α) : Bool := magnitude (x - y) ≤ tolerance

/-- Sum from left to right. It starts from negative zero, which leaves every
number as it is, so a sum of negative zeros keeps its sign. -/
def sum (xs : List α) : α := xs.foldl (· + ·) (-0)

end LinearProgram
